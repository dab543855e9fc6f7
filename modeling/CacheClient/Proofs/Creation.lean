import CacheClient.Client

namespace CacheClient

namespace Bytes

def sort (texts : List Bytes) : List Bytes :=
  texts.mergeSort fun a b => decide (a ≤ b)

theorem sort_perm (texts : List Bytes) : (sort texts).Perm texts :=
  List.mergeSort_perm texts _

theorem sort_sorted (texts : List Bytes) : (sort texts).Pairwise (· ≤ ·) := by
  have hsorted := @List.pairwise_mergeSort Bytes (fun a b => decide (a ≤ b)) ?_ ?_ texts
  · simpa [sort] using hsorted
  · intro a b c hab hbc
    simpa using List.le_trans (by simpa using hab) (by simpa using hbc)
  · intro a b
    simpa using List.le_total a b

theorem eq_sort {texts sorted : List Bytes} (hp : sorted.Perm texts) (hs : sorted.Pairwise (· ≤ ·)) :
    sorted = sort texts :=
  (hp.trans (sort_perm texts).symm).eq_of_pairwise (fun _ _ _ _ => List.le_antisymm) hs
    (sort_sorted texts)

theorem sort_congr {texts others : List Bytes} (hp : texts.Perm others) : sort texts = sort others :=
  eq_sort ((sort_perm texts).trans hp) (sort_sorted texts)

end Bytes

theorem mapM_ok {f : α → Answer β} (xs : List α) (hf : ∀ x ∈ xs, ∃ y, f x = .ok y) :
    ∃ ys, xs.mapM f = .ok ys := by
  induction xs with
  | nil => exact ⟨[], rfl⟩
  | cons x xs ih =>
    obtain ⟨y, hy⟩ := hf x List.mem_cons_self
    obtain ⟨ys, hys⟩ := ih fun x hm => hf x (List.mem_cons_of_mem _ hm)
    exact ⟨y :: ys, by simp [List.mapM_cons, hy, hys, bind, Except.bind, pure, Except.pure]⟩

theorem mapM_map {f : α → Answer β} (g : β → γ) (xs : List α) :
    (xs.mapM fun x => (f x).map g) = (xs.mapM f).map (List.map g) := by
  induction xs with
  | nil => rfl
  | cons x xs ih =>
    simp only [List.mapM_cons, ih]
    cases f x with
    | error failure => rfl
    | ok y => cases xs.mapM f <;> rfl

theorem mapM_ok_map {f : α → Answer β} {xs : List α} {ys : List β} (h : xs.mapM f = .ok ys) :
    xs.map f = ys.map .ok := by
  induction xs generalizing ys with
  | nil =>
    cases h
    rfl
  | cons x xs ih =>
    rw [List.mapM_cons] at h
    cases hx : f x with
    | error failure => simp [hx, bind, Except.bind] at h
    | ok y =>
      cases hxs : xs.mapM f with
      | error failure => simp [hx, hxs, bind, Except.bind] at h
      | ok rest =>
        obtain rfl : y :: rest = ys := by
          simpa [hx, hxs, bind, Except.bind, pure, Except.pure] using h
        rw [List.map_cons, List.map_cons, hx, ih hxs]

namespace Router

theorem create_eq (hne : addresses ≠ []) (options : DialOptions) (idle : Int) :
    (create addresses options idle).map pools =
      ((Bytes.sort addresses).mapM Endpoint.parse).map (List.map (Pool.start · options idle)) := by
  rw [← mapM_map]
  unfold create Bytes.sort
  generalize hs : addresses.mergeSort (fun a b => decide (a ≤ b)) = sorted
  cases sorted with
  | nil =>
    have hlen := congrArg List.length hs
    rw [List.length_mergeSort] at hlen
    exact absurd (List.eq_nil_of_length_eq_zero hlen) hne
  | cons first rest =>
    simp only [List.mapM_cons]
    cases (Endpoint.parse first).map (Pool.start · options idle) with
    | error failure => rfl
    | ok pool =>
      cases rest.mapM fun address => (Endpoint.parse address).map (Pool.start · options idle) <;> rfl

theorem create_nil (options : DialOptions) (idle : Int) :
    create [] options idle = .error noServers := by
  simp [create]

theorem create_endpoints {router : Router} (hc : create addresses options idle = .ok router) :
    ∃ endpoints : List Endpoint, (Bytes.sort addresses).map Endpoint.parse = endpoints.map .ok ∧
      router.pools = endpoints.map (Pool.start · options idle) := by
  have hne : addresses ≠ [] := by
    rintro rfl
    rw [create_nil] at hc
    cases hc
  have hpools := create_eq hne options idle
  rw [hc] at hpools
  cases hparse : (Bytes.sort addresses).mapM Endpoint.parse with
  | error failure =>
    rw [hparse] at hpools
    cases hpools
  | ok endpoints =>
    rw [hparse] at hpools
    exact ⟨endpoints, mapM_ok_map hparse, Except.ok.inj hpools⟩

theorem create_pools {router : Router} (hc : create addresses options idle = .ok router) :
    ∀ pool ∈ router.pools, ∃ endpoint, pool = Pool.start endpoint options idle := by
  obtain ⟨endpoints, -, hpools⟩ := create_endpoints hc
  intro pool hm
  rw [hpools] at hm
  obtain ⟨endpoint, -, rfl⟩ := List.mem_map.mp hm
  exact ⟨endpoint, rfl⟩

/-- Valid addresses, if there are any, make a router. -/
theorem create_ok (hne : addresses ≠ [])
    (hv : ∀ address ∈ addresses, ∃ endpoint, Endpoint.parse address = .ok endpoint)
    (options : DialOptions) (idle : Int) :
    ∃ router, create addresses options idle = .ok router := by
  obtain ⟨endpoints, hparse⟩ := mapM_ok (Bytes.sort addresses) fun address hm =>
    hv address ((Bytes.sort_perm addresses).mem_iff.mp hm)
  have hpools := create_eq hne options idle
  rw [hparse] at hpools
  cases hc : create addresses options idle with
  | error failure =>
    rw [hc] at hpools
    cases hpools
  | ok router => exact ⟨router, rfl⟩

end Router

theorem Expiry.seconds_ok {ttl : Int64} (hv : ttl = 0 ∨ second ≤ ttl) (now : Int64) :
    ∃ expiry, seconds ttl now = .ok expiry := by
  unfold seconds
  rcases hv with rfl | hv
  · exact ⟨0, rfl⟩
  · split
    · exact ⟨0, rfl⟩
    · rw [if_neg (Int64.not_lt.mpr hv)]
      dsimp only
      split <;> exact ⟨_, rfl⟩

/-- Settings that a client can work with. -/
structure Settings.Usable (settings : Settings) : Prop where
  servers : settings.servers ≠ []
  addresses : ∀ address ∈ settings.servers, ∃ endpoint, Endpoint.parse address = .ok endpoint
  idle : 0 ≤ settings.idle
  timeouts : 0 ≤ settings.dialTimeout ∧ 0 ≤ settings.ioTimeout
  clock : settings.clock.isSome
  dialer : settings.canDial = true
  ttl : settings.defaultTtl = 0 ∨ Expiry.second ≤ settings.defaultTtl

namespace Client

variable [Network σ]

theorem create_ok {settings : Settings} (hu : settings.Usable) (wire : Wire σ) :
    ∃ client, create settings wire = .ok client ∧ client.settings = settings := by
  obtain ⟨clock, hc⟩ := Option.isSome_iff_exists.mp hu.clock
  obtain ⟨expiry, ht⟩ := Expiry.seconds_ok hu.ttl (clock.read wire)
  obtain ⟨router, hr⟩ :=
    Router.create_ok hu.servers hu.addresses settings.dialOptions settings.idle
  refine ⟨⟨settings, clock, router, false⟩, ?_, rfl⟩
  have hidle : ¬ settings.idle < 0 := Int.not_lt.mpr hu.idle
  have htime : ¬ (settings.dialTimeout < 0 ∨ settings.ioTimeout < 0) := by
    rw [not_or, Int64.not_lt, Int64.not_lt]
    exact hu.timeouts
  simp [create, hidle, htime, hc, hu.dialer, ht, hr]

theorem create_router {settings : Settings} {client : Client} {wire : Wire σ}
    (hc : create settings wire = .ok client) :
    client.closed = false ∧
      Router.create settings.servers settings.dialOptions settings.idle = .ok client.router := by
  unfold create at hc
  repeat' split at hc
  all_goals cases hc
  rename_i router hr
  exact ⟨rfl, hr⟩

end Client

/-- One server, and a clock that stands still. -/
def soloSettings : Settings where
  servers := [ascii "a"]
  clock := some (.fixed 0)

def soloClient : Client where
  settings := soloSettings
  clock := .fixed 0
  router := ⟨[Pool.start (.tcp (ascii "a") (ascii "11211")) soloSettings.dialOptions 1], by simp⟩
  closed := false

theorem solo_created [Network σ] (wire : Wire σ) :
    Client.create soloSettings wire = .ok soloClient := by
  have hs : soloSettings.servers.mergeSort (fun a b => decide (a ≤ b)) = [ascii "a"] :=
    List.mergeSort_singleton _
  have hr : Router.create soloSettings.servers soloSettings.dialOptions soloSettings.idle =
      .ok soloClient.router := by
    unfold Router.create
    rw [hs]
    rfl
  have ht : Expiry.seconds soloSettings.defaultTtl ((Clock.fixed 0).read wire) = .ok 3600 := rfl
  have hclock : soloSettings.clock = some (.fixed 0) := rfl
  have hidle : ¬ soloSettings.idle < 0 := by decide
  have htime : ¬ (soloSettings.dialTimeout < 0 ∨ soloSettings.ioTimeout < 0) := by decide
  have hdial : (!soloSettings.canDial) = false := rfl
  simp only [Client.create, hidle, htime, hclock, hdial, ht, hr, ↓reduceIte, Bool.false_eq_true]
  rfl

end CacheClient
