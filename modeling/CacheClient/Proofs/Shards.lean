import CacheClient.Proofs.Admission
import CacheClient.Proofs.Creation
import CacheClient.Proofs.Dialogues
import CacheClient.Proofs.Streams
import CacheClient.Script
import Mathlib

namespace CacheClient

namespace Event

/-- The streams that were dialed to an endpoint, newest first. -/
def streamsAt (endpoint : Endpoint) (events : List Event) : List Nat :=
  events.filterMap fun
    | .dialed other _ opened => if other = endpoint then opened else none
    | _ => none

theorem streamsAt_append (endpoint : Endpoint) (first rest : List Event) :
    streamsAt endpoint (first ++ rest) = streamsAt endpoint first ++ streamsAt endpoint rest :=
  List.filterMap_append

theorem streamsAt_dialed (endpoint other : Endpoint) (options : DialOptions) (opened : Option Nat)
    (events : List Event) : streamsAt endpoint (.dialed other options opened :: events) =
      (if other = endpoint then opened.toList else []) ++ streamsAt endpoint events := by
  by_cases ho : other = endpoint <;> cases opened <;> simp [streamsAt, ho]

theorem mem_streamsAt_dialed {endpoint other : Endpoint} {options : DialOptions} {id opened : Nat}
    {events : List Event} : id ∈ streamsAt endpoint (.dialed other options (some opened) :: events) ↔
      other = endpoint ∧ id = opened ∨ id ∈ streamsAt endpoint events := by
  rw [streamsAt_dialed]
  by_cases ho : other = endpoint <;> simp [ho]

theorem streamsAt_concerns {event : Event} {id : Nat} (h : event.concerns id = true) (endpoint : Endpoint)
    (events : List Event) : streamsAt endpoint (event :: events) = streamsAt endpoint events := by
  cases event with
  | dialed => cases h
  | _ => rfl

theorem streamsAt_mem {before after : List Event} {endpoint : Endpoint} {id : Nat} (h : before <:+ after)
    (hm : id ∈ streamsAt endpoint before) : id ∈ streamsAt endpoint after := by
  obtain ⟨events, rfl⟩ := h
  rw [streamsAt_append]
  exact List.mem_append_right _ hm

end Event

namespace Wire

variable {id : Nat} {wire next last : Wire σ} {endpoint : Endpoint}

/-- The stream was dialed to this endpoint, and to no other. -/
def DialedTo (endpoint : Endpoint) (id : Nat) (wire : Wire σ) : Prop :=
  id ∈ Event.streamsAt endpoint wire.journal ∧
    ∀ other, id ∈ Event.streamsAt other wire.journal → other = endpoint

/-- Every stream was opened by one dial. -/
structure Registered (wire : Wire σ) : Prop where
  below : ∀ endpoint, ∀ id ∈ Event.streamsAt endpoint wire.journal, id < wire.opened
  single : ∀ endpoint other id, id ∈ Event.streamsAt endpoint wire.journal →
    id ∈ Event.streamsAt other wire.journal → other = endpoint

theorem Registered.dialedTo (h : wire.Registered)
    (hm : id ∈ Event.streamsAt endpoint wire.journal) : wire.DialedTo endpoint id :=
  ⟨hm, fun other hother => h.single endpoint other id hm hother⟩

theorem Registered.of_streams (h : wire.Registered) (ho : next.opened = wire.opened)
    (hs : ∀ endpoint, Event.streamsAt endpoint next.journal = Event.streamsAt endpoint wire.journal) :
    next.Registered := by
  refine ⟨?_, ?_⟩
  · intro endpoint id hm
    rw [hs] at hm
    rw [ho]
    exact h.below endpoint id hm
  · intro endpoint other id hm hother
    rw [hs] at hm hother
    exact h.single endpoint other id hm hother

theorem Registered.opening (h : wire.Registered)
    (hj : next.journal = .dialed endpoint options (some wire.opened) :: wire.journal)
    (ho : next.opened = wire.opened + 1) : next.Registered := by
  have hnew (other : Endpoint) : wire.opened ∉ Event.streamsAt other wire.journal :=
    fun hm => Nat.lt_irrefl _ (h.below other _ hm)
  refine ⟨?_, ?_⟩
  · intro other id hm
    rw [hj, Event.mem_streamsAt_dialed] at hm
    rw [ho]
    rcases hm with ⟨-, rfl⟩ | hm
    · exact Nat.lt_succ_self _
    · exact Nat.lt_succ_of_lt (h.below other id hm)
  · intro first second id hm hm'
    rw [hj, Event.mem_streamsAt_dialed] at hm hm'
    rcases hm with ⟨rfl, rfl⟩ | hm
    · rcases hm' with ⟨rfl, -⟩ | hm'
      · rfl
      · exact absurd hm' (hnew second)
    · rcases hm' with ⟨-, rfl⟩ | hm'
      · exact absurd hm (hnew first)
      · exact h.single first second id hm hm'

theorem start_registered (state : σ) : (Wire.start state).Registered := by
  refine ⟨?_, ?_⟩
  · intro endpoint id hm
    cases hm
  · intro endpoint other id hm
    cases hm

/-- From one state of a wire to another something has happened to this stream, and nothing else. -/
structure Confined (id : Nat) (before after : Wire σ) : Prop where
  opened : after.opened = before.opened
  journal : ∃ events, after.journal = events ++ before.journal ∧
    ∀ event ∈ events, event.concerns id = true

theorem Confined.refl (id : Nat) (wire : Wire σ) : Confined id wire wire :=
  ⟨rfl, [], rfl, by simp⟩

theorem Confined.event {event : Event} (h : Confined id wire next)
    (hj : last.journal = event :: next.journal) (ho : last.opened = next.opened)
    (he : event.concerns id = true) : Confined id wire last := by
  obtain ⟨ho', events, hj', he'⟩ := h
  refine ⟨ho.trans ho', event :: events, by rw [hj, hj']; rfl, ?_⟩
  rw [List.forall_mem_cons]
  exact ⟨he, he'⟩

theorem Confined.streamsAt (h : Confined id wire next) (endpoint : Endpoint) :
    Event.streamsAt endpoint next.journal = Event.streamsAt endpoint wire.journal := by
  obtain ⟨-, events, hj, he⟩ := h
  rw [hj]
  clear hj
  induction events with
  | nil => rfl
  | cons event events ih =>
    rw [List.cons_append, Event.streamsAt_concerns (he event List.mem_cons_self)]
    exact ih fun event hm => he event (List.mem_cons_of_mem _ hm)

theorem Confined.registered (h : Confined id wire next) (hr : wire.Registered) : next.Registered :=
  hr.of_streams h.opened h.streamsAt

/-- All that has happened from one state of a wire to another has happened to streams of an endpoint. -/
structure KeptTo (endpoint : Endpoint) (before after : Wire σ) : Prop where
  registered : after.Registered
  journal : ∃ events, after.journal = events ++ before.journal ∧ ∀ event ∈ events, ∀ id,
    event.concerns id = true → id ∈ Event.streamsAt endpoint after.journal

theorem KeptTo.grows (h : KeptTo endpoint wire next) : wire.journal <:+ next.journal := by
  obtain ⟨-, events, hj, -⟩ := h
  exact ⟨events, hj.symm⟩

theorem KeptTo.refl (endpoint : Endpoint) (hr : wire.Registered) : KeptTo endpoint wire wire :=
  ⟨hr, [], rfl, by simp⟩

theorem KeptTo.trans (h : KeptTo endpoint wire next) (h' : KeptTo endpoint next last) :
    KeptTo endpoint wire last := by
  have hgrows := h'.grows
  obtain ⟨-, events, hj, he⟩ := h
  obtain ⟨hr, events', hj', he'⟩ := h'
  refine ⟨hr, events' ++ events, by rw [hj', hj, List.append_assoc], ?_⟩
  intro event hm i hc
  rcases List.mem_append.mp hm with hm | hm
  · exact he' event hm i hc
  · exact Event.streamsAt_mem hgrows (he event hm i hc)

theorem Confined.keptTo (h : Confined id wire next) (hr : wire.Registered)
    (hm : id ∈ Event.streamsAt endpoint wire.journal) : KeptTo endpoint wire next := by
  have hsame := h.streamsAt endpoint
  have hnext := h.registered hr
  obtain ⟨-, events, hj, he⟩ := h
  refine ⟨hnext, events, hj, ?_⟩
  intro event hevent i hc
  rw [hsame, Event.concerns_eq hc (he event hevent)]
  exact hm

theorem KeptTo.wrote (h : KeptTo endpoint wire next)
    (hm : .wrote id bytes fault ∈ wire.since next) : next.DialedTo endpoint id := by
  obtain ⟨hr, events, hj, he⟩ := h
  rw [since_eq hj, List.mem_reverse] at hm
  exact hr.dialedTo (he _ hm id (by simp))

variable [Network σ]

theorem Confined.preserves (id : Nat) (wire : Wire σ) : Preserves id (Confined id wire) where
  read h room := h.event rfl rfl (by simp)
  write h bytes := h.event rfl rfl (by simp)
  close h := h.event rfl rfl (by simp)

theorem KeptTo.preserves (hm : id ∈ Event.streamsAt endpoint wire.journal) :
    Preserves id (KeptTo endpoint wire) := by
  have hstep {middle after : Wire σ} (h : KeptTo endpoint wire middle)
      (hc : Confined id middle after) : KeptTo endpoint wire after :=
    h.trans (hc.keptTo h.registered (Event.streamsAt_mem h.grows hm))
  refine ⟨?_, ?_, ?_⟩
  · intro middle h room
    exact hstep h ((Confined.preserves id middle).read (.refl id middle) room)
  · intro middle h bytes
    exact hstep h ((Confined.preserves id middle).write (.refl id middle) bytes)
  · intro middle h
    exact hstep h ((Confined.preserves id middle).close (.refl id middle))

/-- A property that dials to an endpoint keep, and whatever is asked of streams of that endpoint. -/
structure Local (endpoint : Endpoint) (kept : Wire σ → Prop) : Prop where
  dial : ∀ {wire}, wire.Registered → kept wire → ∀ options, kept (wire.dial endpoint options).2
  read : ∀ {id wire}, wire.Registered → id ∈ Event.streamsAt endpoint wire.journal → kept wire →
    ∀ room, kept (wire.read id room).2
  write : ∀ {id wire}, wire.Registered → id ∈ Event.streamsAt endpoint wire.journal → kept wire →
    ∀ bytes, kept (wire.write id bytes).2
  close : ∀ {id wire}, wire.Registered → id ∈ Event.streamsAt endpoint wire.journal → kept wire →
    kept (wire.close id)

theorem Local.trivial (endpoint : Endpoint) : Local endpoint fun _ : Wire σ => True :=
  ⟨fun _ _ _ => ⟨⟩, fun _ _ _ _ => ⟨⟩, fun _ _ _ _ => ⟨⟩, fun _ _ _ => ⟨⟩⟩

theorem Local.preserves {kept : Wire σ → Prop} (l : Local endpoint kept)
    (hm : id ∈ Event.streamsAt endpoint wire.journal) :
    Preserves id fun next => KeptTo endpoint wire next ∧ kept next := by
  refine ⟨?_, ?_, ?_⟩
  · rintro next ⟨h, hk⟩ room
    exact ⟨(KeptTo.preserves hm).read h room,
      l.read h.registered (Event.streamsAt_mem h.grows hm) hk room⟩
  · rintro next ⟨h, hk⟩ bytes
    exact ⟨(KeptTo.preserves hm).write h bytes,
      l.write h.registered (Event.streamsAt_mem h.grows hm) hk bytes⟩
  · rintro next ⟨h, hk⟩
    exact ⟨(KeptTo.preserves hm).close h,
      l.close h.registered (Event.streamsAt_mem h.grows hm) hk⟩

theorem dial_keptTo (hr : wire.Registered) (endpoint : Endpoint) (options : DialOptions) :
    KeptTo endpoint wire (wire.dial endpoint options).2 ∧
      ∀ id, (wire.dial endpoint options).1 = .ok (some id) →
        id ∈ Event.streamsAt endpoint (wire.dial endpoint options).2.journal := by
  have hnothing {state : σ} : KeptTo endpoint wire
      { wire with state, journal := .dialed endpoint options none :: wire.journal } := by
    refine ⟨hr.of_streams rfl ?_, [.dialed endpoint options none], rfl, by simp⟩
    intro other
    rw [Event.streamsAt_dialed]
    split <;> rfl
  unfold Wire.dial
  split
  · refine ⟨⟨hr.opening rfl rfl, [.dialed endpoint options (some wire.opened)], rfl, by simp⟩, ?_⟩
    intro id hid
    obtain rfl := Option.some.inj (Except.ok.inj hid)
    exact Event.mem_streamsAt_dialed.mpr (.inl ⟨rfl, rfl⟩)
  · refine ⟨hnothing, ?_⟩
    intro id hid
    cases Except.ok.inj hid
  · refine ⟨hnothing, ?_⟩
    intro id hid
    cases hid

end Wire

namespace Pool

/-- Every idle connection leads to the endpoint of the pool. -/
def Homed (wire : Wire σ) (pool : Pool) : Prop :=
  ∀ connection ∈ pool.idle, ∃ id, connection.stream = some id ∧
    id ∈ Event.streamsAt pool.endpoint wire.journal

variable {pool : Pool} {wire next : Wire σ} {connection : Connection}

theorem Homed.mono (h : pool.Homed wire) (hj : wire.journal <:+ next.journal) : pool.Homed next := by
  intro connection hm
  obtain ⟨id, hs, hid⟩ := h connection hm
  exact ⟨id, hs, Event.streamsAt_mem hj hid⟩

variable [Network σ] {kept : Wire σ → Prop}

theorem acquire_homed (l : Wire.Local pool.endpoint kept) (hk : kept wire) (hr : wire.Registered)
    (h : pool.Homed wire) :
    (pool.acquire wire).2.1.endpoint = pool.endpoint ∧
      Wire.KeptTo pool.endpoint wire (pool.acquire wire).2.2 ∧ kept (pool.acquire wire).2.2 ∧
      (pool.acquire wire).2.1.Homed (pool.acquire wire).2.2 ∧
      ∀ connection, (pool.acquire wire).1 = .ok connection → ∀ id, connection.stream = some id →
        id ∈ Event.streamsAt pool.endpoint (pool.acquire wire).2.2.journal := by
  obtain ⟨endpoint, options, capacity, idle⟩ := pool
  -- what is handed out was idle here, or has just been dialed to this endpoint
  cases capacity with
  | none =>
    refine ⟨rfl, .refl _ hr, hk, h, ?_⟩
    intro connection hc
    cases hc
  | some room =>
    cases idle with
    | cons first idle =>
      refine ⟨rfl, .refl _ hr, hk, fun connection hm => h connection (List.mem_cons_of_mem _ hm), ?_⟩
      intro connection hc id hs
      obtain rfl : first = connection := Except.ok.inj hc
      obtain ⟨other, hs', hm⟩ := h first List.mem_cons_self
      obtain rfl := Option.some.inj (hs'.symm.trans hs)
      exact hm
    | nil =>
      obtain ⟨hkept, hnew⟩ := Wire.dial_keptTo hr endpoint options
      refine ⟨rfl, hkept, l.dial hr hk options, ?_, ?_⟩
      · intro connection hm
        cases hm
      intro connection hc id hs
      simp only [acquire] at hc ⊢
      generalize wire.dial endpoint options = dialed at *
      obtain ⟨failure | stream, next⟩ := dialed
      · cases hc
      · obtain rfl := Except.ok.inj hc
        exact hnew id (congrArg Except.ok hs)

theorem discard_kept {endpoint : Endpoint} (l : Wire.Local endpoint kept) (hk : kept wire)
    (hr : wire.Registered)
    (hs : ∀ id, connection.stream = some id → id ∈ Event.streamsAt endpoint wire.journal) :
    Wire.KeptTo endpoint wire (connection.discard wire) ∧ kept (connection.discard wire) := by
  obtain ⟨stream, unread, unsent, healthy⟩ := connection
  cases stream with
  | none => exact ⟨.refl _ hr, hk⟩
  | some id => exact (l.preserves (hs id rfl)).close ⟨.refl _ hr, hk⟩

theorem release_homed (l : Wire.Local pool.endpoint kept) (hk : kept wire) (hr : wire.Registered)
    (h : pool.Homed wire)
    (hs : ∀ id, connection.stream = some id →
      id ∈ Event.streamsAt pool.endpoint wire.journal) :
    (pool.release (some connection) wire).1.endpoint = pool.endpoint ∧
      Wire.KeptTo pool.endpoint wire (pool.release (some connection) wire).2 ∧
      kept (pool.release (some connection) wire).2 ∧
      (pool.release (some connection) wire).1.Homed (pool.release (some connection) wire).2 := by
  simp only [release]
  split
  · rename_i hkeeps
    refine ⟨rfl, .refl _ hr, hk, ?_⟩
    intro other hm
    rcases List.mem_cons.mp hm with rfl | hm
    · have hopen : other.isOpen = true := by
        unfold keeps at hkeeps
        split at hkeeps
        · cases hkeeps
        · simp only [Bool.and_eq_true] at hkeeps
          exact hkeeps.1.2
      obtain ⟨id, hid⟩ := Option.isSome_iff_exists.mp hopen
      exact ⟨id, hid, hs id hid⟩
    · exact h other hm
  · obtain ⟨hclosed, hkept⟩ := discard_kept l hk hr hs
    exact ⟨rfl, hclosed, hkept, h.mono hclosed.grows⟩

theorem run_homed (l : Wire.Local pool.endpoint kept) (hk : kept wire) (hr : wire.Registered)
    (h : pool.Homed wire) (dialogue : Dialogue α) :
    (pool.run dialogue.run wire).2.1.endpoint = pool.endpoint ∧
      Wire.KeptTo pool.endpoint wire (pool.run dialogue.run wire).2.2 ∧
      kept (pool.run dialogue.run wire).2.2 ∧
      (pool.run dialogue.run wire).2.1.Homed (pool.run dialogue.run wire).2.2 := by
  obtain ⟨hhome, hto, hkept, hhomed, hstream⟩ := acquire_homed l hk hr h
  simp only [run]
  generalize pool.acquire wire = acquired at *
  obtain ⟨failure | connection, after, next⟩ := acquired
  · exact ⟨hhome, hto, hkept, hhomed⟩
  · dsimp only at *
    have hpreserves (id : Nat) (hs : (Link.mk connection next).connection.stream = some id) :=
      l.preserves (hstream connection rfl id hs)
    -- a dialogue ends with the stream that it began with, or with none
    obtain ⟨⟨htalk, hkept⟩, hafter⟩ :=
      dialogue.run_preserves hpreserves ⟨.refl _ hto.registered, hkept⟩
    generalize dialogue.run ⟨connection, next⟩ = held at *
    obtain ⟨answer, connection', last⟩ := held
    have hopen (id : Nat) (hs : (connection'.record answer.keepsHealthy).stream = some id) :
        id ∈ Event.streamsAt after.endpoint last.journal := by
      rcases hafter with hsame | hnone
      · rw [hhome]
        exact Event.streamsAt_mem htalk.grows (hstream connection rfl id (hsame.symm.trans hs))
      · cases hnone.symm.trans hs
    rw [← hhome] at l
    obtain ⟨hhome', hreturn, hkept, hhomed'⟩ :=
      release_homed l hkept htalk.registered (hhomed.mono htalk.grows) hopen
    rw [hhome] at hhome' hreturn
    exact ⟨hhome', (hto.trans htalk).trans hreturn, hkept, hhomed'⟩

theorem discards_kept {endpoint : Endpoint} (l : Wire.Local endpoint kept) (hk : kept wire)
    (hr : wire.Registered) (idle : List Connection)
    (hs : ∀ connection ∈ idle, ∃ id, connection.stream = some id ∧
      id ∈ Event.streamsAt endpoint wire.journal) :
    let closed := idle.foldl (fun wire connection => connection.discard wire) wire
    Wire.KeptTo endpoint wire closed ∧ kept closed := by
  induction idle generalizing wire with
  | nil => exact ⟨.refl _ hr, hk⟩
  | cons connection idle ih =>
    obtain ⟨hfirst, hkept⟩ : Wire.KeptTo endpoint wire (connection.discard wire) ∧
        kept (connection.discard wire) := by
      obtain ⟨id, hid, hm⟩ := hs connection List.mem_cons_self
      apply discard_kept l hk hr
      intro other hother
      obtain rfl := Option.some.inj (hid.symm.trans hother)
      exact hm
    obtain ⟨hrest, hlast⟩ := ih hkept hfirst.registered fun other hother => by
      obtain ⟨id, hid, hm⟩ := hs other (List.mem_cons_of_mem _ hother)
      exact ⟨id, hid, Event.streamsAt_mem hfirst.grows hm⟩
    exact ⟨hfirst.trans hrest, hlast⟩

theorem close_homed (l : Wire.Local pool.endpoint kept) (hk : kept wire) (hr : wire.Registered)
    (h : pool.Homed wire) :
    (pool.close wire).1.endpoint = pool.endpoint ∧
      Wire.KeptTo pool.endpoint wire (pool.close wire).2 ∧ kept (pool.close wire).2 ∧
      (pool.close wire).1.Homed (pool.close wire).2 := by
  obtain ⟨endpoint, options, capacity, idle⟩ := pool
  cases capacity with
  | none => exact ⟨rfl, .refl _ hr, hk, h⟩
  | some room =>
    obtain ⟨hclosed, hkept⟩ := discards_kept l hk hr idle h
    exact ⟨rfl, hclosed, hkept, by simp [close, Homed]⟩

theorem closeEach_homed (hr : wire.Registered) (pools : List Pool)
    (h : ∀ pool ∈ pools, pool.Homed wire) :
    (closeEach pools wire).1.map endpoint = pools.map endpoint ∧
      wire.journal <:+ (closeEach pools wire).2.journal ∧
      (closeEach pools wire).2.Registered ∧
      ∀ pool ∈ (closeEach pools wire).1, pool.Homed (closeEach pools wire).2 := by
  induction pools generalizing wire with
  | nil => exact ⟨rfl, List.suffix_refl _, hr, by simp [closeEach]⟩
  | cons pool pools ih =>
    obtain ⟨hhome, hkept, -, hhomed⟩ :=
      close_homed (.trivial pool.endpoint) ⟨⟩ hr (h pool List.mem_cons_self)
    obtain ⟨hhomes, hgrows, hlast, hall⟩ := ih hkept.registered fun other hm =>
      (h other (List.mem_cons_of_mem _ hm)).mono hkept.grows
    simp only [closeEach]
    refine ⟨by rw [List.map_cons, List.map_cons, hhome, hhomes], hkept.grows.trans hgrows, hlast, ?_⟩
    rw [List.forall_mem_cons]
    exact ⟨hhomed.mono hgrows, hall⟩

end Pool

/-- What is asked of an engine: a dialogue on a connection for a key, or an end of all pools. -/
inductive Job : Type 1 where
  | run {α : Type} (key : Bytes) (dialogue : Dialogue α)
  | close

def Move.job : Move → Job
  | .exchange command => .run command.key command.dialogue
  | .close => .close

theorem Pool.endpoint_at {pools : List Pool} {pool : Pool} {j : Nat} (h : pools[j]? = some pool) :
    (pools.map Pool.endpoint)[j]? = some pool.endpoint := by
  rw [List.getElem?_map, h]
  rfl

theorem Router.owner_endpoint (key : Bytes) (router : Router) :
    (router.pools.map Pool.endpoint)[router.pick key]? = some (router.owner key).endpoint :=
  Pool.endpoint_at (router.owner_getElem? key)

namespace Engine

variable {engine : Engine σ} {router : Router}

/-- Every idle connection leads to the endpoint of its pool, and the pools are those of a router. -/
structure Homed (router : Router) (engine : Engine σ) : Prop where
  endpoints : engine.router.pools.map Pool.endpoint = router.pools.map Pool.endpoint
  registered : engine.wire.Registered
  pools : ∀ pool ∈ engine.router.pools, pool.Homed engine.wire

theorem Homed.length (h : engine.Homed router) :
    engine.router.pools.length = router.pools.length := by
  simpa using congrArg List.length h.endpoints

theorem Homed.pick (h : engine.Homed router) (key : Bytes) :
    engine.router.pick key = router.pick key := by
  simp only [Router.pick, Router.size, h.length]

theorem Homed.owner (h : engine.Homed router) (key : Bytes) :
    (engine.router.owner key).endpoint = (router.owner key).endpoint := by
  have hsame := engine.router.owner_endpoint key
  rw [h.endpoints, h.pick, router.owner_endpoint] at hsame
  exact (Option.some.inj hsame).symm

theorem create_homed (hc : Router.create addresses options idle = .ok router) (network : σ) :
    (Engine.mk router (Wire.start network)).Homed router := by
  refine ⟨rfl, Wire.start_registered network, ?_⟩
  intro pool hm connection hidle
  obtain ⟨endpoint, rfl⟩ := Router.create_pools hc pool hm
  cases hidle

variable [Network σ]

/-- Holds a dialogue on a connection to the server of a key. -/
def run (key : Bytes) (dialogue : Dialogue α) (engine : Engine σ) : Answer α × Engine σ :=
  let (answer, router, wire) := engine.router.run key dialogue.run engine.wire
  (answer, ⟨router, wire⟩)

def job : Job → Engine σ → Engine σ
  | .run key dialogue, engine => (engine.run key dialogue).2
  | .close, engine => engine.close

def jobs (jobs : List Job) (engine : Engine σ) : Engine σ :=
  jobs.foldl (fun engine job => engine.job job) engine

theorem run_exchange (command : Command) (engine : Engine σ) :
    engine.run command.key command.dialogue = engine.exchange command := by
  have hsame : (command.dialogue.run : Link σ → _) = (·.exchange command) :=
    funext command.run_dialogue
  rw [run, exchange, hsame]

/-- A dialogue for a key is held at the endpoint of the key's own pool, and keeps all pools homed. -/
theorem Homed.run (h : engine.Homed router) (key : Bytes) (dialogue : Dialogue α)
    {kept : Wire σ → Prop} (l : Wire.Local (router.owner key).endpoint kept) (hk : kept engine.wire) :
    Wire.KeptTo (router.owner key).endpoint engine.wire (engine.run key dialogue).2.wire ∧
      kept (engine.run key dialogue).2.wire ∧ (engine.run key dialogue).2.Homed router := by
  rw [← h.owner] at l ⊢
  obtain ⟨hhome, hkept, hlast, hhomed⟩ := Pool.run_homed l hk h.registered
    (h.pools _ (engine.router.owner_mem key)) dialogue
  simp only [Engine.run, Router.run_eq]
  refine ⟨hkept, hlast, ?_, hkept.registered, ?_⟩
  · rw [← h.endpoints, Router.put, List.map_set, hhome, ← List.map_set]
    exact congrArg (List.map Pool.endpoint) (List.set_getElem_self (engine.router.pick_lt key))
  · intro pool hm
    rcases List.mem_or_eq_of_mem_set hm with hm | rfl
    · exact (h.pools pool hm).mono hkept.grows
    · exact hhomed

theorem Homed.close (h : engine.Homed router) : engine.close.Homed router := by
  obtain ⟨hhomes, -, hlast, hall⟩ := Pool.closeEach_homed h.registered _ h.pools
  exact ⟨hhomes.trans h.endpoints, hlast, hall⟩

theorem Homed.jobs (h : engine.Homed router) (jobs : List Job) :
    (engine.jobs jobs).Homed router := by
  induction jobs generalizing engine with
  | nil => exact h
  | cons job jobs ih =>
    cases job with
    | run key dialogue => exact ih (h.run key dialogue (.trivial _) ⟨⟩).2.2
    | close => exact ih h.close

end Engine

namespace Running

variable [Network σ] {running : Running σ} {router : Router}

end Running

def duoSettings : Settings where
  servers := [ascii "b", ascii "a"]
  clock := some (.fixed 0)

def duoClient : Client where
  settings := duoSettings
  clock := .fixed 0
  router := ⟨[Pool.start (.tcp (ascii "a") (ascii "11211")) duoSettings.dialOptions 1,
    Pool.start (.tcp (ascii "b") (ascii "11211")) duoSettings.dialOptions 1], by simp⟩
  closed := false

theorem duo_created [Network σ] (wire : Wire σ) :
    Client.create duoSettings wire = .ok duoClient := by
  cbv

def deletions : Script where
  fallback := { stream := ⟨[⟨ascii "DELETED\r\n", none⟩], []⟩ }

end CacheClient
