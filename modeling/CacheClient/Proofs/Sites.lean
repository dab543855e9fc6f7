import CacheClient.Proofs.Shards
import Mathlib.Logic.Function.Basic

namespace CacheClient

/-- Servers that have nothing to do with one another; each is a network of its own. -/
structure Sites (τ : Type) where
  site : Endpoint → τ
  opened : Endpoint → Nat
  home : Nat → Endpoint × Nat
  time : Int64

namespace Sites

def start (site : Endpoint → τ) (time : Int64) : Sites τ :=
  ⟨site, fun _ => 0, fun id => (.unix [], id), time⟩

def enter (endpoint : Endpoint) (site : τ) (sites : Sites τ) : Sites τ :=
  { sites with site := Function.update sites.site endpoint site }

def settle (id : Nat) (endpoint : Endpoint) (sites : Sites τ) : Sites τ :=
  { sites with
    opened := Function.update sites.opened endpoint (sites.opened endpoint + 1)
    home := Function.update sites.home id (endpoint, sites.opened endpoint) }

variable [Network τ]

def dial (id : Nat) (endpoint : Endpoint) (options : DialOptions) (sites : Sites τ) :
    Dialed × Sites τ :=
  match Network.dial (sites.opened endpoint) endpoint options (sites.site endpoint) with
  | (.opened, site) => (.opened, (sites.enter endpoint site).settle id endpoint)
  | (.nothing, site) => (.nothing, sites.enter endpoint site)
  | (.refused failure, site) => (.refused failure, sites.enter endpoint site)

def read (id room : Nat) (sites : Sites τ) : Delivery room × Sites τ :=
  let (endpoint, stream) := sites.home id
  let (delivery, site) := Network.read stream room (sites.site endpoint)
  (delivery, sites.enter endpoint site)

def write (id : Nat) (bytes : Bytes) (sites : Sites τ) : Option Fault × Sites τ :=
  let (endpoint, stream) := sites.home id
  let (fault, site) := Network.write stream bytes (sites.site endpoint)
  (fault, sites.enter endpoint site)

def close (id : Nat) (sites : Sites τ) : Sites τ :=
  let (endpoint, stream) := sites.home id
  sites.enter endpoint (Network.close stream (sites.site endpoint))

def abandon (id : Nat) (sites : Sites τ) : Sites τ :=
  let (endpoint, stream) := sites.home id
  sites.enter endpoint (Network.abandon stream (sites.site endpoint))

instance : Network (Sites τ) where
  dial := dial
  read := read
  write := write
  close := close
  abandon := abandon
  now := time

end Sites

namespace Event

def number (id : Nat) : List Nat → Option Nat
  | [] => none
  | first :: rest => if first = id then some rest.length else number id rest

theorem number_cons (id : Nat) (streams : List Nat) :
    number id (id :: streams) = some streams.length :=
  if_pos rfl

theorem mem_of_number {id k : Nat} {streams : List Nat} (h : number id streams = some k) :
    id ∈ streams := by
  induction streams with
  | nil => cases h
  | cons first rest ih =>
    unfold number at h
    split at h
    · rename_i hfirst
      exact hfirst ▸ List.mem_cons_self
    · exact List.mem_cons_of_mem _ (ih h)

theorem number_of_mem {id : Nat} {streams : List Nat} (h : id ∈ streams) :
    ∃ k, number id streams = some k := by
  induction streams with
  | nil => cases h
  | cons first rest ih =>
    unfold number
    split
    · exact ⟨_, rfl⟩
    · rename_i hne
      rcases List.mem_cons.mp h with rfl | hm
      · exact absurd rfl hne
      · exact ih hm

theorem number_of_not_mem {id : Nat} {streams : List Nat} (h : id ∉ streams) :
    number id streams = none :=
  Option.eq_none_iff_forall_ne_some.mpr fun _ hk => h (mem_of_number hk)

/-- An event as it is seen at an endpoint with these streams, if it is seen there at all. -/
def localize (endpoint : Endpoint) (streams : List Nat) : Event → Option Event
  | .dialed other options opened =>
    if other = endpoint then some (.dialed other options (opened.map fun _ => streams.length))
    else none
  | .wrote id bytes fault => (number id streams).map (.wrote · bytes fault)
  | .read id bytes fault => (number id streams).map (.read · bytes fault)
  | .closed id => (number id streams).map .closed

/-- What has happened at an endpoint, newest first. -/
def seenAt (endpoint : Endpoint) : List Event → List Event
  | [] => []
  | event :: before =>
    (event.localize endpoint (streamsAt endpoint before)).toList ++ seenAt endpoint before

theorem localize_elsewhere {event : Event} {id : Nat} (hc : event.concerns id = true)
    {streams : List Nat} (hm : id ∉ streams) (endpoint : Endpoint) :
    event.localize endpoint streams = none := by
  cases event with
  | dialed => cases hc
  | wrote other | read other | closed other =>
    obtain rfl : other = id := by simpa [concerns, reads, writes, closes] using hc
    simp [localize, number_of_not_mem hm]

def Quiet (event : Event) : Prop :=
  ∀ endpoint events, streamsAt endpoint (event :: events) = streamsAt endpoint events

theorem quiet_of_concerns {event : Event} (id : Nat) (h : event.concerns id = true) : event.Quiet :=
  streamsAt_concerns h

theorem quiet_undialed (endpoint : Endpoint) (options : DialOptions) :
    (dialed endpoint options none).Quiet := by
  intro other events
  rw [streamsAt_dialed]
  split <;> rfl

end Event

namespace Wire

open Event (streamsAt seenAt number)

variable {wire mirror next : Wire (Sites τ)} {endpoint other : Endpoint} {id k : Nat} {site : τ}
  {event : Event} {streams mirrored : List Nat}

/-- Something happens at a site. -/
def visit (endpoint : Endpoint) (site : τ) (event : Event) (wire : Wire (Sites τ)) : Wire (Sites τ) :=
  { wire with
    state := wire.state.enter endpoint site
    journal := event :: wire.journal }

def settle (endpoint : Endpoint) (options : DialOptions) (site : τ) (wire : Wire (Sites τ)) :
    Wire (Sites τ) where
  state := (wire.state.enter endpoint site).settle wire.opened endpoint
  journal := .dialed endpoint options (some wire.opened) :: wire.journal
  opened := wire.opened + 1

/-- The network knows the streams as they stand in the journal. -/
structure Placed (wire : Wire (Sites τ)) : Prop where
  registered : wire.Registered
  opened : ∀ endpoint, wire.state.opened endpoint = (streamsAt endpoint wire.journal).length
  home : ∀ endpoint id k, number id (streamsAt endpoint wire.journal) = some k →
    wire.state.home id = (endpoint, k)

theorem start_placed (site : Endpoint → τ) (time : Int64) :
    (Wire.start (Sites.start site time)).Placed := by
  refine ⟨start_registered _, fun _ => rfl, ?_⟩
  intro endpoint id k hk
  cases hk

theorem Placed.visit (h : wire.Placed) (hq : event.Quiet) (endpoint : Endpoint) (site : τ) :
    (wire.visit endpoint site event).Placed := by
  have hsame (other : Endpoint) : streamsAt other (wire.visit endpoint site event).journal =
      streamsAt other wire.journal := hq other wire.journal
  refine ⟨h.registered.of_streams rfl hsame, ?_, ?_⟩
  · intro other
    rw [hsame]
    exact h.opened other
  · intro other i k hk
    rw [hsame] at hk
    exact h.home other i k hk

theorem streamsAt_settle (wire : Wire (Sites τ)) (endpoint other : Endpoint) (options : DialOptions)
    (site : τ) : streamsAt other (wire.settle endpoint options site).journal =
      if endpoint = other then wire.opened :: streamsAt other wire.journal
      else streamsAt other wire.journal := by
  rw [settle, Event.streamsAt_dialed]
  split <;> rfl

theorem Placed.settle (h : wire.Placed) (endpoint : Endpoint) (options : DialOptions) (site : τ) :
    (wire.settle endpoint options site).Placed := by
  refine ⟨h.registered.opening rfl rfl, ?_, ?_⟩
  · intro other
    rw [streamsAt_settle]
    by_cases he : other = endpoint
    · subst he
      simp [Wire.settle, Sites.settle, Sites.enter, h.opened]
    · simp [Wire.settle, Sites.settle, Sites.enter, h.opened, he, Ne.symm he]
  · intro other i k hk
    rw [streamsAt_settle] at hk
    by_cases hi : i = wire.opened
    · subst hi
      -- The number is new, so that it is found nowhere but at the front of this site.
      have hnew (anywhere : Endpoint) : wire.opened ∉ streamsAt anywhere wire.journal :=
        fun hm => Nat.lt_irrefl _ (h.registered.below anywhere _ hm)
      by_cases he : endpoint = other
      · subst he
        rw [if_pos rfl, Event.number_cons] at hk
        obtain rfl := Option.some.inj hk
        simp [Wire.settle, Sites.settle, Sites.enter, h.opened]
      · rw [if_neg he, Event.number_of_not_mem (hnew other)] at hk
        cases hk
    · have hold : number i (streamsAt other wire.journal) = some k := by
        split at hk
        · rwa [number, if_neg (Ne.symm hi)] at hk
        · exact hk
      have hhome := h.home other i k hold
      simpa [Wire.settle, Sites.settle, Sites.enter, hi] using hhome

/-- Nothing has happened at an endpoint from one state of a wire to another. -/
structure Framed (endpoint : Endpoint) (before after : Wire (Sites τ)) : Prop where
  placed : after.Placed
  streams : streamsAt endpoint after.journal = streamsAt endpoint before.journal
  seen : seenAt endpoint after.journal = seenAt endpoint before.journal
  site : after.state.site endpoint = before.state.site endpoint
  time : after.state.time = before.state.time

theorem Framed.refl (endpoint : Endpoint) (hp : wire.Placed) : Framed endpoint wire wire :=
  ⟨hp, rfl, rfl, rfl, rfl⟩

theorem Framed.visit (h : Framed endpoint wire next) (hne : other ≠ endpoint) (hq : event.Quiet)
    (hn : event.localize endpoint (streamsAt endpoint next.journal) = none) (site : τ) :
    Framed endpoint wire (next.visit other site event) := by
  refine ⟨h.placed.visit hq other site, (hq _ _).trans h.streams, ?_, ?_, h.time⟩
  · rw [← h.seen, Wire.visit, seenAt, hn]
    rfl
  · rw [← h.site]
    exact Function.update_of_ne hne.symm _ _

/-- Two networks stand the same at an endpoint, which has these streams in the one and in the other. -/
structure Aligned (endpoint : Endpoint) (streams mirrored : List Nat)
    (wire mirror : Wire (Sites τ)) : Prop where
  placed : wire.Placed ∧ mirror.Placed
  lists : streamsAt endpoint wire.journal = streams ∧ streamsAt endpoint mirror.journal = mirrored
  count : streams.length = mirrored.length
  seen : seenAt endpoint wire.journal = seenAt endpoint mirror.journal
  site : wire.state.site endpoint = mirror.state.site endpoint
  time : wire.state.time = mirror.state.time

theorem Aligned.left (h : Aligned endpoint streams mirrored wire mirror)
    (hf : Framed endpoint wire next) : Aligned endpoint streams mirrored next mirror :=
  ⟨⟨hf.placed, h.placed.2⟩, ⟨hf.streams.trans h.lists.1, h.lists.2⟩, h.count,
    hf.seen.trans h.seen, hf.site.trans h.site, hf.time.trans h.time⟩

theorem Aligned.right (h : Aligned endpoint streams mirrored wire mirror)
    (hf : Framed endpoint mirror next) : Aligned endpoint streams mirrored wire next :=
  ⟨⟨h.placed.1, hf.placed⟩, ⟨h.lists.1, hf.streams.trans h.lists.2⟩, h.count,
    h.seen.trans hf.seen.symm, h.site.trans hf.site.symm, h.time.trans hf.time.symm⟩

/-- The same happens at the endpoint in both. -/
theorem Aligned.visit (h : Aligned endpoint streams mirrored wire mirror) {echo : Event}
    (hq : event.Quiet) (hq' : echo.Quiet)
    (hs : event.localize endpoint streams = echo.localize endpoint mirrored) (site : τ) :
    Aligned endpoint streams mirrored (wire.visit endpoint site event)
      (mirror.visit endpoint site echo) := by
  refine ⟨⟨h.placed.1.visit hq endpoint site, h.placed.2.visit hq' endpoint site⟩,
    ⟨(hq _ _).trans h.lists.1, (hq' _ _).trans h.lists.2⟩, h.count, ?_, ?_, h.time⟩
  · rw [Wire.visit, Wire.visit, seenAt, seenAt, h.lists.1, h.lists.2, hs, h.seen]
  · simp [Wire.visit, Sites.enter]

def Paired (streams mirrored : List Nat) (id echo : Nat) : Prop :=
  ∃ k, number id streams = some k ∧ number echo mirrored = some k

variable [Network τ]

theorem dial_sites (endpoint : Endpoint) (options : DialOptions) (wire : Wire (Sites τ)) :
    wire.dial endpoint options =
      match Network.dial (wire.state.opened endpoint) endpoint options (wire.state.site endpoint) with
      | (.opened, site) => (.ok (some wire.opened), wire.settle endpoint options site)
      | (.nothing, site) => (.ok none, wire.visit endpoint site (.dialed endpoint options none))
      | (.refused failure, site) =>
        (.error failure, wire.visit endpoint site (.dialed endpoint options none)) := by
  have hdial : Network.dial wire.opened endpoint options wire.state =
      wire.state.dial wire.opened endpoint options := rfl
  rw [Wire.dial, hdial, Sites.dial]
  generalize Network.dial (wire.state.opened endpoint) endpoint options (wire.state.site endpoint) =
    dialed
  obtain ⟨_ | _ | failure, site⟩ := dialed <;> rfl

theorem read_sites (h : wire.state.home id = (endpoint, k)) (room : Nat) :
    wire.read id room =
      let (delivery, site) := Network.read k room (wire.state.site endpoint)
      (delivery, wire.visit endpoint site (.read id delivery.bytes delivery.fault)) := by
  have hread : Network.read id room wire.state = wire.state.read id room := rfl
  rw [Wire.read, hread, Sites.read, h]
  rfl

theorem write_sites (h : wire.state.home id = (endpoint, k)) (bytes : Bytes) :
    wire.write id bytes =
      let (fault, site) := Network.write k bytes (wire.state.site endpoint)
      (fault, wire.visit endpoint site (.wrote id bytes fault)) := by
  have hwrite : Network.write id bytes wire.state = wire.state.write id bytes := rfl
  rw [Wire.write, hwrite, Sites.write, h]
  rfl

theorem close_sites (h : wire.state.home id = (endpoint, k)) :
    wire.close id = wire.visit endpoint
      (Network.abandon k (Network.close k (wire.state.site endpoint))) (.closed id) := by
  have hclose : Network.abandon id (Network.close id wire.state) =
      (wire.state.close id).abandon id := rfl
  have hhome (site : τ) : (wire.state.enter endpoint site).home id = (endpoint, k) := h
  rw [Wire.close, hclose, Sites.close, h, Sites.abandon, hhome, visit]
  simp [Sites.enter]

theorem Framed.isLocal (hne : other ≠ endpoint) : Local other (Framed endpoint wire) := by
  have hundialed (options : DialOptions) (streams : List Nat) :
      (Event.dialed other options none).localize endpoint streams = none := if_neg hne
  -- a stream that was dialed to the other endpoint leads there, and not to this one
  have hhome {next : Wire (Sites τ)} {id : Nat} (h : Framed endpoint wire next)
      (hm : id ∈ streamsAt other next.journal) : ∃ k, next.state.home id = (other, k) := by
    obtain ⟨k, hk⟩ := Event.number_of_mem hm
    exact ⟨k, h.placed.home other id k hk⟩
  have hvisit {next : Wire (Sites τ)} {id : Nat} {event : Event} (h : Framed endpoint wire next)
      (hm : id ∈ streamsAt other next.journal) (hc : event.concerns id = true) (site : τ) :
      Framed endpoint wire (next.visit other site event) := by
    have hnot : id ∉ streamsAt endpoint next.journal := fun hm' =>
      hne (h.placed.registered.single endpoint other id hm' hm)
    exact h.visit hne (Event.quiet_of_concerns id hc) (Event.localize_elsewhere hc hnot endpoint) site
  refine ⟨?_, ?_, ?_, ?_⟩
  · intro next hr h options
    rw [dial_sites]
    split
    · refine ⟨h.placed.settle other options _, ?_, ?_, ?_, h.time⟩
      · rw [streamsAt_settle, if_neg hne, h.streams]
      · rw [← h.seen, Wire.settle, seenAt, Event.localize, if_neg hne]
        rfl
      · rw [← h.site]
        exact Function.update_of_ne hne.symm _ _
    · exact h.visit hne (Event.quiet_undialed other options) (hundialed options _) _
    · exact h.visit hne (Event.quiet_undialed other options) (hundialed options _) _
  · intro id next hr hm h room
    obtain ⟨k, hk⟩ := hhome h hm
    rw [read_sites hk]
    exact hvisit h hm (by simp) _
  · intro id next hr hm h bytes
    obtain ⟨k, hk⟩ := hhome h hm
    rw [write_sites hk]
    exact hvisit h hm (by simp) _
  · intro id next hr hm h
    obtain ⟨k, hk⟩ := hhome h hm
    rw [close_sites hk]
    exact hvisit h hm (by simp) _

theorem Aligned.mirrors (endpoint : Endpoint) (streams mirrored : List Nat) :
    Mirrors (Paired streams mirrored) (@Aligned τ endpoint streams mirrored) := by
  have hhome {id echo : Nat} {wire mirror : Wire (Sites τ)} (hp : Paired streams mirrored id echo)
      (h : Aligned endpoint streams mirrored wire mirror) : ∃ k, number id streams = some k ∧
        number echo mirrored = some k ∧ wire.state.home id = (endpoint, k) ∧
        mirror.state.home echo = (endpoint, k) := by
    obtain ⟨k, hk, hk'⟩ := hp
    refine ⟨k, hk, hk', h.placed.1.home endpoint id k ?_, h.placed.2.home endpoint echo k ?_⟩
    · rw [h.lists.1, hk]
    · rw [h.lists.2, hk']
  refine ⟨?_, ?_, ?_⟩
  · intro id echo wire mirror hp h room
    obtain ⟨k, hk, hk', hw, hm⟩ := hhome hp h
    rw [read_sites hw, read_sites hm, ← h.site]
    refine ⟨rfl, h.visit (Event.quiet_of_concerns id (by simp))
      (Event.quiet_of_concerns echo (by simp)) ?_ _⟩
    simp [Event.localize, hk, hk']
  · intro id echo wire mirror hp h bytes
    obtain ⟨k, hk, hk', hw, hm⟩ := hhome hp h
    rw [write_sites hw, write_sites hm, ← h.site]
    refine ⟨rfl, h.visit (Event.quiet_of_concerns id (by simp))
      (Event.quiet_of_concerns echo (by simp)) ?_ _⟩
    simp [Event.localize, hk, hk']
  · intro id echo wire mirror hp h
    obtain ⟨k, hk, hk', hw, hm⟩ := hhome hp h
    rw [close_sites hw, close_sites hm, ← h.site]
    refine h.visit (Event.quiet_of_concerns id (by simp)) (Event.quiet_of_concerns echo (by simp)) ?_ _
    simp [Event.localize, hk, hk']

/-- A dial comes to the same in both; what it opens has the same number at the endpoint. -/
theorem Aligned.dial (h : Aligned endpoint streams mirrored wire mirror) (options : DialOptions) :
    ((wire.dial endpoint options).1 = (mirror.dial endpoint options).1 ∧
      (∀ id, (wire.dial endpoint options).1 ≠ .ok (some id)) ∧
      Aligned endpoint streams mirrored (wire.dial endpoint options).2
        (mirror.dial endpoint options).2) ∨
    ∃ id echo, (wire.dial endpoint options).1 = .ok (some id) ∧
      (mirror.dial endpoint options).1 = .ok (some echo) ∧
      Aligned endpoint (id :: streams) (echo :: mirrored) (wire.dial endpoint options).2
        (mirror.dial endpoint options).2 := by
  have hcount : wire.state.opened endpoint = mirror.state.opened endpoint := by
    rw [h.placed.1.opened, h.placed.2.opened, h.lists.1, h.lists.2, h.count]
  have hundialed := h.visit (Event.quiet_undialed endpoint options)
    (Event.quiet_undialed endpoint options) rfl
  rw [dial_sites, dial_sites, ← hcount, ← h.site]
  generalize Network.dial (wire.state.opened endpoint) endpoint options (wire.state.site endpoint) =
    dialed
  obtain ⟨_ | _ | failure, site⟩ := dialed
  · refine .inr ⟨wire.opened, mirror.opened, rfl, rfl, ?_⟩
    refine ⟨⟨h.placed.1.settle _ _ _, h.placed.2.settle _ _ _⟩, ⟨?_, ?_⟩, ?_, ?_, ?_, h.time⟩
    · rw [streamsAt_settle, if_pos rfl, h.lists.1]
    · rw [streamsAt_settle, if_pos rfl, h.lists.2]
    · rw [List.length_cons, List.length_cons, h.count]
    · simp only [Wire.settle, seenAt, h.lists.1, h.lists.2, h.seen]
      simp [Event.localize, h.count]
    · simp [Wire.settle, Sites.settle, Sites.enter]
  · refine .inl ⟨rfl, ?_, hundialed site⟩
    intro id hid
    cases hid
  · refine .inl ⟨rfl, ?_, hundialed site⟩
    intro id hid
    cases hid

end Wire

end CacheClient
