import CacheClient.Proofs.OpenStreams
import CacheClient.Proofs.SocketCalls
import CacheClient.Script

namespace CacheClient

namespace Call

/-- This was asked of a socket from the time on that it was connected. -/
def Follows (id : Nat) (calls : List Call) (asked : List Asked) : Prop :=
  ∃ earlier family targets deadline later,
    calls = earlier ++ .connect id family targets deadline .reached :: later ∧ later.filterMap (asks id) = asked

/-- A socket that a failed connect has left open is shut down and closed at once. -/
def Cleared (calls : List Call) : Prop :=
  ∀ earlier id family targets deadline fault later,
    calls = earlier ++ .connect id family targets deadline (.failed fault true) :: later →
      ∃ rest, later = .shutdown id :: .close id :: rest

variable {id : Nat} {calls more : List Call} {asked : List Asked}

theorem split_append {call : Call} {earlier later : List Call} (h : calls ++ more = earlier ++ call :: later) :
    (∃ between, calls = earlier ++ call :: between ∧ later = between ++ more) ∨
      ∃ between, more = between ++ call :: later ∧ earlier = calls ++ between := by
  rcases List.append_eq_append_iff.mp h with ⟨between, rfl, rfl⟩ | ⟨between, rfl, hrest⟩
  · exact .inr ⟨between, rfl, rfl⟩
  · cases between with
    | nil => exact .inr ⟨[], hrest.symm, by rw [List.append_nil, List.append_nil]⟩
    | cons first between =>
      obtain ⟨rfl, rfl⟩ := List.cons.inj hrest
      exact .inl ⟨between, rfl, rfl⟩

theorem Follows.connect (h : Follows id calls asked) : ∃ call ∈ calls, call.asks id = some .connect := by
  obtain ⟨earlier, family, targets, deadline, later, rfl, -⟩ := h
  exact ⟨_, List.mem_append_right _ List.mem_cons_self, by simp [asks]⟩

theorem Follows.append (h : Follows id calls asked) (more : List Call) :
    Follows id (calls ++ more) (asked ++ more.filterMap (asks id)) := by
  obtain ⟨earlier, family, targets, deadline, later, rfl, rfl⟩ := h
  exact ⟨earlier, family, targets, deadline, later ++ more, by simp, List.filterMap_append⟩

theorem Follows.prepend (h : Follows id more asked) (calls : List Call) : Follows id (calls ++ more) asked := by
  obtain ⟨earlier, family, targets, deadline, later, rfl, rfl⟩ := h
  exact ⟨calls ++ earlier, family, targets, deadline, later, by simp, rfl⟩

theorem follows_append (h : Follows id (calls ++ more) asked) :
    (∃ before, Follows id calls before ∧ asked = before ++ more.filterMap (asks id)) ∨ Follows id more asked := by
  obtain ⟨earlier, family, targets, deadline, later, hcalls, rfl⟩ := h
  rcases split_append hcalls with ⟨between, rfl, rfl⟩ | ⟨between, rfl, rfl⟩
  · exact .inl ⟨_, ⟨earlier, family, targets, deadline, between, rfl, rfl⟩, List.filterMap_append⟩
  · exact .inr ⟨between, family, targets, deadline, later, rfl, rfl⟩

theorem Cleared.append (h : Cleared calls) (h' : Cleared more) : Cleared (calls ++ more) := by
  intro earlier id family targets deadline fault later hcalls
  rcases split_append hcalls with ⟨between, hfirst, rfl⟩ | ⟨between, hlast, -⟩
  · obtain ⟨rest, rfl⟩ := h _ _ _ _ _ _ _ hfirst
    exact ⟨rest ++ more, rfl⟩
  · exact h' _ _ _ _ _ _ _ hlast

/-- None of the calls makes a socket. -/
def Plain (calls : List Call) : Prop :=
  ∀ call ∈ calls, ∀ id, call.asks id ≠ some .connect

theorem Plain.follows (h : Plain more) (hf : Follows id (calls ++ more) asked) :
    ∃ before, Follows id calls before ∧ asked = before ++ more.filterMap (asks id) := by
  rcases follows_append hf with hf | hf
  · exact hf
  · obtain ⟨call, hm, hc⟩ := hf.connect
    exact absurd hc (h call hm id)

theorem Plain.cleared (h : Plain calls) : Cleared calls := by
  rintro earlier id family targets deadline fault later rfl
  exact absurd (by simp [asks]) (h _ (List.mem_append_right _ List.mem_cons_self) id)

theorem plain_end (id : Nat) : Plain [.shutdown id, .close id] := by
  intro call hm other
  simp only [List.mem_cons, List.not_mem_nil, or_false] at hm
  rcases hm with rfl | rfl <;> simp [asks]

end Call

namespace SocketNetwork

open Call

variable [Sockets τ] {endpoint : Endpoint} {options : DialOptions} {state : τ} {id of : Nat}
variable {found : Except Fault (List Bytes × Int64)} {asked : List Asked}

theorem plain_lookups (endpoint : Endpoint) (options : DialOptions) (began : Int64) :
    Plain (lookups endpoint options began) := by
  intro call hm id
  rw [lookups] at hm
  split at hm
  · cases hm
  · rw [List.mem_singleton.mp hm]
    simp [asks]

/-- A dial asks nothing of sockets that it does not make. -/
theorem asks_dial (endpoint : Endpoint) (options : DialOptions) (began : Int64) (state : τ)
    (found : Except Fault (List Bytes × Int64)) (hne : id ≠ of) :
    (lookups endpoint options began ++ connects of endpoint state found).filterMap (asks id) = [] := by
  have hlookups : (lookups endpoint options began).filterMap (asks id) = [] := by
    rw [lookups]
    split <;> rfl
  rw [List.filterMap_append, hlookups, List.nil_append]
  cases found with
  | error fault => rfl
  | ok found =>
    simp only [connects]
    split <;> simp [asks, hne.symm]

theorem cleared_connects : Cleared (connects of endpoint state found) := by
  intro earlier id family targets deadline fault later hcalls
  cases found with
  | error fault => simp [connects] at hcalls
  | ok found =>
    simp only [connects] at hcalls
    split at hcalls
    · cases earlier with
      | nil =>
        obtain ⟨hconnect, rfl⟩ := List.cons.inj hcalls
        obtain rfl := (Call.connect.inj hconnect).1
        exact ⟨[], rfl⟩
      | cons first earlier =>
        obtain ⟨-, hend⟩ := List.cons.inj hcalls
        exact (plain_end of).cleared _ _ _ _ _ _ _ hend
    · rename_i hreach
      cases earlier with
      | nil =>
        obtain ⟨hconnect, -⟩ := List.cons.inj hcalls
        exact absurd (Call.connect.inj hconnect).2.2.2.2 (hreach fault)
      | cons first earlier => simp at hcalls

theorem cleared_dial : Cleared (lookups endpoint options began ++ connects of endpoint state found) :=
  (plain_lookups endpoint options began).cleared.append cleared_connects

/-- In a dial there is a connect that succeeds only if nothing stands in the way, and it comes last. -/
theorem follows_connects (h : Follows id (connects of endpoint state found) asked) :
    obstacle of endpoint state found = none ∧ id = of ∧ asked = [] := by
  obtain ⟨earlier, family, targets, deadline, later, hcalls, rfl⟩ := h
  cases found with
  | error fault => simp [connects] at hcalls
  | ok found =>
    simp only [connects] at hcalls
    cases earlier with
    | nil =>
      obtain ⟨hconnect, hrest⟩ := List.cons.inj hcalls
      obtain ⟨rfl, -, -, -, hreach⟩ := Call.connect.inj hconnect
      rw [hreach] at hrest
      obtain rfl : [] = later := hrest
      exact ⟨by simp only [obstacle, hreach], rfl, rfl⟩
    | cons first earlier =>
      obtain ⟨-, hend⟩ := List.cons.inj hcalls
      split at hend
      · have hmem : Call.connect id family targets deadline .reached ∈ [.shutdown of, .close of] := by
          rw [hend]
          exact List.mem_append_right _ List.mem_cons_self
        simp at hmem
      · simp at hend

theorem connects_follows (h : obstacle of endpoint state found = none) :
    Follows of (connects of endpoint state found) [] := by
  cases found with
  | error fault => cases h
  | ok found =>
    simp only [obstacle] at h
    split at h
    · rename_i hreach
      simp only [connects, hreach]
      exact ⟨[], _, _, _, [], rfl, rfl⟩
    · cases h

end SocketNetwork

/-- The socket was used for a while, then shut down and closed, and has been left alone since. -/
def Asked.Parted (asked : List Asked) : Prop :=
  ∃ talk, asked = talk ++ [.shutdown, .close] ∧ ∀ one ∈ talk, one.talk = true

namespace Wire

open Call

variable [Sockets τ] {state : τ} {calls : List Call} {wire next : Wire (SocketNetwork (Recorded τ))} {id : Nat}

/-- Sockets are those of the streams that were opened. Those of open streams are open and have been used only;
those of the others have been parted with. -/
structure Tended (state : τ) (calls : List Call) (wire : Wire (SocketNetwork (Recorded τ))) : Prop where
  numbered : wire.Numbered
  made : Recorded.Made calls ⟨state, []⟩ wire.state.state
  streams : ∀ id, id < wire.opened ↔ ∃ asked, Follows id calls asked
  inUse : ∀ id ∈ wire.live, wire.state.isOpen id = true ∧
    ∀ asked, Follows id calls asked → ∀ one ∈ asked, one.talk = true
  parted : ∀ id < wire.opened, id ∉ wire.live → ∀ asked, Follows id calls asked → Asked.Parted asked
  cleared : Cleared calls

theorem start_tended (state : τ) : Tended state [] (start (SocketNetwork.start ⟨state, []⟩)) := by
  have hnone (id : Nat) (asked : List Asked) : ¬ Follows id [] asked := by
    intro h
    obtain ⟨call, hm, -⟩ := h.connect
    cases hm
  refine ⟨?_, .refl _, ?_, ?_, ?_, ?_⟩
  · intro event hm
    cases hm
  · intro id
    exact iff_of_false (Nat.not_lt_zero id) fun ⟨asked, h⟩ => hnone id asked h
  · intro id hm
    cases hm
  · intro id hid
    cases hid
  · intro earlier id family targets deadline fault later h
    simp at h

theorem mem_close_live [Network σ] {wire : Wire σ} {id other : Nat} :
    other ∈ (wire.close id).live ↔ other ∈ wire.live ∧ other ≠ id := by
  rw [mem_live, mem_live]
  show other < wire.opened ∧ (∀ event ∈ .closed id :: wire.journal, event.closes other = false) ↔ _
  rw [List.forall_mem_cons, and_left_comm, and_comm, Event.closes, decide_eq_false_iff_not, ne_comm]

/-- Calls that make no socket leave every socket that there is with what is asked of it by them. -/
theorem Tended.streams_plain {more : List Call} (h : Tended state calls wire) (hp : Plain more) (id : Nat) :
    id < wire.opened ↔ ∃ asked, Follows id (calls ++ more) asked := by
  rw [h.streams]
  constructor
  · rintro ⟨asked, hf⟩
    exact ⟨_, hf.append more⟩
  · rintro ⟨asked, hf⟩
    obtain ⟨before, hf, -⟩ := hp.follows hf
    exact ⟨before, hf⟩

theorem Tended.talk {call : Call} {asked : Asked} (h : Tended state calls wire) (hid : id ∈ wire.live)
    (ht : Talks id wire next) (hsockets : next.state.sockets = (wire.state.arm id).sockets)
    (hmade : Recorded.Made [call] wire.state.state next.state.state)
    (hasks : ∀ other, call.asks other = if id = other then some asked else none) (htalk : asked.talk = true) :
    Tended state (calls ++ [call]) next := by
  have hplain : Plain [call] := by
    intro one hm other
    rw [List.mem_singleton.mp hm, hasks]
    split
    · intro he
      obtain rfl := Option.some.inj he
      cases htalk
    · exact fun he => nomatch he
  -- the call is asked of this socket and of no other
  have hfollows {other : Nat} {after : List Asked} (hf : Follows other (calls ++ [call]) after) :
      ∃ before, Follows other calls before ∧ after = before ++ if id = other then [asked] else [] := by
    obtain ⟨before, hbefore, rfl⟩ := hplain.follows hf
    refine ⟨before, hbefore, ?_⟩
    by_cases hsame : id = other <;> simp [hasks, hsame]
  refine ⟨ht.numbered h.numbered (mem_live.mp hid).1, h.made.trans hmade, ?_, ?_, ?_,
    h.cleared.append hplain.cleared⟩
  · rw [ht.opened]
    exact h.streams_plain hplain
  · intro other hm
    rw [ht.live] at hm
    obtain ⟨hopen, hused⟩ := h.inUse other hm
    refine ⟨?_, ?_⟩
    · rw [SocketNetwork.isOpen_congr hsockets, SocketNetwork.isOpen_arm]
      exact hopen
    · intro after hf one hone
      obtain ⟨before, hbefore, rfl⟩ := hfollows hf
      rcases List.mem_append.mp hone with hone | hone
      · exact hused before hbefore one hone
      · split at hone
        · rw [List.mem_singleton.mp hone]
          exact htalk
        · cases hone
  · intro other hother hm after hf
    rw [ht.opened] at hother
    rw [ht.live] at hm
    have hne : id ≠ other := fun he => hm (he ▸ hid)
    obtain ⟨before, hbefore, rfl⟩ := hfollows hf
    rw [if_neg hne, List.append_nil]
    exact h.parted other hother hm before hbefore

/-- All sockets that were ever connected are those of the streams, and every one of them has been parted with. -/
structure Settled (state : τ) (calls : List Call) (wire : Wire (SocketNetwork (Recorded τ))) : Prop where
  made : Recorded.Made calls ⟨state, []⟩ wire.state.state
  streams : ∀ id, id < wire.opened ↔ ∃ asked, Follows id calls asked
  parted : ∀ id asked, Follows id calls asked → Asked.Parted asked
  cleared : Cleared calls

theorem Tended.settled (h : Tended state calls wire) (hlive : wire.live = []) : Settled state calls wire := by
  refine ⟨h.made, h.streams, ?_, h.cleared⟩
  intro id asked hf
  refine h.parted id ((h.streams id).mpr ⟨asked, hf⟩) ?_ asked hf
  rw [hlive]
  exact List.not_mem_nil

theorem Tended.read (h : Tended state calls wire) (hid : id ∈ wire.live) (room : Nat) :
    ∃ more, Tended state (calls ++ more) (wire.read id room).2 :=
  ⟨_, h.talk hid (Brings.once rfl).talks rfl (wire.state.read_made id room) (fun _ => rfl) rfl⟩

theorem Tended.write (h : Tended state calls wire) (hid : id ∈ wire.live) (bytes : Bytes) :
    ∃ more, Tended state (calls ++ more) (wire.write id bytes).2 :=
  ⟨_, h.talk hid (write_talks rfl) rfl (wire.state.write_made id bytes) (fun _ => rfl) rfl⟩

theorem close_state {wire : Wire (SocketNetwork τ)} : (wire.close id).state = wire.state.close id :=
  SocketNetwork.close_close

theorem Tended.close (h : Tended state calls wire) (hid : id ∈ wire.live) :
    Tended state (calls ++ [.shutdown id, .close id]) (wire.close id) := by
  obtain ⟨hopen, hused⟩ := h.inUse id hid
  have hfollows {other : Nat} {after : List Asked} (hf : Follows other (calls ++ [.shutdown id, .close id]) after) :
      ∃ before, Follows other calls before ∧ after = before ++ if id = other then [.shutdown, .close] else [] := by
    obtain ⟨before, hbefore, rfl⟩ := (plain_end id).follows hf
    refine ⟨before, hbefore, ?_⟩
    by_cases hsame : id = other <;> simp [asks, hsame]
  refine ⟨close_numbered h.numbered (mem_live.mp hid).1, ?_, ?_, ?_, ?_, h.cleared.append (plain_end id).cleared⟩
  · rw [close_state]
    exact h.made.trans (SocketNetwork.close_made hopen)
  · exact h.streams_plain (plain_end id)
  · intro other hm
    obtain ⟨hm, hne⟩ := mem_close_live.mp hm
    obtain ⟨hopen', hused'⟩ := h.inUse other hm
    refine ⟨by rw [close_state, SocketNetwork.isOpen_close, hopen']; simpa using hne, ?_⟩
    intro after hf
    obtain ⟨before, hbefore, rfl⟩ := hfollows hf
    rw [if_neg hne.symm, List.append_nil]
    exact hused' before hbefore
  -- this socket has just been parted with; any other that is gone had been before
  · intro other hother hm after hf
    obtain ⟨before, hbefore, rfl⟩ := hfollows hf
    by_cases hsame : id = other
    · subst hsame
      rw [if_pos rfl]
      exact ⟨before, rfl, hused before hbefore⟩
    · rw [if_neg hsame, List.append_nil]
      have hgone : other ∉ wire.live := fun hlive => hm (mem_close_live.mpr ⟨hlive, Ne.symm hsame⟩)
      exact h.parted other hother hgone before hbefore

section Dial

variable {endpoint : Endpoint} {options : DialOptions} {began : Int64} {found : Except Fault (List Bytes × Int64)}
variable {last : Recorded τ} {asked : List Asked}

/-- A dial adds at most one socket, of which nothing has been asked, and asks nothing of the others. -/
theorem Tended.follows_dial (h : Tended state calls wire)
    (hf : Follows id (calls ++ (SocketNetwork.lookups endpoint options began ++
      SocketNetwork.connects wire.opened endpoint last found)) asked) :
    (id < wire.opened ∧ Follows id calls asked) ∨
      (SocketNetwork.obstacle wire.opened endpoint last found = none ∧ id = wire.opened ∧ asked = []) := by
  rcases follows_append hf with ⟨before, hbefore, rfl⟩ | hf
  · have hlt := (h.streams id).mpr ⟨before, hbefore⟩
    rw [SocketNetwork.asks_dial _ _ _ _ _ (Nat.ne_of_lt hlt), List.append_nil]
    exact .inl ⟨hlt, hbefore⟩
  · rcases follows_append hf with ⟨before, hf, -⟩ | hf
    · obtain ⟨call, hm, hc⟩ := hf.connect
      exact absurd hc (SocketNetwork.plain_lookups _ _ _ call hm id)
    · exact .inr (SocketNetwork.follows_connects hf)

theorem Tended.dial_follows (h : Tended state calls wire) (more : List Call) (hid : id < wire.opened) :
    ∃ asked, Follows id (calls ++ more) asked := by
  obtain ⟨asked, hf⟩ := (h.streams id).mp hid
  exact ⟨_, hf.append more⟩

theorem Tended.dial_refused {answer : Answer (Option Nat)} {fault : Fault} (h : Tended state calls wire)
    (hd : wire.dial endpoint options = (answer, next)) (hanswer : ∀ id, answer ≠ .ok (some id))
    (dials : SocketNetwork.Dials wire.opened endpoint options wire.state (some fault) next.state) :
    ∃ more, Tended state (calls ++ more) next := by
  obtain ⟨hopened, -⟩ := dial_nothing hd hanswer
  obtain ⟨hn, hlive, -⟩ := dial_nothing_accounted h.numbered hd hanswer
  obtain ⟨found, last, -, hobstacle, hmade⟩ := dials.made
  have hold {id : Nat} {asked : List Asked} (hf : Follows id
      (calls ++ (SocketNetwork.lookups endpoint options (Sockets.steady wire.state.state) ++
        SocketNetwork.connects wire.opened endpoint last found)) asked) :
      id < wire.opened ∧ Follows id calls asked := by
    rcases h.follows_dial hf with hold | ⟨hnone, -⟩
    · exact hold
    · rw [hobstacle] at hnone
      cases hnone
  refine ⟨_, hn, h.made.trans hmade, ?_, ?_, ?_, h.cleared.append SocketNetwork.cleared_dial⟩
  · intro id
    rw [hopened]
    exact ⟨h.dial_follows _, fun ⟨_, hf⟩ => (hold hf).1⟩
  · intro id hid
    obtain ⟨hopen, hused⟩ := h.inUse id (hlive ▸ hid)
    refine ⟨(SocketNetwork.isOpen_congr dials.refused_sockets).trans hopen, ?_⟩
    intro asked hf
    exact hused asked (hold hf).2
  · intro id _ hid asked hf
    obtain ⟨hlt, hf⟩ := hold hf
    exact h.parted id hlt (hlive ▸ hid) asked hf

theorem Tended.dial_opened (h : Tended state calls wire)
    (hd : wire.dial endpoint options = (.ok (some id), next))
    (dials : SocketNetwork.Dials wire.opened endpoint options wire.state none next.state) :
    ∃ more, Tended state (calls ++ more) next := by
  obtain ⟨rfl, ho, hj, hlive⟩ := dial_stream h.numbered hd
  obtain ⟨found, last, -, hobstacle, hmade⟩ := dials.made
  refine ⟨_, dial_numbered h.numbered hj (ho ▸ Nat.le_succ _), h.made.trans hmade, ?_, ?_, ?_,
    h.cleared.append SocketNetwork.cleared_dial⟩
  · intro id
    rw [ho]
    constructor
    · intro hlt
      rcases Nat.lt_succ_iff_lt_or_eq.mp hlt with hlt | rfl
      · exact h.dial_follows _ hlt
      · exact ⟨[], ((SocketNetwork.connects_follows hobstacle).prepend _).prepend _⟩
    · rintro ⟨asked, hf⟩
      rcases h.follows_dial hf with ⟨hlt, -⟩ | ⟨-, rfl, -⟩
      · exact Nat.lt_succ_of_lt hlt
      · exact Nat.lt_succ_self _
  · intro id hid
    rw [hlive, List.mem_append, List.mem_singleton] at hid
    rw [dials.opened_isOpen]
    refine ⟨?_, ?_⟩
    · rcases hid with hid | rfl
      · rw [(h.inUse id hid).1, Bool.or_true]
      · simp
    · intro asked hf
      rcases h.follows_dial hf with ⟨hlt, hf⟩ | ⟨-, -, rfl⟩
      · have hid : id ∈ wire.live := hid.resolve_right (Nat.ne_of_lt hlt)
        exact (h.inUse id hid).2 asked hf
      · exact fun one hm => nomatch hm -- nothing has been asked of the new socket
  · intro id _ hid asked hf
    rw [hlive, List.mem_append, List.mem_singleton, not_or] at hid
    rcases h.follows_dial hf with ⟨hlt, hf⟩ | ⟨-, he, -⟩
    · exact h.parted id hlt hid.1 asked hf
    · exact absurd he hid.2

theorem Tended.dial (h : Tended state calls wire) (endpoint : Endpoint) (options : DialOptions) :
    ∃ more, Tended state (calls ++ more) (wire.dial endpoint options).2 := by
  have ho := wire.dial_opens endpoint options
  generalize hd : wire.dial endpoint options = dialed at ho ⊢
  cases ho with
  | refused dials => exact h.dial_refused hd (by simp) dials
  | opened dials => exact h.dial_opened hd dials

end Dial

theorem Tended.turn (h : Tended state calls wire) (hturn : wire.Turn next) :
    ∃ more, Tended state (calls ++ more) next := by
  cases hturn with
  | dial endpoint options => exact h.dial endpoint options
  | read hid room => exact h.read hid room
  | write hid bytes => exact h.write hid bytes
  | close hid => exact ⟨_, h.close hid⟩

theorem settled_of_orderly (h : Orderly (start (SocketNetwork.start ⟨state, []⟩)) wire) (hlive : wire.live = []) :
    ∃ calls, Settled state calls wire := by
  have hkept : ∃ calls, Tended state calls wire := by
    refine @Orderly.keeps _ _ _ _ (fun wire => ∃ calls, Tended state calls wire) h ⟨[], start_tended state⟩ ?_
    rintro wire next ⟨calls, ht⟩ hturn
    obtain ⟨more, hnext⟩ := ht.turn hturn
    exact ⟨_, hnext⟩
  exact hkept.imp fun _ ht => ht.settled hlive

end Wire

variable [Network σ]

/-- The end of a client. It is closed, unless it has been, and then its pools are destroyed, which closes each of
them. -/
def Client.destroy (client : Client) (wire : Wire σ) : Wire σ :=
  let (_, client, wire) := client.close wire
  (client.router.closeAll wire).2

theorem Running.Accounted.destroyed {running : Running σ} {room : Nat} (hr : running.Accounted room) :
    Wire.Orderly running.wire (running.client.destroy running.wire) ∧
      (running.client.destroy running.wire).live = [] := by
  have hclosed := hr.close
  have hgone : running.client.destroy running.wire = (running.step .close).engine.close.wire := rfl
  rw [hgone]
  exact ⟨(hr.orderly [.close]).trans (hclosed.engine.move_orderly .close), hclosed.engine.close_live⟩

theorem Pool.close_capacity (pool : Pool) (wire : Wire σ) : (pool.close wire).1.capacity = none := by
  unfold close
  split
  · assumption
  · rfl

namespace Custody

variable {custody : Custody σ} {acts : List Act}

/-- What destroys a pool and what its holders have in hand, in any order. -/
def Destroys (custody : Custody σ) (acts : List Act) : Prop :=
  acts.Perm (.close :: custody.held.map fun (holder, _) => .drop holder)

theorem acts_held (h : ∀ act ∈ acts, act = .close ∨ ∃ holder, act = .drop holder) :
    ∀ entry ∈ (custody.acts acts).held, entry ∈ custody.held ∧ Act.drop entry.1 ∉ acts := by
  induction acts generalizing custody with
  | nil => exact fun entry hm => ⟨hm, List.not_mem_nil⟩
  | cons act acts ih =>
    obtain ⟨hfirst, hrest⟩ := List.forall_mem_cons.mp h
    intro entry hm
    obtain ⟨hheld, hnot⟩ := ih hrest entry hm
    rw [List.mem_cons, not_or]
    rcases hfirst with rfl | ⟨holder, rfl⟩
    · exact ⟨hheld, by simp, hnot⟩
    · simp only [act, drop_held, others, List.mem_filter, decide_eq_true_eq] at hheld
      refine ⟨hheld.1, ?_, hnot⟩
      intro he
      exact hheld.2 (Act.drop.inj he)

/-- A pool that is closed by one of them is closed in the end. -/
theorem acts_closed (h : ∀ act ∈ acts, act = .close ∨ ∃ holder, act = .drop holder)
    (hc : custody.pool.capacity = none ∨ Act.close ∈ acts) :
    (custody.acts acts).pool.capacity = none := by
  induction acts generalizing custody with
  | nil =>
    rcases hc with hc | hc
    · exact hc
    · cases hc
  | cons act acts ih =>
    obtain ⟨hfirst, hrest⟩ := List.forall_mem_cons.mp h
    apply ih hrest
    rcases hfirst with rfl | ⟨holder, rfl⟩
    · left
      exact Pool.close_capacity custody.pool custody.wire
    · rcases hc with hc | hc
      · left
        show (custody.drop holder).pool.capacity = none
        rw [drop_pool]
        exact hc
      · right
        simpa using hc

theorem Owned.destroyed (ho : custody.Owned) (h : custody.Destroys acts) :
    (custody.acts acts).wire.live = [] := by
  have hends : ∀ act ∈ acts, act = .close ∨ ∃ holder, act = .drop holder := by
    intro act hm
    have hall := (List.Perm.mem_iff h).mp hm
    simp only [List.mem_cons, List.mem_map] at hall
    rcases hall with rfl | ⟨entry, -, rfl⟩
    · exact .inl rfl
    · exact .inr ⟨_, rfl⟩
  have hlast := (ho.acts acts).1
  have hidle : (custody.acts acts).pool.idle = [] :=
    hlast.closed (acts_closed hends (.inr ((List.Perm.mem_iff h).mpr List.mem_cons_self)))
  have hheld : (custody.acts acts).held = [] := by
    rw [List.eq_nil_iff_forall_not_mem]
    intro entry hm
    obtain ⟨hbefore, hnot⟩ := acts_held hends entry hm
    apply hnot
    rw [List.Perm.mem_iff h]
    exact List.mem_cons_of_mem _ (List.mem_map.mpr ⟨entry, hbefore, rfl⟩)
  have hlive := hlast.places.live
  rw [Pool.streams, inHand, hidle, hheld] at hlive
  exact hlive.eq_nil

end Custody

/-- Every socket that is ever connected is shut down once and closed once, after all that it was used for, and not
asked for anything later. It is so for a client, at any time of its life at which it is destroyed, and for a pool,
whatever the holders of its connections do before all is destroyed. -/
theorem sockets_closed_once [Sockets τ] (state : τ) :
    let wire := Wire.start (SocketNetwork.start (Recorded.mk state []))
    (∀ (settings : Settings) (client : Client), Client.create settings wire = .ok client →
      ∀ (verbs : List Verb) (steps : List Step),
        let last := (Running.verbs verbs ⟨client, wire⟩).steps steps
        ∃ calls, (last.client.destroy last.wire).Settled state calls) ∧
    ∀ (endpoint : Endpoint) (options : DialOptions) (idle : Int) (acts final : List Act),
      let last := Custody.acts acts ⟨Pool.start endpoint options idle, wire, []⟩
      last.Destroys final → ∃ calls, (last.acts final).wire.Settled state calls := by
  intro wire
  refine ⟨?_, ?_⟩
  · intro settings client hcreated verbs steps last
    have hstart := Running.create_accounted hcreated
    have hlast := Running.reached_accounted hcreated verbs steps
    have horderly := hstart.orderly (verbs.flatMap Verb.steps ++ steps)
    rw [Running.steps_append, ← Running.verbs_eq] at horderly
    obtain ⟨hend, hlive⟩ := hlast.destroyed
    exact Wire.settled_of_orderly (horderly.trans hend) hlive
  · intro endpoint options idle acts final last hfinal
    have hstart := Custody.start_owned wire.state endpoint options idle
    have hlast := (hstart.acts acts).1
    exact Wire.settled_of_orderly ((hstart.acts_orderly acts).trans (hlast.acts_orderly final))
      (hlast.destroyed hfinal)

/-- A client that is closed and then destroyed, and a pool of which one connection is idle when it is closed and
another is in hand until later. -/
theorem idle_and_held_parted :
    let script : Script := { entries := [{ stream := ⟨[⟨ascii "END\r\n", none⟩], []⟩ }] }
    let wire := Wire.start (SocketNetwork.start (Recorded.mk script []))
    let last := (Running.verbs [.single (.call (.getItem (ascii "k")))] ⟨soloClient, wire⟩).steps [.close]
    let pool := Custody.acts [.acquire 0, .acquire 1, .release 0]
      ⟨Pool.start (.unix (ascii "/s")) ⟨1000, 300, .system⟩ 1, wire, []⟩
    Client.create soloSettings wire = .ok soloClient ∧
      (∃ calls, (last.client.destroy last.wire).Settled script calls) ∧
      (last.client.destroy last.wire).state.state.calls.reverse =
        [.lookup .system (ascii "a") (ascii "11211") (some 5000000000),
          .connect 0 .tcp [ascii "a/11211"] (.after 4999) .reached,
          .write 0 (ascii "get k\r\n") .never, .read 0 4096 .never, .shutdown 0, .close 0] ∧
      pool.Destroys [.close, .drop 1] ∧ (∃ calls, (pool.acts [.close, .drop 1]).wire.Settled script calls) ∧
      (pool.acts [.close, .drop 1]).wire.opened = 2 := by
  intro script wire last pool
  obtain ⟨hclient, hpool⟩ := sockets_closed_once script
  have hdestroys : pool.Destroys [.close, .drop 1] := .refl _
  refine ⟨solo_created wire, hclient _ _ (solo_created wire) _ _, ?_, hdestroys, hpool _ _ _ _ _ hdestroys, rfl⟩
  decide +kernel

end CacheClient
