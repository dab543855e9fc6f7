import CacheClient.Proofs.Admission
import CacheClient.Proofs.Ownership

namespace CacheClient

namespace Event

def isDial : Event → Bool
  | .dialed .. => true
  | _ => false

def isWrite : Event → Bool
  | .wrote .. => true
  | _ => false

def isTalk : Event → Bool
  | .wrote .. | .read .. => true
  | _ => false

theorem split_opening {opening rest first later : List Event} {event : Event}
    (ho : ∀ other ∈ opening, other.isTalk = false) (ht : event.isTalk = true)
    (he : opening ++ rest = first ++ event :: later) :
    ∃ before, first = opening ++ before ∧ rest = before ++ event :: later := by
  induction opening generalizing first with
  | nil => exact ⟨first, rfl, he⟩
  | cons head opening ih =>
    cases first with
    | nil =>
      obtain ⟨rfl, -⟩ := List.cons.inj he
      rw [ho head List.mem_cons_self] at ht
      cases ht
    | cons other first =>
      obtain ⟨rfl, htail⟩ := List.cons.inj he
      obtain ⟨before, rfl, hrest⟩ := ih (fun other hm => ho other (List.mem_cons_of_mem _ hm)) htail
      exact ⟨before, rfl, hrest⟩

theorem split_closing {talk closing first later : List Event} {event : Event}
    (hc : ∀ other ∈ closing, other.isTalk = false) (ht : event.isTalk = true)
    (he : talk ++ closing = first ++ event :: later) :
    ∃ after, talk = first ++ event :: after ∧ later = after ++ closing := by
  induction talk generalizing first with
  | nil =>
    rw [List.nil_append] at he
    rw [hc event (he ▸ List.mem_append_right first List.mem_cons_self)] at ht
    cases ht
  | cons head talk ih =>
    cases first with
    | nil =>
      obtain ⟨rfl, rfl⟩ := List.cons.inj he
      exact ⟨talk, rfl, rfl⟩
    | cons other first =>
      obtain ⟨rfl, htail⟩ := List.cons.inj he
      obtain ⟨after, rfl, hlater⟩ := ih htail
      exact ⟨after, rfl, hlater⟩

section Talk

variable {id : Nat} {text : Bytes} {answer : Answer α} {events first later : List Event} {event : Event}

theorem isTalk_of_reads (h : event.reads id = true) : event.isTalk = true := by
  cases event with
  | read => rfl
  | _ => cases h

theorem isTalk_of_fails {failure : Failure} (h : event.failure? = some failure) :
    event.isTalk = true := by
  cases event with
  | wrote | read => rfl
  | _ => cases h

theorem Talk.on_stream (h : Talk id text answer events) :
    ∀ event ∈ events, (event.reads id || event.writes id) = true := by
  cases h with
  | unsent => simp [writes]
  | sent hr =>
    intro event hm
    rcases List.mem_cons.mp hm with rfl | hm
    · simp [writes]
    · simp [hr.reads event hm]

theorem Talk.concerns (h : Talk id text answer events) :
    ∀ event ∈ events, event.concerns id = true := by
  intro event hm
  rw [Event.concerns, h.on_stream event hm, Bool.true_or]

theorem Talk.no_dial (h : Talk id text answer events) : events.filter isDial = [] := by
  rw [List.filter_eq_nil_iff]
  intro event hm
  have htalk := h.on_stream event hm
  cases event with
  | dialed => cases htalk
  | _ => simp [isDial]

theorem Talk.writes (h : Talk id text answer events) :
    ∃ fault, events.filter isWrite = [.wrote id text fault] := by
  cases h with
  | unsent fault => exact ⟨some fault, rfl⟩
  | @sent _ _ events hr =>
    have hreads : events.filter isWrite = [] := by
      rw [List.filter_eq_nil_iff]
      intro event hm
      have hread := hr.reads event hm
      cases event with
      | wrote => cases hread
      | _ => simp [isWrite]
    refine ⟨none, ?_⟩
    rw [List.filter_cons_of_pos rfl, hreads]

theorem Talk.read_after_write (h : Talk id text answer (first ++ event :: later))
    (hr : event.reads id = true) : .wrote id text none ∈ first := by
  generalize he : first ++ event :: later = events at h
  cases h with
  | unsent fault =>
    cases first with
    | nil =>
      obtain ⟨rfl, -⟩ := List.cons.inj he
      cases hr
    | cons => simp at he
  | sent =>
    cases first with
    | nil =>
      obtain ⟨rfl, -⟩ := List.cons.inj he
      cases hr
    | cons head first =>
      obtain ⟨rfl, -⟩ := List.cons.inj he
      exact List.mem_cons_self

theorem Talk.fails_last {failure : Failure} (h : Talk id text answer (first ++ event :: later))
    (hf : event.failure? = some failure) : later = [] ∧ answer = .error failure := by
  generalize he : first ++ event :: later = events at h
  cases h with
  | unsent fault ends =>
    cases first with
    | nil =>
      obtain ⟨rfl, rfl⟩ := List.cons.inj he
      obtain rfl := Option.some.inj hf
      exact ⟨rfl, ends⟩
    | cons => simp at he
  | sent hr ends =>
    cases first with
    | nil =>
      obtain ⟨rfl, rfl⟩ := List.cons.inj he
      cases hf
    | cons head first =>
      obtain ⟨-, rfl⟩ := List.cons.inj he
      obtain ⟨hlast, fault, hb, rfl⟩ := hr.failed first event later failure rfl hf
      exact ⟨hlast, ends fault hb⟩

end Talk

end Event

namespace Pool

def unopened : Answer (Option Nat) → Failure
  | .error failure => dialFailure failure
  | .ok _ => Fault.sending .notConnected

variable [Network σ] {pool rest changed : Pool} {wire next : Wire σ} {id : Nat} {link : Link σ}
variable {command : Command}

/-- All that an exchange on a pool can add to the journal, by the stream that it runs on. -/
inductive Transcript (command : Command) (pool : Pool) (wire : Wire σ)
    (answer : Answer command.Value) : Option Nat → List Event → Prop where
  | silent (ends : answer = .error .closed) : Transcript command pool wire answer none []
  | unopened (ends : answer = .error (unopened (wire.dial pool.endpoint pool.options).1)) :
      Transcript command pool wire answer none [.dialed pool.endpoint pool.options none]
  | talked {id : Nat} {opening talk closing : List Event}
      (opens : opening = [] ∨ opening = [.dialed pool.endpoint pool.options (some id)])
      (talks : Event.Talk id command.text answer talk)
      (closes : closing = [] ∨ closing = [.closed id]) :
      Transcript command pool wire answer (some id) (opening ++ (talk ++ closing))

theorem Lends.opening (h : pool.Lends wire id link rest) (hn : wire.Numbered) :
    ∃ opening, link.wire.journal = opening.reverse ++ wire.journal ∧
      (opening = [] ∨ opening = [.dialed pool.endpoint pool.options (some id)]) := by
  cases h with
  | reused => exact ⟨[], rfl, .inl rfl⟩
  | dialed _ _ hd =>
    obtain ⟨-, -, hj, -⟩ := Wire.dial_stream hn hd
    exact ⟨[.dialed pool.endpoint pool.options (some id)], hj, .inr rfl⟩

theorem Lends.talk {after : Link σ} {answer : Answer command.Value}
    (h : pool.Lends wire id link rest) (hp : pool.Sound) (hn : wire.Numbered)
    (he : link.exchange command = (answer, after)) :
    ∃ opening talk, after.wire.journal = (opening ++ talk).reverse ++ wire.journal ∧
      (opening = [] ∨ opening = [.dialed pool.endpoint pool.options (some id)]) ∧
      Event.Talk id command.text answer talk := by
  obtain ⟨hs, hr⟩ := h.connection hp
  obtain ⟨opening, hj, hopening⟩ := h.opening hn
  obtain ⟨talk, hj', htalk, -⟩ := Link.exchange_talk hs he
  rw [hr.unsent, List.nil_append] at htalk
  refine ⟨opening, talk, ?_, hopening, htalk⟩
  rw [hj', hj, List.reverse_append, List.append_assoc]

theorem Ran.transcript {answer : Answer command.Value}
    (h : Ran command pool wire answer changed next) (hp : pool.Sound) (hn : wire.Numbered) :
    ∃ events, next.journal = events.reverse ++ wire.journal ∧
      Transcript command pool wire answer (pool.streamFor wire) events := by
  cases h with
  | closed hc =>
    have hs : pool.streamFor wire = none := by simp [streamFor, acquire, hc]
    rw [hs]
    exact ⟨[], rfl, .silent rfl⟩
  | refused hc hi hd =>
    have hs : pool.streamFor wire = none := by simp [streamFor, acquire, hc, hi, hd, Except.map]
    obtain ⟨-, hj⟩ := Wire.dial_nothing hd (by simp)
    rw [hs]
    exact ⟨[_], hj, .unopened (by rw [hd]; rfl)⟩
  | hollow hc hi hd =>
    have hs : pool.streamFor wire = none := by
      simp [streamFor, acquire, hc, hi, hd, Except.map, Connection.fresh]
    obtain ⟨-, hj⟩ := Wire.dial_nothing hd (by simp)
    rw [hs]
    exact ⟨[_], hj, .unopened (by rw [hd]; rfl)⟩
  | kept hlend he =>
    obtain ⟨opening, talk, hj, hopening, htalk⟩ := hlend.talk hp hn he
    rw [hlend.streamFor hp]
    exact ⟨opening ++ (talk ++ []), by simpa using hj, .talked hopening htalk (.inl rfl)⟩
  | @dropped _ id _ _ _ hlend he =>
    obtain ⟨opening, talk, hj, hopening, htalk⟩ := hlend.talk hp hn he
    rw [hlend.streamFor hp]
    refine ⟨opening ++ (talk ++ [.closed id]), ?_, .talked hopening htalk (.inr rfl)⟩
    simp [Wire.close, hj]

section Transcript

variable {answer : Answer command.Value} {stream : Option Nat} {events first later : List Event}
variable {event : Event}

theorem Transcript.dials (h : Transcript command pool wire answer stream events) :
    (events.filter Event.isDial).length ≤ 1 := by
  cases h with
  | silent => exact Nat.zero_le 1
  | unopened => exact Nat.le_refl 1
  | talked ho ht hc =>
    rcases ho with rfl | rfl <;> rcases hc with rfl | rfl <;>
      simp [List.filter_cons, ht.no_dial, Event.isDial]

theorem Transcript.one_stream (h : Transcript command pool wire answer stream events) :
    ∃ id, ∀ event ∈ events, (event.isDial = true ∨ event.concerns id = true) ∧
      ∀ endpoint options other, event = .dialed endpoint options (some other) → other = id := by
  cases h with
  | silent => exact ⟨0, by simp⟩
  | unopened => exact ⟨0, by simp [Event.isDial]⟩
  | @talked id _ talk _ ho ht hc =>
    have htalk : ∀ event ∈ talk, (event.isDial = true ∨ event.concerns id = true) ∧
        ∀ endpoint options other, event = .dialed endpoint options (some other) → other = id := by
      intro event hm
      refine ⟨.inr (ht.concerns event hm), ?_⟩
      rintro endpoint options other rfl
      cases ht.on_stream _ hm
    refine ⟨id, ?_⟩
    intro event hm
    rcases List.mem_append.mp hm with hm | hm
    · rcases ho with rfl | rfl
      · cases hm
      · obtain rfl := List.mem_singleton.mp hm
        exact ⟨.inl rfl, by simp⟩
    · rcases List.mem_append.mp hm with hm | hm
      · exact htalk event hm
      · rcases hc with rfl | rfl
        · cases hm
        · obtain rfl := List.mem_singleton.mp hm
          exact ⟨.inr (by simp), by simp⟩

theorem Transcript.writes (h : Transcript command pool wire answer stream events) :
    events.filter Event.isWrite = [] ∨
      ∃ id fault, events.filter Event.isWrite = [.wrote id command.text fault] := by
  cases h with
  | silent => exact .inl rfl
  | unopened => exact .inl rfl
  | @talked id _ _ _ ho ht hc =>
    obtain ⟨fault, hw⟩ := ht.writes
    refine .inr ⟨id, fault, ?_⟩
    rcases ho with rfl | rfl <;> rcases hc with rfl | rfl <;>
      simp [hw, Event.isWrite]

theorem Transcript.split (h : Transcript command pool wire answer stream (first ++ event :: later))
    (ht : event.isTalk = true) : ∃ id before after,
      Event.Talk id command.text answer (before ++ event :: after) ∧ (∀ other ∈ before, other ∈ first) ∧
      (later = after ∨ later = after ++ [.closed id]) := by
  generalize he : first ++ event :: later = events at h
  cases h with
  | silent => simp at he
  | unopened =>
    have hm : event ∈ [Event.dialed pool.endpoint pool.options none] :=
      he ▸ List.mem_append_right first List.mem_cons_self
    obtain rfl := List.mem_singleton.mp hm
    cases ht
  | @talked id opening talk closing ho htalk hc =>
    have hopening : ∀ other ∈ opening, other.isTalk = false := by
      rcases ho with rfl | rfl <;> simp [Event.isTalk]
    have hclosing : ∀ other ∈ closing, other.isTalk = false := by
      rcases hc with rfl | rfl <;> simp [Event.isTalk]
    obtain ⟨before, rfl, hrest⟩ := Event.split_opening hopening ht he.symm
    obtain ⟨after, rfl, rfl⟩ := Event.split_closing hclosing ht hrest
    refine ⟨id, before, after, htalk, fun other hm => List.mem_append_right opening hm, ?_⟩
    rcases hc with rfl | rfl
    · exact .inl (List.append_nil after)
    · exact .inr rfl

theorem Transcript.read_after_write
    (h : Transcript command pool wire answer stream (first ++ event :: later))
    (hr : event.reads id = true) : .wrote id command.text none ∈ first := by
  obtain ⟨other, before, after, htalk, hbefore, -⟩ := h.split (Event.isTalk_of_reads hr)
  have hid : event.concerns id = true := by simp [Event.concerns, hr]
  have hother := htalk.concerns event (List.mem_append_right before List.mem_cons_self)
  obtain rfl := Event.concerns_eq hid hother
  exact hbefore _ (htalk.read_after_write hr)

theorem Transcript.fails_last {failure : Failure}
    (h : Transcript command pool wire answer stream (first ++ event :: later))
    (hf : event.failure? = some failure) :
    answer = .error failure ∧ ∀ other ∈ later, ∃ id, other = .closed id := by
  obtain ⟨id, before, after, htalk, -, hlater⟩ := h.split (Event.isTalk_of_fails hf)
  obtain ⟨rfl, hanswer⟩ := htalk.fails_last hf
  refine ⟨hanswer, ?_⟩
  rcases hlater with rfl | rfl
  · simp
  · exact fun other hm => ⟨id, List.mem_singleton.mp hm⟩

theorem Transcript.undialed {endpoint : Endpoint} {options : DialOptions}
    (h : Transcript command pool wire answer stream events)
    (hm : .dialed endpoint options none ∈ events) : events = [.dialed endpoint options none] ∧
      answer = .error (Pool.unopened (wire.dial endpoint options).1) := by
  cases h with
  | silent => cases hm
  | unopened ends =>
    obtain ⟨rfl, rfl, -⟩ := Event.dialed.inj (List.mem_singleton.mp hm)
    exact ⟨rfl, ends⟩
  | talked ho ht hc =>
    rcases List.mem_append.mp hm with hm | hm
    · rcases ho with rfl | rfl <;> simp at hm
    · rcases List.mem_append.mp hm with hm | hm
      · cases ht.on_stream _ hm
      · rcases hc with rfl | rfl <;> simp at hm

end Transcript

end Pool

namespace Engine

variable [Network σ] {engine : Engine σ}

theorem Accounted.transcript (he : engine.Accounted) (command : Command) :
    ∃ events, (engine.exchange command).2.wire.journal = events.reverse ++ engine.wire.journal ∧
      Pool.Transcript command (engine.router.owner command.key) engine.wire
        (engine.exchange command).1 (engine.streamFor command) events := by
  obtain ⟨pool, next, hr, heq⟩ := exchange_ran command he.sound
  rw [heq]
  exact hr.transcript (he.sound _ (engine.router.owner_mem command.key)) he.numbered

end Engine

namespace Running

variable [Network σ] {running : Running σ} {room : Nat} {call : Client.Call β} {request : Request β}

/-- What a call adds to the journal, if it sends a command at all. -/
theorem Accounted.transcript (hr : running.Accounted room) (hq : call.request running = .ok request) :
    running.wire.journal <:+ (running.perform call).2.wire.journal ∧
    ∃ answer, (running.perform call).1 = request.finish answer ∧
      Pool.Transcript request.command (running.client.router.owner request.command.key) running.wire
        answer (running.engine.streamFor request.command)
        (running.wire.since (running.perform call).2.wire) := by
  obtain ⟨events, hj, ht⟩ := hr.engine.transcript request.command
  have hevents : running.wire.since (running.engine.exchange request.command).2.wire = events :=
    (Wire.since_eq hj).trans (List.reverse_reverse events)
  rw [perform_eq, hq]
  exact ⟨⟨events.reverse, hj.symm⟩, _, rfl, hevents ▸ ht⟩

theorem perform_refused {failure : Failure} (hq : call.request running = .error failure) :
    running.perform call = (.error failure, running) := by
  rw [perform_eq, hq]

end Running

/-- A call, whatever the network does, dials at most once, asks for something of one stream at most, and
writes at most once, and then exactly its own command. It reads only after that write has succeeded.
Whatever fails, be it the dial, the write or a read, is what the call returns, and after it nothing
happens but the end of the stream. The steps are those that a verb has got to. -/
theorem one_command_per_call [Network σ] (network : σ) (settings : Settings) (client : Client)
    (created : Client.create settings (Wire.start network) = .ok client)
    (verbs : List Verb) (steps : List Step) (call : Client.Call β) :
    let now := (Running.verbs verbs ⟨client, Wire.start network⟩).steps steps
    let answer := (now.perform call).1
    let events := now.wire.since (now.perform call).2.wire
    (events.filter Event.isDial).length ≤ 1 ∧
    (∃ id, ∀ event ∈ events, (event.isDial = true ∨ event.concerns id = true) ∧
      ∀ endpoint options other, event = .dialed endpoint options (some other) → other = id) ∧
    (events.filter Event.isWrite).length ≤ 1 ∧
    (∀ id bytes fault, .wrote id bytes fault ∈ events →
      ∃ command, now.command? call = some command ∧ bytes = command.text) ∧
    (∀ first event later id, events = first ++ event :: later → event.reads id = true →
      ∃ bytes, .wrote id bytes none ∈ first) ∧
    (∀ first event later failure, events = first ++ event :: later →
      event.failure? = some failure →
      answer = .error failure ∧ ∀ other ∈ later, ∃ id, other = .closed id) ∧
    ∀ endpoint options, .dialed endpoint options none ∈ events →
      events = [.dialed endpoint options none] ∧
        answer = .error (Pool.unopened (now.wire.dial endpoint options).1) := by
  intro now answer events
  have hnow : now.Accounted settings.idle.toNat := by
    simp only [now, Running.verbs_eq]
    exact ((Running.create_accounted created).steps _).steps steps
  cases hq : call.request now with
  | error failure =>
    have hnone : events = [] := by
      simp only [events, Running.perform_refused hq, Wire.since_self]
    simp [hnone]
  | ok request =>
    -- every clause is read off the one transcript of the call
    obtain ⟨-, exchanged, ha, ht⟩ := hnow.transcript hq
    change Pool.Transcript _ _ _ _ _ events at ht
    have hfinish {failure : Failure} (hx : exchanged = .error failure) : answer = .error failure := by
      rw [show answer = request.finish exchanged from ha, hx, Running.request_finish hq]
    refine ⟨ht.dials, ht.one_stream, ?_, ?_, ?_, ?_, ?_⟩
    · rcases ht.writes with hw | ⟨id, fault, hw⟩
      · rw [hw]
        exact Nat.zero_le 1
      · rw [hw]
        exact Nat.le_refl 1
    · intro id bytes fault hm
      have hcommand : now.command? call = some request.command := by
        rw [← Running.request_command?, hq]
        rfl
      have hfilter : .wrote id bytes fault ∈ events.filter Event.isWrite :=
        List.mem_filter.mpr ⟨hm, rfl⟩
      refine ⟨request.command, hcommand, ?_⟩
      rcases ht.writes with hw | ⟨other, cause, hw⟩
      · rw [hw] at hfilter
        cases hfilter
      · rw [hw] at hfilter
        obtain ⟨-, hbytes, -⟩ := Event.wrote.inj (List.mem_singleton.mp hfilter)
        exact hbytes
    · intro first event later id hsplit hreads
      exact ⟨_, (hsplit ▸ ht).read_after_write hreads⟩
    · intro first event later failure hsplit hfails
      obtain ⟨hx, hlater⟩ := (hsplit ▸ ht).fails_last hfails
      exact ⟨hfinish hx, hlater⟩
    · intro endpoint options hm
      obtain ⟨honly, hx⟩ := ht.undialed hm
      exact ⟨honly, hfinish hx⟩

def brokenWire : Wire Script :=
  Wire.start { entries := [{ stream := ⟨[⟨ascii "4", some .connectionReset⟩], []⟩ }] }

def increment : Client.Call (Integer ⟨false, .eight⟩) :=
  .count .incr (ascii "k") ⟨1, by decide, by decide⟩

/-- An increment whose reply breaks off is not sent again. -/
theorem broken_increment_not_retried :
    let result := (Running.mk soloClient brokenWire).perform increment
    Client.create soloSettings brokenWire = .ok soloClient ∧
      result.1 = .error (Fault.receiving .connectionReset) ∧
      ((brokenWire.since result.2.wire).filter Event.isWrite).length ≤ 1 := by
  obtain ⟨-, -, hwrites, -, -, hfails, -⟩ := one_command_per_call _ soloSettings soloClient
    (solo_created brokenWire) [] [] increment
  have hsplit : brokenWire.since ((Running.mk soloClient brokenWire).perform increment).2.wire =
      [.dialed (.tcp (ascii "a") (ascii "11211")) soloSettings.dialOptions (some 0),
        .wrote 0 (ascii "incr k 1\r\n") none] ++
        .read 0 (ascii "4") (some .connectionReset) :: [.closed 0] := rfl
  exact ⟨solo_created brokenWire, (hfails _ _ _ _ hsplit rfl).1, hwrites⟩

end CacheClient
