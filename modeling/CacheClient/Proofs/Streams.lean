import CacheClient.Proofs.Exchanges

namespace CacheClient

namespace Event

def concerns (id : Nat) (event : Event) : Bool :=
  event.reads id || event.writes id || event.closes id

@[simp] theorem concerns_dialed (endpoint : Endpoint) (options : DialOptions) (opened : Option Nat)
    (id : Nat) : (dialed endpoint options opened).concerns id = false := rfl

@[simp] theorem concerns_wrote (of id : Nat) (bytes : Bytes) (fault : Option Fault) :
    (wrote of bytes fault).concerns id = decide (of = id) := by
  simp [concerns, reads, writes, closes]

@[simp] theorem concerns_read (of id : Nat) (bytes : Bytes) (fault : Option Fault) :
    (read of bytes fault).concerns id = decide (of = id) := by
  simp [concerns, reads, writes, closes]

@[simp] theorem concerns_closed (of id : Nat) : (closed of).concerns id = decide (of = id) := by
  simp [concerns, reads, writes, closes]

theorem concerns_eq {event : Event} {id other : Nat} (h : event.concerns id = true)
    (h' : event.concerns other = true) : id = other := by
  cases event <;> simp_all [concerns, reads, writes, closes]

def failure? : Event → Option Failure
  | .wrote _ _ fault => fault.map Fault.sending
  | .read _ bytes fault =>
    (fault.or (if bytes.isEmpty then some .endOfStream else none)).map Fault.receiving
  | _ => none

/-- Reads from a stream, oldest first. Each was made while what had come before it was wanting; one that
fails is the last. -/
structure Drawn (id : Nat) (wanting : Bytes → Prop) (broken : Option Fault)
    (events : List Event) : Prop where
  reads : ∀ event ∈ events, event.reads id = true
  wanted : ∀ first event later, events = first ++ event :: later → wanting (received id first)
  failed : ∀ first event later failure, events = first ++ event :: later →
    event.failure? = some failure →
      later = [] ∧ ∃ fault, broken = some fault ∧ failure = fault.receiving

section Drawn

variable {id : Nat} {wanting : Bytes → Prop} {broken : Option Fault} {events : List Event}

theorem Drawn.nil (id : Nat) (wanting : Bytes → Prop) (broken : Option Fault) :
    Drawn id wanting broken [] :=
  ⟨by simp, by simp, by simp⟩

theorem Drawn.cons (hw : wanting []) (hf : ∀ failure, (read id bytes fault).failure? = some failure →
      events = [] ∧ ∃ cause, broken = some cause ∧ failure = cause.receiving)
    (h : Drawn id (fun more => wanting (bytes ++ more)) broken events) :
    Drawn id wanting broken (read id bytes fault :: events) := by
  refine ⟨?_, ?_, ?_⟩
  · intro event hm
    rcases List.mem_cons.mp hm with rfl | hm
    · simp [Event.reads]
    · exact h.reads event hm
  · intro first event later he
    rcases List.cons_eq_append_iff.mp he with ⟨rfl, -⟩ | ⟨rest, rfl, hrest⟩
    · exact hw
    · simpa [received] using h.wanted rest event later hrest
  · intro first event later failure he hfail
    rcases List.cons_eq_append_iff.mp he with ⟨rfl, hhead⟩ | ⟨rest, rfl, hrest⟩
    · obtain ⟨rfl, rfl⟩ := List.cons.inj hhead
      exact hf failure hfail
    · exact h.failed rest event later failure hrest hfail

end Drawn

/-- What an exchange adds to the journal: one write and, if that succeeds, reads. What fails comes last,
and is what the exchange answers. -/
inductive Talk (id : Nat) (text : Bytes) (answer : Answer α) : List Event → Prop where
  | unsent (fault : Fault) (ends : answer = .error fault.sending) :
      Talk id text answer [.wrote id text (some fault)]
  | sent (reads : Drawn id wanting broken events)
      (ends : ∀ fault, broken = some fault → answer = .error fault.receiving) :
      Talk id text answer (.wrote id text none :: events)

end Event

namespace Wire

variable {id other : Nat} {wire next last : Wire σ}

/-- Streams are numbered before anything is asked of them. -/
def Numbered (wire : Wire σ) : Prop :=
  ∀ event ∈ wire.journal, ∀ id, event.concerns id = true → id < wire.opened

theorem mem_live : id ∈ wire.live ↔
    id < wire.opened ∧ ∀ event ∈ wire.journal, event.closes id = false := by
  simp [live]

theorem live_nodup (wire : Wire σ) : wire.live.Nodup :=
  List.nodup_range.filter _

/-- All that has happened to the stream had happened before. -/
def Spares (id : Nat) (before after : Wire σ) : Prop :=
  ∃ events, after.journal = events ++ before.journal ∧ ∀ event ∈ events, event.concerns id = false

theorem Spares.refl (id : Nat) (wire : Wire σ) : Spares id wire wire :=
  ⟨[], rfl, by simp⟩

theorem Spares.trans (h : Spares id wire next) (h' : Spares id next last) : Spares id wire last := by
  obtain ⟨events, hj, he⟩ := h
  obtain ⟨events', hj', he'⟩ := h'
  refine ⟨events' ++ events, by rw [hj', hj, List.append_assoc], ?_⟩
  intro event hm
  rcases List.mem_append.mp hm with hm | hm
  · exact he' event hm
  · exact he event hm

theorem since_eq (hj : next.journal = events ++ wire.journal) :
    wire.since next = events.reverse := by
  simp [since, hj]

theorem since_self (wire : Wire σ) : wire.since wire = [] :=
  since_eq (List.nil_append wire.journal).symm

theorem Spares.since (h : Spares id wire next) :
    ∀ event ∈ wire.since next, event.concerns id = false := by
  obtain ⟨events, hj, he⟩ := h
  simpa [since_eq hj] using he

/-- From one state of a wire to another there is nothing but reads from a stream and writes to it. -/
structure Talks (id : Nat) (before after : Wire σ) : Prop where
  opened : after.opened = before.opened
  journal : ∃ events, after.journal = events ++ before.journal ∧
    ∀ event ∈ events, (event.reads id || event.writes id) = true

theorem Talks.trans (h : Talks id wire next) (h' : Talks id next last) : Talks id wire last := by
  obtain ⟨ho, events, hj, he⟩ := h
  obtain ⟨ho', events', hj', he'⟩ := h'
  refine ⟨ho'.trans ho, events' ++ events, by rw [hj', hj, List.append_assoc], ?_⟩
  intro event hm
  rcases List.mem_append.mp hm with hm | hm
  · exact he' event hm
  · exact he event hm

theorem Talks.spares (h : Talks id wire next) (hne : other ≠ id) : Spares other wire next := by
  obtain ⟨-, events, hj, he⟩ := h
  refine ⟨events, hj, ?_⟩
  intro event hm
  have hid := he event hm
  cases event <;> simp_all [Event.concerns, Event.reads, Event.writes, Event.closes, Ne.symm]

theorem Talks.live (h : Talks id wire next) : next.live = wire.live := by
  obtain ⟨ho, events, hj, he⟩ := h
  have hc : ∀ i, events.any (Event.closes i) = false := by
    intro i
    rw [List.any_eq_false]
    intro event hm
    have hid := he event hm
    cases event <;> simp_all [Event.reads, Event.writes, Event.closes]
  simp [Wire.live, ho, hj, hc]

theorem Talks.numbered (h : Talks id wire next) (hn : wire.Numbered) (hid : id < wire.opened) :
    next.Numbered := by
  obtain ⟨ho, events, hj, he⟩ := h
  intro event hm i hi
  rw [hj] at hm
  rw [ho]
  rcases List.mem_append.mp hm with hm | hm
  · have hc : event.concerns id = true := by simp [Event.concerns, he event hm]
    exact Event.concerns_eq hi hc ▸ hid
  · exact hn event hm i hi

theorem dial_numbered {opened : Option Nat} (hn : wire.Numbered)
    (hj : next.journal = .dialed endpoint options opened :: wire.journal)
    (ho : wire.opened ≤ next.opened) : next.Numbered := by
  intro event hm i hc
  rw [hj] at hm
  rcases List.mem_cons.mp hm with rfl | hm
  · cases hc
  · exact Nat.lt_of_lt_of_le (hn event hm i hc) ho

variable [Network σ]

theorem Brings.talks (h : Brings id bytes wire next) : Talks id wire next := by
  obtain ⟨ho, reads, hj, hr, -⟩ := h.journal
  refine ⟨ho, reads.reverse, hj, ?_⟩
  intro event hm
  obtain ⟨bytes, fault, rfl⟩ := hr event (List.mem_reverse.mp hm)
  simp [Event.reads]

theorem Draws.journal {wanting : Bytes → Prop} {broken : Option Fault}
    (h : Draws id wanting bytes broken wire last) : last.opened = wire.opened ∧
      ∃ events, last.journal = events.reverse ++ wire.journal ∧ Event.received id events = bytes ∧
        Event.Drawn id wanting broken events := by
  have hfail {room : Nat} (delivery : Delivery room) :
      (Event.read id delivery.bytes delivery.fault).failure? =
        delivery.failure?.map Fault.receiving := by
    unfold Event.failure? Delivery.failure?
    cases delivery.fault <;> rfl
  -- read by read; the journal has the newest first
  induction h with
  | done => exact ⟨rfl, [], rfl, rfl, .nil id _ _⟩
  | failed hw hr hf =>
    obtain ⟨hj, ho⟩ := read_journal hr
    refine ⟨ho, [_], hj, by simp [Event.received], .cons hw ?_ (.nil id _ _)⟩
    intro failure hfailure
    rw [hfail, hf] at hfailure
    exact ⟨rfl, _, rfl, (Option.some.inj hfailure).symm⟩
  | @read _ _ _ _ _ _ _ delivery hw hr hf _ ih =>
    obtain ⟨hj, ho⟩ := read_journal hr
    obtain ⟨ho', events, hj', hb, hd⟩ := ih
    refine ⟨ho'.trans ho, .read id delivery.bytes delivery.fault :: events, ?_, ?_,
      .cons hw ?_ hd⟩
    · rw [hj', hj, List.reverse_cons, List.append_assoc]
      rfl
    · rw [← hb]
      simp [Event.received]
    · intro failure hfailure
      rw [hfail, hf] at hfailure
      cases hfailure

theorem write_journal {fault : Option Fault} (hw : wire.write id bytes = (fault, next)) :
    next.journal = .wrote id bytes fault :: wire.journal ∧ next.opened = wire.opened := by
  simp only [Wire.write, Prod.mk.injEq] at hw
  obtain ⟨rfl, rfl⟩ := hw
  exact ⟨rfl, rfl⟩

/-- A write, and what happened after it. -/
theorem since_write {fault : Option Fault} (hw : wire.write id bytes = (fault, next))
    (hj : last.journal = events.reverse ++ next.journal) :
    wire.since last = .wrote id bytes fault :: events := by
  have hall : last.journal = (events.reverse ++ [.wrote id bytes fault]) ++ wire.journal := by
    rw [hj, (write_journal hw).1, List.append_assoc]
    rfl
  simp [since_eq hall]

theorem write_talks {fault : Option Fault} (hw : wire.write id bytes = (fault, next)) :
    Talks id wire next := by
  obtain ⟨hj, ho⟩ := write_journal hw
  exact ⟨ho, [.wrote id bytes fault], hj, by simp [Event.writes]⟩

theorem dial_stream (hn : wire.Numbered) (hd : wire.dial endpoint options = (.ok (some id), next)) :
    id = wire.opened ∧ next.opened = wire.opened + 1 ∧
      next.journal = .dialed endpoint options (some id) :: wire.journal ∧
      next.live = wire.live ++ [id] := by
  unfold Wire.dial at hd
  split at hd
  · simp only [Prod.mk.injEq, Except.ok.injEq, Option.some.injEq] at hd
    obtain ⟨rfl, rfl⟩ := hd
    have hopen : wire.opened ∈ wire.live ++ [wire.opened] := by simp
    have hnone : wire.journal.any (Event.closes wire.opened) = false := by
      rw [List.any_eq_false]
      intro event hm hc
      have := hn event hm wire.opened (by simp [Event.concerns, hc])
      omega
    refine ⟨rfl, rfl, rfl, ?_⟩
    simp [Wire.live, List.range_succ, Event.closes, hnone]
  · cases hd
  · cases hd

theorem dial_nothing {answer : Answer (Option Nat)} (hd : wire.dial endpoint options = (answer, next))
    (hs : ∀ id, answer ≠ .ok (some id)) : next.opened = wire.opened ∧
      next.journal = .dialed endpoint options none :: wire.journal := by
  unfold Wire.dial at hd
  split at hd
  · simp only [Prod.mk.injEq] at hd
    exact absurd hd.1.symm (hs _)
  · simp only [Prod.mk.injEq] at hd
    obtain ⟨-, rfl⟩ := hd
    exact ⟨rfl, rfl⟩
  · simp only [Prod.mk.injEq] at hd
    obtain ⟨-, rfl⟩ := hd
    exact ⟨rfl, rfl⟩

theorem dial_nothing_accounted {answer : Answer (Option Nat)} (hn : wire.Numbered)
    (hd : wire.dial endpoint options = (answer, next)) (hs : ∀ id, answer ≠ .ok (some id)) :
    next.Numbered ∧ next.live = wire.live ∧ ∀ other, Spares other wire next := by
  obtain ⟨ho, hj⟩ := dial_nothing hd hs
  refine ⟨dial_numbered hn hj (by omega), by simp [live, ho, hj, Event.closes], fun other => ?_⟩
  exact ⟨[_], hj, by simp⟩

theorem close_live (hl : wire.live.Perm (id :: others)) : (wire.close id).live.Perm others := by
  have hfilter : (wire.close id).live = wire.live.filter (· ≠ id) := by
    simp only [live, close, List.filter_filter, List.any_cons, Event.closes]
    congr 1
    funext i
    by_cases h : id = i <;> simp [h, Ne.symm]
  have hnot : id ∉ others := (List.nodup_cons.mp (hl.nodup_iff.mp wire.live_nodup)).1
  have hothers : others.filter (· ≠ id) = others := by
    rw [List.filter_eq_self]
    intro i hm
    have hne : i ≠ id := fun he => hnot (he ▸ hm)
    simpa using hne
  rw [hfilter, ← hothers]
  simpa using hl.filter (· ≠ id)

theorem close_spares (hne : other ≠ id) : Spares other wire (wire.close id) :=
  ⟨[.closed id], rfl, by simp [hne.symm]⟩

theorem close_numbered (hn : wire.Numbered) (hid : id < wire.opened) : (wire.close id).Numbered := by
  intro event hm i hi
  rcases List.mem_cons.mp hm with rfl | hm
  · obtain rfl : id = i := by simpa using hi
    exact hid
  · exact hn event hm i hi

end Wire

namespace Link

variable [Network σ] {id : Nat} {link after : Link σ} {command : Command}

theorem Exchanged.talks {answer : Answer command.Value}
    (h : Exchanged id command link answer after) : Wire.Talks id link.wire after.wire := by
  have hreads {consumed : Bytes} {wire : Wire σ} (hw : link.wire.write id command.text = (none, wire))
      (hr : Reads id consumed ⟨link.connection, wire⟩ after) : Wire.Talks id link.wire after.wire := by
    obtain ⟨-, bytes, hb, -⟩ := hr
    exact (Wire.write_talks hw).trans hb.talks
  cases h with
  | unsent hw => exact Wire.write_talks hw
  | broken hw hr => exact hreads hw hr
  | replied hw hr => exact hreads hw hr

theorem Takes.talk {wire : Wire σ} {answer : Answer α} {text : Bytes}
    (hw : link.wire.write id text = (none, wire))
    (ht : Takes id wanting consumed broken (link.sent wire) after)
    (ends : ∀ fault, broken = some fault → answer = .error fault.receiving) :
    ∃ events, after.wire.journal = events.reverse ++ link.wire.journal ∧
      Event.Talk id text answer events ∧
      link.connection.unread ++ Event.received id events = consumed ++ after.connection.unread := by
  obtain ⟨-, bytes, hd, hbytes⟩ := ht
  obtain ⟨-, events, hj, rfl, hdrawn⟩ := hd.journal
  refine ⟨.wrote id text none :: events, ?_, .sent hdrawn ends, hbytes⟩
  rw [hj]
  simp [sent, (Wire.write_journal hw).1]

/-- What an exchange adds to the journal. One that gives its connection back has been answered with a
complete reply: the bytes that were unread and those that came are that reply and what is unread now. -/
theorem exchange_talk {answer : Answer command.Value} (hs : link.connection.stream = some id)
    (he : link.exchange command = (answer, after)) :
    ∃ events, after.wire.journal = events.reverse ++ link.wire.journal ∧
      Event.Talk id (link.connection.unsent ++ command.text) answer events ∧
      (answer.keepsHealthy = true → ∃ reply, Reply.Means command reply answer ∧
        link.connection.unread ++ Event.received id events = reply ++ after.connection.unread) := by
  rw [exchange_eq command hs] at he
  generalize hw : link.wire.write id (link.connection.unsent ++ command.text) = written at he
  obtain ⟨fault | fault, wire⟩ := written
  · have hs' : (link.sent wire).connection.stream = some id := hs
    have hh := hear_heard command hs'
    dsimp only at he
    rw [he] at hh
    cases hh with
    | faulted ht hcause =>
      obtain ⟨events, hj, htalk, -⟩ := ht.talk hw fun cause hb => by rw [hcause cause hb]
      refine ⟨events, hj, htalk, ?_⟩
      exact fun hfit => absurd hfit (Failure.breaksOff_unfit (Fault.receiving_breaksOff _))
    | violated ht =>
      obtain ⟨events, hj, htalk, -⟩ := ht.talk hw (by simp)
      refine ⟨events, hj, htalk, ?_⟩
      exact fun hfit => absurd hfit (Failure.breaksOff_unfit (Reply.violation_breaksOff _))
    | replied ht hm =>
      obtain ⟨events, hj, htalk, hbytes⟩ := ht.talk hw (by simp)
      exact ⟨events, hj, htalk, fun _ => ⟨_, hm, hbytes⟩⟩
  · obtain ⟨rfl, rfl⟩ := Prod.mk.inj he
    refine ⟨[.wrote id _ (some fault)], (Wire.write_journal hw).1, .unsent fault rfl, ?_⟩
    exact fun hfit => absurd hfit (Failure.breaksOff_unfit (Fault.sending_breaksOff _))

theorem exchange_fit {answer : Answer command.Value} (he : link.exchange command = (answer, after))
    (hfit : answer.keepsHealthy = true) : ∃ id reply, link.connection.stream = some id ∧
      Reply.Means command reply answer ∧
      link.connection.unread ++ Event.received id (link.wire.since after.wire) =
        reply ++ after.connection.unread := by
  cases hs : link.connection.stream with
  | none =>
    rw [exchange_hollow command hs] at he
    obtain ⟨rfl, rfl⟩ := Prod.mk.inj he
    exact absurd hfit (Failure.breaksOff_unfit (Fault.sending_breaksOff _))
  | some id =>
    obtain ⟨events, hj, -, hreply⟩ := exchange_talk hs he
    obtain ⟨reply, hm, hbytes⟩ := hreply hfit
    refine ⟨id, reply, rfl, hm, ?_⟩
    rwa [Wire.since_eq hj, List.reverse_reverse]

end Link

end CacheClient
