import CacheClient.Connection
import CacheClient.Proofs.Lines

namespace CacheClient

/-- What the reads from a stream have brought. -/
def Event.received (id : Nat) (events : List Event) : Bytes :=
  events.flatMap fun
    | .read of bytes _ => if of = id then bytes else []
    | _ => []

/-- The fault that a read ends with; one that brings nothing is the end of the stream. -/
def Delivery.failure? (delivery : Delivery room) : Option Fault :=
  match delivery.fault with
  | some fault => some fault
  | none => if delivery.bytes.isEmpty then some .endOfStream else none

namespace Wire

variable [Network σ]

/-- Some reads from a stream, one after the other, and the bytes that they brought. -/
inductive Brings (id : Nat) : Bytes → Wire σ → Wire σ → Prop where
  | done (wire : Wire σ) : Brings id [] wire wire
  | read {wire next last : Wire σ} {room : Nat} {delivery : Delivery room}
      (read : wire.read id room = (delivery, next)) (rest : Brings id more next last) :
      Brings id (delivery.bytes ++ more) wire last

variable {id : Nat} {wire next last : Wire σ}

theorem Brings.once {room : Nat} {delivery : Delivery room}
    (hr : wire.read id room = (delivery, next)) : Brings id delivery.bytes wire next := by
  simpa using Brings.read hr (.done next)

theorem read_journal {room : Nat} {delivery : Delivery room}
    (hr : wire.read id room = (delivery, next)) :
    next.journal = .read id delivery.bytes delivery.fault :: wire.journal ∧
      next.opened = wire.opened := by
  simp only [Wire.read, Prod.mk.injEq] at hr
  obtain ⟨rfl, rfl⟩ := hr
  exact ⟨rfl, rfl⟩

/-- The journal tells of exactly these reads, and no stream is opened by them. -/
theorem Brings.journal (h : Brings id bytes wire last) :
    last.opened = wire.opened ∧ ∃ reads, last.journal = reads.reverse ++ wire.journal ∧
      (∀ e ∈ reads, ∃ bytes fault, e = .read id bytes fault) ∧ Event.received id reads = bytes := by
  induction h with
  | done => exact ⟨rfl, [], by simp [Event.received]⟩
  | @read _ _ _ _ _ delivery hr _ ih =>
    obtain ⟨hj, ho⟩ := read_journal hr
    obtain ⟨ho', reads, hj', hs, hb⟩ := ih
    refine ⟨ho'.trans ho, .read id delivery.bytes delivery.fault :: reads, ?_, ?_, ?_⟩
    · simp [hj', hj]
    · intro e he
      rcases List.mem_cons.mp he with rfl | he
      · exact ⟨_, _, rfl⟩
      · exact hs e he
    · simp [Event.received] at hb ⊢
      exact hb

/-- Reads from a stream, one after the other, with the bytes that they brought. Each was made while what
had come before it was wanting; one that fails is the last, and tells its fault. -/
inductive Draws (id : Nat) : (Bytes → Prop) → Bytes → Option Fault → Wire σ → Wire σ → Prop where
  | done (wire : Wire σ) : Draws id wanting [] none wire wire
  | failed {wire next : Wire σ} {room : Nat} {delivery : Delivery room} (wants : wanting [])
      (read : wire.read id room = (delivery, next)) (fails : delivery.failure? = some fault) :
      Draws id wanting delivery.bytes (some fault) wire next
  | read {wire next last : Wire σ} {room : Nat} {delivery : Delivery room} (wants : wanting [])
      (read : wire.read id room = (delivery, next)) (sound : delivery.failure? = none)
      (later : Draws id (fun more => wanting (delivery.bytes ++ more)) more broken next last) :
      Draws id wanting (delivery.bytes ++ more) broken wire last

variable {wanting : Bytes → Prop} {broken : Option Fault}

theorem Draws.once {room : Nat} {delivery : Delivery room} (hw : wanting [])
    (hr : wire.read id room = (delivery, next)) (hf : delivery.failure? = none) :
    Draws id wanting delivery.bytes none wire next := by
  have h := Draws.read hw hr hf (.done next)
  rwa [List.append_nil] at h

theorem Draws.mono {wanting' : Bytes → Prop} (h : Draws id wanting bytes broken wire last)
    (hw : ∀ got, wanting got → wanting' got) : Draws id wanting' bytes broken wire last := by
  induction h generalizing wanting' with
  | done => exact .done _
  | failed hwants hr hf => exact .failed (hw _ hwants) hr hf
  | read hwants hr hf _ ih => exact .read (hw _ hwants) hr hf (ih fun got => hw _)

theorem Draws.trans (h : Draws id wanting bytes none wire next)
    (h' : Draws id (fun more => wanting (bytes ++ more)) more broken next last) :
    Draws id wanting (bytes ++ more) broken wire last := by
  generalize hb : (none : Option Fault) = sound at h
  induction h with
  | done => exact h'
  | failed => cases hb
  | read hwants hr hf _ ih =>
    rw [List.append_assoc]
    refine .read hwants hr hf (ih ?_ hb)
    simpa only [List.append_assoc] using h'

theorem Draws.brings (h : Draws id wanting bytes broken wire last) : Brings id bytes wire last := by
  induction h with
  | done => exact .done _
  | failed _ hr => exact .once hr
  | read _ hr _ _ ih => exact .read hr ih

end Wire

namespace Link

open Connection

variable [Network σ] {id : Nat} {link after : Link σ}

theorem readLine_eq (link : Link σ) : link.readLine =
    match link.awaitLine (longestLine + 1 - link.connection.unread.length) 0 with
    | (.error fault, link) => (.error fault, link)
    | (.ok offset, link) =>
      (.ok (link.connection.unread.take offset), link.update (consume (offset + 2))) := by
  rw [readLine, readLineInto]
  generalize link.awaitLine _ _ = awaited
  obtain ⟨fault | offset, next⟩ := awaited <;> rfl

theorem readExact_eq (n : Nat) (link : Link σ) : link.readExact n =
    if largestBlock < n then (.error .messageSize, link)
    else
      let missing := n - link.connection.unread.length
      let (bytes, fault, link) := link.gather missing missing
      let link := link.update (receive bytes)
      match fault with
      | some fault => (.error fault, link)
      | none => (.ok (link.connection.unread.take n), link.update (consume n)) := by
  rw [readExact, readExactInto]
  split
  · rfl
  · dsimp only
    generalize link.gather _ _ = gathered
    obtain ⟨bytes, fault | fault, next⟩ := gathered <;> rfl

theorem pull_draws (wanting : Bytes → Prop) (hw : wanting []) (hs : link.connection.stream = some id)
    (hp : link.pull = (bytes, fault, after)) :
    link.wire.Draws id wanting bytes fault after.wire ∧ after.connection = link.connection := by
  simp only [pull, hs, Prod.mk.injEq] at hp
  obtain ⟨rfl, hf, rfl⟩ := hp
  refine ⟨?_, rfl⟩
  cases fault with
  | none => exact .once hw rfl hf
  | some fault => exact .failed hw rfl hf

theorem gather_draws (allowance missing : Nat) (hs : link.connection.stream = some id)
    (hg : gather allowance missing link = (bytes, fault, after)) :
    link.wire.Draws id (fun got => got.length < missing) bytes fault after.wire ∧
      after.connection = link.connection := by
  induction allowance generalizing missing link bytes with
  | zero =>
    simp only [gather, Prod.mk.injEq] at hg
    obtain ⟨rfl, rfl, rfl⟩ := hg
    exact ⟨.done _, rfl⟩
  | succ allowance ih =>
    simp only [gather] at hg
    split at hg
    · simp only [Prod.mk.injEq] at hg
      obtain ⟨rfl, rfl, rfl⟩ := hg
      exact ⟨.done _, rfl⟩
    · rename_i hmissing
      have hw : ([] : Bytes).length < missing := Nat.pos_of_ne_zero hmissing
      split at hg
      · rename_i hp
        simp only [Prod.mk.injEq] at hg
        obtain ⟨rfl, rfl, rfl⟩ := hg
        exact pull_draws (·.length < missing) hw hs hp
      · rename_i got next hp
        obtain ⟨hd, hc⟩ := pull_draws (·.length < missing) hw hs hp
        simp only [Prod.mk.injEq] at hg
        obtain ⟨rfl, rfl, rfl⟩ := hg
        obtain ⟨hd', hc'⟩ := ih (missing - got.length) (hc ▸ hs) rfl
        -- what the later reads lack is what all of them lack, less what the first has brought
        refine ⟨hd.trans (hd'.mono ?_), hc'.trans hc⟩
        intro more hmore
        simp only [List.length_append]
        omega

/-- One turn of the wait for a line end: it ends at once, or it reads, and then it fails or goes on. -/
theorem awaitLine_turn {allowance scanned : Nat}
    (hl : Bytes.IsLine (link.connection.unread.take scanned))
    (hn : scanned ≤ link.connection.unread.length)
    (ha : awaitLine allowance scanned link = (result, after)) :
    (after = link ∧
      ∀ offset, result = .ok offset → Bytes.lineEnd? link.connection.unread = some offset) ∨
    ∃ bytes fault next, Bytes.IsLine link.connection.unread ∧
      link.connection.unread.length ≤ longestLine ∧ link.pull = (bytes, fault, next) ∧
      match fault with
      | some fault => result = .error fault ∧ after = next.update (receive bytes)
      | none => ∃ left, allowance = left + 1 ∧
          awaitLine left link.connection.unread.length (next.update (receive bytes)) =
            (result, after) := by
  -- the three ways out in their order: found, given up, or one read more
  unfold awaitLine at ha
  rw [Bytes.lineEndAfter_scanned hl hn] at ha
  split at ha
  · rename_i offset hfound
    obtain ⟨rfl, rfl⟩ := Prod.mk.inj ha
    refine .inl ⟨rfl, ?_⟩
    intro offset he
    cases he
    exact hfound
  · rename_i hnone
    cases allowance with
    | zero =>
      obtain ⟨rfl, rfl⟩ := Prod.mk.inj ha
      exact .inl ⟨rfl, by simp⟩
    | succ left =>
      dsimp only at ha
      split at ha
      · obtain ⟨rfl, rfl⟩ := Prod.mk.inj ha
        exact .inl ⟨rfl, by simp⟩
      · rename_i hlim
        have hopen := Bytes.lineEnd?_eq_none.mp hnone
        have hshort := Nat.le_of_not_lt hlim
        refine .inr ?_
        generalize hp : link.pull = pulled at ha
        obtain ⟨bytes, fault | fault, next⟩ := pulled
        · exact ⟨bytes, none, next, hopen, hshort, rfl, left, rfl, ha⟩
        · obtain ⟨rfl, rfl⟩ := Prod.mk.inj ha
          exact ⟨bytes, some fault, next, hopen, hshort, rfl, rfl, rfl⟩

/-- Reads are made only as long as no line end is in view. An offset that is told is that of the first
line end; whatever is told, bytes have only been added to the unread ones. -/
theorem awaitLine_draws (allowance scanned : Nat) (hs : link.connection.stream = some id)
    (hl : Bytes.IsLine (link.connection.unread.take scanned))
    (hn : scanned ≤ link.connection.unread.length)
    (ha : awaitLine allowance scanned link = (result, after)) :
    ∃ bytes broken,
      link.wire.Draws id (fun got => Bytes.IsLine (link.connection.unread ++ got)) bytes broken
        after.wire ∧
      after.connection = link.connection.receive bytes ∧
      (∀ fault, broken = some fault → result = .error fault) ∧
      ∀ offset, result = .ok offset → Bytes.lineEnd? after.connection.unread = some offset := by
  -- one turn at a time; what follows it starts from what is in view then
  induction allowance using Nat.strongRecOn generalizing scanned link with
  | ind allowance ih =>
    rcases awaitLine_turn hl hn ha with ⟨rfl, hr⟩ | ⟨bytes, fault, next, hopen, -, hp, hrest⟩
    · exact ⟨[], none, .done _, by simp [receive], by simp, hr⟩
    · obtain ⟨hd, hc⟩ := pull_draws (fun got => Bytes.IsLine (link.connection.unread ++ got))
        (by simpa using hopen) hs hp
      cases fault with
      | some fault =>
        obtain ⟨rfl, rfl⟩ := hrest
        exact ⟨bytes, some fault, hd, by simp [update, hc], by simp, by simp⟩
      | none =>
        obtain ⟨left, rfl, ha'⟩ := hrest
        have hs' : (next.update (receive bytes)).connection.stream = some id := by
          simp [update, receive, hc, hs]
        have hl' : Bytes.IsLine ((next.update (receive bytes)).connection.unread.take
            link.connection.unread.length) := by
          simpa [update, receive, hc] using hopen
        obtain ⟨more, broken, hd', hc', hbroken, hr⟩ := ih left (Nat.lt_succ_self left) _ hs' hl'
          (by simp [update, receive, hc]) ha'
        refine ⟨bytes ++ more, broken, hd.trans (hd'.mono ?_), ?_, hbroken, hr⟩
        · intro got hgot
          simpa [update, receive, hc] using hgot
        · simp [hc', update, receive, hc]

/-- What a read of a line or of a block does to a connection and its wire: some bytes come, some are
consumed, and the rest is unread. -/
structure Reads (id : Nat) (consumed : Bytes) (link after : Link σ) : Prop where
  connection : after.connection = { link.connection with unread := after.connection.unread }
  brings : ∃ bytes, link.wire.Brings id bytes after.wire ∧
    link.connection.unread ++ bytes = consumed ++ after.connection.unread

theorem Reads.stream (h : Reads id consumed link after) :
    after.connection.stream = link.connection.stream := by
  rw [h.connection]

/-- What such a read does, told with what was wanting before each read from the stream, of the bytes in
view: those that were unread with those that had come. -/
structure Takes (id : Nat) (wanting : Bytes → Prop) (consumed : Bytes) (broken : Option Fault)
    (link after : Link σ) : Prop where
  connection : after.connection = { link.connection with unread := after.connection.unread }
  draws : ∃ bytes, link.wire.Draws id (fun got => wanting (link.connection.unread ++ got)) bytes broken
      after.wire ∧ link.connection.unread ++ bytes = consumed ++ after.connection.unread

variable {wanting : Bytes → Prop} {broken : Option Fault}

theorem Takes.reads (h : Takes id wanting consumed broken link after) :
    Reads id consumed link after := by
  obtain ⟨hc, bytes, hd, he⟩ := h
  exact ⟨hc, bytes, hd.brings, he⟩

theorem Takes.stream (h : Takes id wanting consumed broken link after) :
    after.connection.stream = link.connection.stream :=
  h.reads.stream

theorem Takes.mono {wanting' : Bytes → Prop} (h : Takes id wanting consumed broken link after)
    (hw : ∀ view, wanting view → wanting' view) : Takes id wanting' consumed broken link after := by
  obtain ⟨hc, bytes, hd, he⟩ := h
  exact ⟨hc, bytes, hd.mono fun got => hw _, he⟩

theorem Takes.trans {last : Link σ} (h : Takes id wanting consumed none link after)
    (h' : Takes id (fun view => wanting (consumed ++ view)) more broken after last) :
    Takes id wanting (consumed ++ more) broken link last := by
  obtain ⟨hc, bytes, hd, he⟩ := h
  obtain ⟨hc', bytes', hd', he'⟩ := h'
  refine ⟨by rw [hc', hc], bytes ++ bytes', hd.trans (hd'.mono ?_), ?_⟩
  · intro got hgot
    rw [← List.append_assoc, he, List.append_assoc]
    exact hgot
  · rw [← List.append_assoc, he, List.append_assoc, he', List.append_assoc]

/-- A line is consumed with its end, and nothing is read once its end is in view. -/
theorem readLine_takes (hs : link.connection.stream = some id)
    (hr : link.readLine = (.ok line, after)) :
    Takes id Bytes.IsLine (line ++ Bytes.crlf) none link after ∧ Bytes.IsLine line := by
  rw [readLine_eq] at hr
  split at hr
  · cases hr
  · rename_i offset next ha
    obtain ⟨bytes, broken, hd, hc, hbroken, hn⟩ := awaitLine_draws _ 0 hs
      (by simp [Bytes.IsLine, Bytes.crlf]) (Nat.zero_le _) ha
    obtain ⟨he, hl⟩ := Bytes.eq_of_lineEnd? (hn offset rfl)
    simp only [Prod.mk.injEq, Except.ok.injEq] at hr
    obtain ⟨rfl, rfl⟩ := hr
    have hu : next.connection.unread = link.connection.unread ++ bytes := by simp [hc, receive]
    have hsound : broken = none := by
      cases broken with
      | none => rfl
      | some fault => cases hbroken fault rfl
    refine ⟨⟨by simp [update, consume, hc, receive], bytes, hsound ▸ hd, ?_⟩, hl⟩
    rw [← hu]
    exact he

/-- Where no line is read, nothing is consumed; a read that failed is the cause. -/
theorem readLine_fails (hs : link.connection.stream = some id)
    (hr : link.readLine = (.error fault, after)) : ∃ broken,
    Takes id Bytes.IsLine [] broken link after ∧ ∀ cause, broken = some cause → cause = fault := by
  rw [readLine_eq] at hr
  split at hr
  · rename_i ha
    obtain ⟨bytes, broken, hd, hc, hbroken, -⟩ := awaitLine_draws _ 0 hs
      (by simp [Bytes.IsLine, Bytes.crlf]) (Nat.zero_le _) ha
    simp only [Prod.mk.injEq, Except.error.injEq] at hr
    obtain ⟨rfl, rfl⟩ := hr
    refine ⟨broken, ⟨by simp [hc, receive], bytes, hd, by simp [hc, receive]⟩, ?_⟩
    intro cause he
    exact (Except.error.inj (hbroken cause he)).symm
  · cases hr

/-- Reads are made only as long as there are too few bytes in view. A block is consumed whole; where a
read fails, nothing is consumed. -/
theorem readExact_outcome (n : Nat) (hs : link.connection.stream = some id)
    (hr : link.readExact n = (result, after)) : ∃ broken,
    Takes id (·.length < n) (result.toOption.getD []) broken link after ∧
      ∀ cause, broken = some cause → result = .error cause := by
  rw [readExact_eq] at hr
  split at hr
  · cases hr
    exact ⟨none, ⟨rfl, [], .done _, by simp [Except.toOption]⟩, by simp⟩
  · dsimp only at hr
    generalize hg : gather _ _ link = gathered at hr
    obtain ⟨bytes, broken, next⟩ := gathered
    obtain ⟨hd, hc⟩ := gather_draws _ _ hs hg
    -- what is wanting of the block counts what was unread before the first read
    have hd' : link.wire.Draws id (fun got => (link.connection.unread ++ got).length < n) bytes broken
        next.wire := by
      refine hd.mono fun got hgot => ?_
      rw [List.length_append]
      omega
    refine ⟨broken, ?_⟩
    cases broken with
    | some fault =>
      cases hr
      exact ⟨⟨by simp [update, receive, hc], bytes, hd',
        by simp [update, receive, hc, Except.toOption]⟩, by simp⟩
    | none =>
      cases hr
      exact ⟨⟨by simp [update, receive, consume, hc], bytes, hd',
        by simp [update, receive, consume, hc, Except.toOption]⟩, by simp⟩

theorem readExact_takes (hs : link.connection.stream = some id)
    (hr : link.readExact n = (.ok bytes, after)) :
    Takes id (·.length < n) bytes none link after := by
  obtain ⟨broken, ht, hcause⟩ := readExact_outcome n hs hr
  cases broken with
  | none => exact ht
  | some cause => cases hcause cause rfl

theorem readExact_fails (hs : link.connection.stream = some id)
    (hr : link.readExact n = (.error fault, after)) : ∃ broken,
    Takes id (·.length < n) [] broken link after ∧ ∀ cause, broken = some cause → cause = fault := by
  obtain ⟨broken, ht, hcause⟩ := readExact_outcome n hs hr
  exact ⟨broken, ht, fun cause he => (Except.error.inj (hcause cause he)).symm⟩

end Link

end CacheClient
