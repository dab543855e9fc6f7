import CacheClient.Proofs.FlatReading
import CacheClient.Proofs.Streams

namespace CacheClient

def Event.receivedOn (stream : Option Nat) (events : List Event) : Bytes :=
  stream.elim [] fun id => received id events

def Event.ReadsOn (stream : Option Nat) (event : Event) : Prop :=
  ∃ id bytes fault, stream = some id ∧ event = .read id bytes fault

namespace Wire

/-- From one state of a wire to another there are reads from a stream, at most so many, and nothing else;
these bytes are what they brought. -/
def Fed (stream : Option Nat) (count : Nat) (bytes : Bytes) (before after : Wire σ) : Prop :=
  ∃ reads, after.journal = reads.reverse ++ before.journal ∧ reads.length ≤ count ∧
    (∀ event ∈ reads, event.ReadsOn stream) ∧ Event.receivedOn stream reads = bytes

variable {stream : Option Nat} {count more : Nat} {bytes later : Bytes} {wire next last : Wire σ}

theorem Fed.refl (stream : Option Nat) (wire : Wire σ) : Fed stream 0 [] wire wire :=
  ⟨[], rfl, Nat.le_refl 0, by simp, by cases stream <;> rfl⟩

theorem Fed.mono (h : Fed stream count bytes wire next) (hle : count ≤ more) :
    Fed stream more bytes wire next := by
  obtain ⟨reads, hj, hc, hr, hb⟩ := h
  exact ⟨reads, hj, Nat.le_trans hc hle, hr, hb⟩

theorem Fed.trans (h : Fed stream count bytes wire next) (h' : Fed stream more later next last) :
    Fed stream (count + more) (bytes ++ later) wire last := by
  obtain ⟨reads, hj, hc, hr, rfl⟩ := h
  obtain ⟨reads', hj', hc', hr', rfl⟩ := h'
  refine ⟨reads ++ reads', ?_, ?_, ?_, ?_⟩
  · rw [hj', hj, List.reverse_append, List.append_assoc]
  · rw [List.length_append]
    exact Nat.add_le_add hc hc'
  · intro event hm
    rcases List.mem_append.mp hm with hm | hm
    · exact hr event hm
    · exact hr' event hm
  · cases stream with
    | none => rfl
    | some id => exact List.flatMap_append

theorem Fed.since (h : Fed stream count bytes wire next) :
    (wire.since next).length ≤ count ∧ (∀ event ∈ wire.since next, event.ReadsOn stream) ∧
      Event.receivedOn stream (wire.since next) = bytes := by
  obtain ⟨reads, hj, hc, hr, hb⟩ := h
  rw [since_eq hj, List.reverse_reverse]
  exact ⟨hc, hr, hb⟩

end Wire

namespace Link

open Connection

def brought (before after : Link σ) : Bytes :=
  Event.receivedOn before.connection.stream (before.wire.since after.wire)

theorem brought_eq {link after : Link σ} {count : Nat} {bytes : Bytes}
    (h : Wire.Fed link.connection.stream count bytes link.wire after.wire) :
    link.brought after = bytes :=
  h.since.2.2

variable [Network σ] {link after : Link σ} {bytes : Bytes} {fault : Option Fault}

theorem pull_fed (hp : link.pull = (bytes, fault, after)) :
    after.connection = link.connection ∧ bytes.length ≤ readSize ∧
      Wire.Fed link.connection.stream 1 bytes link.wire after.wire := by
  unfold pull at hp
  split at hp
  · cases hp
    exact ⟨rfl, Nat.zero_le _, (Wire.Fed.refl _ _).mono (Nat.zero_le 1)⟩
  · rename_i id hs
    generalize hr : link.wire.read id readSize = read at hp
    obtain ⟨delivery, next⟩ := read
    cases hp
    refine ⟨rfl, delivery.fits, [.read id delivery.bytes delivery.fault], ?_, Nat.le_refl 1, ?_, ?_⟩
    · exact (Wire.read_journal hr).1
    · simp [Event.ReadsOn, hs]
    · simp [Event.receivedOn, Event.received, hs]

@[simp] theorem gather_zero (allowance : Nat) (link : Link σ) :
    link.gather allowance 0 = ([], none, link) := by
  cases allowance <;> rfl

/-- Each read that does not fail brings a byte of those that are missing, and the last one no more than
it has room for. -/
theorem gather_fed (allowance : Nat) {missing : Nat}
    (hg : link.gather allowance missing = (bytes, fault, after)) :
    after.connection = link.connection ∧ bytes.length < missing + readSize ∧
      Wire.Fed link.connection.stream missing bytes link.wire after.wire := by
  have hnone (missing : Nat) : 0 < missing + readSize :=
    Nat.add_pos_right missing (Nat.zero_lt_succ _)
  induction allowance generalizing link missing bytes with
  | zero =>
    cases hg
    exact ⟨rfl, hnone missing, (Wire.Fed.refl _ _).mono (Nat.zero_le missing)⟩
  | succ allowance ih =>
    unfold gather at hg
    split at hg
    · cases hg
      exact ⟨rfl, hnone missing, (Wire.Fed.refl _ _).mono (Nat.zero_le missing)⟩
    · rename_i hmissing
      split at hg
      · rename_i hp
        cases hg
        obtain ⟨hc, hroom, hfed⟩ := pull_fed hp
        exact ⟨hc, by omega, hfed.mono (by omega)⟩
      · rename_i first next hp
        have hpos := List.length_pos_iff.mpr (pull_brings hp)
        obtain ⟨hc, hroom, hfed⟩ := pull_fed hp
        generalize hm : next.gather allowance (missing - first.length) = gathered at hg
        obtain ⟨more, broken, last⟩ := gathered
        cases hg
        obtain ⟨hc', hroom', hfed'⟩ := ih hm
        rw [hc] at hfed'
        refine ⟨hc'.trans hc, ?_, (hfed.trans hfed').mono (by omega)⟩
        rw [List.length_append]
        -- the read that brings the last missing byte may bring more, but it is the last one
        by_cases hleft : missing ≤ first.length
        · rw [Nat.sub_eq_zero_of_le hleft, gather_zero] at hm
          cases hm
          rw [List.length_nil]
          omega
        · omega

/-- As long as no line end is in view, each read that does not fail brings a byte; it is made only while
what is in view is not beyond the limit. -/
theorem awaitLine_fed (allowance : Nat) {scanned : Nat} {result : Except Fault Nat}
    (hl : Bytes.IsLine (link.connection.unread.take scanned))
    (hn : scanned ≤ link.connection.unread.length)
    (ha : link.awaitLine allowance scanned = (result, after)) :
    ∃ bytes, after.connection = link.connection.receive bytes ∧
      Wire.Fed link.connection.stream (longestLine + 1 - link.connection.unread.length) bytes link.wire
        after.wire ∧
      (link.connection.unread ++ bytes).length ≤
        max link.connection.unread.length (longestLine + readSize) ∧
      ∀ offset, result = .ok offset → Bytes.lineEnd? after.connection.unread = some offset := by
  induction allowance using Nat.strongRecOn generalizing scanned link with
  | ind allowance ih =>
    rcases awaitLine_turn hl hn ha with ⟨rfl, hr⟩ | ⟨bytes, fault, next, hopen, hshort, hp, hrest⟩
    · refine ⟨[], by simp [receive], (Wire.Fed.refl _ _).mono (Nat.zero_le _), ?_, hr⟩
      rw [List.append_nil]
      exact Nat.le_max_left ..
    · obtain ⟨hc, hroom, hfed⟩ := pull_fed hp
      cases fault with
      | some fault =>
        obtain ⟨rfl, rfl⟩ := hrest
        refine ⟨bytes, by simp [update, hc], hfed.mono (by omega), ?_, by simp⟩
        rw [List.length_append]
        omega
      | none =>
        obtain ⟨left, rfl, ha'⟩ := hrest
        have hpos := List.length_pos_iff.mpr (pull_brings hp)
        have hview : (next.update (receive bytes)).connection = link.connection.receive bytes := by
          rw [update, hc]
        obtain ⟨more, hc', hfed', hlen, hr⟩ := ih left (Nat.lt_succ_self left)
          (by simpa [hview, receive] using hopen) (by simp [hview, receive]) ha'
        rw [hview] at hc' hfed' hlen
        simp only [receive, List.append_assoc, List.length_append] at hc' hfed' hlen
        refine ⟨bytes ++ more, hc', (hfed.trans hfed').mono (by omega), ?_, hr⟩
        rw [List.length_append, List.length_append]
        omega

end Link

namespace Want

def allowance (unread : Nat) : Want → Nat
  | line => Connection.longestLine + 1 - unread
  | block n => if Connection.largestBlock < n then 0 else n - unread

def reach : Want → Nat
  | line => Connection.longestLine + Connection.readSize
  | block n => if Connection.largestBlock < n then 0 else n + Connection.readSize - 1

/-- The bytes that an answer takes off the front of those in view. -/
def taken : Want → Except Fault Bytes → Bytes
  | line, .ok text => text ++ Bytes.crlf
  | block _, .ok bytes => bytes
  | _, .error _ => []

def takenAll (wants : List Want) (answers : List (Except Fault Bytes)) : Bytes :=
  (List.zipWith taken wants answers).flatten

theorem plain_some {want : Want} {bytes answer rest : Bytes}
    (h : want.plain bytes = (some answer, rest)) : bytes = want.taken (.ok answer) ++ rest := by
  cases want with
  | line =>
    simp only [plain] at h
    split at h
    · rename_i n hn
      cases h
      exact (Bytes.eq_of_lineEnd? hn).1
    · cases h
  | block n =>
    simp only [plain] at h
    split at h
    · cases h
      exact (List.take_append_drop n bytes).symm
    · cases h

theorem takenAll_failed {wants : List Want} {answers : List (Except Fault Bytes)}
    (h : ∀ answer ∈ answers, answer.toOption = none) : takenAll wants answers = [] := by
  induction wants generalizing answers with
  | nil => rfl
  | cons want wants ih =>
    cases answers with
    | nil => rfl
    | cons answer answers =>
      obtain ⟨hfirst, hrest⟩ := List.forall_mem_cons.mp h
      cases answer with
      | ok bytes => cases hfirst
      | error fault =>
        have htaken : want.taken (.error fault) = [] := by cases want <;> rfl
        show want.taken (.error fault) ++ takenAll wants answers = []
        rw [htaken, ih hrest]
        rfl

end Want

namespace Link

open Connection

variable {link after : Link σ} {want : Want} {answer : Except Fault Bytes}

/-- What becomes of a connection that is asked for a line or a block. An answer is what plain reading takes
off the bytes in view: those that were unread with those that came. Without an answer all of them stay. -/
structure Fetched (want : Want) (answer : Except Fault Bytes) (link after : Link σ) : Prop where
  connection : after.connection = { link.connection with unread := after.connection.unread }
  fed : Wire.Fed link.connection.stream (want.allowance link.connection.unread.length)
    (link.brought after) link.wire after.wire
  view : (link.connection.unread ++ link.brought after).length ≤
    max link.connection.unread.length want.reach
  answered : match answer with
    | .ok bytes => want.plain (link.connection.unread ++ link.brought after) =
        (some bytes, after.connection.unread)
    | .error _ => after.connection.unread = link.connection.unread ++ link.brought after

theorem Fetched.of_fed {bytes : Bytes}
    (hc : after.connection = { link.connection with unread := after.connection.unread })
    (hfed : Wire.Fed link.connection.stream (want.allowance link.connection.unread.length) bytes
      link.wire after.wire)
    (hview : (link.connection.unread ++ bytes).length ≤
      max link.connection.unread.length want.reach)
    (ha : match answer with
      | .ok text => want.plain (link.connection.unread ++ bytes) = (some text, after.connection.unread)
      | .error _ => after.connection.unread = link.connection.unread ++ bytes) :
    Fetched want answer link after := by
  obtain rfl := brought_eq hfed
  exact ⟨hc, hfed, hview, ha⟩

theorem Fetched.conserves (h : Fetched want answer link after) :
    link.connection.unread ++ link.brought after = want.taken answer ++ after.connection.unread := by
  have ha := h.answered
  cases answer with
  | ok bytes => exact Want.plain_some ha
  | error fault =>
    have htaken : want.taken (.error fault) = [] := by cases want <;> rfl
    rw [htaken, ha]
    rfl

variable [Network σ]

theorem readLine_fetched (link : Link σ) : Fetched .line link.readLine.1 link link.readLine.2 := by
  generalize hr : link.readLine = read
  obtain ⟨result, after⟩ := read
  rw [readLine_eq] at hr
  generalize ha : link.awaitLine (longestLine + 1 - link.connection.unread.length) 0 = awaited at hr
  obtain ⟨found, next⟩ := awaited
  obtain ⟨bytes, hc, hfed, hview, hfound⟩ := awaitLine_fed _ (by simp [Bytes.IsLine, Bytes.crlf])
    (Nat.zero_le _) ha
  have hunread : next.connection.unread = link.connection.unread ++ bytes := by
    rw [hc]
    rfl
  cases found with
  | error fault =>
    cases hr
    exact .of_fed (by rw [hc]; rfl) hfed hview hunread
  | ok offset =>
    cases hr
    refine .of_fed (by simp [update, consume, hc, receive]) hfed hview ?_
    have hn := hfound offset rfl
    rw [hunread] at hn
    simp only [Want.plain, hn, hunread, update, consume]

theorem readExact_fetched (n : Nat) (link : Link σ) :
    Fetched (.block n) (link.readExact n).1 link (link.readExact n).2 := by
  rw [readExact_eq]
  split
  · rename_i hlarge
    refine @Fetched.of_fed _ _ _ _ _ [] rfl ?_ ?_ (List.append_nil _).symm
    · simpa [Want.allowance, hlarge] using Wire.Fed.refl _ _
    · rw [List.append_nil]
      exact Nat.le_max_left ..
  · rename_i hsmall
    dsimp only
    generalize hg : link.gather (n - link.connection.unread.length)
      (n - link.connection.unread.length) = gathered
    obtain ⟨bytes, fault, next⟩ := gathered
    obtain ⟨hc, hroom, hfed⟩ := gather_fed _ hg
    have hfed' : Wire.Fed link.connection.stream
        ((Want.block n).allowance link.connection.unread.length) bytes link.wire next.wire := by
      rwa [Want.allowance, if_neg hsmall]
    have hview : (link.connection.unread ++ bytes).length ≤
        max link.connection.unread.length (Want.block n).reach := by
      rw [List.length_append, Want.reach, if_neg hsmall]
      -- where enough is unread, nothing is read at all
      by_cases henough : n ≤ link.connection.unread.length
      · rw [Nat.sub_eq_zero_of_le henough, gather_zero] at hg
        cases hg
        exact Nat.le_max_left ..
      · omega
    cases fault with
    | some fault =>
      exact .of_fed (by simp [update, receive, hc]) hfed' hview (by simp [update, receive, hc])
    | none =>
      have henough := gather_enough (Nat.le_refl _) hg
      have hn : n ≤ (link.connection.unread ++ bytes).length := by
        rw [List.length_append]
        omega
      refine .of_fed (by simp [update, receive, consume, hc]) hfed' hview ?_
      simp only [Want.plain, hn, ↓reduceIte, update, receive, consume, hc]

theorem fetch_fetched (want : Want) (link : Link σ) :
    Fetched want (link.fetch want).1 link (link.fetch want).2 := by
  cases want with
  | line => exact link.readLine_fetched
  | block n => exact link.readExact_fetched n

theorem fetchAll_fed (wants : List Want) (link : Link σ) :
    let run := link.fetchAll wants
    run.2.connection.stream = link.connection.stream ∧
    (∃ count, Wire.Fed link.connection.stream count (link.brought run.2) link.wire run.2.wire) ∧
    link.connection.unread ++ link.brought run.2 =
      Want.takenAll wants run.1 ++ run.2.connection.unread := by
  induction wants generalizing link with
  | nil =>
    have hnone := Wire.Fed.refl link.connection.stream link.wire
    simp only [fetchAll, brought_eq hnone]
    exact ⟨trivial, ⟨0, hnone⟩, List.append_nil _⟩
  | cons want wants ih =>
    have hfirst := link.fetch_fetched want
    obtain ⟨hs, ⟨count, hfed⟩, hrest⟩ := ih (link.fetch want).2
    have hstream : (link.fetch want).2.connection.stream = link.connection.stream := by
      rw [hfirst.connection]
    rw [hstream] at hfed
    have hall := hfirst.fed.trans hfed
    simp only [fetchAll]
    rw [brought_eq hall]
    refine ⟨hs.trans hstream, ⟨_, hall⟩, ?_⟩
    show _ = (want.taken (link.fetch want).1 ++ Want.takenAll wants _) ++ _
    rw [← List.append_assoc, hfirst.conserves, List.append_assoc, hrest, List.append_assoc]

def fetchInto : Want → Bytes → Link σ → Option Fault × Bytes × Link σ
  | .line, text, link => link.readLineInto text
  | .block n, text, link => link.readExactInto n text

/-- An answer replaces the text that is read into; where there is none the text stays. -/
theorem fetchInto_eq (want : Want) (text : Bytes) (link : Link σ) : link.fetchInto want text =
    match link.fetch want with
    | (.ok answer, link) => (none, answer, link)
    | (.error fault, link) => (some fault, text, link) := by
  cases want with
  | line =>
    simp only [fetchInto, fetch, readLine_eq, readLineInto]
    generalize link.awaitLine _ _ = awaited
    obtain ⟨fault | offset, next⟩ := awaited <;> rfl
  | block n =>
    simp only [fetchInto, fetch, readExact_eq, readExactInto]
    split
    · rfl
    · generalize link.gather _ _ = gathered
      obtain ⟨bytes, fault | fault, next⟩ := gathered <;> rfl

end Link

/-- Lines and blocks may be asked for in any order and may fail in any way: the bytes that were unread, with
all that the stream has brought since, are the bytes taken by the calls that succeeded, in order, followed
by those that are unread now. A further call that succeeds takes its line or block off these; one that
fails changes no text and leaves them, with what it has brought, to be read. So after calls that all
failed, the first that succeeds answers as if all had come to it. -/
theorem no_byte_lost [Network σ] (link : Link σ) (wants : List Want) (want : Want) (text : Bytes) :
    let run := link.fetchAll wants
    let next := run.2.fetchInto want text
    let held := next.2.1
    let after := next.2.2
    link.connection.unread ++ link.brought run.2 =
      Want.takenAll wants run.1 ++ run.2.connection.unread ∧
    (∀ event ∈ link.wire.since run.2.wire, event.ReadsOn link.connection.stream) ∧
    match next.1 with
    | none =>
      want.plain (run.2.connection.unread ++ run.2.brought after) =
        (some held, after.connection.unread) ∧
      ((∀ answer ∈ run.1, answer.toOption = none) →
        want.plain (link.connection.unread ++ link.brought after) =
          (some held, after.connection.unread))
    | some _ => held = text ∧
      after.connection.unread = run.2.connection.unread ++ run.2.brought after := by
  intro run next held after
  obtain ⟨hs, ⟨count, hfed⟩, hkept⟩ := link.fetchAll_fed wants
  refine ⟨hkept, hfed.since.2.1, ?_⟩
  have hnext := run.2.fetch_fetched want
  have hmore := hnext.fed
  rw [hs] at hmore
  have hall := Link.brought_eq (hfed.trans hmore)
  have ha := hnext.answered
  simp only [next, held, after, Link.fetchInto_eq]
  generalize run.2.fetch want = fetched at *
  obtain ⟨fault | answer, last⟩ := fetched
  · exact ⟨rfl, ha⟩
  · refine ⟨ha, ?_⟩
    intro hfailed
    rw [Want.takenAll_failed hfailed, List.nil_append] at hkept
    rw [hall, ← List.append_assoc, hkept]
    exact ha

/-- A deadline passes between the two halves of a line end, and a block that is too large is refused; the
line is read all the same when it is asked for again. -/
theorem broken_line_resumed :
    let link : Link Script := ⟨.fresh (some 0), Wire.start
      { streams := [(0, ⟨[⟨ascii "ab\r", some .deadline⟩, ⟨ascii "\nc", none⟩], []⟩)] }⟩
    let run := link.fetchAll [.line, .block (Connection.largestBlock + 1)]
    let next := run.2.fetchInto .line (ascii "old")
    run.1 = [.error .deadline, .error .messageSize] ∧ next.1 = none ∧ next.2.1 = ascii "ab" ∧
      Want.line.plain (link.connection.unread ++ link.brought next.2.2) =
        (some (ascii "ab"), ascii "c") := by
  intro link run next
  obtain ⟨-, -, hnext⟩ :=
    no_byte_lost link [.line, .block (Connection.largestBlock + 1)] .line (ascii "old")
  have hfailed : run.1 = [.error .deadline, .error .messageSize] := rfl
  refine ⟨hfailed, rfl, rfl, hnext.2 ?_⟩
  intro answer hm
  rw [hfailed] at hm
  simp only [List.mem_cons, List.not_mem_nil, or_false] at hm
  rcases hm with rfl | rfl <;> rfl

end CacheClient
