import CacheClient.Proofs.Reading

namespace CacheClient

/-- A relation that tells what a stream is still to bring, and bears it out: while bytes are to come,
a read brings some of them and no fault. -/
def Wire.Feeds [Network σ] (id : Nat) (feed : Bytes → Wire σ → Prop) : Prop :=
  ∀ bytes wire, feed bytes wire → bytes ≠ [] → ∃ got more next fits,
    wire.read id Connection.readSize = (⟨got, none, fits⟩, next) ∧
      got ≠ [] ∧ bytes = got ++ more ∧ feed more next

/-- The stream is to bring these bytes, in pieces of any size and without a fault. -/
inductive Wire.Delivers [Network σ] (id : Nat) : Bytes → Wire σ → Prop where
  | nothing (wire : Wire σ) : Delivers id [] wire
  | piece {wire next : Wire σ} (read : wire.read id Connection.readSize = (⟨got, none, fits⟩, next))
      (brings : got ≠ []) (later : Delivers id more next) : Delivers id (got ++ more) wire

theorem Wire.delivers_feeds [Network σ] (id : Nat) :
    Wire.Feeds id (Delivers id : Bytes → Wire σ → Prop) := by
  intro bytes wire h hne
  cases h with
  | nothing => exact absurd rfl hne
  | piece hr hg hm => exact ⟨_, _, _, _, hr, hg, rfl, hm⟩

/-- Read after read, the stream brings these pieces, and no fault before the last of them has come. -/
inductive Wire.Arrives [Network σ] (id : Nat) (ends : Wire σ → Prop) :
    List Bytes → Wire σ → Prop where
  | done {wire : Wire σ} (ended : ends wire) : Arrives id ends [] wire
  | piece {wire next : Wire σ}
      (read : wire.read id Connection.readSize = (⟨piece, none, fits⟩, next)) (brings : piece ≠ [])
      (later : Arrives id ends pieces next) : Arrives id ends (piece :: pieces) wire

namespace Wire

variable [Network σ] {id : Nat} {feed : Bytes → Wire σ → Prop} {ends : Wire σ → Prop} {wire : Wire σ}

theorem Arrives.delivers {pieces : List Bytes} (h : wire.Arrives id ends pieces) :
    wire.Delivers id pieces.flatten := by
  induction h with
  | done => exact .nothing _
  | piece hr hb _ ih =>
    rw [List.flatten_cons]
    exact .piece hr hb ih

/-- A stream of which it is told otherwise what it is to bring brings that in pieces. -/
theorem Feeds.arrives (hf : Feeds id feed) (hends : ∀ wire, feed [] wire → ends wire)
    (hb : feed bytes wire) : ∃ pieces : List Bytes, pieces.flatten = bytes ∧
      wire.Arrives id ends pieces := by
  induction hn : bytes.length using Nat.strongRecOn generalizing bytes wire with
  | ind n ih =>
    by_cases hne : bytes = []
    · subst hne
      exact ⟨[], rfl, .done (hends wire hb)⟩
    · obtain ⟨got, more, next, fits, hr, hg, rfl, hm⟩ := hf bytes wire hb hne
      have hpos := List.length_pos_iff.mpr hg
      rw [List.length_append] at hn
      obtain ⟨pieces, rfl, ha⟩ := ih more.length (by omega) hm rfl
      exact ⟨got :: pieces, List.flatten_cons, .piece hr hg ha⟩

theorem Feeds.delivers (hf : Feeds id feed) (hb : feed bytes wire) : wire.Delivers id bytes := by
  have hanyway : ∀ wire : Wire σ, feed [] wire → True := fun _ _ => trivial
  obtain ⟨pieces, rfl, ha⟩ := hf.arrives hanyway hb
  exact ha.delivers

end Wire

namespace Link

open Connection

variable [Network σ] {id : Nat} {feed : Bytes → Wire σ → Prop} {link : Link σ}

theorem pull_of_feed (hf : Wire.Feeds id feed) (hs : link.connection.stream = some id)
    (hb : feed bytes link.wire) (hne : bytes ≠ []) : ∃ got more next,
      link.pull = (got, none, ⟨link.connection, next⟩) ∧
        got ≠ [] ∧ bytes = got ++ more ∧ feed more next := by
  obtain ⟨got, more, next, fits, hr, hg, he, hm⟩ := hf bytes link.wire hb hne
  refine ⟨got, more, next, ?_, hg, he, hm⟩
  have hempty : got.isEmpty = false := by simpa using hg
  simp [pull, hs, hr, hempty]

theorem awaitLine_found {line rest : Bytes} (hl : Bytes.IsLine line)
    (he : link.connection.unread ++ bytes = line ++ Bytes.crlf ++ rest)
    (hscan : Bytes.IsLine (link.connection.unread.take scanned))
    (hle : scanned ≤ link.connection.unread.length)
    (hn : Bytes.lineEnd? link.connection.unread = some n) (allowance : Nat) :
    ∃ tail, link.awaitLine allowance scanned = (.ok line.length,
        ⟨{ link.connection with unread := line ++ Bytes.crlf ++ tail }, link.wire⟩) ∧
      tail ++ bytes = rest := by
  obtain ⟨line', tail, hu, hl', rfl⟩ := Bytes.lineEnd?_eq_some.mp hn
  rw [hu, List.append_assoc] at he
  obtain ⟨rfl, ht⟩ := Bytes.line_unique hl' hl he
  refine ⟨tail, ?_, ht⟩
  unfold awaitLine
  simp [Bytes.lineEndAfter_scanned hscan hle, hn, ← hu]

theorem awaitLine_pull (hscan : Bytes.IsLine (link.connection.unread.take scanned))
    (hle : scanned ≤ link.connection.unread.length)
    (hn : Bytes.lineEnd? link.connection.unread = none)
    (hlim : link.connection.unread.length ≤ longestLine)
    (hp : link.pull = (got, none, ⟨link.connection, next⟩)) (allowance : Nat) :
    link.awaitLine (allowance + 1) scanned =
      awaitLine allowance link.connection.unread.length ⟨link.connection.receive got, next⟩ := by
  have hlim' : ¬ longestLine < link.connection.unread.length := by omega
  simp [awaitLine, Bytes.lineEndAfter_scanned hscan hle, hn, hlim', hp, update]

/-- The line is found as soon as its end has come: what has come then is the line with some of what
follows it. -/
theorem awaitLine_of_feed (hf : Wire.Feeds id feed) {line rest : Bytes} (hl : Bytes.IsLine line)
    (hshort : line.length < longestLine) (allowance scanned : Nat)
    (hs : link.connection.stream = some id) (hb : feed bytes link.wire)
    (he : link.connection.unread ++ bytes = line ++ Bytes.crlf ++ rest)
    (hscan : Bytes.IsLine (link.connection.unread.take scanned))
    (hle : scanned ≤ link.connection.unread.length)
    (ha : line.length + 2 ≤ allowance + link.connection.unread.length) :
    ∃ tail more next, link.awaitLine allowance scanned = (.ok line.length,
        ⟨{ link.connection with unread := line ++ Bytes.crlf ++ tail }, next⟩) ∧
      feed more next ∧ tail ++ more = rest := by
  induction allowance generalizing scanned link bytes with
  | zero =>
    cases hn : Bytes.lineEnd? link.connection.unread with
    | some n =>
      obtain ⟨tail, hr, ht⟩ := awaitLine_found hl he hscan hle hn 0
      exact ⟨tail, bytes, link.wire, hr, hb, ht⟩
    | none =>
      -- the allowance covers the whole line, so that its end would have to be in view
      have := Bytes.length_le_of_isLine (Bytes.lineEnd?_eq_none.mp hn) he
      omega
  | succ allowance ih =>
    cases hn : Bytes.lineEnd? link.connection.unread with
    | some n =>
      obtain ⟨tail, hr, ht⟩ := awaitLine_found hl he hscan hle hn (allowance + 1)
      exact ⟨tail, bytes, link.wire, hr, hb, ht⟩
    | none =>
      have hopen := Bytes.lineEnd?_eq_none.mp hn
      have hlen := Bytes.length_le_of_isLine hopen he
      -- something is still to come, or the line would be in view with its end
      have hne : bytes ≠ [] := by
        rintro rfl
        rw [← List.append_nil link.connection.unread, he, Bytes.lineEnd?_line hl rest] at hn
        cases hn
      obtain ⟨got, more, next, hp, hg, rfl, hm⟩ := pull_of_feed hf hs hb hne
      have hpos := List.length_pos_iff.mpr hg
      rw [awaitLine_pull hscan hle hn (by omega) hp]
      apply @ih ⟨link.connection.receive got, next⟩ more link.connection.unread.length hs hm
      · simpa [receive] using he
      · simpa [receive] using hopen
      · simp [receive]
      · simp [receive]
        omega

theorem readLine_of_await {line tail : Bytes} {next : Wire σ}
    (ha : link.awaitLine (longestLine + 1 - link.connection.unread.length) 0 = (.ok line.length,
      ⟨{ link.connection with unread := line ++ Bytes.crlf ++ tail }, next⟩)) :
    link.readLine = (.ok line, ⟨{ link.connection with unread := tail }, next⟩) := by
  have htake : (line ++ (Bytes.crlf ++ tail)).take line.length = line := List.take_left
  have hdrop : (line ++ (Bytes.crlf ++ tail)).drop (line.length + 2) = tail := by
    rw [← List.drop_drop, List.drop_left]
    rfl
  simp [readLine_eq, ha, update, consume, htake, hdrop]

theorem readLine_in_view {line rest : Bytes} (hl : Bytes.IsLine line)
    (hu : link.connection.unread = line ++ Bytes.crlf ++ rest) :
    link.readLine = (.ok line, ⟨{ link.connection with unread := rest }, link.wire⟩) := by
  have he : link.connection.unread ++ [] = line ++ Bytes.crlf ++ rest := by
    rw [hu, List.append_nil]
  have hn : Bytes.lineEnd? link.connection.unread = some line.length := by
    rw [hu]
    exact Bytes.lineEnd?_line hl rest
  obtain ⟨tail, ha, ht⟩ := awaitLine_found hl he (by simp [Bytes.IsLine, Bytes.crlf])
    (Nat.zero_le _) hn (longestLine + 1 - link.connection.unread.length)
  rw [List.append_nil] at ht
  exact readLine_of_await (ht ▸ ha)

theorem readLine_overlong (hl : Bytes.IsLine link.connection.unread)
    (hlong : longestLine < link.connection.unread.length) :
    link.readLine = (.error .messageSize, link) := by
  have hnone : Bytes.lineEndAfter 0 link.connection.unread = none := Bytes.lineEnd?_eq_none.mpr hl
  have hallow : longestLine + 1 - link.connection.unread.length = 0 := by omega
  simp [readLine_eq, hallow, awaitLine, hnone]

/-- A line that is to come, or has come already, is read; what follows it stays to be read. -/
theorem readLine_of_feed (hf : Wire.Feeds id feed) {line rest : Bytes} (hl : Bytes.IsLine line)
    (hshort : line.length < longestLine) (hs : link.connection.stream = some id)
    (hb : feed bytes link.wire)
    (he : link.connection.unread ++ bytes = line ++ Bytes.crlf ++ rest) :
    ∃ unread more next, link.readLine = (.ok line, ⟨{ link.connection with unread }, next⟩) ∧
      feed more next ∧ unread ++ more = rest := by
  have hnone : Bytes.IsLine (link.connection.unread.take 0) := by simp [Bytes.IsLine, Bytes.crlf]
  obtain ⟨tail, more, next, ha, hm, ht⟩ := awaitLine_of_feed hf hl hshort
    (longestLine + 1 - link.connection.unread.length) 0 hs hb he hnone (Nat.zero_le _) (by omega)
  exact ⟨tail, more, next, readLine_of_await ha, hm, ht⟩

theorem gather_of_feed (hf : Wire.Feeds id feed) (allowance missing : Nat)
    (hs : link.connection.stream = some id) (hb : feed bytes link.wire)
    (hm : missing ≤ bytes.length) (ha : missing ≤ allowance) :
    ∃ got more next, link.gather allowance missing = (got, none, ⟨link.connection, next⟩) ∧
      bytes = got ++ more ∧ feed more next ∧ missing ≤ got.length := by
  induction allowance generalizing missing link bytes with
  | zero => exact ⟨[], bytes, link.wire, rfl, rfl, hb, by omega⟩
  | succ allowance ih =>
    by_cases hz : missing = 0
    · exact ⟨[], bytes, link.wire, by simp [gather, hz], rfl, hb, by omega⟩
    · have hne : bytes ≠ [] := by
        rintro rfl
        exact hz (Nat.le_zero.mp hm)
      obtain ⟨got, more, next, hp, hg, rfl, hfeed⟩ := pull_of_feed hf hs hb hne
      have hpos := List.length_pos_iff.mpr hg
      rw [List.length_append] at hm
      obtain ⟨got', more', last, hr, rfl, hfeed', hlen⟩ :=
        @ih ⟨link.connection, next⟩ more (missing - got.length) hs hfeed (by omega) (by omega)
      refine ⟨got ++ got', more', last, ?_, by simp, hfeed', by simp; omega⟩
      simp [gather, hz, hp, hr]

/-- A block that is to come, or has come already, is read; what follows it stays to be read. -/
theorem readExact_of_feed (hf : Wire.Feeds id feed) {block rest : Bytes}
    (hsmall : block.length ≤ largestBlock) (hs : link.connection.stream = some id)
    (hb : feed bytes link.wire) (he : link.connection.unread ++ bytes = block ++ rest) :
    ∃ unread more next, link.readExact block.length =
        (.ok block, ⟨{ link.connection with unread }, next⟩) ∧
      feed more next ∧ unread ++ more = rest := by
  have hlen := congrArg List.length he
  rw [List.length_append, List.length_append] at hlen
  obtain ⟨got, more, next, hg, rfl, hm, hgot⟩ := gather_of_feed hf
    (block.length - link.connection.unread.length) (block.length - link.connection.unread.length)
    hs hb (by omega) (Nat.le_refl _)
  have hprefix : block <+: link.connection.unread ++ got := by
    apply List.prefix_of_prefix_length_le (List.prefix_append block rest)
    · rw [← he, ← List.append_assoc]
      exact List.prefix_append _ _
    · rw [List.length_append]
      omega
  obtain ⟨tail, ht⟩ := hprefix
  refine ⟨tail, more, next, ?_, hm, ?_⟩
  · have hlim : ¬ largestBlock < block.length := by omega
    simp [readExact_eq, hlim, hg, update, receive, consume, ← ht]
  · rw [← List.append_assoc, ← ht, List.append_assoc] at he
    exact List.append_cancel_left he

theorem readExact_in_view {block rest : Bytes} (hsmall : block.length ≤ largestBlock)
    (hu : link.connection.unread = block ++ rest) :
    link.readExact block.length =
      (.ok block, ⟨{ link.connection with unread := rest }, link.wire⟩) := by
  have hlim : ¬ largestBlock < block.length := by omega
  simp [readExact_eq, hlim, gather, update, receive, consume, hu]

/-- What is unread and what the stream is still to bring make up these bytes. -/
def Offers (id : Nat) (feed : Bytes → Wire σ → Prop) (bytes : Bytes) (link : Link σ) : Prop :=
  link.connection.stream = some id ∧
    ∃ more, feed more link.wire ∧ link.connection.unread ++ more = bytes

/-- These bytes are consumed, and nothing is read once they are in view. -/
def Consumes (id : Nat) (bytes : Bytes) (link after : Link σ) : Prop :=
  Takes id (fun view => ¬ bytes <+: view) bytes none link after

theorem Consumes.trans {after last : Link σ} (h : Consumes id bytes link after)
    (h' : Consumes id more after last) : Consumes id (bytes ++ more) link last := by
  apply Takes.trans
  · apply h.mono
    intro view hview hp
    exact hview ((List.prefix_append bytes more).trans hp)
  · apply h'.mono
    intro view hview hp
    exact hview ((List.prefix_append_right_inj bytes).mp hp)

theorem Offers.readLine (hf : Wire.Feeds id feed) {line rest : Bytes} (hl : Bytes.IsLine line)
    (hshort : line.length < longestLine) (h : link.Offers id feed (line ++ Bytes.crlf ++ rest)) :
    ∃ after, link.readLine = (.ok line, after) ∧ after.Offers id feed rest ∧
      Consumes id (line ++ Bytes.crlf) link after := by
  obtain ⟨hs, bytes, hb, he⟩ := h
  obtain ⟨unread, more, next, hr, hm, hrest⟩ := readLine_of_feed hf hl hshort hs hb he
  refine ⟨_, hr, ⟨hs, more, hm, hrest⟩, ?_⟩
  apply (readLine_takes hs hr).1.mono
  intro view hview hp
  exact hview ((List.suffix_append line Bytes.crlf).isInfix.trans hp.isInfix)

theorem Offers.readExact (hf : Wire.Feeds id feed) {block rest : Bytes}
    (hsmall : block.length ≤ largestBlock) (h : link.Offers id feed (block ++ rest)) :
    ∃ after, link.readExact block.length = (.ok block, after) ∧ after.Offers id feed rest ∧
      Consumes id block link after := by
  obtain ⟨hs, bytes, hb, he⟩ := h
  obtain ⟨unread, more, next, hr, hm, hrest⟩ := readExact_of_feed hf hsmall hs hb he
  refine ⟨_, hr, ⟨hs, more, hm, hrest⟩, ?_⟩
  apply (readExact_takes hs hr).mono
  intro view hview hp
  exact absurd hp.length_le (Nat.not_le_of_lt hview)

end Link

end CacheClient
