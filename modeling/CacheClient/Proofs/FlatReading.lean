import CacheClient.Proofs.Session

namespace CacheClient

namespace Wire

variable [Network σ]

/-- However often the stream is read from now on, nothing comes. -/
def Dry (id : Nat) (wire : Wire σ) : Prop :=
  ∀ bytes last, wire.Brings id bytes last → bytes = []

/-- The stream is to bring these bytes, in some pieces, and nothing after them. -/
def Carries (id : Nat) (bytes : Bytes) (wire : Wire σ) : Prop :=
  ∃ pieces : List Bytes, pieces.flatten = bytes ∧ wire.Arrives id (Dry id) pieces

variable {id : Nat} {wire next : Wire σ}

theorem Dry.read {room : Nat} {delivery : Delivery room} (h : wire.Dry id)
    (hr : wire.read id room = (delivery, next)) : delivery.bytes = [] ∧ next.Dry id := by
  refine ⟨h _ _ (.once hr), ?_⟩
  intro bytes last hb
  exact (List.append_eq_nil_iff.mp (h _ _ (.read hr hb))).2

theorem carries_feeds (id : Nat) : Feeds id (Carries id : Bytes → Wire σ → Prop) := by
  rintro bytes wire ⟨pieces, rfl, ha⟩ hne
  cases ha with
  | done => exact absurd rfl hne
  | piece hr hb hl => exact ⟨_, _, _, _, hr, hb, List.flatten_cons, _, rfl, hl⟩

theorem Carries.read {delivery : Delivery Connection.readSize} (h : wire.Carries id bytes)
    (hr : wire.read id Connection.readSize = (delivery, next)) :
    ∃ more, bytes = delivery.bytes ++ more ∧ next.Carries id more := by
  obtain ⟨pieces, rfl, ha⟩ := h
  cases ha with
  | done hd =>
    obtain ⟨hnone, hdry⟩ := hd.read hr
    exact ⟨[], by rw [hnone]; rfl, [], rfl, .done hdry⟩
  | piece hp hb hl =>
    rw [hp] at hr
    obtain ⟨rfl, rfl⟩ := Prod.mk.inj hr
    exact ⟨_, List.flatten_cons, _, rfl, hl⟩

end Wire

namespace Link

open Connection

variable [Network σ] {id : Nat} {link after : Link σ} {bytes got : Bytes}

theorem pull_brings (hp : link.pull = (got, none, after)) : got ≠ [] := by
  unfold pull at hp
  split at hp
  · cases hp
  · dsimp only at hp
    split at hp
    · cases hp
    · split at hp
      · cases hp
      · rename_i hsome
        obtain ⟨rfl, -⟩ := Prod.mk.inj hp
        simpa using hsome

theorem gather_enough {allowance missing : Nat} (ha : missing ≤ allowance)
    (hg : link.gather allowance missing = (got, none, after)) : missing ≤ got.length := by
  induction allowance generalizing link missing got with
  | zero => exact Nat.le_trans ha (Nat.zero_le _)
  | succ allowance ih =>
    unfold gather at hg
    split at hg
    · rename_i hz
      exact hz ▸ Nat.zero_le _
    · split at hg
      · cases hg
      · rename_i first next hp
        have hpos := List.length_pos_iff.mpr (pull_brings hp)
        generalize hlater : next.gather allowance (missing - first.length) = later at hg
        obtain ⟨more, fault, last⟩ := later
        cases hg
        have hmore := ih (by omega) hlater
        rw [List.length_append]
        omega

theorem pull_carries (hs : link.connection.stream = some id) (hc : link.wire.Carries id bytes)
    (hp : link.pull = (got, fault, after)) :
    after.connection = link.connection ∧
      ∃ more, bytes = got ++ more ∧ after.wire.Carries id more := by
  simp only [pull, hs, Prod.mk.injEq] at hp
  obtain ⟨rfl, -, rfl⟩ := hp
  exact ⟨rfl, hc.read rfl⟩

theorem gather_carries (allowance missing : Nat) (hs : link.connection.stream = some id)
    (hc : link.wire.Carries id bytes) (hg : link.gather allowance missing = (got, fault, after)) :
    after.connection = link.connection ∧
      ∃ more, bytes = got ++ more ∧ after.wire.Carries id more := by
  induction allowance generalizing link missing bytes got with
  | zero =>
    cases hg
    exact ⟨rfl, bytes, rfl, hc⟩
  | succ allowance ih =>
    unfold gather at hg
    split at hg
    · cases hg
      exact ⟨rfl, bytes, rfl, hc⟩
    · split at hg
      · rename_i hp
        cases hg
        exact pull_carries hs hc hp
      · rename_i first next hp
        obtain ⟨hconn, later, rfl, hlater⟩ := pull_carries hs hc hp
        generalize hm : next.gather allowance (missing - first.length) = gathered at hg
        obtain ⟨more, fault, last⟩ := gathered
        cases hg
        obtain ⟨hconn', rest, rfl, hrest⟩ := ih _ (hconn ▸ hs) hlater hm
        exact ⟨hconn'.trans hconn, rest, (List.append_assoc ..).symm, hrest⟩

theorem Offers.received (h : link.Offers id (Wire.Carries id) bytes) {next : Link σ}
    (hnext : ∀ coming, link.wire.Carries id coming →
      next.connection = link.connection ∧ ∃ more, coming = got ++ more ∧ next.wire.Carries id more) :
    (next.update (receive got)).Offers id (Wire.Carries id) bytes := by
  obtain ⟨hs, coming, hc, rfl⟩ := h
  obtain ⟨hconn, more, rfl, hm⟩ := hnext coming hc
  refine ⟨?_, more, hm, ?_⟩
  · simp [update, receive, hconn, hs]
  · simp [update, receive, hconn]

theorem Offers.awaitLine (h : link.Offers id (Wire.Carries id) bytes) (allowance scanned : Nat) :
    (link.awaitLine allowance scanned).2.Offers id (Wire.Carries id) bytes := by
  induction allowance generalizing link scanned with
  | zero =>
    unfold Link.awaitLine
    split <;> exact h
  | succ allowance ih =>
    unfold Link.awaitLine
    split
    · exact h
    · dsimp only
      split
      · exact h
      · split <;> rename_i hp
        · exact h.received fun _ hc => pull_carries h.1 hc hp
        · exact ih (h.received fun _ hc => pull_carries h.1 hc hp) _

theorem Offers.no_line (h : link.Offers id (Wire.Carries id) bytes)
    (hn : Bytes.lineEnd? bytes = none) : ∃ fault after, link.readLine = (.error fault, after) ∧
      after.Offers id (Wire.Carries id) bytes := by
  have hkept := h.awaitLine (longestLine + 1 - link.connection.unread.length) 0
  generalize ha : link.awaitLine (longestLine + 1 - link.connection.unread.length) 0 = awaited at hkept
  obtain ⟨fault | offset, after⟩ := awaited
  · exact ⟨fault, after, by rw [Link.readLine_eq, ha], hkept⟩
  · obtain ⟨-, -, -, -, -, hfound⟩ := awaitLine_draws _ 0 h.1 (by simp [Bytes.IsLine, Bytes.crlf])
      (Nat.zero_le _) ha
    obtain ⟨-, more, -, rfl⟩ := hkept
    rw [Bytes.lineEnd?_append (hfound offset rfl)] at hn
    cases hn

theorem Offers.no_block (h : link.Offers id (Wire.Carries id) bytes) {n : Nat}
    (hn : bytes.length < n) : ∃ fault after, link.readExact n = (.error fault, after) ∧
      after.Offers id (Wire.Carries id) bytes := by
  by_cases hlarge : largestBlock < n
  · exact ⟨.messageSize, link, by rw [Link.readExact_eq, if_pos hlarge], h⟩
  · generalize hg : link.gather (n - link.connection.unread.length)
      (n - link.connection.unread.length) = gathered
    obtain ⟨got, fault, next⟩ := gathered
    have hkept : (next.update (receive got)).Offers id (Wire.Carries id) bytes :=
      h.received fun _ hc => gather_carries _ _ h.1 hc hg
    cases fault with
    | some fault => exact ⟨fault, _, by simp only [Link.readExact_eq, hlarge, ↓reduceIte, hg], hkept⟩
    | none =>
      have hconn := (gather_draws _ _ h.1 hg).2
      have henough := gather_enough (Nat.le_refl _) hg
      obtain ⟨-, more, -, rfl⟩ := hkept
      simp only [update, receive, hconn, List.length_append] at hn
      omega

end Link

/-- What a caller can ask a connection to read. -/
inductive Want where
  | line
  | block (n : Nat)

namespace Want

/-- Plain reading off a byte string: what is asked for and what is left then. Where the bytes do not
suffice, there is no answer and all of them are left. -/
def plain : Want → Bytes → Option Bytes × Bytes
  | line, bytes =>
    match Bytes.lineEnd? bytes with
    | some n => (some (bytes.take n), bytes.drop (n + 2))
    | none => (none, bytes)
  | block n, bytes => if n ≤ bytes.length then (some (bytes.take n), bytes.drop n) else (none, bytes)

def plainAll : List Want → Bytes → List (Option Bytes) × Bytes
  | [], bytes => ([], bytes)
  | want :: wants, bytes =>
    let (answer, rest) := want.plain bytes
    let (answers, rest) := plainAll wants rest
    (answer :: answers, rest)

/-- A block is no larger than may be asked for, and a line is short enough, if there is one at all. -/
def InReach : Want → Bytes → Prop
  | line, bytes => ∀ n, Bytes.lineEnd? bytes = some n → n < Connection.longestLine
  | block n, _ => n ≤ Connection.largestBlock

def AllInReach : List Want → Bytes → Prop
  | [], _ => True
  | want :: wants, bytes => want.InReach bytes ∧ AllInReach wants (want.plain bytes).2

theorem plainAll_cons (want : Want) (wants : List Want) (bytes : Bytes) :
    plainAll (want :: wants) bytes = ((want.plain bytes).1 :: (plainAll wants (want.plain bytes).2).1,
      (plainAll wants (want.plain bytes).2).2) := rfl

theorem plain_line {text : Bytes} (hl : Bytes.IsLine text) (rest : Bytes) :
    line.plain (text ++ Bytes.crlf ++ rest) = (some text, rest) := by
  have hdrop : (text ++ (Bytes.crlf ++ rest)).drop (text.length + 2) = rest := by
    rw [← List.drop_drop, List.drop_left]
    rfl
  rw [plain, Bytes.lineEnd?_line hl rest]
  dsimp only
  rw [List.append_assoc, List.take_left, hdrop]

theorem line_inReach {text : Bytes} (hl : Bytes.IsLine text)
    (hshort : text.length < Connection.longestLine) (rest : Bytes) :
    line.InReach (text ++ Bytes.crlf ++ rest) := by
  intro n hn
  rw [Bytes.lineEnd?_line hl, Option.some.injEq] at hn
  exact hn ▸ hshort

theorem plain_block (value rest : Bytes) :
    (block value.length).plain (value ++ rest) = (some value, rest) := by
  simp [plain]

end Want

namespace Link

variable [Network σ] {id : Nat} {link : Link σ} {bytes : Bytes}

def fetch : Want → Link σ → Except Fault Bytes × Link σ
  | .line, link => link.readLine
  | .block n, link => link.readExact n

def fetchAll : List Want → Link σ → List (Except Fault Bytes) × Link σ
  | [], link => ([], link)
  | want :: wants, link =>
    let (answer, link) := link.fetch want
    let (answers, link) := fetchAll wants link
    (answer :: answers, link)

/-- One read: the answer of plain reading, or a fault where that has none; and the same is left. -/
theorem Offers.fetch (h : link.Offers id (Wire.Carries id) bytes) (want : Want)
    (hr : want.InReach bytes) : (link.fetch want).1.toOption = (want.plain bytes).1 ∧
      (link.fetch want).2.Offers id (Wire.Carries id) (want.plain bytes).2 := by
  -- in both cases: what can be read off the bytes is read, and where nothing can be nothing is lost
  cases want with
  | line =>
    cases hn : Bytes.lineEnd? bytes with
    | none =>
      obtain ⟨fault, after, hread, hafter⟩ := h.no_line hn
      simp only [Link.fetch, hread, Want.plain, hn]
      exact ⟨rfl, hafter⟩
    | some n =>
      obtain ⟨text, rest, rfl, hl, rfl⟩ := Bytes.lineEnd?_eq_some.mp hn
      obtain ⟨after, hread, hafter, -⟩ := Offers.readLine (Wire.carries_feeds id) hl (hr _ hn) h
      rw [Want.plain_line hl]
      simp only [Link.fetch, hread]
      exact ⟨rfl, hafter⟩
  | block n =>
    by_cases hn : n ≤ bytes.length
    · obtain ⟨value, rest, rfl, rfl⟩ : ∃ value rest, bytes = value ++ rest ∧ value.length = n :=
        ⟨bytes.take n, bytes.drop n, (List.take_append_drop n bytes).symm,
          List.length_take_of_le hn⟩
      obtain ⟨after, hread, hafter, -⟩ := Offers.readExact (Wire.carries_feeds id) hr h
      rw [Want.plain_block]
      simp only [Link.fetch, hread]
      exact ⟨rfl, hafter⟩
    · obtain ⟨fault, after, hread, hafter⟩ := h.no_block (Nat.lt_of_not_le hn)
      simp only [Link.fetch, hread, Want.plain, hn, ↓reduceIte]
      exact ⟨rfl, hafter⟩

theorem Offers.fetchAll (h : link.Offers id (Wire.Carries id) bytes) (wants : List Want)
    (hr : Want.AllInReach wants bytes) :
    (link.fetchAll wants).1.map Except.toOption = (Want.plainAll wants bytes).1 ∧
      (link.fetchAll wants).2.Offers id (Wire.Carries id) (Want.plainAll wants bytes).2 := by
  induction wants generalizing link bytes with
  | nil => exact ⟨rfl, h⟩
  | cons want wants ih =>
    obtain ⟨hanswer, hleft⟩ := h.fetch want hr.1
    obtain ⟨hanswers, hlast⟩ := ih hleft hr.2
    exact ⟨List.cons_eq_cons.mpr ⟨hanswer, hanswers⟩, hlast⟩

end Link

/-- Reads of lines and blocks come to what plain reading comes to, off the bytes that are unread and those
still to come in one string, however these are cut into pieces: the same answers, or a fault where the
bytes do not suffice, and the same rest. Nowhere does it matter that a search for a line end is resumed one
byte before the end of what has been searched. -/
theorem reads_as_plain [Network σ] (id : Nat) (link : Link σ)
    (on_stream : link.connection.stream = some id) (pieces : List Bytes)
    (arrives : link.wire.Arrives id (Wire.Dry id) pieces) (wants : List Want)
    (reach : Want.AllInReach wants (link.connection.unread ++ pieces.flatten)) :
    let read := link.fetchAll wants
    let plain := Want.plainAll wants (link.connection.unread ++ pieces.flatten)
    read.1.map Except.toOption = plain.1 ∧
    (∃ later : List Bytes, read.2.wire.Arrives id (Wire.Dry id) later ∧
      read.2.connection.unread ++ later.flatten = plain.2) ∧
    ∀ (bytes : Bytes) (scanned : Nat), scanned ≤ bytes.length →
      Bytes.IsLine (bytes.take scanned) →
      Bytes.lineEndAfter (scanned - 1) bytes = Bytes.lineEnd? bytes := by
  intro read plain
  have hoffers : link.Offers id (Wire.Carries id) (link.connection.unread ++ pieces.flatten) :=
    ⟨on_stream, pieces.flatten, ⟨pieces, rfl, arrives⟩, rfl⟩
  obtain ⟨hanswers, -, more, ⟨later, rfl, hlater⟩, hrest⟩ := hoffers.fetchAll wants reach
  refine ⟨hanswers, ⟨later, hlater, hrest⟩, ?_⟩
  intro bytes scanned hle hline
  exact Bytes.lineEndAfter_scanned hline hle

theorem Script.Holds.dry {id : Nat} {wire : Wire Script} (h : Holds id [] wire) : wire.Dry id := by
  obtain ⟨hs, hnothing⟩ := h
  have hnone : (wire.state.stream id).reads = [] := by
    rw [List.eq_nil_iff_forall_not_mem]
    intro piece hm
    exact (hs.pieces piece hm).1 (List.flatMap_eq_nil_iff.mp hnothing piece hm)
  intro bytes last hb
  clear hs hnothing
  induction hb with
  | done => rfl
  | read hr _ ih =>
    simp only [Wire.read, Network.read, Script.read, Stream.read, hnone, Prod.mk.injEq] at hr
    obtain ⟨rfl, rfl⟩ := hr
    exact ih (by rw [Script.stream_setStream, hnone])

/-- A line end is cut in two, and a piece is larger than what one read asks for. -/
theorem cut_line_end_read :
    let value : Bytes := List.replicate 5000 120
    let script : Script :=
      { streams := [(0, ⟨[⟨ascii "ab\r", none⟩, ⟨10 :: (value ++ ascii "\r\nc"), none⟩], []⟩)] }
    let read := Link.fetchAll [.line, .block 5000, .line, .line, .block 1]
      ⟨.fresh (some 0), Wire.start script⟩
    read.1.map Except.toOption =
      [some (ascii "ab"), some value, some [], none, some (ascii "c")] := by
  intro value script read
  have hlen : value.length = 5000 := List.length_replicate
  -- of the value only the length matters; kept folded, its bytes are never compared one by one
  clear_value value
  have hholds : Script.Holds 0 (ascii "ab" ++ Bytes.crlf ++ (value ++ ([] ++ Bytes.crlf ++ ascii "c")))
      (Wire.start script) := by
    refine ⟨⟨?_, by simp [script, Wire.start, Script.stream]⟩, ?_⟩
    · simp [script, Wire.start, Script.stream, ascii]
    · simp [script, Wire.start, Script.stream, Stream.undelivered, ascii, Bytes.crlf]
  obtain ⟨pieces, hflat, harrives⟩ :=
    (Script.holds_feeds 0).arrives (fun _ hnothing => hnothing.dry) hholds
  have hab : Bytes.IsLine (ascii "ab") := Bytes.lineEnd?_eq_none.mp rfl
  have hempty : Bytes.IsLine [] := Bytes.lineEnd?_eq_none.mp rfl
  have hvalue (rest : Bytes) : (Want.block 5000).plain (value ++ rest) = (some value, rest) := by
    rw [← hlen]
    exact Want.plain_block value rest
  have hsmall : 5000 ≤ Connection.largestBlock := by simp [Connection.largestBlock]
  have hone : 1 ≤ Connection.largestBlock := by simp [Connection.largestBlock]
  have hall : (Link.mk (.fresh (some 0)) (Wire.start script)).connection.unread ++ pieces.flatten =
      ascii "ab" ++ Bytes.crlf ++ (value ++ ([] ++ Bytes.crlf ++ ascii "c")) := hflat
  have hreach : Want.AllInReach [.line, .block 5000, .line, .line, .block 1]
      ((Link.mk (.fresh (some 0)) (Wire.start script)).connection.unread ++ pieces.flatten) := by
    rw [hall]
    refine ⟨Want.line_inReach hab (by simp [ascii, Connection.longestLine]) _, ?_⟩
    rw [Want.plain_line hab]
    refine ⟨hsmall, ?_⟩
    rw [hvalue]
    refine ⟨Want.line_inReach hempty (by simp [Connection.longestLine]) _, ?_⟩
    rw [Want.plain_line hempty]
    refine ⟨?_, hone, trivial⟩
    intro n hn
    cases hn
  obtain ⟨hanswers, -⟩ := reads_as_plain 0 ⟨.fresh (some 0), Wire.start script⟩ rfl pieces harrives _
    hreach
  rw [hall] at hanswers
  refine hanswers.trans ?_
  rw [Want.plainAll_cons, Want.plain_line hab, Want.plainAll_cons, hvalue, Want.plainAll_cons,
    Want.plain_line hempty]
  rfl

end CacheClient
