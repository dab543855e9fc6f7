import CacheClient.Proofs.Dialogues
import CacheClient.Proofs.Intake
import CacheClient.Proofs.Session
import Mathlib.Algebra.Group.Nat.Defs

namespace CacheClient

namespace Link

open Connection

variable {link after : Link σ}

/-- A bound on what was unread that no such reading exceeds is kept: what is unread after a call was in view
during it. -/
theorem Fetched.le_bound {want : Want} {answer : Except Fault Bytes} {bound : Nat}
    (h : Fetched want answer link after) (hr : want.reach ≤ bound)
    (hb : link.connection.unread.length ≤ bound) :
    (link.connection.unread ++ link.brought after).length ≤ bound ∧
      after.connection.unread.length ≤ bound := by
  have hview := Nat.le_trans h.view (Nat.max_le.mpr ⟨hb, hr⟩)
  refine ⟨hview, Nat.le_trans ?_ hview⟩
  rw [h.conserves, List.length_append]
  exact Nat.le_add_left ..

variable [Network σ]

/-- An allowance that suffices is not what ends the reading: another that suffices makes no difference. -/
theorem gather_allowance {allowance other missing : Nat} (ha : missing ≤ allowance)
    (ho : missing ≤ other) (link : Link σ) :
    link.gather allowance missing = link.gather other missing := by
  induction allowance generalizing other missing link with
  | zero =>
    obtain rfl := Nat.le_zero.mp ha
    rw [gather_zero, gather_zero]
  | succ allowance ih =>
    cases other with
    | zero =>
      obtain rfl := Nat.le_zero.mp ho
      rw [gather_zero, gather_zero]
    | succ other =>
      simp only [gather]
      split
      · rfl
      · generalize hp : link.pull = pulled
        obtain ⟨bytes, fault | fault, next⟩ := pulled
        · have hpos := List.length_pos_iff.mpr (pull_brings hp)
          have hrest : next.gather allowance (missing - bytes.length) =
              next.gather other (missing - bytes.length) := ih (by omega) (by omega) next
          dsimp only
          rw [hrest]
        · rfl

theorem awaitLine_allowance {allowance other : Nat}
    (ha : longestLine < allowance + link.connection.unread.length)
    (ho : longestLine < other + link.connection.unread.length) (scanned : Nat) :
    link.awaitLine allowance scanned = link.awaitLine other scanned := by
  induction allowance generalizing other link scanned with
  | zero =>
    -- nothing may be read here, but what is in view is beyond the limit, which gives up the line anyway
    have hlong : longestLine < link.connection.unread.length := by omega
    unfold awaitLine
    cases Bytes.lineEndAfter (scanned - 1) link.connection.unread with
    | some offset => rfl
    | none => cases other <;> simp only [hlong, ↓reduceIte]
  | succ allowance ih =>
    unfold awaitLine
    cases Bytes.lineEndAfter (scanned - 1) link.connection.unread with
    | some offset => rfl
    | none =>
      by_cases hlong : longestLine < link.connection.unread.length
      · cases other <;> simp only [hlong, ↓reduceIte]
      · obtain ⟨other, rfl⟩ : ∃ left, other = left + 1 := ⟨other - 1, by omega⟩
        simp only [hlong, ↓reduceIte]
        generalize hp : link.pull = pulled
        obtain ⟨bytes, fault | fault, next⟩ := pulled
        · have hpos := List.length_pos_iff.mpr (pull_brings hp)
          have hview : (next.update (receive bytes)).connection.unread.length =
              link.connection.unread.length + bytes.length := by
            rw [update, (pull_fed hp).1]
            exact List.length_append
          exact ih (by omega) (by omega) _
        · rfl

theorem flush_unread (link : Link σ) :
    link.flush.2.connection.unread = link.connection.unread := by
  unfold flush
  split
  · rfl
  · split <;> rfl

end Link

namespace Dialogue

open Connection

/-- No block is asked for that is larger than `n`, save those that are refused at once. -/
def Within (n : Nat) : Dialogue α → Prop
  | done _ => True
  | write _ next | record _ next | close next => next.Within n
  | flush next => ∀ sent, (next sent).Within n
  | readLine next => ∀ line, (next line).Within n
  | readExact m next => (largestBlock < m ∨ m ≤ n) ∧ ∀ block, (next block).Within n
  | look next => ∀ unread healthy isOpen, (next unread healthy isOpen).Within n

theorem within_largestBlock (dialogue : Dialogue α) : dialogue.Within largestBlock := by
  induction dialogue with
  | done answer => trivial
  | write bytes next ih | record ok next ih | close next ih => exact ih
  | flush next ih | readLine next ih => exact ih
  | readExact m next ih => exact ⟨Nat.lt_or_ge largestBlock m, ih⟩
  | look next ih => exact ih

theorem ask_within {n : Nat} {next : Answer Bytes → Dialogue α} (h : ∀ line, (next line).Within n)
    (text : Bytes) : (ask text next).Within n := by
  intro sent
  cases sent with
  | error fault => exact h _
  | ok _ => exact fun line => h _

variable [Network σ]

/-- The most bytes that the connection holds unread at any time of the dialogue. While a line or a block
is read they only grow in number, until it is taken off. -/
def peak : Dialogue α → Link σ → Nat
  | done _, link => link.connection.unread.length
  | write bytes next, link => next.peak (link.update (·.write bytes))
  | flush next, link =>
    let (sent, link) := link.flush
    (next sent).peak link
  | readLine next, link =>
    let (line, after) := link.readLine
    max (link.connection.unread ++ link.brought after).length ((next line).peak after)
  | readExact n next, link =>
    let (block, after) := link.readExact n
    max (link.connection.unread ++ link.brought after).length ((next block).peak after)
  | record ok next, link => next.peak (link.update (·.record ok))
  | close next, link => max link.connection.unread.length (next.peak link.close)
  | look next, link =>
    let connection := link.connection
    (next connection.unread.length connection.healthy connection.isOpen).peak link

theorem run_le_peak (dialogue : Dialogue α) (link : Link σ) :
    (dialogue.run link).2.connection.unread.length ≤ dialogue.peak link := by
  induction dialogue generalizing link with
  | done answer => exact Nat.le_refl _
  | write bytes next ih | record ok next ih => exact ih _
  | flush next ih => exact ih _ _
  | readLine next ih | readExact n next ih => exact Nat.le_trans (ih _ _) (Nat.le_max_right ..)
  | close next ih => exact Nat.le_trans (ih _) (Nat.le_max_right ..)
  | look next ih => exact ih _ _ _ link

/-- What a dialogue finds unread or asks for bounds what it ever has unread. -/
theorem peak_le {n : Nat} (hn : longestLine < n) (dialogue : Dialogue α) (hw : dialogue.Within n)
    {link : Link σ} (hb : link.connection.unread.length ≤ n + readSize - 1) :
    dialogue.peak link ≤ n + readSize - 1 := by
  induction dialogue generalizing link with
  | done answer => exact hb
  | write bytes next ih | record ok next ih => exact ih hw hb
  | flush next ih =>
    exact ih _ (hw _) (Nat.le_trans (Nat.le_of_eq (congrArg List.length link.flush_unread)) hb)
  | readLine next ih =>
    have hreach : Want.line.reach ≤ n + readSize - 1 := by
      simp only [Want.reach]
      omega
    obtain ⟨hview, hrest⟩ := link.readLine_fetched.le_bound hreach hb
    exact Nat.max_le.mpr ⟨hview, ih _ (hw _) hrest⟩
  | readExact m next ih =>
    have hreach : (Want.block m).reach ≤ n + readSize - 1 := by
      simp only [Want.reach]
      rcases hw.1 with hlarge | hle
      · rw [if_pos hlarge]
        exact Nat.zero_le _
      · split <;> omega
    obtain ⟨hview, hrest⟩ := (link.readExact_fetched m).le_bound hreach hb
    exact Nat.max_le.mpr ⟨hview, ih _ (hw.2 _) hrest⟩
  | close next ih => exact Nat.max_le.mpr ⟨hb, ih hw (Nat.zero_le _)⟩ -- a closed connection holds nothing
  | look next ih => exact ih _ _ _ (hw _ _ _) hb

theorem item_within {header : Reply.Header} (hfit : header.length ≤ Reply.largestValue) :
    (item header).Within (Reply.largestValue + 2) := by
  refine ⟨.inr (Nat.add_le_add_right hfit 2), ?_⟩
  intro block
  cases block with
  | error fault => trivial
  | ok bytes =>
    dsimp only
    cases Reply.block header.length bytes with
    | error failure => trivial
    | ok value =>
      intro line
      cases line <;> trivial

end Dialogue

/-- Whatever length a reply announces, no command asks for a block beyond the largest value and its end. -/
theorem Command.dialogue_within (command : Command) :
    command.dialogue.Within (Reply.largestValue + 2) := by
  cases command with
  | store | delete | count =>
    rw [dialogue]
    apply Dialogue.ask_within
    intro line
    trivial
  | get key =>
    rw [dialogue]
    apply Dialogue.ask_within
    intro line
    cases line with
    | error failure => trivial
    | ok line =>
      have hmeans := Reply.header_means key line
      dsimp only
      generalize Reply.header key line = header at hmeans
      cases header with
      | error failure => trivial
      | ok header => exact Dialogue.item_within (Reply.Announces.fits hmeans)

namespace Link

open Connection

variable [Network σ]

theorem exchange_peak_le (command : Command) {link : Link σ}
    (hb : link.connection.unread.length ≤ Reply.largestValue + 1 + readSize) :
    command.dialogue.peak link ≤ Reply.largestValue + 1 + readSize :=
  Dialogue.peak_le (by decide : longestLine < Reply.largestValue + 2) _ command.dialogue_within hb

theorem session_unread_le (commands : List Command) {link : Link σ}
    (hb : link.connection.unread.length ≤ Reply.largestValue + 1 + readSize) :
    (link.session commands).2.connection.unread.length ≤ Reply.largestValue + 1 + readSize := by
  induction commands generalizing link with
  | nil => exact hb
  | cons command commands ih =>
    have hrest := Nat.le_trans (command.dialogue.run_le_peak link) (exchange_peak_le command hb)
    rw [command.run_dialogue] at hrest
    exact ih hrest

end Link

open Connection

/-- However a network behaves, also if it never runs out of bytes: a call for a line makes at most so many
reads as bytes are missing to exceed the longest line, and a call for a block at most so many as bytes are
missing, and none if the block is too large. These numbers are not due to the allowances: with a larger one
the calls do the same. A connection that is used in whatever way holds no more bytes unread than the largest
block and all but one of those of a read; one that is used for commands, no more than the largest value with
its line end and all but one of those of a read. -/
theorem reading_bounded [Network σ] (link : Link σ) :
    let unread := link.connection.unread.length
    let reads (after : Link σ) := link.wire.since after.wire
    ((reads link.readLine.2).length ≤ longestLine + 1 - unread ∧
      (∀ event ∈ reads link.readLine.2, event.ReadsOn link.connection.stream) ∧
      ∀ allowance, longestLine + 1 - unread ≤ allowance →
        link.awaitLine allowance 0 = link.awaitLine (longestLine + 1 - unread) 0) ∧
    (∀ n, (reads (link.readExact n).2).length ≤ n - unread ∧
      (∀ event ∈ reads (link.readExact n).2, event.ReadsOn link.connection.stream) ∧
      (largestBlock < n → link.readExact n = (.error .messageSize, link)) ∧
      ∀ allowance, n - unread ≤ allowance →
        link.gather allowance (n - unread) = link.gather (n - unread) (n - unread)) ∧
    (unread ≤ largestBlock + 4095 →
      ∀ (α : Type) (dialogue : Dialogue α), dialogue.peak link ≤ largestBlock + 4095) ∧
    (unread ≤ Reply.largestValue + 1 + 4096 → ∀ commands command,
      Dialogue.peak (Command.dialogue command) (link.session commands).2 ≤
        Reply.largestValue + 1 + 4096) := by
  intro unread reads
  refine ⟨?_, ?_, ?_, ?_⟩
  · obtain ⟨hcount, hreads, -⟩ := link.readLine_fetched.fed.since
    refine ⟨hcount, hreads, ?_⟩
    intro allowance ha
    exact Link.awaitLine_allowance (by omega) (by omega) 0
  · intro n
    obtain ⟨hcount, hreads, -⟩ := (link.readExact_fetched n).fed.since
    -- a block that is too large is refused before anything is read
    have hallowed : (Want.block n).allowance unread ≤ n - unread := by
      rw [Want.allowance]
      split
      · exact Nat.zero_le _
      · exact Nat.le_refl _
    refine ⟨Nat.le_trans hcount hallowed, hreads, ?_, ?_⟩
    · intro hlarge
      rw [Link.readExact_eq, if_pos hlarge]
    · intro allowance ha
      exact Link.gather_allowance ha (Nat.le_refl _) link
  · intro hb α dialogue
    exact dialogue.peak_le (by decide) dialogue.within_largestBlock hb
  · intro hb commands command
    exact Link.exchange_peak_le command (Link.session_unread_le commands hb)

/-- A network whose streams bring one more byte at each read, and never end. -/
structure Trickle where

instance : Network Trickle where
  dial _ _ _ state := (.opened, state)
  read _ room state := (⟨[120].take room, none, List.length_take_le room [120]⟩, state)
  write _ _ state := (none, state)
  close _ state := state
  abandon _ state := state
  now _ := 0

/-- No line end ever comes, but all calls end. -/
theorem trickle_bounded :
    let link : Link Trickle := ⟨.fresh (some 0), Wire.start ⟨⟩⟩
    (link.wire.since link.readLine.2.wire).length ≤ 65537 ∧
      link.awaitLine (10 ^ 9) 0 = link.awaitLine 65537 0 ∧
      link.readExact (2 ^ 64 - 1) = (.error .messageSize, link) ∧
      ∀ commands command, Dialogue.peak (Command.dialogue command) (link.session commands).2 ≤
        1048576 + 1 + 4096 := by
  intro link
  obtain ⟨⟨hcount, -, hends⟩, hblock, -, hpeak⟩ := reading_bounded link
  exact ⟨hcount, hends (10 ^ 9) (by decide), (hblock _).2.2.1 (by decide), hpeak (Nat.zero_le _)⟩

end CacheClient
