import CacheClient.Proofs.Exchanges
import CacheClient.Proofs.Requests
import Mathlib.Logic.Function.Basic

namespace CacheClient

/-- What is kept under each key. Items do not expire and are never dropped. -/
abbrev Table := Bytes → Option Item

def Item.number? (item : Item) : Option UInt64 :=
  (Decimal.readBelow? UInt64.size item.value).map UInt64.ofFin

def CountVerb.apply : CountVerb → UInt64 → UInt64 → UInt64
  | incr, n, delta => n + delta
  | decr, n, delta => if n < delta then 0 else n - delta

namespace Command

/-- What becomes of the item under the key of a command. -/
def effect : Command → Option Item → Option Item
  | store verb _ flags _ payload, item =>
    if verb = .add ∧ item.isSome then item else some ⟨flags, payload⟩
  | get _, item => item
  | delete _, _ => none
  | count verb _ delta, item =>
    item.map fun item =>
      match item.number? with
      | none => item
      | some n => { item with value := Decimal.print (verb.apply n delta).toNat }

def complaint : Bytes :=
  ascii "CLIENT_ERROR cannot increment or decrement non-numeric value"

/-- What a command comes to, by the item that it finds. -/
def outcome : (command : Command) → Option Item → Answer command.Value
  | store verb _ _ _ _, item =>
    if verb = .add ∧ item.isSome then .error ⟨.notStored, ascii "item not stored", []⟩ else .ok ()
  | get _, none => .error ⟨.cacheMiss, ascii "cache miss", []⟩
  | get _, some item => .ok item
  | delete _, none => .error Reply.missing
  | delete _, some _ => .ok ()
  | count _ _ _, none => .error Reply.missing
  | count verb _ delta, some item =>
    match item.number? with
    | none => .error ⟨.nonNumeric, complaint, []⟩
    | some n => .ok (verb.apply n delta)

/-- The reply to a command, by the item that it finds. -/
def reply : Command → Option Item → Bytes
  | store verb _ _ _ _, item =>
    if verb = .add ∧ item.isSome then ascii "NOT_STORED" ++ Bytes.crlf
    else ascii "STORED" ++ Bytes.crlf
  | get _, none => ascii "END" ++ Bytes.crlf
  | get key, some item =>
    Reply.headerLine key (Decimal.print item.flags.toNat) (Decimal.print item.value.length) [] ++
      Bytes.crlf ++ (item.value ++ Bytes.crlf ++ (ascii "END" ++ Bytes.crlf))
  | delete _, none => ascii "NOT_FOUND" ++ Bytes.crlf
  | delete _, some _ => ascii "DELETED" ++ Bytes.crlf
  | count _ _ _, none => ascii "NOT_FOUND" ++ Bytes.crlf
  | count verb _ delta, some item =>
    match item.number? with
    | none => complaint ++ Bytes.crlf
    | some n => Decimal.print (verb.apply n delta).toNat ++ Bytes.crlf

theorem complaint_isLine : Bytes.IsLine complaint :=
  Bytes.isLine_of_not_mem (by decide)

/-- The reply says what the command came to. -/
theorem reply_means (command : Command) {found : Option Item}
    (hfit : ∀ item, found = some item → item.value.length ≤ Reply.largestValue) :
    Reply.Means command (command.reply found) (command.outcome found) := by
  cases command with
  | store verb key flags expiry payload =>
    simp only [reply, outcome]
    split
    · exact .declined
    · exact .stored
  | get key =>
    cases found with
    | none => exact .missed
    | some item =>
      exact .found item (Decimal.read?_print _) (Decimal.read?_print _) (hfit item rfl) (.inl rfl)
  | delete key =>
    cases found with
    | none => exact .absent
    | some item => exact .deleted
  | count verb key delta =>
    cases found with
    | none => exact .uncounted
    | some item =>
      simp only [reply, outcome]
      cases item.number? with
      | none =>
        exact .nonNumeric complaint complaint_isLine (Bytes.has_iff.mp (by decide))
      | some n =>
        have hdigits := Decimal.read?_print (verb.apply n delta).toNat
        have hmeans : Reply.Means (.count verb key delta)
            (Decimal.print (verb.apply n delta).toNat ++ [] ++ Bytes.crlf)
            (.ok (verb.apply n delta)) := .counted _ hdigits (by simp)
        rwa [List.append_nil] at hmeans

theorem print_word_length (n : UInt64) : (Decimal.print n.toNat).length ≤ 20 :=
  Decimal.length_print_le (by decide) (Nat.lt_trans n.toNat_lt (by decide))

theorem headerLine_length {key : Bytes} (hk : Key.isValid key = true) (item : Item)
    (hfit : item.value.length ≤ Reply.largestValue) :
    (Reply.headerLine key (Decimal.print item.flags.toNat) (Decimal.print item.value.length)
      []).length < Connection.longestLine := by
  have hkey : key.length ≤ Key.longest := by
    simp only [Key.isValid, Bool.and_eq_true, decide_eq_true_eq] at hk
    exact hk.1.2
  have hflags : (Decimal.print item.flags.toNat).length ≤ 10 :=
    Decimal.length_print_le (by decide) (Nat.lt_trans item.flags.toNat_lt (by decide))
  have hlength : (Decimal.print item.value.length).length ≤ 7 :=
    Decimal.length_print_le (by decide) (Nat.lt_of_le_of_lt hfit (by decide))
  simp only [Key.longest] at hkey
  simp [Reply.headerLine, ascii, Connection.longestLine]
  omega

theorem reply_short (command : Command) {found : Option Item}
    (hk : Key.isValid command.key = true)
    (hfit : ∀ item, found = some item → item.value.length ≤ Reply.largestValue) :
    ∀ n, Bytes.lineEnd? (command.reply found) = some n → n < Connection.longestLine := by
  intro n hn
  have hlt := Bytes.lineEnd?_lt hn
  have hword (word : Bytes) (hshort : (word ++ Bytes.crlf).length ≤ 65536)
      (hlt : n < (word ++ Bytes.crlf).length) : n < Connection.longestLine :=
    Nat.lt_of_lt_of_le hlt hshort
  cases command with
  | store verb key flags expiry payload =>
    simp only [reply] at hlt
    split at hlt
    · exact hword (ascii "NOT_STORED") (by decide) hlt
    · exact hword (ascii "STORED") (by decide) hlt
  | get key =>
    cases found with
    | none => exact hword (ascii "END") (by decide) hlt
    | some item =>
      -- whatever the value holds, the first line end is that of the header
      have hl := Reply.headerLine_isLine hk (Decimal.read?_print item.flags.toNat)
        (Decimal.read?_print item.value.length) (.inl rfl)
      have hend := Bytes.lineEnd?_line hl (item.value ++ Bytes.crlf ++ (ascii "END" ++ Bytes.crlf))
      obtain rfl := Option.some.inj (hn.symm.trans hend)
      exact headerLine_length hk item (hfit item rfl)
  | delete key =>
    cases found with
    | none => exact hword (ascii "NOT_FOUND") (by decide) hlt
    | some item => exact hword (ascii "DELETED") (by decide) hlt
  | count verb key delta =>
    cases found with
    | none => exact hword (ascii "NOT_FOUND") (by decide) hlt
    | some item =>
      simp only [reply] at hlt
      cases hnum : item.number? with
      | none =>
        rw [hnum] at hlt
        exact hword complaint (by decide) hlt
      | some m =>
        rw [hnum] at hlt
        have hlen := print_word_length (verb.apply m delta)
        simp only [List.length_append, Bytes.crlf, List.length_cons, List.length_nil] at hlt
        simp only [Connection.longestLine]
        omega

theorem effect_short (command : Command) {found : Option Item}
    (hpayload : ∀ payload, command.payload? = some payload → payload.length ≤ Reply.largestValue)
    (hfit : ∀ item, found = some item → item.value.length ≤ Reply.largestValue) :
    ∀ item, command.effect found = some item → item.value.length ≤ Reply.largestValue := by
  intro item he
  cases command with
  | store verb key flags expiry payload =>
    simp only [effect] at he
    split at he
    · exact hfit item he
    · cases he
      exact hpayload payload rfl
  | get key => exact hfit item he
  | delete key => cases he
  | count verb key delta =>
    cases found with
    | none => cases he
    | some old =>
      simp only [effect, Option.map_some, Option.some.injEq] at he
      cases hn : old.number? with
      | none =>
        rw [hn] at he
        exact he ▸ hfit old rfl
      | some n =>
        rw [hn] at he
        subst he
        have hlen := print_word_length (verb.apply n delta)
        simp only [Reply.largestValue]
        omega

end Command

namespace Table

/-- Runs a command on a table: the item under its key, and no other, is looked up and changed. -/
def run (command : Command) (table : Table) : Answer command.Value × Table :=
  (command.outcome (table command.key),
    Function.update table command.key (command.effect (table command.key)))

end Table

namespace Server

/-- Answers the complete requests in the input; what is left of the input is no complete request. A line
that asks for nothing is an error. -/
def serve : (allowance : Nat) → Bytes → Table → Bytes × Bytes × Table
  | 0, input, table => ([], input, table)
  | allowance + 1, input, table =>
    match Command.parse input with
    | none => ([], input, table)
    | some (none, rest) =>
      let (output, rest, table) := serve allowance rest table
      (ascii "ERROR" ++ Bytes.crlf ++ output, rest, table)
    | some (some command, rest) =>
      let (output, rest, last) := serve allowance rest (table.run command).2
      (command.reply (table command.key) ++ output, rest, last)

/-- A request that is a command's text is answered by the reply to that command. -/
theorem serve_text {command : Command} (hk : Key.isValid command.key = true) (table : Table) :
    serve command.text.length command.text table =
      (command.reply (table command.key), [], (table.run command).2) := by
  have hparse := Command.parse_text hk []
  rw [List.append_nil] at hparse
  have hempty (allowance : Nat) (table : Table) : serve allowance [] table = ([], [], table) := by
    cases allowance <;> rfl
  have hlen : command.text.length = command.text.length - 1 + 1 := by
    have := Link.text_ne_nil command
    cases ht : command.text with
    | nil => simp [ht] at this
    | cons c rest => simp
  rw [hlen, serve, hparse]
  simp [hempty]

end Server

end CacheClient
