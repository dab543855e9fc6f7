import CacheClient.Command
import CacheClient.Proofs.Fields
import CacheClient.Proofs.Lines

namespace CacheClient

namespace Decimal

/-- The exact number, which may carry a minus sign. -/
def readInt? : Bytes → Option Int
  | 45 :: digits => (read? digits).map fun n : Nat => -(n : Int)
  | text => (read? text).map fun n : Nat => (n : Int)

theorem not_mem_print {c : UInt8} (hc : isDigit c = false) (n : Nat) : c ∉ print n :=
  not_mem_of_read? (read?_print n) hc

theorem print_ne_nil (n : Nat) : print n ≠ [] :=
  (read?_eq_some.mp (read?_print n)).1

theorem readInt?_printInt (z : Int) : readInt? (printInt z) = some z := by
  unfold printInt
  split
  · simp only [readInt?, read?_print, Option.map_some, Option.some.injEq]
    omega
  · have hminus : (45 : UInt8) ∉ print z.natAbs := not_mem_print rfl _
    cases hp : print z.natAbs with
    | nil => exact absurd hp (print_ne_nil _)
    | cons c rest =>
      have hc : c ≠ 45 := fun he => hminus (hp ▸ he ▸ List.mem_cons_self)
      have hr := read?_print z.natAbs
      rw [hp] at hr
      unfold readInt?
      split
      · rename_i he
        exact absurd (List.cons.inj he).1 hc
      · rw [hr, Option.map_some, Option.some.injEq]
        omega

end Decimal

def Bytes.fields (line : Bytes) : List Bytes :=
  (line.splitOn space).filter (!·.isEmpty)

/-- A field that can stand in a line: not empty, without a space or the second half of a line end. -/
abbrev Bytes.IsField (field : Bytes) : Prop :=
  field ≠ [] ∧ space ∉ field ∧ 10 ∉ field

theorem Bytes.fields_intercalate {fields : List Bytes} (hne : fields ≠ [])
    (hf : ∀ field ∈ fields, IsField field) :
    Bytes.fields ([space].intercalate fields) = fields := by
  unfold Bytes.fields
  rw [List.splitOn_intercalate space (fun field hm => (hf field hm).2.1) hne, List.filter_eq_self]
  intro field hm
  simpa using (hf field hm).1

theorem Decimal.print_isField (n : Nat) : Bytes.IsField (print n) :=
  ⟨print_ne_nil n, not_mem_print space_not_digit n, not_mem_print newline_not_digit n⟩

theorem Decimal.printInt_isField (z : Int) : Bytes.IsField (printInt z) := by
  obtain ⟨hne, hspace, hline⟩ := print_isField z.natAbs
  unfold printInt
  split
  · have hminus : Bytes.space ≠ 45 := by decide
    simp [Bytes.IsField, hspace, hline, hminus]
  · exact ⟨hne, hspace, hline⟩

theorem Key.isField {key : Bytes} (hk : isValid key = true) : Bytes.IsField key := by
  refine ⟨?_, space_not_mem hk, newline_not_mem hk⟩
  simp only [isValid, Bool.and_eq_true] at hk
  simpa using hk.1.1

theorem StoreVerb.text_isField (verb : StoreVerb) : Bytes.IsField verb.text := by
  cases verb <;> decide

theorem CountVerb.text_isField (verb : CountVerb) : Bytes.IsField verb.text := by
  cases verb <;> decide

def StoreVerb.read? (word : Bytes) : Option StoreVerb :=
  if word = ascii "set" then some .set else if word = ascii "add" then some .add else none

def CountVerb.read? (word : Bytes) : Option CountVerb :=
  if word = ascii "incr" then some .incr else if word = ascii "decr" then some .decr else none

theorem StoreVerb.read?_text (verb : StoreVerb) : read? verb.text = some verb := by
  cases verb <;> rfl

theorem CountVerb.read?_text (verb : CountVerb) : read? verb.text = some verb := by
  cases verb <;> rfl

namespace Command

/-- What a line asks for: how long a payload must follow it, if one must, and the command that it makes
with that payload. -/
def begin? : List Bytes → Option (Option Nat × (Bytes → Command))
  | [verb, key, flags, expiry, length] => do
    let verb ← StoreVerb.read? verb
    let flags ← Decimal.readBelow? UInt32.size flags
    let expiry ← Decimal.readInt? expiry
    let length ← Decimal.read? length
    some (some length, store verb key (UInt32.ofNatLT flags flags.isLt) (Int64.ofInt expiry))
  | [verb, key, delta] => do
    let verb ← CountVerb.read? verb
    let delta ← Decimal.readBelow? UInt64.size delta
    some (none, fun _ => count verb key (UInt64.ofNatLT delta delta.isLt))
  | [verb, key] =>
    if verb = ascii "get" then some (none, fun _ => get key)
    else if verb = ascii "delete" then some (none, fun _ => delete key)
    else none
  | _ => none

/-- The first request in the input and what follows it, once it is complete. A line that asks for nothing
is a request of its own. -/
def parse (input : Bytes) : Option (Option Command × Bytes) :=
  match Bytes.lineEnd? input with
  | none => none
  | some offset =>
    let rest := input.drop (offset + 2)
    match begin? (Bytes.fields (input.take offset)) with
    | none => some (none, rest)
    | some (none, command) => some (some (command []), rest)
    | some (some length, command) =>
      if rest.length < length + 2 then none
      else some (some (command (rest.take length)), rest.drop (length + 2))

theorem fields_ne_nil (command : Command) : command.fields ≠ [] := by
  cases command <;> simp [fields]

theorem fields_clean {command : Command} (hk : Key.isValid command.key = true) :
    ∀ field ∈ command.fields, Bytes.IsField field := by
  have hkey := Key.isField hk
  intro field hm
  cases command with
  | store verb key flags expiry payload =>
    simp only [fields, List.mem_cons, List.not_mem_nil, or_false] at hm
    rcases hm with rfl | rfl | rfl | rfl | rfl
    · exact verb.text_isField
    · exact hkey
    · exact Decimal.print_isField _
    · exact Decimal.printInt_isField _
    · exact Decimal.print_isField _
  | get key =>
    simp only [fields, List.mem_cons, List.not_mem_nil, or_false] at hm
    rcases hm with rfl | rfl
    · decide
    · exact hkey
  | delete key =>
    simp only [fields, List.mem_cons, List.not_mem_nil, or_false] at hm
    rcases hm with rfl | rfl
    · decide
    · exact hkey
  | count verb key delta =>
    simp only [fields, List.mem_cons, List.not_mem_nil, or_false] at hm
    rcases hm with rfl | rfl | rfl
    · exact verb.text_isField
    · exact hkey
    · exact Decimal.print_isField _

theorem not_mem_intercalate {c : UInt8} (hc : c ≠ Bytes.space) {fields : List Bytes}
    (hf : ∀ field ∈ fields, c ∉ field) : c ∉ [Bytes.space].intercalate fields := by
  induction fields with
  | nil => simp
  | cons field fields ih =>
    have hfield := hf field List.mem_cons_self
    cases fields with
    | nil => simpa using hfield
    | cons next fields =>
      have hrest := ih fun field hm => hf field (List.mem_cons_of_mem _ hm)
      rw [List.intercalate_cons_cons]
      simp [hfield, hc, hrest]

def payload? : Command → Option Bytes
  | store _ _ _ _ payload => some payload
  | _ => none

theorem begin?_fields (command : Command) : ∃ make : Bytes → Command,
    begin? command.fields = some (command.payload?.map List.length, make) ∧
      make (command.payload?.getD []) = command := by
  cases command with
  | store verb key flags expiry payload =>
    refine ⟨store verb key flags expiry, ?_, rfl⟩
    simp [begin?, fields, StoreVerb.read?_text, Decimal.readBelow?_print flags.toNat_lt,
      Decimal.readInt?_printInt, Decimal.read?_print, payload?]
  | get key => exact ⟨_, rfl, rfl⟩
  | delete key => exact ⟨_, rfl, rfl⟩
  | count verb key delta =>
    refine ⟨fun _ => count verb key delta, ?_, rfl⟩
    simp [begin?, fields, CountVerb.read?_text, Decimal.readBelow?_print delta.toNat_lt, payload?]

/-- The text of a command is one line, which asks for the command, and the payload that it announces. -/
theorem text_eq {command : Command} (hk : Key.isValid command.key = true) :
    ∃ (line : Bytes) (make : Bytes → Command), Bytes.IsLine line ∧
      command.text = line ++ Bytes.crlf ++ command.block ∧
      begin? (Bytes.fields line) = some (command.payload?.map List.length, make) ∧
      make (command.payload?.getD []) = command := by
  have hclean := fields_clean hk
  obtain ⟨make, hbegin, hmake⟩ := command.begin?_fields
  refine ⟨[Bytes.space].intercalate command.fields, make, ?_, rfl, ?_, hmake⟩
  · apply Bytes.isLine_of_not_mem
    exact not_mem_intercalate (by decide) fun field hm => (hclean field hm).2.2
  · rw [Bytes.fields_intercalate command.fields_ne_nil hclean, hbegin]

/-- A command is read back from its text, and exactly what follows the text is left. -/
theorem parse_text {command : Command} (hk : Key.isValid command.key = true) (rest : Bytes) :
    parse (command.text ++ rest) = some (some command, rest) := by
  obtain ⟨line, make, hline, htext, hbegin, hmake⟩ := text_eq hk
  have hoffset := Bytes.lineEnd?_line hline (command.block ++ rest)
  have htake : (line ++ Bytes.crlf ++ (command.block ++ rest)).take line.length = line := by
    simp
  have hdrop : (line ++ Bytes.crlf ++ (command.block ++ rest)).drop (line.length + 2) =
      command.block ++ rest := by
    rw [List.append_assoc, ← List.drop_drop, List.drop_left]
    rfl
  rw [htext, List.append_assoc]
  simp only [parse, hoffset, htake, hdrop, hbegin]
  cases command with
  -- the line tells the length of the payload, so that nothing in the payload is searched
  | store verb key flags expiry payload =>
    have hlong : ¬ (payload ++ Bytes.crlf ++ rest).length < payload.length + 2 := by
      simp [Bytes.crlf]
    have hpayload : (payload ++ Bytes.crlf ++ rest).take payload.length = payload := by
      simp
    have hrest : (payload ++ Bytes.crlf ++ rest).drop (payload.length + 2) = rest := by
      rw [List.append_assoc, ← List.drop_drop, List.drop_left]
      rfl
    have hmake : make payload = .store verb key flags expiry payload := hmake
    simp only [payload?, block, Option.map_some, hlong, ↓reduceIte, hpayload, hrest, hmake]
  | get | delete | count => simpa [payload?, block] using hmake

/-- Requests, one right after the other, and the commands that they are: each is a line up to its first
end, which asks for a command, and after a store line there are as many bytes as it announces and a line
end. -/
inductive Reads : Bytes → List Command → Prop where
  | done : Reads [] []
  | line {line rest : Bytes} {make : Bytes → Command} (whole : Bytes.IsLine line)
      (asks : begin? (Bytes.fields line) = some (none, make)) (later : Reads rest commands) :
      Reads (line ++ Bytes.crlf ++ rest) (make [] :: commands)
  | block {line payload rest : Bytes} {make : Bytes → Command} (whole : Bytes.IsLine line)
      (asks : begin? (Bytes.fields line) = some (some payload.length, make))
      (later : Reads rest commands) :
      Reads (line ++ Bytes.crlf ++ (payload ++ Bytes.crlf ++ rest)) (make payload :: commands)

theorem Reads.text {command : Command} (hk : Key.isValid command.key = true)
    (h : Reads rest commands) : Reads (command.text ++ rest) (command :: commands) := by
  obtain ⟨line, make, hline, htext, hbegin, hmake⟩ := text_eq hk
  rw [htext, List.append_assoc]
  cases command with
  | store verb key flags expiry payload =>
    have hread := Reads.block hline hbegin h
    rwa [show make payload = .store verb key flags expiry payload from hmake] at hread
  | get key =>
    have hread := Reads.line hline hbegin h
    rwa [show make [] = .get key from hmake] at hread
  | delete key =>
    have hread := Reads.line hline hbegin h
    rwa [show make [] = .delete key from hmake] at hread
  | count verb key delta =>
    have hread := Reads.line hline hbegin h
    rwa [show make [] = .count verb key delta from hmake] at hread

end Command

end CacheClient
