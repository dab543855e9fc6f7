import CacheClient.Bytes

namespace CacheClient.Bytes

/-- Bytes that can be a line: no line end stands in them. -/
def IsLine (bytes : Bytes) : Prop :=
  ¬ crlf <:+: bytes

theorem lineEndFrom_eq (offset : Nat) (bytes : Bytes) :
    lineEndFrom offset bytes = (lineEnd? bytes).map (· + offset) := by
  unfold lineEnd?
  induction bytes generalizing offset with
  | nil => simp [lineEndFrom]
  | cons a rest ih =>
    cases rest with
    | nil => simp [lineEndFrom]
    | cons b rest =>
      simp only [lineEndFrom]
      split
      · simp
      · rw [ih (offset + 1), ih (0 + 1), Option.map_map]
        congr 1
        funext n
        simp only [Function.comp_apply]
        omega

theorem lineEnd?_cons (a b : UInt8) (rest : Bytes) :
    lineEnd? (a :: b :: rest) =
      if a = 13 ∧ b = 10 then some 0 else (lineEnd? (b :: rest)).map (· + 1) := by
  rw [← lineEndFrom_eq]
  rfl

theorem crlf_prefix (a b : UInt8) (rest : Bytes) :
    crlf <+: a :: b :: rest ↔ a = 13 ∧ b = 10 := by
  simp [crlf, List.cons_prefix_cons, eq_comm]

theorem lineEnd?_eq_none {bytes : Bytes} : lineEnd? bytes = none ↔ IsLine bytes := by
  unfold IsLine
  induction bytes with
  | nil => simp [lineEnd?, lineEndFrom, crlf]
  | cons a rest ih =>
    cases rest with
    | nil => simp [lineEnd?, lineEndFrom, crlf, List.infix_cons_iff, List.cons_prefix_cons]
    | cons b rest =>
      rw [lineEnd?_cons, List.infix_cons_iff, crlf_prefix]
      split
      · rename_i he
        simp [he]
      · rename_i he
        simp [he, ih]

/-- The first line ends where it ends, whatever follows it; it may end in a carriage return itself. -/
theorem lineEnd?_line {line : Bytes} (hl : IsLine line) (rest : Bytes) :
    lineEnd? (line ++ crlf ++ rest) = some line.length := by
  rw [← lineEnd?_eq_none] at hl
  induction line with
  | nil => rfl
  | cons a line ih =>
    cases line with
    | nil =>
      have he : ¬ (a = 13 ∧ (13 : UInt8) = 10) := by simp
      simp only [crlf, List.cons_append, List.nil_append, List.length_cons]
      rw [lineEnd?_cons, if_neg he, lineEnd?_cons, if_pos ⟨rfl, rfl⟩]
      rfl
    | cons b line =>
      rw [lineEnd?_cons] at hl
      split at hl
      · cases hl
      · rename_i he
        have hn : lineEnd? (b :: line) = none := by simpa using hl
        simp only [List.cons_append] at ih ⊢
        rw [lineEnd?_cons, if_neg he, ih hn]
        rfl

/-- What a line end that was found means about the bytes. -/
theorem eq_of_lineEnd? {bytes : Bytes} {n : Nat} (hn : lineEnd? bytes = some n) :
    bytes = bytes.take n ++ crlf ++ bytes.drop (n + 2) ∧ IsLine (bytes.take n) := by
  rw [← lineEnd?_eq_none]
  -- the search looks at two bytes at a time, and so do the cases
  induction bytes generalizing n with
  | nil => simp [lineEnd?, lineEndFrom] at hn
  | cons a rest ih =>
    cases rest with
    | nil => simp [lineEnd?, lineEndFrom] at hn
    | cons b rest =>
      rw [lineEnd?_cons] at hn
      split at hn
      · rename_i he
        cases hn
        simp [he, crlf, lineEnd?, lineEndFrom]
      · rename_i he
        obtain ⟨m, hm, rfl⟩ := Option.map_eq_some_iff.mp hn
        obtain ⟨hb, hu⟩ := ih hm
        refine ⟨by simpa using hb, ?_⟩
        cases m with
        | zero => simp [lineEnd?, lineEndFrom]
        | succ m =>
          simp only [List.take_succ_cons] at hu ⊢
          rw [lineEnd?_cons, if_neg he, hu]
          rfl

theorem lineEnd?_eq_some {bytes : Bytes} {n : Nat} :
    lineEnd? bytes = some n ↔
      ∃ line rest, bytes = line ++ crlf ++ rest ∧ IsLine line ∧ line.length = n := by
  constructor
  · intro hn
    obtain ⟨hb, hu⟩ := eq_of_lineEnd? hn
    refine ⟨_, _, hb, hu, ?_⟩
    have := congrArg List.length hb
    simp [crlf] at this ⊢
    omega
  · rintro ⟨line, rest, rfl, hu, rfl⟩
    exact lineEnd?_line hu rest

theorem lineEnd?_append {bytes : Bytes} {n : Nat} (hn : lineEnd? bytes = some n) (more : Bytes) :
    lineEnd? (bytes ++ more) = some n := by
  obtain ⟨line, rest, rfl, hl, rfl⟩ := lineEnd?_eq_some.mp hn
  rw [List.append_assoc]
  exact lineEnd?_line hl (rest ++ more)

theorem lineEnd?_lt {bytes : Bytes} {n : Nat} (hn : lineEnd? bytes = some n) : n < bytes.length := by
  obtain ⟨line, rest, rfl, -, rfl⟩ := lineEnd?_eq_some.mp hn
  simp [crlf]

theorem line_unique {line line' rest rest' : Bytes} (hl : IsLine line) (hl' : IsLine line')
    (he : line ++ crlf ++ rest = line' ++ crlf ++ rest') : line = line' ∧ rest = rest' := by
  have hn := lineEnd?_line hl rest
  rw [he, lineEnd?_line hl' rest', Option.some.injEq] at hn
  rw [List.append_assoc, List.append_assoc] at he
  obtain ⟨rfl, ht⟩ := List.append_inj he hn.symm
  exact ⟨rfl, List.append_cancel_left ht⟩

/-- A search that starts one byte before the bytes known to hold no line end misses none: a carriage
return at their end may be the first half of one. -/
theorem lineEndAfter_eq {before : Bytes} (hb : IsLine before) (after : Bytes) :
    lineEndAfter (before.length - 1) (before ++ after) = lineEnd? (before ++ after) := by
  rw [← lineEnd?_eq_none] at hb
  unfold lineEndAfter
  induction before with
  | nil => rfl
  | cons a before ih =>
    cases before with
    | nil => rfl
    | cons b before =>
      rw [lineEnd?_cons] at hb
      split at hb
      · cases hb
      · rename_i he
        have hn : lineEnd? (b :: before) = none := by simpa using hb
        simp only [List.cons_append] at ih ⊢
        rw [lineEnd?_cons, if_neg he, ← ih hn, lineEndFrom_eq, lineEndFrom_eq, Option.map_map]
        simp [Function.comp_def, Nat.add_assoc]

/-- The search as it is resumed: the first `scanned` bytes are known to hold no line end. -/
theorem lineEndAfter_scanned {bytes : Bytes} {scanned : Nat}
    (hs : IsLine (bytes.take scanned)) (hl : scanned ≤ bytes.length) :
    lineEndAfter (scanned - 1) bytes = lineEnd? bytes := by
  have h := lineEndAfter_eq hs (bytes.drop scanned)
  rwa [List.take_append_drop, List.length_take, Nat.min_eq_left hl] at h

/-- Bytes that begin a line and its end, but hold no line end, are at most the line and one half of
its end. -/
theorem length_le_of_isLine {bytes more line rest : Bytes} (hb : IsLine bytes)
    (he : bytes ++ more = line ++ crlf ++ rest) : bytes.length ≤ line.length + 1 := by
  by_cases hl : bytes.length ≤ line.length + 1
  · exact hl
  · exfalso
    apply hb
    have ha : line ++ crlf <+: bytes ++ more := he ▸ List.prefix_append _ _
    have hp : line ++ crlf <+: bytes := by
      apply List.prefix_of_prefix_length_le ha (List.prefix_append _ _)
      simp [crlf]
      omega
    exact (List.suffix_append line crlf).isInfix.trans hp.isInfix

theorem isLine_of_not_mem {bytes : Bytes} (hb : 10 ∉ bytes) : IsLine bytes :=
  fun hi => hb (hi.subset (by simp [crlf]))

/-- Whether a word occurs in the bytes, as it is tested and as it is meant. -/
theorem has_iff {word bytes : Bytes} : has word bytes = true ↔ word <:+: bytes := by
  induction bytes with
  | nil => simp [has]
  | cons c rest ih => simp [has, List.infix_cons_iff, ih]

end CacheClient.Bytes
