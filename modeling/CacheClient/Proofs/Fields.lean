import CacheClient.Command

namespace CacheClient

namespace Bytes

theorem cut?_append {mark : UInt8} {before : Bytes} (hb : mark ∉ before) (after : Bytes) :
    cut? mark (before ++ mark :: after) = some (before, after) := by
  have hall : ∀ c ∈ before, decide (c ≠ mark) = true :=
    fun c hc => decide_eq_true fun he => hb (he ▸ hc)
  unfold cut?
  rw [List.dropWhile_append_of_pos hall, List.takeWhile_append_of_pos hall]
  simp

theorem cut?_of_not_mem {mark : UInt8} {bytes : Bytes} (hb : mark ∉ bytes) :
    cut? mark bytes = none := by
  have hall : ∀ c ∈ bytes, decide (c ≠ mark) = true :=
    fun c hc => decide_eq_true fun he => hb (he ▸ hc)
  unfold cut?
  rw [← List.append_nil bytes, List.dropWhile_append_of_pos hall]
  rfl

theorem eq_of_cut? {mark : UInt8} {bytes before after : Bytes}
    (hc : cut? mark bytes = some (before, after)) :
    bytes = before ++ mark :: after ∧ mark ∉ before := by
  by_cases hm : mark ∈ bytes
  · obtain ⟨before', after', rfl, hb⟩ := List.eq_append_cons_of_mem hm
    rw [cut?_append hb] at hc
    cases hc
    exact ⟨rfl, hb⟩
  · rw [cut?_of_not_mem hm] at hc
    cases hc

theorem not_mem_of_cut? {mark : UInt8} {bytes : Bytes} (hc : cut? mark bytes = none) :
    mark ∉ bytes := by
  intro hm
  obtain ⟨before, after, rfl, hb⟩ := List.eq_append_cons_of_mem hm
  rw [cut?_append hb] at hc
  cases hc

theorem eq_trimEnd_append (bytes : Bytes) :
    ∃ pad, bytes = trimEnd bytes ++ pad ∧ ∀ c ∈ pad, c = space := by
  refine ⟨(bytes.reverse.takeWhile (· = space)).reverse, ?_, ?_⟩
  · unfold trimEnd
    rw [← List.reverse_append, List.takeWhile_append_dropWhile, List.reverse_reverse]
  · intro c hc
    simpa using List.all_eq_true.mp List.all_takeWhile c (List.mem_reverse.mp hc)

theorem trimEnd_append {bytes pad : Bytes} (hb : space ∉ bytes) (hp : ∀ c ∈ pad, c = space) :
    trimEnd (bytes ++ pad) = bytes := by
  have hall : ∀ c ∈ pad.reverse, decide (c = space) = true :=
    fun c hc => decide_eq_true (hp c (List.mem_reverse.mp hc))
  unfold trimEnd
  rw [List.reverse_append, List.dropWhile_append_of_pos hall]
  cases hr : bytes.reverse with
  | nil => simpa using hr.symm
  | cons c rest =>
    have hc : c ≠ space := by
      rintro rfl
      exact hb (List.mem_reverse.mp (hr ▸ List.mem_cons_self))
    rw [List.dropWhile_cons_of_neg (by simpa using hc), ← hr, List.reverse_reverse]

end Bytes

namespace Decimal

theorem read?_eq_some {text : Bytes} {n : Nat} :
    read? text = some n ↔ text ≠ [] ∧ (∀ c ∈ text, isDigit c = true) ∧ value text = n := by
  unfold read?
  cases text <;> simp

theorem not_mem_of_read? {text : Bytes} {n : Nat} {c : UInt8} (hr : read? text = some n)
    (hc : isDigit c = false) : c ∉ text := by
  intro hm
  rw [(read?_eq_some.mp hr).2.1 c hm] at hc
  cases hc

theorem space_not_digit : isDigit Bytes.space = false := rfl

theorem newline_not_digit : isDigit 10 = false := rfl

theorem digits_unique {text text' rest rest' : Bytes} {c c' : UInt8} (hr : read? text = some n)
    (hr' : read? text' = some n') (hc : isDigit c = false) (hc' : isDigit c' = false)
    (he : text ++ c :: rest = text' ++ c' :: rest') :
    text = text' ∧ c :: rest = c' :: rest' := by
  have htake := congrArg (List.takeWhile isDigit) he
  rw [List.takeWhile_append_of_pos (read?_eq_some.mp hr).2.1,
    List.takeWhile_append_of_pos (read?_eq_some.mp hr').2.1] at htake
  simp only [List.takeWhile_cons, hc, hc', Bool.false_eq_true, ↓reduceIte, List.append_nil] at htake
  subst htake
  exact ⟨rfl, List.append_cancel_left he⟩

theorem value_append (digits : Bytes) (c : UInt8) :
    value (digits ++ [c]) = 10 * value digits + (c.toNat - 48) := by
  simp [value, List.foldl_append]

theorem digit_byte : ∀ n < 10, (Nat.digitChar n).toNat.toUInt8 = UInt8.ofNat (48 + n) := by
  decide

theorem isDigit_byte : ∀ n < 10, isDigit (UInt8.ofNat (48 + n)) = true ∧
    (UInt8.ofNat (48 + n)).toNat = 48 + n := by
  decide

theorem print_eq (n : Nat) :
    print n = (if n < 10 then [] else print (n / 10)) ++ [UInt8.ofNat (48 + n % 10)] := by
  unfold print
  rw [Nat.toDigits_eq_if (by omega)]
  split
  · rename_i hn
    simp [digit_byte n hn, Nat.mod_eq_of_lt hn]
  · rw [List.map_append, List.map_singleton, digit_byte _ (Nat.mod_lt n (by omega))]

theorem read?_print (n : Nat) : read? (print n) = some n := by
  induction n using Nat.strongRecOn with
  | ind n ih =>
    rw [read?_eq_some, print_eq]
    obtain ⟨hd, hv⟩ := isDigit_byte (n % 10) (Nat.mod_lt n (by omega))
    refine ⟨by simp, ?_, ?_⟩
    · intro c hc
      rcases List.mem_append.mp hc with hc | hc
      · split at hc
        · cases hc
        · exact (read?_eq_some.mp (ih (n / 10) (by omega))).2.1 c hc
      · rw [List.mem_singleton.mp hc]
        exact hd
    · rw [value_append, hv]
      split
      · rw [show value [] = 0 from rfl]
        omega
      · rw [(read?_eq_some.mp (ih (n / 10) (by omega))).2.2]
        omega

theorem readBelow?_print {bound n : Nat} (hn : n < bound) :
    readBelow? bound (print n) = some ⟨n, hn⟩ :=
  readBelow?_eq_some_iff.mpr (read?_print n)

theorem length_print_le {n k : Nat} (hk : 0 < k) (hn : n < Nat.pow 10 k) : (print n).length ≤ k := by
  rw [print, List.length_map]
  exact (Nat.length_toDigits_le_iff (by omega) hk).mpr hn

end Decimal

namespace Key

theorem not_mem {key : Bytes} {c : UInt8} (hk : isValid key = true)
    (hc : Bytes.isBlank c = true) : c ∉ key := by
  intro hm
  simp only [isValid, Bool.and_eq_true, List.all_eq_true] at hk
  have := hk.2 c hm
  rw [hc] at this
  cases this

theorem space_not_mem {key : Bytes} (hk : isValid key = true) : Bytes.space ∉ key :=
  not_mem hk rfl

theorem newline_not_mem {key : Bytes} (hk : isValid key = true) : 10 ∉ key :=
  not_mem hk rfl

end Key

end CacheClient
