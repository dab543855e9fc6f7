import CacheClient.Proofs.Spelling
import Mathlib.Data.Int.CardIntervalMod
import Mathlib.Data.Set.Card

namespace CacheClient.Shard

/-- The keys of a length that belong to one of so many servers. -/
def share (length servers i : Nat) : Set Bytes :=
  {key | key.length = length ∧ index key servers = i}

def residues (servers i : Nat) : Nat :=
  Nat.count (· % servers = i) 256

theorem fold_eq_foldr (key : Bytes) : fold key = key.foldr (· ^^^ ·) 37 :=
  List.foldl_eq_foldr

theorem fold_cons (c : UInt8) (rest : Bytes) : fold (c :: rest) = c ^^^ fold rest := by
  rw [fold_eq_foldr, fold_eq_foldr, List.foldr_cons]

theorem fold_perm {key other : Bytes} (h : key.Perm other) : fold key = fold other := by
  rw [fold_eq_foldr, fold_eq_foldr]
  exact h.foldr_eq 37

theorem index_of_several {servers : Nat} (hs : 2 ≤ servers) (key : Bytes) :
    index key servers = (fold key).toNat % servers :=
  if_neg (by omega)

def begun (value : UInt8) (rest : Bytes) : Bytes :=
  (value ^^^ fold rest) :: rest

theorem fold_begun (value : UInt8) (rest : Bytes) : fold (begun value rest) = value := by
  rw [begun, fold_cons, UInt8.xor_assoc, UInt8.xor_self, UInt8.xor_zero]

theorem begun_fold (c : UInt8) (rest : Bytes) : begun (fold (c :: rest)) rest = c :: rest := by
  rw [begun, fold_cons, UInt8.xor_assoc, UInt8.xor_self, UInt8.xor_zero]

/-- Of the keys of a length, every byte is the fold of as many as there are keys one byte shorter. -/
theorem encard_folding (values : Set UInt8) (length : Nat) :
    {key : Bytes | key.length = length + 1 ∧ fold key ∈ values}.encard =
      values.encard * {rest : Bytes | rest.length = length}.encard := by
  have himage : {key : Bytes | key.length = length + 1 ∧ fold key ∈ values} =
      (fun (value, rest) => begun value rest) '' (values ×ˢ {rest | rest.length = length}) := by
    ext key
    constructor
    · rintro ⟨hlength, hvalue⟩
      obtain ⟨c, rest, rfl⟩ := List.exists_cons_of_length_eq_add_one hlength
      exact ⟨(fold (c :: rest), rest), ⟨hvalue, Nat.succ.inj hlength⟩, begun_fold c rest⟩
    · rintro ⟨⟨value, rest⟩, ⟨hvalue, hlength⟩, rfl⟩
      exact ⟨congrArg (· + 1) hlength, (fold_begun value rest).symm ▸ hvalue⟩
  have hinjective : Function.Injective fun (value, rest) => begun value rest := by
    rintro ⟨value, rest⟩ ⟨other, _⟩ h
    obtain rfl := (List.cons.inj h).2
    have hvalue := congrArg fold h
    simp only [fold_begun] at hvalue
    rw [hvalue]
  rw [himage, hinjective.encard_image, Set.encard_prod]

theorem encard_bytes (p : Nat → Prop) [DecidablePred p] :
    {value : UInt8 | p value.toNat}.encard = (Nat.count p 256 : ℕ∞) := by
  have himage : UInt8.toNat '' {value | p value.toNat} =
      ({n ∈ Finset.range 256 | p n} : Finset Nat) := by
    ext n
    simp only [Set.mem_image, Set.mem_ofPred_eq, Finset.coe_filter, Finset.mem_range]
    constructor
    · rintro ⟨value, hp, rfl⟩
      exact ⟨value.toNat_lt, hp⟩
    · rintro ⟨hn, hp⟩
      exact ⟨UInt8.ofNat n, (UInt8.toNat_ofNat_of_lt' hn).symm ▸ hp, UInt8.toNat_ofNat_of_lt' hn⟩
  have hinjective : Function.Injective UInt8.toNat := fun _ _ h => UInt8.toNat_inj.mp h
  rw [← hinjective.encard_image, himage, Set.encard_coe_eq_coe_finsetCard,
    Nat.count_eq_card_filter_range]

theorem encard_keys (length : Nat) :
    {key : Bytes | key.length = length}.encard = ((256 ^ length : Nat) : ℕ∞) := by
  induction length with
  | zero =>
    have hempty : {key : Bytes | key.length = 0} = {[]} := by
      ext key
      exact List.length_eq_zero_iff
    rw [hempty, Set.encard_singleton]
    rfl
  | succ length ih =>
    have hall : {key : Bytes | key.length = length + 1} =
        {key | key.length = length + 1 ∧ fold key ∈ {value : UInt8 | value.toNat < 256}} := by
      ext key
      exact (and_iff_left (fold key).toNat_lt).symm
    have hcount : Nat.count (· < 256) 256 = 256 := Nat.count_of_forall fun _ hn => hn
    rw [hall, encard_folding, encard_bytes (· < 256), hcount, ih, pow_succ', Nat.cast_mul]

theorem encard_share {length servers : Nat} (some_byte : 1 ≤ length) (several : 2 ≤ servers) (i : Nat) :
    (share length servers i).encard = ((256 ^ (length - 1) * residues servers i : Nat) : ℕ∞) := by
  obtain ⟨length, rfl⟩ := Nat.exists_eq_add_of_le' some_byte
  have hshare : share (length + 1) servers i =
      {key | key.length = length + 1 ∧ fold key ∈ {value : UInt8 | value.toNat % servers = i}} := by
    ext key
    simp only [share, index_of_several several, Set.mem_ofPred_eq]
  rw [hshare, encard_folding, encard_bytes (· % servers = i), encard_keys, ← Nat.cast_mul,
    Nat.add_sub_cancel, Nat.mul_comm]
  rfl

theorem residues_eq {servers i : Nat} (hi : i < servers) :
    residues servers i = 256 / servers + if i < 256 % servers then 1 else 0 := by
  have hcount := Nat.count_modEq_card 256 (Nat.zero_lt_of_lt hi) i
  simp only [Nat.ModEq, Nat.mod_eq_of_lt hi] at hcount
  exact hcount

theorem residues_le {servers i j : Nat} (hi : i < servers) (hj : j < servers) :
    residues servers i ≤ residues servers j + 1 := by
  rw [residues_eq hi, residues_eq hj]
  split <;> split <;> omega

theorem residues_of_many {servers i : Nat} (many : 256 < servers) (hi : i < 256) :
    residues servers i = 1 := by
  rw [residues_eq (by omega), Nat.div_eq_of_lt many, Nat.mod_eq_of_lt many, if_pos hi]

/-- Keys of a length are spread over up to 256 servers as evenly as bytes can be. Of more servers, those after
the first 256 have no key of any length. One server, or none, is everybody's; and keys that differ in nothing
but the order of their bytes are together. -/
theorem keys_spread_evenly :
    (∀ length, {key : Bytes | key.length = length}.encard = ((256 ^ length : Nat) : ℕ∞)) ∧
    (∀ length servers i, 1 ≤ length → 2 ≤ servers → i < servers →
      (share length servers i).encard =
        ((256 ^ (length - 1) * Nat.count (fun x => x % servers = i) 256 : Nat) : ℕ∞)) ∧
    (∀ length servers i j, 1 ≤ length → 2 ≤ servers → servers ≤ 256 → i < servers → j < servers →
      (share length servers i).encard ≤
        (share length servers j).encard + ((256 ^ (length - 1) : Nat) : ℕ∞)) ∧
    (∀ servers, 256 < servers →
      (∀ length i, 1 ≤ length → i < 256 →
        (share length servers i).encard = ((256 ^ (length - 1) : Nat) : ℕ∞)) ∧
      ∀ i, 256 ≤ i → ∀ key, index key servers ≠ i) ∧
    (∀ servers ≤ 1, ∀ key, index key servers = 0) ∧
    ∀ servers key other, key.Perm other → index key servers = index other servers := by
  refine ⟨encard_keys, ?_, ?_, ?_, ?_, ?_⟩
  · intro length servers i some_byte several _
    exact encard_share some_byte several i
  · intro length servers i j some_byte several _ hi hj
    rw [encard_share some_byte several, encard_share some_byte several, ← Nat.cast_add, Nat.cast_le,
      ← Nat.mul_succ]
    exact Nat.mul_le_mul_left _ (residues_le hi hj)
  · intro servers many
    refine ⟨?_, ?_⟩
    · intro length i some_byte hi
      rw [encard_share some_byte (by omega), residues_of_many many hi, Nat.mul_one]
    · rintro i hi key rfl
      exact absurd (index_lt_fold_size key servers) (Nat.not_lt.mpr hi)
  · intro servers few key
    exact if_pos few
  · intro servers key other h
    rw [index, index, fold_perm h]

/-- Of the keys of two bytes the first of three servers has 256 more than the others, and the last of 300 has
none. -/
theorem pairs_of_bytes_shared :
    (share 2 3 0).encard = 22016 ∧ (share 2 3 1).encard = 21760 ∧
    (share 2 3 0).encard ≤ (share 2 3 1).encard + 256 ∧
    (share 2 300 255).encard = 256 ∧ (∀ key, index key 300 ≠ 299) ∧
    (∀ key, index key 1 = 0) ∧ index [7, 8, 9] 3 = index [9, 7, 8] 3 := by
  obtain ⟨-, hshare, heven, hmany, hsingle, hperm⟩ := keys_spread_evenly
  have hfirst := hshare 2 3 0 (by decide) (by decide) (by decide)
  have hsecond := hshare 2 3 1 (by decide) (by decide) (by decide)
  rw [show Nat.count (fun x => x % 3 = 0) 256 = 86 from residues_eq (by decide)] at hfirst
  rw [show Nat.count (fun x => x % 3 = 1) 256 = 85 from residues_eq (by decide)] at hsecond
  refine ⟨hfirst, hsecond, ?_, ?_, ?_, ?_, ?_⟩
  · exact heven 2 3 0 1 (by decide) (by decide) (by decide) (by decide) (by decide)
  · exact (hmany 300 (by decide)).1 2 255 (by decide) (by decide)
  · exact (hmany 300 (by decide)).2 299 (by decide)
  · exact hsingle 1 (by decide)
  · exact hperm 3 _ _ (by decide)

end CacheClient.Shard
