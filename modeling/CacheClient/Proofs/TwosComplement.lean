import CacheClient.Payload.Integer
import Mathlib.Algebra.Order.Group.Unbundled.Int
import Mathlib.Data.Nat.Digits.Defs

namespace CacheClient

namespace IntType

theorem count_eq (type : IntType) : type.count = 2 ^ (8 * type.width.bytes) := by
  cases h : type.width <;> simp [count, Width.bytes, h]

theorem max_sub_min_lt (type : IntType) : type.max - type.min < type.count := by
  have heven := type.count_even
  have hpos := type.count_pos
  unfold max min
  split <;> omega

end IntType

namespace Integer

variable {type : IntType}

theorem ofLittleEndian_eq (bytes : Bytes) :
    ofLittleEndian bytes = Nat.ofDigits 256 (bytes.map UInt8.toNat) := by
  induction bytes with
  | nil => rfl
  | cons c rest ih => rw [ofLittleEndian, ih, List.map_cons, Nat.ofDigits_cons]

theorem length_littleEndian (width n : Nat) : (littleEndian width n).length = width := by
  induction width generalizing n with
  | zero => rfl
  | succ width ih => rw [littleEndian, List.length_cons, ih]

theorem ofLittleEndian_littleEndian (width n : Nat) :
    ofLittleEndian (littleEndian width n) = n % Nat.pow 256 width := by
  induction width generalizing n with
  | zero => exact (Nat.mod_one n).symm
  | succ width ih =>
    calc n.toUInt8.toNat + 256 * ofLittleEndian (littleEndian width (n / 256))
      _ = n % 256 + 256 * (n / 256 % Nat.pow 256 width) := by rw [ih]; rfl
      _ = n % (256 * Nat.pow 256 width) := Nat.mod_mul.symm
      _ = n % Nat.pow 256 (width + 1) := by rw [Nat.mul_comm]; rfl

theorem littleEndian_ofLittleEndian (bytes : Bytes) :
    littleEndian bytes.length (ofLittleEndian bytes) = bytes := by
  induction bytes with
  | nil => rfl
  | cons c rest ih =>
    have hc := c.toNat_lt
    have hlow : (c.toNat + 256 * ofLittleEndian rest).toUInt8 = c := by
      apply UInt8.toNat_inj.mp
      rw [UInt8.toNat_ofNat']
      omega
    have hhigh : (c.toNat + 256 * ofLittleEndian rest) / 256 = ofLittleEndian rest := by omega
    rw [List.length_cons, ofLittleEndian, littleEndian, hlow, hhigh, ih]

theorem eq_of_emod {a b : Integer type} (h : a.val % type.count = b.val % type.count) : a = b := by
  have hrange := type.max_sub_min_lt
  have := a.min_le
  have := a.le_max
  have := b.min_le
  have := b.le_max
  have hdvd : (type.count : Int) ∣ a.val - b.val :=
    Int.dvd_of_emod_eq_zero (Int.emod_eq_emod_iff_emod_sub_eq_zero.mp h)
  -- The values of a type are too near to each other to be a multiple of their count apart.
  have hnear : |a.val - b.val| < type.count := abs_lt.mpr ⟨by omega, by omega⟩
  have := Int.eq_zero_of_abs_lt_dvd hdvd hnear
  exact Integer.ext (by omega)

theorem ofResidue_emod (n : Nat) (below : n < type.count) :
    (ofResidue type n below).val % type.count = n := by
  unfold ofResidue
  split
  · exact (Int.sub_emod_right ..).trans (Int.emod_eq_of_lt (by omega) (by omega))
  · exact Int.emod_eq_of_lt (Int.natCast_nonneg n) (Int.ofNat_lt.mpr below)

theorem length_payload (value : Integer type) : value.payload.length = type.width.bytes :=
  length_littleEndian _ _

theorem ofLittleEndian_payload (value : Integer type) :
    (ofLittleEndian value.payload : Int) = value.val % type.count := by
  have hpos := type.count_pos
  have hlow : 0 ≤ value.val % type.count := Int.emod_nonneg _ (by omega)
  have hhigh : value.val % type.count < type.count := Int.emod_lt_of_pos _ (by omega)
  rw [payload, ofLittleEndian_littleEndian]
  change ((_ % type.count : Nat) : Int) = _
  rw [Nat.mod_eq_of_lt (by omega), Int.toNat_of_nonneg hlow]

theorem ofResidue_payload (value : Integer type) (below : ofLittleEndian value.payload < type.count) :
    ofResidue type (ofLittleEndian value.payload) below = value := by
  apply eq_of_emod
  rw [ofResidue_emod, ofLittleEndian_payload]

theorem ofPayload_eq_ok {bytes : Bytes} {value : Integer type} :
    ofPayload type bytes = .ok value ↔ value.payload = bytes := by
  constructor
  · intro h
    unfold ofPayload at h
    split at h
    · rename_i hwide
      obtain rfl := Except.ok.inj h
      rw [payload, ofResidue_emod, Int.toNat_natCast, ← hwide, littleEndian_ofLittleEndian]
    · cases h
  · rintro rfl
    rw [ofPayload, dif_pos value.length_payload, ofResidue_payload]

theorem unsigned_emod {width : Width} (value : Integer ⟨false, width⟩) :
    value.val % (IntType.mk false width).count = value.val := by
  have hlow : 0 ≤ value.val := value.min_le
  have hhigh : value.val ≤ ((IntType.mk false width).count - 1 : Nat) := value.le_max
  have hpos := (IntType.mk false width).count_pos
  exact Int.emod_eq_of_lt hlow (by omega)

theorem payload_eq_iff {signed other : Bool} {width : Width} (a : Integer ⟨signed, width⟩)
    (b : Integer ⟨other, width⟩) : a.payload = b.payload ↔
      a.val % (IntType.mk signed width).count = b.val % (IntType.mk other width).count := by
  constructor
  · intro h
    rw [← ofLittleEndian_payload a, ← ofLittleEndian_payload b, h]
  · intro h
    rw [payload, payload, h]

def payloads (type : IntType) : Integer type ≃ {bytes : Bytes // bytes.length = type.width.bytes} where
  toFun value := ⟨value.payload, value.length_payload⟩
  invFun bytes := ofResidue type (ofLittleEndian bytes.val) (by
    simpa [IntType.count, bytes.property] using ofLittleEndian_lt bytes.val)
  left_inv value := ofResidue_payload value _
  right_inv bytes := Subtype.ext (ofPayload_eq_ok.mp (dif_pos bytes.property))

end Integer

open Integer

/-- A value of a type is written as just as many bytes as the type is wide, whose value to base 256, the
lowest digit first, is the value modulo two to the number of bits; and they are read as the value again. Bytes
are read exactly if they are as many, and what is read is written as them, so that values and strings of the
width belong to each other one by one. Types of one width with and without negative numbers write the same
bytes, and read them, for numbers that are the same modulo two to the number of bits. -/
theorem integers_kept_exactly (type : IntType) :
    (∀ value : Integer type, ∃ bytes, encode value = .ok bytes ∧ bytes.length = type.width.bytes ∧
      ((Nat.ofDigits 256 (bytes.map UInt8.toNat) : Nat) : Int) =
        value.val % 2 ^ (8 * type.width.bytes) ∧
      decode bytes = .ok value) ∧
    (∀ bytes, let read : Answer (Integer type) := decode bytes
      if bytes.length = type.width.bytes then ∃ value, read = .ok value ∧ encode value = .ok bytes
      else read.is .decodeFailed = true) ∧
    (∃ payloads : Integer type ≃ {bytes : Bytes // bytes.length = type.width.bytes},
      ∀ value, encode value = .ok (payloads value).val) ∧
    ∀ (value : Integer ⟨true, type.width⟩) (other : Integer ⟨false, type.width⟩),
      (encode value = encode other ↔ other.val = value.val % 2 ^ (8 * type.width.bytes)) ∧
      ∀ bytes, decode bytes = .ok value →
        (decode bytes = .ok other ↔ other.val = value.val % 2 ^ (8 * type.width.bytes)) := by
  refine ⟨?_, ?_, ⟨payloads type, fun _ => rfl⟩, ?_⟩
  · intro value
    refine ⟨value.payload, rfl, value.length_payload, ?_, ofPayload_eq_ok.mpr rfl⟩
    rw [← ofLittleEndian_eq, ofLittleEndian_payload, IntType.count_eq]
    norm_cast
  · intro bytes read
    split
    · rename_i hwide
      have hread : read = .ok ((payloads type).symm ⟨bytes, hwide⟩) := dif_pos hwide
      exact ⟨_, hread, congrArg _ (ofPayload_eq_ok.mp hread)⟩
    · rename_i hnarrow
      have hread : read = .error (refused type bytes) := dif_neg hnarrow
      rw [hread]
      rfl
  · intro value other
    have hcount : (IntType.mk true type.width).count = 2 ^ (8 * type.width.bytes) :=
      IntType.count_eq _
    -- at one width, the same bytes mean the same residue
    have hsame : value.payload = other.payload ↔
        other.val = value.val % 2 ^ (8 * type.width.bytes) := by
      rw [payload_eq_iff, unsigned_emod, hcount, eq_comm]
      norm_cast
    refine ⟨by simpa [encode] using hsame, fun bytes hread => ?_⟩
    obtain rfl := ofPayload_eq_ok.mp hread
    exact (ofPayload_eq_ok.trans eq_comm).trans hsame

example : (⟨-2, by decide, by decide⟩ : Integer ⟨true, .four⟩).payload = [254, 255, 255, 255] := rfl

end CacheClient
