import CacheClient.Decimal
import CacheClient.Payload

namespace CacheClient

inductive Width where
  | one
  | two
  | four
  | eight
  deriving DecidableEq, Repr

def Width.bytes : Width → Nat
  | one => 1
  | two => 2
  | four => 4
  | eight => 8

/-- A type of integers: its width, and whether it has negative ones. -/
structure IntType where
  signed : Bool
  width : Width
  deriving DecidableEq, Repr

namespace IntType

def count (type : IntType) : Nat :=
  Nat.pow 256 type.width.bytes

theorem count_even (type : IntType) : type.count = 2 * (type.count / 2) := by
  cases h : type.width <;> simp [IntType.count, Width.bytes, h]

theorem count_pos (type : IntType) : 0 < type.count :=
  Nat.pow_pos (by decide)

def max (type : IntType) : Nat :=
  if type.signed then type.count / 2 - 1 else type.count - 1

def min (type : IntType) : Int :=
  if type.signed then -(type.count / 2 : Nat) else 0

theorem min_nonpos (type : IntType) : type.min ≤ 0 := by
  unfold min
  split <;> omega

theorem min_le_sub (type : IntType) {n : Nat} (high : type.max < n) (below : n < type.count) :
    type.min ≤ (n : Int) - type.count := by
  have := type.count_even
  unfold max at high
  unfold min
  split at high
  next signed => rw [if_pos signed]; omega
  next => omega

end IntType

structure Integer (type : IntType) where
  val : Int
  min_le : type.min ≤ val
  le_max : val ≤ type.max

namespace Integer

theorem ext {a b : Integer type} (same : a.val = b.val) : a = b := by
  cases a; cases b; cases same; rfl

instance : DecidableEq (Integer type) := fun a b =>
  if same : a.val = b.val then isTrue (ext same) else isFalse fun h => same (h ▸ rfl)

/-- The value of a type that a number is, if the type has it. -/
def ofInt? (type : IntType) (z : Int) : Option (Integer type) :=
  if h : type.min ≤ z ∧ z ≤ type.max then some ⟨z, h.1, h.2⟩ else none

/-- The first `width` digits to base 256, the lowest first. -/
def littleEndian : Nat → Nat → Bytes
  | 0, _ => []
  | width + 1, n => n.toUInt8 :: littleEndian width (n / 256)

/-- The number that digits to base 256 stand for, the lowest first. -/
def ofLittleEndian : Bytes → Nat
  | [] => 0
  | c :: rest => c.toNat + 256 * ofLittleEndian rest

theorem ofLittleEndian_lt (bytes : Bytes) : ofLittleEndian bytes < Nat.pow 256 bytes.length := by
  induction bytes with
  | nil => simp [ofLittleEndian]
  | cons c rest ih =>
    have digit := c.toNat_lt
    have grows : Nat.pow 256 (rest.length + 1) = Nat.pow 256 rest.length * 256 := rfl
    simp only [ofLittleEndian, List.length_cons]
    omega

/-- The value whose two's complement a number below `type.count` is. -/
def ofResidue (type : IntType) (n : Nat) (below : n < type.count) : Integer type :=
  if high : type.max < n then ⟨n - type.count, type.min_le_sub high below, by omega⟩
  else ⟨n, by have := type.min_nonpos; omega, by omega⟩

def refused (type : IntType) (bytes : Bytes) : Failure :=
  ⟨.decodeFailed,
    ascii "expected " ++ Decimal.print type.width.bytes ++ ascii " byte integer, got " ++
      Decimal.print bytes.length ++ ascii " bytes", []⟩

/-- The two's complement, in as many bytes as the type is wide. -/
def payload (value : Integer type) : Bytes :=
  littleEndian type.width.bytes (value.val % type.count).toNat

/-- Only bytes of exactly the width stand for a value. -/
def ofPayload (type : IntType) (bytes : Bytes) : Answer (Integer type) :=
  if wide : bytes.length = type.width.bytes then
    .ok (ofResidue type (ofLittleEndian bytes) (by
      simpa [IntType.count, wide] using ofLittleEndian_lt bytes))
  else .error (refused type bytes)

instance : Encode (Integer type) := ⟨fun value => .ok value.payload⟩

instance : Decode (Integer type) := ⟨ofPayload type⟩

end Integer

end CacheClient
