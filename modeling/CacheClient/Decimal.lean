import CacheClient.Bytes

namespace CacheClient.Decimal

def isDigit (c : UInt8) : Bool :=
  48 ≤ c && c ≤ 57

def print (n : Nat) : Bytes :=
  (Nat.toDigits 10 n).map fun c => c.toNat.toUInt8

/-- A negative number carries a minus sign. -/
def printInt (z : Int) : Bytes :=
  if z < 0 then 45 :: print z.natAbs else print z.natAbs

def value (digits : Bytes) : Nat :=
  digits.foldl (fun n c => 10 * n + (c.toNat - 48)) 0

/-- The exact number, if the text is a non-empty row of digits and nothing else. -/
def read? (text : Bytes) : Option Nat :=
  if text.isEmpty then none else if text.all isDigit then some (value text) else none

/-- The number that a row of digits stands for, as long as it stays below `bound`; else `bound`. -/
def valueUpTo (bound : Nat) (digits : Bytes) : Nat :=
  digits.foldl (fun n c => min bound (10 * n + (c.toNat - 48))) 0

theorem foldl_min (bound : Nat) (digits : Bytes) (n m : Nat) (capped : m = min bound n) :
    digits.foldl (fun n c => min bound (10 * n + (c.toNat - 48))) m =
      min bound (digits.foldl (fun n c => 10 * n + (c.toNat - 48)) n) := by
  induction digits generalizing n m with
  | nil => exact capped
  | cons c digits ih =>
    refine ih (10 * n + (c.toNat - 48)) _ ?_
    show min bound (10 * m + (c.toNat - 48)) = _
    omega

/-- Counting stops at `bound`, so that a long row of digits costs no more than its length. -/
theorem valueUpTo_eq (bound : Nat) (digits : Bytes) :
    valueUpTo bound digits = min bound (value digits) :=
  foldl_min bound digits 0 0 (by omega)

def readBelow? (bound : Nat) (text : Bytes) : Option (Fin bound) :=
  if text.isEmpty then none
  else if text.all isDigit then
    if fits : valueUpTo bound text < bound then some ⟨valueUpTo bound text, fits⟩ else none
  else none

theorem readBelow?_eq_some_iff {bound : Nat} {text : Bytes} {n : Fin bound} :
    readBelow? bound text = some n ↔ read? text = some n.val := by
  have below := n.isLt
  have capped := valueUpTo_eq bound text
  unfold readBelow? read?
  split
  · simp
  · split
    · split
      · simp only [Option.some.injEq, Fin.ext_iff]
        omega
      · simp only [reduceCtorEq, Option.some.injEq, false_iff]
        omega
    · simp

end CacheClient.Decimal
