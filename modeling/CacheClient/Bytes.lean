namespace CacheClient

abbrev Bytes := List UInt8

/-- One byte per character; meant for texts whose characters are all below 256. -/
def ascii (text : String) : Bytes :=
  text.toList.map fun c => c.toNat.toUInt8

namespace Bytes

def space : UInt8 := 32

def crlf : Bytes := [13, 10]

/-- The offset of the first line end, the first byte of `bytes` standing at `offset`. -/
def lineEndFrom (offset : Nat) : Bytes → Option Nat
  | a :: b :: rest =>
    if a = 13 ∧ b = 10 then some offset else lineEndFrom (offset + 1) (b :: rest)
  | _ => none

/-- The offset of the first line end at or after `start`. -/
def lineEndAfter (start : Nat) (bytes : Bytes) : Option Nat :=
  lineEndFrom start (bytes.drop start)

def lineEnd? (bytes : Bytes) : Option Nat :=
  lineEndFrom 0 bytes

/-- What stands before the first `mark` and what stands after it. -/
def cut? (mark : UInt8) (bytes : Bytes) : Option (Bytes × Bytes) :=
  match bytes.dropWhile (· ≠ mark) with
  | [] => none
  | _ :: rest => some (bytes.takeWhile (· ≠ mark), rest)

/-- What stands before the first NUL byte; all of the bytes if there is none. -/
def beforeNul (bytes : Bytes) : Bytes :=
  bytes.takeWhile (· ≠ 0)

def has (word : Bytes) : Bytes → Bool
  | [] => word.isEmpty
  | c :: rest => word.isPrefixOf (c :: rest) || has word rest

def trimEnd (bytes : Bytes) : Bytes :=
  (bytes.reverse.dropWhile (· = space)).reverse

/-- The six blanks: space, tab, line feed, vertical tab, form feed, carriage return. -/
def isBlank (c : UInt8) : Bool :=
  c = 32 || (9 ≤ c && c ≤ 13)

/-- Lower case of the letters A to Z; every other byte stays. -/
def lower (c : UInt8) : UInt8 :=
  if 65 ≤ c ∧ c ≤ 90 then c + 32 else c

end Bytes

end CacheClient
