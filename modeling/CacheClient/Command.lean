import CacheClient.Decimal
import CacheClient.Failure

namespace CacheClient

structure Item where
  /-- Opaque to the server. -/
  flags : UInt32
  value : Bytes
  deriving DecidableEq

inductive StoreVerb where
  | set
  /-- Stores only where nothing is stored yet. -/
  | add
  deriving DecidableEq, Repr

inductive CountVerb where
  | incr
  | decr
  deriving DecidableEq, Repr

/-- Nothing is escaped in the text of a command, so that keys may hold no blank. -/
inductive Command where
  | store (verb : StoreVerb) (key : Bytes) (flags : UInt32) (expiry : Int64) (payload : Bytes)
  | get (key : Bytes)
  | delete (key : Bytes)
  | count (verb : CountVerb) (key : Bytes) (delta : UInt64)
  deriving DecidableEq

def StoreVerb.text : StoreVerb → Bytes
  | set => ascii "set"
  | add => ascii "add"

def CountVerb.text : CountVerb → Bytes
  | incr => ascii "incr"
  | decr => ascii "decr"

namespace Command

def key : Command → Bytes
  | store _ key _ _ _ => key
  | get key => key
  | delete key => key
  | count _ key _ => key

/-- The fields of the command's line. -/
def fields : Command → List Bytes
  | store verb key flags expiry payload =>
    [verb.text, key, Decimal.print flags.toNat, Decimal.printInt expiry.toInt,
      Decimal.print payload.length]
  | get key => [ascii "get", key]
  | delete key => [ascii "delete", key]
  | count verb key delta => [verb.text, key, Decimal.print delta.toNat]

/-- What follows the line. -/
def block : Command → Bytes
  | store _ _ _ _ payload => payload ++ Bytes.crlf
  | _ => []

def text (command : Command) : Bytes :=
  [Bytes.space].intercalate command.fields ++ Bytes.crlf ++ command.block

end Command

namespace Key

def longest : Nat := 250

def isValid (key : Bytes) : Bool :=
  !key.isEmpty && key.length ≤ longest && key.all (!Bytes.isBlank ·)

def refused : Failure :=
  ⟨.keyInvalid, ascii "key is not valid", []⟩

def check (key : Bytes) : Answer Unit :=
  if isValid key then .ok () else .error refused

end Key

end CacheClient
