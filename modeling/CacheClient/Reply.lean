import CacheClient.Command

namespace CacheClient.Reply

def largestValue : Nat := 1048576

def violation (text : Bytes) : Failure :=
  ⟨.protocolError, text, []⟩

def missing : Failure :=
  ⟨.notFound, ascii "item not found", []⟩

def stored (verb : StoreVerb) (line : Bytes) : Answer Unit :=
  if line = ascii "STORED" then .ok ()
  else if line = ascii "NOT_STORED" then .error ⟨.notStored, ascii "item not stored", []⟩
  else if verb = .add ∧ line = ascii "EXISTS" then
    .error ⟨.conflict, ascii "item already exists", []⟩
  else .error (violation line)

def deleted (line : Bytes) : Answer Unit :=
  if line = ascii "DELETED" then .ok ()
  else if line = ascii "NOT_FOUND" then .error missing
  else .error (violation line)

def counted (line : Bytes) : Answer UInt64 :=
  if line = ascii "NOT_FOUND" then .error missing
  else if Bytes.has (ascii "non-numeric") line then .error ⟨.nonNumeric, line, []⟩
  else
    match Decimal.readBelow? UInt64.size (Bytes.trimEnd line) with
    | some n => .ok (UInt64.ofNatLT n n.isLt)
    | none => .error (violation line)

/-- What the first line of a found item announces. -/
structure Header where
  flags : UInt32
  length : Nat

/-- The line that ends what is found, and stands alone when nothing is. -/
def finish : Bytes := ascii "END"

/-- `VALUE`, the key asked for, flags and length. One space may follow the length. -/
def readHeader? (key line : Bytes) : Option Header := do
  let (word, rest) ← Bytes.cut? Bytes.space line
  let (named, rest) ← Bytes.cut? Bytes.space rest
  let (flags, rest) ← Bytes.cut? Bytes.space rest
  let length ←
    match Bytes.cut? Bytes.space rest with
    | none => some rest
    | some (length, []) => some length
    | some (_, _ :: _) => none
  let flags ← Decimal.readBelow? UInt32.size flags
  let length ← Decimal.readBelow? (largestValue + 1) length
  if word = ascii "VALUE" ∧ named = key then some ⟨UInt32.ofNatLT flags flags.isLt, length⟩
  else none

def header (key line : Bytes) : Answer Header :=
  if line = finish then .error ⟨.cacheMiss, ascii "cache miss", []⟩
  else
    match readHeader? key line with
    | some header => .ok header
    | none => .error (violation line)

def block (length : Nat) (bytes : Bytes) : Answer Bytes :=
  if bytes.drop length = Bytes.crlf then .ok (bytes.take length)
  else .error (violation (bytes.drop length))

def trailer (line : Bytes) : Answer Unit :=
  if line = finish then .ok () else .error (violation line)

end CacheClient.Reply
