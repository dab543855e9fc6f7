import CacheClient.Bytes

namespace CacheClient

namespace Failure

inductive Kind where
  | keyInvalid
  | invalidExpiration
  | negativeDelta
  | invalidAddress
  /-- The client, or the pool asked, is closed. -/
  | clientClosed
  | connectionError
  | sendFailed
  | receiveFailed
  /-- A read or write ran past its deadline. -/
  | timeout
  | cacheMiss
  | notFound
  | notStored
  | conflict
  | nonNumeric
  /-- The reply is not one that the command can have; the message is the reply. -/
  | protocolError
  | encodeFailed
  | decodeFailed
  | multiple
  deriving DecidableEq, Repr, Inhabited

namespace Kind

/-- Every kind, in the order of their numbers. -/
def all : List Kind :=
  [keyInvalid, invalidExpiration, negativeDelta, invalidAddress, clientClosed, connectionError,
    sendFailed, receiveFailed, timeout, cacheMiss, notFound, notStored, conflict, nonNumeric,
    protocolError, encodeFailed, decodeFailed, multiple]

def name : Kind → Bytes
  | keyInvalid => ascii "KeyInvalid"
  | invalidExpiration => ascii "InvalidExpiration"
  | negativeDelta => ascii "NegativeDelta"
  | invalidAddress => ascii "InvalidAddress"
  | clientClosed => ascii "ClientClosed"
  | connectionError => ascii "ConnectionError"
  | sendFailed => ascii "SendFailed"
  | receiveFailed => ascii "ReceiveFailed"
  | timeout => ascii "Timeout"
  | cacheMiss => ascii "CacheMiss"
  | notFound => ascii "NotFound"
  | notStored => ascii "NotStored"
  | conflict => ascii "Conflict"
  | nonNumeric => ascii "NonNumeric"
  | protocolError => ascii "ProtocolError"
  | encodeFailed => ascii "EncodeFailed"
  | decodeFailed => ascii "DecodeFailed"
  | multiple => ascii "Multiple"

/-- A reply to be expected from a sound exchange, such as a miss. -/
def isOutcome : Kind → Bool
  | cacheMiss | notFound | notStored | conflict | nonNumeric => true
  | _ => false

def isTransport : Kind → Bool
  | connectionError | sendFailed | receiveFailed | timeout => true
  | _ => false

end Kind

end Failure

/-- Causes are given where one failure sums up several calls. -/
structure Failure where
  kind : Failure.Kind
  message : Bytes
  causes : List Failure := []
  deriving Inhabited

/-- What a call answers: a value, or why there is none. -/
abbrev Answer (α : Type) := Except Failure α

namespace Failure

/-- Adds the name of the kind and the message, if there is one, on a line of their own. -/
def addLine (text : Bytes) (failure : Failure) : Bytes :=
  let text := if text.isEmpty then text else text ++ [10]
  let text := text ++ failure.kind.name
  if failure.message.isEmpty then text else text ++ ascii ": " ++ failure.message

/-- One failure for all: a line for each of them, and all of them as its causes. -/
def join (failures : List Failure) : Failure where
  kind := .multiple
  message := failures.foldl addLine []
  causes := failures

/-- Shared by every call on what is closed. -/
def closed : Failure :=
  ⟨.clientClosed, ascii "memc: client has been closed", []⟩

end Failure

namespace Answer

def failure? : Answer α → Option Failure
  | .ok _ => none
  | .error failure => some failure

def value? : Answer α → Option α
  | .ok value => some value
  | .error _ => none

def is (answer : Answer α) (kind : Failure.Kind) : Bool :=
  match answer with
  | .ok _ => false
  | .error failure => failure.kind = kind

/-- A stream is fit for further exchanges after a success and after an expected reply. -/
def keepsHealthy : Answer α → Bool
  | .ok _ => true
  | .error failure => failure.kind.isOutcome

end Answer

end CacheClient
