import CacheClient.Failure

namespace CacheClient

inductive Fault where
  | endOfStream
  /-- The deadline set for this operation passed. -/
  | deadline
  /-- The system gave the connection up; no deadline of ours is meant. -/
  | timedOut
  | brokenPipe
  | connectionReset
  | connectionRefused
  | aborted
  | notConnected
  | messageSize
  | hostNotFound
  | hostNotFoundTryAgain
  /-- Any other fault, in the system's words. -/
  | other (text : Bytes)
  deriving DecidableEq, Repr

namespace Fault

def text : Fault → Bytes
  | endOfStream => ascii "End of file"
  | deadline => ascii "The socket was closed due to a timeout"
  | timedOut => ascii "Connection timed out"
  | brokenPipe => ascii "Broken pipe"
  | connectionReset => ascii "Connection reset by peer"
  | connectionRefused => ascii "Connection refused"
  | aborted => ascii "Operation canceled"
  | notConnected => ascii "Transport endpoint is not connected"
  | messageSize => ascii "Message too long"
  | hostNotFound => ascii "Host not found (authoritative)"
  | hostNotFoundTryAgain => ascii "Host not found (non-authoritative), try again later"
  | other text => text

/-- A deadline that passed is a timeout whatever was being done; else the failure has the kind given. -/
def failure (kind : Failure.Kind) (doing : Bytes) : Fault → Failure
  | deadline => ⟨.timeout, doing ++ ascii " timed out", []⟩
  | fault => ⟨kind, doing ++ ascii " failed: " ++ fault.text, []⟩

def sending (fault : Fault) : Failure :=
  fault.failure .sendFailed (ascii "Write")

def receiving (fault : Fault) : Failure :=
  fault.failure .receiveFailed (ascii "Read")

end Fault

end CacheClient
