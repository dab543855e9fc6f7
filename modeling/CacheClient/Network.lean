import CacheClient.Endpoint
import CacheClient.Fault

namespace CacheClient

/-- Who looks up the hosts of TCP endpoints. -/
inductive Resolver where
  | system
  | custom
  deriving DecidableEq, Repr

/-- Limits in milliseconds; one that is not positive is no limit. -/
structure DialOptions where
  /-- For opening a stream, the lookup of its host included. -/
  connectTimeout : Int64
  ioTimeout : Int64
  resolver : Resolver := .system
  deriving DecidableEq

/-- What a dial comes to. -/
inductive Dialed where
  | opened
  /-- The dial succeeded without a stream to show for it. -/
  | nothing
  | refused (failure : Failure)

/-- What a read brings. Bytes may come together with a fault. -/
structure Delivery (room : Nat) where
  bytes : Bytes
  fault : Option Fault
  fits : bytes.length ≤ room

/-- What a client asks of the network. Nothing is assumed of how it behaves, save that a read brings no more
bytes than there is room for. -/
class Network (σ : Type) where
  /-- Opens a stream, which is known by the number `id` if that succeeds. -/
  dial (id : Nat) (endpoint : Endpoint) (options : DialOptions) : σ → Dialed × σ
  read (id room : Nat) : σ → Delivery room × σ
  write (id : Nat) (bytes : Bytes) : σ → Option Fault × σ
  close (id : Nat) : σ → σ
  /-- The owner of a stream lets go of it, whether or not it has been closed. -/
  abandon (id : Nat) : σ → σ
  /-- Nanoseconds since the epoch. -/
  now : σ → Int64

end CacheClient
