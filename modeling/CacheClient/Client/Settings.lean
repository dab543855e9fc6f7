import CacheClient.Expiry
import CacheClient.Wire

namespace CacheClient

/-- Where a client reads the time. -/
inductive Clock where
  | system
  /-- A clock that stands still, in nanoseconds since the epoch. -/
  | fixed (reading : Int64)
  deriving DecidableEq

def Clock.read [Network σ] (wire : Wire σ) : Clock → Int64
  | system => wire.now
  | fixed reading => reading

structure Settings where
  servers : List Bytes := []
  /-- Limit for opening a connection, in milliseconds. -/
  dialTimeout : Int64 := 5000
  /-- Limit for each read and write, in milliseconds; zero is no limit. -/
  ioTimeout : Int64 := 0
  /-- How long items live that are stored without saying so, in nanoseconds; zero is for ever. -/
  defaultTtl : Int64 := 3600000000000
  /-- How many idle connections are kept for each server. -/
  idle : Int := 1
  clock : Option Clock := some .system
  canDial : Bool := true

namespace Settings

def dialOptions (settings : Settings) : DialOptions where
  connectTimeout := settings.dialTimeout
  ioTimeout := settings.ioTimeout

/-- Applies changes in order. -/
def apply (changes : List (Settings → Settings)) (settings : Settings) : Settings :=
  changes.foldl (fun settings change => change settings) settings

/-- Why no client can be made. -/
inductive Refusal where
  | negativeIdle
  | negativeTimeout
  | noClock
  | noDialer
  | invalidTtl (failure : Failure)
  | invalidServers (failure : Failure)

def Refusal.reason : Refusal → Bytes
  | negativeIdle => ascii "idle_connections must not be negative"
  | negativeTimeout => ascii "timeouts must not be negative"
  | noClock => ascii "clock is not set"
  | noDialer => ascii "dialer is not set"
  | invalidTtl failure => ascii "Invalid default_ttl: " ++ failure.message
  | invalidServers failure => ascii "Invalid servers: " ++ failure.message

/-- The reason as it is reported: as a text that ends before its first NUL byte, so that an address
which holds one is quoted up to there and the quote stays open. -/
def Refusal.text (refusal : Refusal) : Bytes :=
  refusal.reason.beforeNul

end Settings

end CacheClient
