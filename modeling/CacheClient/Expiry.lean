import CacheClient.Failure

namespace CacheClient.Expiry

def second : Int64 := 1000000000

/-- Thirty days, in seconds; the server takes a larger number for a point in time. -/
def longestRelative : Int64 := 2592000

def refused : Failure :=
  ⟨.invalidExpiration, ascii "expiration must be zero or at least one second", []⟩

/-- The expiry field for a time to live at a reading of the clock, both in nanoseconds. -/
def seconds (ttl now : Int64) : Answer Int64 :=
  if ttl = 0 then .ok 0
  else if ttl < second then .error refused
  else
    let whole := ttl / second
    if longestRelative < whole then .ok (now / second + whole) else .ok whole

end CacheClient.Expiry
