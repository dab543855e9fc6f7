import CacheClient.Bytes

namespace CacheClient.Shard

/-- All bytes of the key folded into one by exclusive or, starting from 37. -/
def fold (key : Bytes) : UInt8 :=
  key.foldl (· ^^^ ·) 37

/-- The server of a key; one server, or none, holds every key. -/
def index (key : Bytes) (servers : Nat) : Nat :=
  if servers ≤ 1 then 0 else (fold key).toNat % servers

theorem index_lt (key : Bytes) (some_server : 0 < servers) : index key servers < servers := by
  unfold index
  split
  · exact some_server
  · exact Nat.mod_lt _ some_server

end CacheClient.Shard
