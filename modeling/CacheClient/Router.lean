import CacheClient.Endpoint.Address
import CacheClient.Pool
import CacheClient.Shard

namespace CacheClient

/-- One pool for each server. -/
structure Router where
  pools : List Pool
  occupied : pools ≠ []

/-- A connection on loan, and the pool that it is to go back to. -/
structure Loan where
  pool : Nat
  connection : Connection

namespace Router

def noServers : Failure :=
  ⟨.invalidAddress, ascii "at least one server address is required", []⟩

/-- One pool for each address, in the byte order of the addresses; the first that does not parse is
refused. -/
def create (addresses : List Bytes) (options : DialOptions) (idle : Int) : Answer Router :=
  let pool (address : Bytes) : Answer Pool :=
    (Endpoint.parse address).map (Pool.start · options idle)
  match addresses.mergeSort fun a b => decide (a ≤ b) with
  | [] => .error noServers
  | first :: rest => do
    let first ← pool first
    let rest ← rest.mapM pool
    pure ⟨first :: rest, List.cons_ne_nil first rest⟩

def size (router : Router) : Nat :=
  router.pools.length

def pick (key : Bytes) (router : Router) : Nat :=
  Shard.index key router.size

theorem pick_lt (key : Bytes) (router : Router) : router.pick key < router.pools.length :=
  Shard.index_lt key (List.length_pos_iff.mpr router.occupied)

def put (i : Nat) (pool : Pool) (router : Router) : Router :=
  ⟨router.pools.set i pool, by simpa using router.occupied⟩

variable [Network σ]

/-- Borrows a connection from the pool that owns the key. -/
def borrow (key : Bytes) (router : Router) (wire : Wire σ) : Answer Loan × Router × Wire σ :=
  let owner := router.pools.get ⟨router.pick key, router.pick_lt key⟩
  let (answer, pool, wire) := owner.acquire wire
  (answer.map (Loan.mk (router.pick key)), router.put (router.pick key) pool, wire)

def release (i : Nat) (connection : Option Connection) (router : Router) (wire : Wire σ) :
    Router × Wire σ :=
  match router.pools[i]? with
  | some pool =>
    let (pool, wire) := pool.release connection wire
    (router.put i pool, wire)
  | none => (router, connection.elim wire fun connection => connection.discard wire)

/-- Runs an exchange on a connection borrowed for the key. The answer tells whether the connection is
still fit for use when it is given back. -/
def run (key : Bytes) (exchange : Link σ → Answer α × Link σ) (router : Router) (wire : Wire σ) :
    Answer α × Router × Wire σ :=
  match router.borrow key wire with
  | (.error failure, router, wire) => (.error failure, router, wire)
  | (.ok loan, router, wire) =>
    let (answer, link) := exchange ⟨loan.connection, wire⟩
    let connection := link.connection.record answer.keepsHealthy
    let (router, wire) := router.release loan.pool (some connection) link.wire
    (answer, router, wire)

theorem closeEach_ne_nil {pools : List Pool} (occupied : pools ≠ []) (wire : Wire σ) :
    (Pool.closeEach pools wire).1 ≠ [] := by
  cases pools with
  | nil => exact absurd rfl occupied
  | cons pool pools => simp [Pool.closeEach]

def closeAll (router : Router) (wire : Wire σ) : Router × Wire σ :=
  (⟨(Pool.closeEach router.pools wire).1, closeEach_ne_nil router.occupied wire⟩,
    (Pool.closeEach router.pools wire).2)

end Router

end CacheClient
