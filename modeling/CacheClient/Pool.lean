import CacheClient.Connection

namespace CacheClient

/-- For one endpoint, the connections kept for reuse: a stack of bounded height. -/
structure Pool where
  endpoint : Endpoint
  options : DialOptions
  /-- How many idle connections are kept; none once the pool is closed. -/
  capacity : Option Nat
  /-- The connection given back last comes first. -/
  idle : List Connection

/-- Closes a connection that nobody will use again. -/
def Connection.discard [Network σ] (connection : Connection) (wire : Wire σ) : Wire σ :=
  (Link.mk connection wire).close.wire

namespace Pool

/-- An open pool that keeps up to `idle` connections; a negative number counts as zero. -/
def start (endpoint : Endpoint) (options : DialOptions) (idle : Int) : Pool :=
  ⟨endpoint, options, some idle.toNat, []⟩

def isClosed (pool : Pool) : Bool :=
  pool.capacity.isNone

/-- Whatever kind of failure a dial reports, no connection could be opened; another kind is named in
the message. -/
def dialFailure (failure : Failure) : Failure :=
  if failure.kind = .connectionError then failure
  else
    { failure with
      kind := .connectionError
      message := failure.kind.name ++ ascii ": " ++ failure.message }

/-- Whether the pool would keep the connection: it has room, and the connection is fit for use. -/
def keeps (pool : Pool) (connection : Connection) : Bool :=
  match pool.capacity with
  | none => false
  | some capacity =>
    connection.healthy && connection.isOpen && pool.idle.length < capacity

variable [Network σ]

/-- The connection given back last, else a new one. -/
def acquire (pool : Pool) (wire : Wire σ) : Answer Connection × Pool × Wire σ :=
  match pool.capacity, pool.idle with
  | none, _ => (.error .closed, pool, wire)
  | some _, connection :: idle => (.ok connection, { pool with idle }, wire)
  | some _, [] =>
    let (dialed, wire) := wire.dial pool.endpoint pool.options
    ((dialed.mapError dialFailure).map Connection.fresh, pool, wire)

def release (connection : Option Connection) (pool : Pool) (wire : Wire σ) : Pool × Wire σ :=
  match connection with
  | none => (pool, wire)
  | some connection =>
    if pool.keeps connection then ({ pool with idle := connection :: pool.idle }, wire)
    else (pool, connection.discard wire)

/-- Closes every idle connection and, from now on, refuses to open any. -/
def close (pool : Pool) (wire : Wire σ) : Pool × Wire σ :=
  match pool.capacity with
  | none => (pool, wire)
  | some _ =>
    ({ pool with capacity := none, idle := [] },
      pool.idle.foldl (fun wire connection => connection.discard wire) wire)

def closeEach : List Pool → Wire σ → List Pool × Wire σ
  | [], wire => ([], wire)
  | pool :: pools, wire =>
    let (pool, wire) := pool.close wire
    let (pools, wire) := closeEach pools wire
    (pool :: pools, wire)

end Pool

end CacheClient
