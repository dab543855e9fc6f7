import CacheClient.Network

namespace CacheClient

inductive Event where
  /-- A dial, and the stream that it opened. -/
  | dialed (endpoint : Endpoint) (options : DialOptions) (opened : Option Nat)
  | wrote (id : Nat) (bytes : Bytes) (fault : Option Fault)
  | read (id : Nat) (bytes : Bytes) (fault : Option Fault)
  | closed (id : Nat)

namespace Event

/-- What the writes to a stream have put on it; a write that fails puts nothing there. -/
def written (id : Nat) (events : List Event) : Bytes :=
  events.flatMap fun
    | .wrote of bytes none => if of = id then bytes else []
    | _ => []

def reads (id : Nat) : Event → Bool
  | .read of _ _ => of = id
  | _ => false

def writes (id : Nat) : Event → Bool
  | .wrote of _ _ => of = id
  | _ => false

def closes (id : Nat) : Event → Bool
  | .closed of => of = id
  | _ => false

end Event

/-- A network with the journal of all that was asked of it. Streams are numbered in the order in which they
were opened, so that no two of them share a number. -/
structure Wire (σ : Type) where
  state : σ
  journal : List Event := []
  opened : Nat := 0

namespace Wire

/-- A network of which nothing has been asked yet. -/
def start (state : σ) : Wire σ :=
  ⟨state, [], 0⟩

/-- What has been asked of the network since an earlier time, oldest first. -/
def since (before after : Wire σ) : List Event :=
  (after.journal.take (after.journal.length - before.journal.length)).reverse

/-- The streams that have been opened and not closed. -/
def live (wire : Wire σ) : List Nat :=
  (List.range wire.opened).filter fun id => !wire.journal.any (Event.closes id)

variable [Network σ]

/-- Opens a stream and gives it the next number; a dial may also succeed without a stream. -/
def dial (endpoint : Endpoint) (options : DialOptions) (wire : Wire σ) :
    Answer (Option Nat) × Wire σ :=
  match Network.dial wire.opened endpoint options wire.state with
  | (.opened, state) =>
    (.ok (some wire.opened),
      { state
        journal := .dialed endpoint options (some wire.opened) :: wire.journal
        opened := wire.opened + 1 })
  | (.nothing, state) =>
    (.ok none, { wire with state, journal := .dialed endpoint options none :: wire.journal })
  | (.refused failure, state) =>
    (.error failure, { wire with state, journal := .dialed endpoint options none :: wire.journal })

def read (id room : Nat) (wire : Wire σ) : Delivery room × Wire σ :=
  let (delivery, state) := Network.read id room wire.state
  (delivery,
    { wire with state, journal := .read id delivery.bytes delivery.fault :: wire.journal })

def write (id : Nat) (bytes : Bytes) (wire : Wire σ) : Option Fault × Wire σ :=
  let (fault, state) := Network.write id bytes wire.state
  (fault, { wire with state, journal := .wrote id bytes fault :: wire.journal })

/-- Closes a stream and lets go of it. -/
def close (id : Nat) (wire : Wire σ) : Wire σ :=
  { wire with
    state := Network.abandon id (Network.close id wire.state)
    journal := .closed id :: wire.journal }

def now (wire : Wire σ) : Int64 :=
  Network.now wire.state

end Wire

end CacheClient
