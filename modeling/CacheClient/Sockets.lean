import CacheClient.Network

namespace CacheClient

/-- When an operation is given up. -/
inductive Deadline where
  | never
  | after (milliseconds : Int64)
  deriving DecidableEq

/-- A timeout that is not positive sets no deadline. -/
def Deadline.ofTimeout (milliseconds : Int64) : Deadline :=
  if 0 < milliseconds then .after milliseconds else .never

/-- Clocks and timers count nanoseconds, in 64 bits as well: long times wrap around. -/
def nanoseconds (milliseconds : Int64) : Int64 :=
  milliseconds * 1000000

namespace DialOptions

/-- The time by which a stream must be open, on the clock by which its opening began; there may be none. -/
def limit (began : Int64) (options : DialOptions) : Option Int64 :=
  if 0 < options.connectTimeout then some (began + nanoseconds options.connectTimeout) else none

/-- The timeout that is left for the connect: what is left of the time is cut to whole milliseconds. -/
def left (began now : Int64) (options : DialOptions) : Int64 :=
  match options.limit began with
  | some limit => (limit - now) / 1000000
  | none => options.connectTimeout

end DialOptions

structure Lookup where
  found : Except Fault (List Bytes)
  /-- Whether that was known before the waiting for it ended. -/
  inTime : Bool

inductive Reach where
  | reached
  | failed (fault : Fault) (leftOpen : Bool)
  deriving DecidableEq

/-- Whether there is an open socket after a connect. -/
def Reach.isOpen : Reach → Bool
  | reached => true
  | failed _ leftOpen => leftOpen

/-- The sockets below a network, with a clock for the limits on opening them. -/
class Sockets (τ : Type) where
  /-- Waits for the answer up to a time on the steady clock, or without an end. -/
  lookup (resolver : Resolver) (host port : Bytes) (limit : Option Int64) : τ → Lookup × τ
  /-- Connects to the first of the targets that can be reached. -/
  connect (id : Nat) (family : Endpoint.Family) (targets : List Bytes) (deadline : Deadline) :
    τ → Reach × τ
  read (id room : Nat) (deadline : Deadline) : τ → Delivery room × τ
  write (id : Nat) (bytes : Bytes) (deadline : Deadline) : τ → Option Fault × τ
  shutdown (id : Nat) : τ → τ
  close (id : Nat) : τ → τ
  now : τ → Int64
  /-- Nanoseconds on a clock that is never set. -/
  steady : τ → Int64

/-- What can be asked of sockets, and for a connect what came of it. -/
inductive Call where
  | lookup (resolver : Resolver) (host port : Bytes) (limit : Option Int64)
  | connect (id : Nat) (family : Endpoint.Family) (targets : List Bytes) (deadline : Deadline) (reach : Reach)
  | read (id room : Nat) (deadline : Deadline)
  | write (id : Nat) (bytes : Bytes) (deadline : Deadline)
  | shutdown (id : Nat)
  | close (id : Nat)
  deriving DecidableEq

/-- Sockets with a record of what was asked of them. -/
structure Recorded (τ : Type) where
  state : τ
  calls : List Call := []

instance [Sockets τ] : Sockets (Recorded τ) where
  lookup resolver host port limit recorded :=
    let (lookup, state) := Sockets.lookup resolver host port limit recorded.state
    (lookup, ⟨state, .lookup resolver host port limit :: recorded.calls⟩)
  connect id family targets deadline recorded :=
    let (reach, state) := Sockets.connect id family targets deadline recorded.state
    (reach, ⟨state, .connect id family targets deadline reach :: recorded.calls⟩)
  read id room deadline recorded :=
    let (delivery, state) := Sockets.read id room deadline recorded.state
    (delivery, ⟨state, .read id room deadline :: recorded.calls⟩)
  write id bytes deadline recorded :=
    let (fault, state) := Sockets.write id bytes deadline recorded.state
    (fault, ⟨state, .write id bytes deadline :: recorded.calls⟩)
  shutdown id recorded := ⟨Sockets.shutdown id recorded.state, .shutdown id :: recorded.calls⟩
  close id recorded := ⟨Sockets.close id recorded.state, .close id :: recorded.calls⟩
  now recorded := Sockets.now recorded.state
  steady recorded := Sockets.steady recorded.state

structure Socket where
  id : Nat
  ioTimeout : Int64
  /-- The deadline set last. -/
  deadline : Deadline
  isOpen : Bool

/-- A network of sockets that have been connected. -/
structure SocketNetwork (τ : Type) where
  state : τ
  sockets : List Socket := []

namespace SocketNetwork

def start (state : τ) : SocketNetwork τ :=
  ⟨state, []⟩

def socket? (id : Nat) (network : SocketNetwork τ) : Option Socket :=
  network.sockets.find? (·.id = id)

/-- The deadline that an operation on a socket starts under. -/
def deadline (id : Nat) (network : SocketNetwork τ) : Deadline :=
  match network.socket? id with
  | some socket => socket.deadline
  | none => .never

def isOpen (id : Nat) (network : SocketNetwork τ) : Bool :=
  match network.socket? id with
  | some socket => socket.isOpen
  | none => false

def change (id : Nat) (change : Socket → Socket) (network : SocketNetwork τ) : SocketNetwork τ :=
  { network with
    sockets := network.sockets.map fun socket => if socket.id = id then change socket else socket }

/-- Sets the deadline anew for the read or write that is to come. -/
def arm (id : Nat) (network : SocketNetwork τ) : SocketNetwork τ :=
  network.change id fun socket => { socket with deadline := .ofTimeout socket.ioTimeout }

/-- Why no stream could be opened. -/
def refused (endpoint : Endpoint) (fault : Fault) : Dialed :=
  .refused ⟨.connectionError,
    ascii "Connect to " ++ endpoint.text ++ ascii " failed: " ++
      if fault = .deadline then ascii "connect timed out" else fault.text, []⟩

variable [Sockets τ]

/-- A socket that is no longer open is left alone. -/
def close (id : Nat) (network : SocketNetwork τ) : SocketNetwork τ :=
  if network.isOpen id then
    let network := network.change id fun socket => { socket with isOpen := false }
    { network with state := Sockets.close id (Sockets.shutdown id network.state) }
  else network

/-- The socket is there before it is connected. If that fails it goes again, which closes what the attempt has
left open. -/
def connect (id : Nat) (endpoint : Endpoint) (targets : List Bytes) (timeout ioTimeout : Int64)
    (network : SocketNetwork τ) : Dialed × SocketNetwork τ :=
  let deadline := Deadline.ofTimeout timeout
  let (reach, state) := Sockets.connect id endpoint.family targets deadline network.state
  let joined := SocketNetwork.mk state (⟨id, ioTimeout, deadline, reach.isOpen⟩ :: network.sockets)
  match reach with
  | .reached => (.opened, joined)
  | .failed fault _ => (refused endpoint fault, { joined.close id with sockets := network.sockets })

/-- A path is connected to as it is. A host is looked up first, and what that leaves of the time is
for connecting. -/
def dial (id : Nat) (endpoint : Endpoint) (options : DialOptions) (network : SocketNetwork τ) :
    Dialed × SocketNetwork τ :=
  match endpoint.family with
  | .unix => network.connect id endpoint [endpoint.path] options.connectTimeout options.ioTimeout
  | .tcp =>
    let began := Sockets.steady network.state
    let limit := options.limit began
    let (lookup, state) := Sockets.lookup options.resolver endpoint.host endpoint.port limit network.state
    let network := { network with state }
    if limit.isSome && !lookup.inTime then (refused endpoint .deadline, network)
    else
      match lookup.found with
      | .error fault => (refused endpoint fault, network)
      | .ok targets =>
        let left := options.left began (Sockets.steady state)
        if limit.isSome && left ≤ 0 then (refused endpoint .deadline, network)
        else network.connect id endpoint targets left options.ioTimeout

def read (id room : Nat) (network : SocketNetwork τ) : Delivery room × SocketNetwork τ :=
  let network := network.arm id
  let (delivery, state) := Sockets.read id room (network.deadline id) network.state
  (delivery, { network with state })

def write (id : Nat) (bytes : Bytes) (network : SocketNetwork τ) :
    Option Fault × SocketNetwork τ :=
  let network := network.arm id
  let (fault, state) := Sockets.write id bytes (network.deadline id) network.state
  (fault, { network with state })

instance : Network (SocketNetwork τ) where
  dial := dial
  read := read
  write := write
  close := close
  abandon := close
  now network := Sockets.now network.state

end SocketNetwork

end CacheClient
