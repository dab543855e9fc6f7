import CacheClient.Proofs.Streams
import CacheClient.Sockets

namespace CacheClient

/-- What a call can ask of a socket. -/
inductive Asked where
  | connect
  | read
  | write
  | shutdown
  | close
  deriving DecidableEq

/-- Whether the socket is used, rather than made or done with. -/
def Asked.talk : Asked → Bool
  | .read | .write => true
  | .connect | .shutdown | .close => false

namespace Call

/-- What the call asks of the socket that has this number, if it is a call on that socket. -/
def asks (id : Nat) : Call → Option Asked
  | .lookup .. => none
  | .connect of .. => if of = id then some .connect else none
  | .read of .. => if of = id then some .read else none
  | .write of .. => if of = id then some .write else none
  | .shutdown of => if of = id then some .shutdown else none
  | .close of => if of = id then some .close else none

def talks (id : Nat) (call : Call) : Bool :=
  (call.asks id).any Asked.talk

/-- What the call makes of the sockets. -/
def effect [Sockets τ] (state : τ) : Call → τ
  | .lookup resolver host port limit => (Sockets.lookup resolver host port limit state).2
  | .connect id family targets deadline _ => (Sockets.connect id family targets deadline state).2
  | .read id room deadline => (Sockets.read id room deadline state).2
  | .write id bytes deadline => (Sockets.write id bytes deadline state).2
  | .shutdown id => Sockets.shutdown id state
  | .close id => Sockets.close id state

end Call

/-- These calls were made in between, oldest first: they are on record, and the sockets are as the calls leave
them. -/
structure Recorded.Made [Sockets τ] (calls : List Call) (before after : Recorded τ) : Prop where
  record : after.calls = calls.reverse ++ before.calls
  state : after.state = calls.foldl Call.effect before.state

namespace Recorded.Made

variable [Sockets τ] {calls more : List Call} {before between after : Recorded τ}

theorem refl (recorded : Recorded τ) : Made [] recorded recorded :=
  ⟨rfl, rfl⟩

theorem trans (h : Made calls before between) (h' : Made more between after) :
    Made (calls ++ more) before after := by
  refine ⟨?_, ?_⟩
  · rw [h'.record, h.record, List.reverse_append, List.append_assoc]
  · rw [h'.state, h.state, List.foldl_append]

end Recorded.Made

namespace SocketNetwork

variable {network after : SocketNetwork τ} {id other : Nat}

theorem socket?_change {change : Socket → Socket} (hid : ∀ socket, (change socket).id = socket.id) :
    (network.change id change).socket? other =
      (network.socket? other).map fun socket => if other = id then change socket else socket := by
  have hnumber : ((fun socket : Socket => decide (socket.id = other)) ∘
      fun socket => if socket.id = id then change socket else socket) =
        fun socket => decide (socket.id = other) := by
    funext socket
    simp only [Function.comp_apply]
    split <;> simp [hid]
  simp only [SocketNetwork.socket?, SocketNetwork.change, List.find?_map, hnumber]
  cases hfound : network.sockets.find? fun socket => decide (socket.id = other) with
  | none => rfl
  | some socket =>
    have hother : socket.id = other := by simpa using List.find?_some hfound
    simp [hother]

theorem isOpen_eq : network.isOpen id = (network.socket? id).any Socket.isOpen := by
  unfold isOpen
  cases network.socket? id <;> rfl

theorem isOpen_congr (h : after.sockets = network.sockets) : after.isOpen id = network.isOpen id := by
  rw [isOpen, isOpen, socket?, socket?, h]

theorem socket?_arm : (network.arm id).socket? other = (network.socket? other).map fun socket =>
    if other = id then { socket with deadline := .ofTimeout socket.ioTimeout } else socket :=
  socket?_change fun _ => rfl

theorem deadline_arm {socket : Socket} (h : network.socket? id = some socket) :
    (network.arm id).deadline id = .ofTimeout socket.ioTimeout := by
  simp [deadline, socket?_arm, h]

def timeout? (id : Nat) (network : SocketNetwork τ) : Option Int64 :=
  (network.socket? id).map Socket.ioTimeout

theorem timeout?_change {change : Socket → Socket} (hid : ∀ socket, (change socket).id = socket.id)
    (hlimit : ∀ socket, (change socket).ioTimeout = socket.ioTimeout) :
    (network.change id change).timeout? other = network.timeout? other := by
  rw [timeout?, timeout?, socket?_change hid]
  cases network.socket? other with
  | none => rfl
  | some socket =>
    simp only [Option.map_some, Option.some.injEq]
    split <;> simp only [hlimit]

theorem timeout?_arm : (network.arm id).timeout? other = network.timeout? other :=
  timeout?_change (fun _ => rfl) fun _ => rfl

theorem isOpen_arm : (network.arm id).isOpen other = network.isOpen other := by
  rw [isOpen_eq, isOpen_eq, socket?_arm]
  cases network.socket? other with
  | none => rfl
  | some socket =>
    show (if other = id then _ else socket).isOpen = socket.isOpen
    split <;> rfl

section Asking

variable [Sockets τ]

theorem close_of_shut (h : network.isOpen id = false) : network.close id = network := by
  rw [close, h]
  rfl

theorem close_state (h : network.isOpen id = true) :
    (network.close id).state = Sockets.close id (Sockets.shutdown id network.state) := by
  rw [close, if_pos h]
  rfl

theorem socket?_close : (network.close id).socket? other = (network.socket? other).map fun socket =>
    if other = id then { socket with isOpen := false } else socket := by
  cases h : network.isOpen id with
  | true =>
    rw [close, if_pos h]
    exact socket?_change fun _ => rfl
  | false =>
    rw [close_of_shut h]
    rw [isOpen_eq] at h
    cases hsocket : network.socket? other with
    | none => rfl
    | some socket =>
      rw [Option.map_some]
      split
      · rename_i hsame
        rw [← hsame, hsocket, Option.any_some] at h
        rw [← h]
      · rfl

theorem timeout?_close : (network.close id).timeout? other = network.timeout? other := by
  rw [close]
  split
  · exact timeout?_change (fun _ => rfl) fun _ => rfl
  · rfl

theorem isOpen_close : (network.close id).isOpen other = (decide (other ≠ id) && network.isOpen other) := by
  rw [isOpen_eq, isOpen_eq, socket?_close]
  cases network.socket? other with
  | none => simp
  | some socket => by_cases hsame : other = id <;> simp [hsame]

theorem close_close : (network.close id).close id = network.close id :=
  close_of_shut (by simp [isOpen_close])

end Asking

section Record

variable [Sockets τ] {network : SocketNetwork (Recorded τ)}

theorem read_made (network : SocketNetwork (Recorded τ)) (id room : Nat) :
    Recorded.Made [.read id room ((network.arm id).deadline id)] network.state
      (network.read id room).2.state :=
  ⟨rfl, rfl⟩

theorem write_made (network : SocketNetwork (Recorded τ)) (id : Nat) (bytes : Bytes) :
    Recorded.Made [.write id bytes ((network.arm id).deadline id)] network.state
      (network.write id bytes).2.state :=
  ⟨rfl, rfl⟩

theorem close_made (h : network.isOpen id = true) :
    Recorded.Made [.shutdown id, .close id] network.state (network.close id).state := by
  rw [close_state h]
  exact ⟨rfl, rfl⟩

end Record

section Dialing

variable {endpoint : Endpoint} {options : DialOptions}

/-- The lookup that a dial begins with; a path is not looked up. -/
def lookups (endpoint : Endpoint) (options : DialOptions) (began : Int64) : List Call :=
  match endpoint.family with
  | .unix => []
  | .tcp => [.lookup options.resolver endpoint.host endpoint.port (options.limit began)]

def lookUp [Sockets τ] (endpoint : Endpoint) (options : DialOptions) (state : τ) : Lookup × τ :=
  Sockets.lookup options.resolver endpoint.host endpoint.port (options.limit (Sockets.steady state)) state

/-- What a dial finds to connect to and the timeout for that, or why it finds nothing. A path stands for itself; a
host is looked up, and if the time for opening a stream is limited, the lookup has to leave some of it. -/
inductive Sought [Sockets τ] (endpoint : Endpoint) (options : DialOptions) (state : τ) :
    Except Fault (List Bytes × Int64) → τ → Prop where
  | path (family : endpoint.family = .unix) :
      Sought endpoint options state (.ok ([endpoint.path], options.connectTimeout)) state
  | late {found : Except Fault (List Bytes)} {next : τ} (family : endpoint.family = .tcp)
      (limited : 0 < options.connectTimeout) (lookup : lookUp endpoint options state = (⟨found, false⟩, next)) :
      Sought endpoint options state (.error .deadline) next
  | unknown {fault : Fault} {inTime : Bool} {next : τ} (family : endpoint.family = .tcp)
      (lookup : lookUp endpoint options state = (⟨.error fault, inTime⟩, next))
      (inTime : 0 < options.connectTimeout → inTime = true) : Sought endpoint options state (.error fault) next
  | spent {targets : List Bytes} {next : τ} (family : endpoint.family = .tcp)
      (limited : 0 < options.connectTimeout) (lookup : lookUp endpoint options state = (⟨.ok targets, true⟩, next))
      (spent : options.left (Sockets.steady state) (Sockets.steady next) ≤ 0) :
      Sought endpoint options state (.error .deadline) next
  | known {targets : List Bytes} {inTime : Bool} {next : τ} (family : endpoint.family = .tcp)
      (lookup : lookUp endpoint options state = (⟨.ok targets, inTime⟩, next))
      (inTime : 0 < options.connectTimeout →
        inTime = true ∧ 0 < options.left (Sockets.steady state) (Sockets.steady next)) :
      Sought endpoint options state (.ok (targets, options.left (Sockets.steady state) (Sockets.steady next))) next

/-- The connect to what was found, if anything was; if it fails, what it leaves open is closed. -/
def connects [Sockets τ] (id : Nat) (endpoint : Endpoint) (state : τ) :
    Except Fault (List Bytes × Int64) → List Call
  | .error _ => []
  | .ok (targets, timeout) =>
    let deadline := Deadline.ofTimeout timeout
    let reach := (Sockets.connect id endpoint.family targets deadline state).1
    .connect id endpoint.family targets deadline reach ::
      match reach with
      | .failed _ true => [.shutdown id, .close id]
      | _ => []

/-- The fault that stands in the way of a stream: that of the search, or else that of the connect. -/
def obstacle [Sockets τ] (id : Nat) (endpoint : Endpoint) (state : τ) :
    Except Fault (List Bytes × Int64) → Option Fault
  | .error fault => some fault
  | .ok (targets, timeout) =>
    match (Sockets.connect id endpoint.family targets (.ofTimeout timeout) state).1 with
    | .reached => none
    | .failed fault _ => some fault

/-- All that a dial can come to: a connected socket, or the fault that stood in its way. -/
inductive Dials [Sockets τ] (id : Nat) (endpoint : Endpoint) (options : DialOptions)
    (network : SocketNetwork τ) : Option Fault → SocketNetwork τ → Prop where
  | unfound {fault : Fault} {state : τ}
      (sought : Sought endpoint options network.state (.error fault) state) :
      Dials id endpoint options network (some fault) { network with state }
  | unreached {fault : Fault} {leftOpen : Bool} {state last : τ}
      (sought : Sought endpoint options network.state (.ok (targets, timeout)) state)
      (connect : Sockets.connect id endpoint.family targets (.ofTimeout timeout) state =
        (.failed fault leftOpen, last)) :
      Dials id endpoint options network (some fault)
        { network with state := if leftOpen then Sockets.close id (Sockets.shutdown id last) else last }
  | opened {state last : τ} (sought : Sought endpoint options network.state (.ok (targets, timeout)) state)
      (connect : Sockets.connect id endpoint.family targets (.ofTimeout timeout) state = (.reached, last)) :
      Dials id endpoint options network none
        ⟨last, ⟨id, options.ioTimeout, .ofTimeout timeout, true⟩ :: network.sockets⟩

variable [Sockets τ]

theorem Dials.refused_sockets {fault : Fault} (h : Dials id endpoint options network (some fault) after) :
    after.sockets = network.sockets := by
  cases h <;> rfl

theorem Dials.opened_isOpen (h : Dials id endpoint options network none after) (other : Nat) :
    after.isOpen other = (decide (id = other) || network.isOpen other) := by
  cases h
  by_cases hsame : id = other <;> simp [isOpen, socket?, hsame]

def report (endpoint : Endpoint) : Option Fault → Dialed
  | none => .opened
  | some fault => refused endpoint fault

theorem connect_dials {state : τ} (hs : Sought endpoint options network.state (.ok (targets, timeout)) state) :
    ∃ fault last, SocketNetwork.connect id endpoint targets timeout options.ioTimeout { network with state } =
      (report endpoint fault, last) ∧ Dials id endpoint options network fault last := by
  simp only [SocketNetwork.connect]
  generalize hc : Sockets.connect id endpoint.family targets (.ofTimeout timeout) state = outcome
  obtain ⟨_ | ⟨fault, leftOpen⟩, last⟩ := outcome
  · exact ⟨none, _, rfl, .opened hs hc⟩
  · refine ⟨some fault, _, rfl, ?_⟩
    have hd := Dials.unreached hs hc
    -- the socket that goes is the first of its number, whichever others there are
    cases leftOpen <;> simpa [close, isOpen, socket?, Reach.isOpen, change] using hd

theorem dial_dials (id : Nat) (endpoint : Endpoint) (options : DialOptions) (network : SocketNetwork τ) :
    ∃ fault last, network.dial id endpoint options = (report endpoint fault, last) ∧
      Dials id endpoint options network fault last := by
  have hlimit (began : Int64) : (options.limit began).isSome = decide (0 < options.connectTimeout) := by
    unfold DialOptions.limit
    split <;> simp [*]
  -- only a host is looked up, so that only a TCP dial can end before its connect
  cases hfamily : endpoint.family with
  | unix =>
    simp only [dial, hfamily]
    exact connect_dials (.path hfamily)
  | tcp =>
    simp only [dial, hfamily, hlimit]
    generalize hl : Sockets.lookup options.resolver endpoint.host endpoint.port
      (options.limit (Sockets.steady network.state)) network.state = outcome
    obtain ⟨⟨found, inTime⟩, state⟩ := outcome
    dsimp only
    split
    · rename_i hlate
      simp only [Bool.and_eq_true, decide_eq_true_eq, Bool.not_eq_true'] at hlate
      obtain ⟨hlimited, rfl⟩ := hlate
      exact ⟨some .deadline, _, rfl, .unfound (.late hfamily hlimited hl)⟩
    · rename_i hlate
      have htime : 0 < options.connectTimeout → inTime = true := by
        intro hlimited
        simpa [hlimited] using hlate
      cases found with
      | error fault => exact ⟨some fault, _, rfl, .unfound (.unknown hfamily hl htime)⟩
      | ok targets =>
        dsimp only
        split
        · rename_i hspent
          simp only [Bool.and_eq_true, decide_eq_true_eq] at hspent
          obtain ⟨hlimited, hspent⟩ := hspent
          rw [htime hlimited] at hl
          exact ⟨some .deadline, _, rfl, .unfound (.spent hfamily hlimited hl hspent)⟩
        · rename_i hleft
          apply connect_dials
          refine .known hfamily hl fun hlimited => ⟨htime hlimited, ?_⟩
          simpa [hlimited, Int64.not_le] using hleft

theorem Sought.made {state next : Recorded τ} {found : Except Fault (List Bytes × Int64)}
    (h : Sought endpoint options state found next) :
    Recorded.Made (lookups endpoint options (Sockets.steady state)) state next := by
  have hlookup {lookup : Lookup} (family : endpoint.family = .tcp)
      (hl : lookUp endpoint options state = (lookup, next)) :
      Recorded.Made (lookups endpoint options (Sockets.steady state)) state next := by
    obtain rfl : (lookUp endpoint options state).2 = next := congrArg Prod.snd hl
    rw [lookups, family]
    exact ⟨rfl, rfl⟩
  cases h with
  | path family =>
    rw [lookups, family]
    exact .refl state
  | late family _ lookup => exact hlookup family lookup
  | unknown family lookup => exact hlookup family lookup
  | spent family _ lookup => exact hlookup family lookup
  | known family lookup => exact hlookup family lookup

theorem connect_made {family : Endpoint.Family} {deadline : Deadline} {reach : Reach} {state last : Recorded τ}
    (h : Sockets.connect id family targets deadline state = (reach, last)) :
    Recorded.Made [.connect id family targets deadline reach] state last := by
  obtain rfl : (Sockets.connect id family targets deadline state).2 = last := congrArg Prod.snd h
  obtain rfl : (Sockets.connect id family targets deadline state).1 = reach := congrArg Prod.fst h
  exact ⟨rfl, rfl⟩

theorem Dials.made {network after : SocketNetwork (Recorded τ)} {fault : Option Fault}
    (h : Dials id endpoint options network fault after) :
    ∃ found state, Sought endpoint options network.state found state ∧ obstacle id endpoint state found = fault ∧
      Recorded.Made (lookups endpoint options (Sockets.steady network.state) ++ connects id endpoint state found)
        network.state after.state := by
  cases h with
  | unfound sought => exact ⟨_, _, sought, rfl, sought.made.trans (.refl _)⟩
  | @unreached _ _ _ leftOpen _ _ sought connect =>
    refine ⟨_, _, sought, by rw [obstacle, connect], sought.made.trans ?_⟩
    have hmade := connect_made connect
    rw [connects, congrArg Prod.fst connect]
    cases leftOpen with
    | false => exact hmade
    | true => exact @Recorded.Made.trans _ _ _ [.shutdown id, .close id] _ _ _ hmade ⟨rfl, rfl⟩
  | opened sought connect =>
    refine ⟨_, _, sought, by rw [obstacle, connect], sought.made.trans ?_⟩
    rw [connects, congrArg Prod.fst connect]
    exact connect_made connect

end Dialing

end SocketNetwork

namespace Wire

variable [Sockets τ]

/-- The wire before and after a dial: a stream is numbered if there is one. -/
inductive Opens (endpoint : Endpoint) (options : DialOptions) (wire : Wire (SocketNetwork τ)) :
    Answer (Option Nat) × Wire (SocketNetwork τ) → Prop where
  | opened {network : SocketNetwork τ}
      (dials : SocketNetwork.Dials wire.opened endpoint options wire.state none network) :
      Opens endpoint options wire (.ok (some wire.opened),
        ⟨network, .dialed endpoint options (some wire.opened) :: wire.journal, wire.opened + 1⟩)
  | refused {fault : Fault} {network : SocketNetwork τ}
      (dials : SocketNetwork.Dials wire.opened endpoint options wire.state (some fault) network) :
      Opens endpoint options wire (.error ⟨.connectionError,
          ascii "Connect to " ++ endpoint.text ++ ascii " failed: " ++
            if fault = .deadline then ascii "connect timed out" else fault.text, []⟩,
        ⟨network, .dialed endpoint options none :: wire.journal, wire.opened⟩)

theorem dial_opens (wire : Wire (SocketNetwork τ)) (endpoint : Endpoint) (options : DialOptions) :
    wire.Opens endpoint options (wire.dial endpoint options) := by
  obtain ⟨fault, network, hdial, hd⟩ := SocketNetwork.dial_dials wire.opened endpoint options wire.state
  have hnetwork : Network.dial wire.opened endpoint options wire.state =
      (SocketNetwork.report endpoint fault, network) := hdial
  rw [Wire.dial, hnetwork]
  cases fault with
  | none => exact .opened hd
  | some fault => exact .refused hd

end Wire

end CacheClient
