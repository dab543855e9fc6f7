import CacheClient.Sockets

namespace CacheClient

/-- A piece of what a stream brings; its fault comes with its last byte. -/
structure Piece where
  bytes : Bytes
  fault : Option Fault := none

/-- What a stream will bring, and how the writes to it will end. -/
structure Stream where
  reads : List Piece := []
  writes : List (Option Fault) := []

namespace Stream

/-- Part of the first piece, or all of it; behind the last piece the stream has ended. -/
def read (room : Nat) (stream : Stream) : Delivery room × Stream :=
  match stream.reads with
  | [] => (⟨[], some .endOfStream, Nat.zero_le room⟩, stream)
  | piece :: rest =>
    let left := piece.bytes.drop room
    if left.isEmpty then
      (⟨piece.bytes.take room, piece.fault, List.length_take_le room piece.bytes⟩,
        { stream with reads := rest })
    else
      (⟨piece.bytes.take room, none, List.length_take_le room piece.bytes⟩,
        { stream with reads := { piece with bytes := left } :: rest })

/-- Writes of which nothing is laid down succeed. -/
def write (stream : Stream) : Option Fault × Stream :=
  match stream.writes with
  | [] => (none, stream)
  | fault :: rest => (fault, { stream with writes := rest })

end Stream

inductive Opening where
  | stream
  | nothing
  | refused (failure : Failure)

structure Entry where
  stream : Stream := {}
  opening : Opening := .stream
  /-- What a lookup finds; host and port under one label if nothing is laid down. -/
  lookup : Except Fault (Option (List Bytes)) := .ok none
  connect : Option Fault := none

/-- Lays down in advance what each stream brings and how each write ends. It can stand for the whole network
or for its sockets. -/
structure Script where
  entries : List Entry := []
  fallback : Entry := {}
  stuck : Bool := false
  time : Int64 := 0
  steady : Int64 := 0
  looked : Entry := {}
  streams : List (Nat × Stream) := []

namespace Script

def next (script : Script) : Entry × Script :=
  match script.entries with
  | [] => (script.fallback, script)
  | entry :: entries => (entry, { script with entries })

def stream (id : Nat) (script : Script) : Stream :=
  (script.streams.lookup id).getD {}

def setStream (id : Nat) (stream : Stream) (script : Script) : Script :=
  { script with streams := (id, stream) :: script.streams.filter (·.1 ≠ id) }

def dial (id : Nat) (script : Script) : Dialed × Script :=
  let (entry, script) := script.next
  match entry.opening with
  | .stream => (.opened, script.setStream id entry.stream)
  | .nothing => (.nothing, script)
  | .refused failure => (.refused failure, script)

def read (id room : Nat) (script : Script) : Delivery room × Script :=
  let (delivery, stream) := (script.stream id).read room
  (delivery, script.setStream id stream)

def write (id : Nat) (script : Script) : Option Fault × Script :=
  let (fault, stream) := (script.stream id).write
  (fault, script.setStream id stream)

/-- Finds host and port under the label `host/port`, if nothing else is laid down. This takes a nanosecond. -/
def lookup (host port : Bytes) (limit : Option Int64) (script : Script) : Lookup × Script :=
  let (entry, script) := script.next
  let found := entry.lookup.map (Option.getD · [host ++ ascii "/" ++ port])
  let steady := script.steady + 1
  let late := limit.any fun limit => limit < steady
  (⟨found, !script.stuck && !late⟩, { script with looked := entry, steady })

/-- A TCP connect goes with the lookup before it; a Unix one stands alone. Nothing is left open by one that
fails. -/
def connect (id : Nat) (family : Endpoint.Family) (script : Script) : Reach × Script :=
  let (entry, script) :=
    match family with
    | .tcp => (script.looked, script)
    | .unix => script.next
  match entry.connect with
  | some fault => (.failed fault false, script)
  | none => (.reached, script.setStream id entry.stream)

instance : Network Script where
  dial id _ _ := dial id
  read := read
  write id _ := write id
  close _ script := script
  abandon _ script := script
  now := time

instance : Sockets Script where
  lookup _ := lookup
  connect id family _ _ := connect id family
  read id room _ := read id room
  write id _ _ := write id
  shutdown _ script := script
  close _ script := script
  now := time
  steady := steady

end Script

end CacheClient
