import CacheClient.Wire

namespace CacheClient

/-- A stream with what was read ahead from it and what waits to be written to it. What comes too much for one
read stays for the next. -/
structure Connection where
  /-- The number of the stream; none once it is closed. -/
  stream : Option Nat
  /-- Read from the stream, but not yet consumed. -/
  unread : Bytes
  /-- Waiting to be written. -/
  unsent : Bytes
  healthy : Bool

namespace Connection

def longestLine : Nat := 65536

def largestBlock : Nat := 2097152

def readSize : Nat := 4096

def fresh (stream : Option Nat) : Connection :=
  ⟨stream, [], [], true⟩

def isOpen (connection : Connection) : Bool :=
  connection.stream.isSome

/-- Health that is lost never comes back. -/
def record (ok : Bool) (connection : Connection) : Connection :=
  { connection with healthy := connection.healthy && ok }

def write (bytes : Bytes) (connection : Connection) : Connection :=
  { connection with unsent := connection.unsent ++ bytes }

def receive (bytes : Bytes) (connection : Connection) : Connection :=
  { connection with unread := connection.unread ++ bytes }

def consume (n : Nat) (connection : Connection) : Connection :=
  { connection with unread := connection.unread.drop n }

end Connection

/-- A connection, and the wire that its stream runs over. -/
structure Link (σ : Type) where
  connection : Connection
  wire : Wire σ

namespace Link

open Connection

def update (change : Connection → Connection) (link : Link σ) : Link σ :=
  { link with connection := change link.connection }

variable [Network σ]

/-- Writes all that waits in one piece; it does not wait any longer, even if the write fails. -/
def flush (link : Link σ) : Except Fault Unit × Link σ :=
  match link.connection.stream with
  | none => (.error .notConnected, link)
  | some id =>
    if link.connection.unsent.isEmpty then (.ok (), link)
    else
      let (fault, wire) := link.wire.write id link.connection.unsent
      (match fault with | none => .ok () | some fault => .error fault,
        ⟨{ link.connection with unsent := [] }, wire⟩)

/-- One read from the stream: what it brought, and the fault if there is one. A read that brings
nothing is the end of the stream. -/
def pull (link : Link σ) : Bytes × Option Fault × Link σ :=
  match link.connection.stream with
  | none => ([], some .notConnected, link)
  | some id =>
    let (delivery, wire) := link.wire.read id readSize
    let fault :=
      match delivery.fault with
      | some fault => some fault
      | none => if delivery.bytes.isEmpty then some .endOfStream else none
    (delivery.bytes, fault, { link with wire })

/-- Reads until `missing` bytes have come or a fault ends it. Every read without a fault brings a
byte, so that an allowance of `missing` reads suffices. -/
def gather : (allowance missing : Nat) → Link σ → Bytes × Option Fault × Link σ
  | 0, _, link => ([], none, link)
  | allowance + 1, missing, link =>
    if missing = 0 then ([], none, link)
    else
      match link.pull with
      | (bytes, some fault, link) => (bytes, some fault, link)
      | (bytes, none, link) =>
        let (more, fault, link) := gather allowance (missing - bytes.length) link
        (bytes ++ more, fault, link)

/-- Reads until a line end is among the unread bytes, and tells its offset. The first `scanned` bytes
hold none, save that the last of them may be half of one. -/
def awaitLine : (allowance scanned : Nat) → Link σ → Except Fault Nat × Link σ
  | allowance, scanned, link =>
    match Bytes.lineEndAfter (scanned - 1) link.connection.unread with
    | some offset => (.ok offset, link)
    | none =>
      match allowance with
      | 0 => (.error .messageSize, link)
      | allowance + 1 =>
        if longestLine < link.connection.unread.length then (.error .messageSize, link)
        else
          match link.pull with
          | (bytes, some fault, next) => (.error fault, next.update (receive bytes))
          | (bytes, none, next) =>
            awaitLine allowance link.connection.unread.length (next.update (receive bytes))

/-- Reads the next line, less its end, into a text of the caller's. A line that grows beyond the limit without
an end is given up. -/
def readLineInto (text : Bytes) (link : Link σ) : Option Fault × Bytes × Link σ :=
  match link.awaitLine (longestLine + 1 - link.connection.unread.length) 0 with
  | (.error fault, link) => (some fault, text, link)
  | (.ok offset, link) =>
    (none, link.connection.unread.take offset, link.update (consume (offset + 2)))

/-- Reads the next `n` bytes into a text of the caller's. -/
def readExactInto (n : Nat) (text : Bytes) (link : Link σ) : Option Fault × Bytes × Link σ :=
  if largestBlock < n then (some .messageSize, text, link)
  else
    let missing := n - link.connection.unread.length
    let (bytes, fault, link) := link.gather missing missing
    let link := link.update (receive bytes)
    match fault with
    | some fault => (some fault, text, link)
    | none => (none, link.connection.unread.take n, link.update (consume n))

/-- The text that has been read, if there is no fault. -/
def textRead : Option Fault × Bytes × Link σ → Except Fault Bytes × Link σ
  | (none, text, link) => (.ok text, link)
  | (some fault, _, link) => (.error fault, link)

def readLine (link : Link σ) : Except Fault Bytes × Link σ :=
  textRead (link.readLineInto [])

def readExact (n : Nat) (link : Link σ) : Except Fault Bytes × Link σ :=
  textRead (link.readExactInto n [])

/-- Closes the stream, if it is open, and drops what was buffered. -/
def close (link : Link σ) : Link σ where
  connection := { link.connection with stream := none, unread := [], unsent := [] }
  wire :=
    match link.connection.stream with
    | none => link.wire
    | some id => link.wire.close id

end Link

end CacheClient
