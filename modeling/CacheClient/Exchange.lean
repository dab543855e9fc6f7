import CacheClient.Connection
import CacheClient.Reply

namespace CacheClient.Link

variable [Network σ]

def ask (link : Link σ) : Answer Bytes × Link σ :=
  match link.flush with
  | (.error fault, link) => (.error fault.sending, link)
  | (.ok (), link) =>
    let (line, link) := link.readLine
    (line.mapError Fault.receiving, link)

def askFor (command : Command) (link : Link σ) : Answer Bytes × Link σ :=
  (link.update (·.write command.text)).ask

def store (verb : StoreVerb) (key : Bytes) (flags : UInt32) (expiry : Int64) (payload : Bytes)
    (link : Link σ) : Answer Unit × Link σ :=
  let (line, link) := link.askFor (.store verb key flags expiry payload)
  (line.bind (Reply.stored verb), link)

def delete (key : Bytes) (link : Link σ) : Answer Unit × Link σ :=
  let (line, link) := link.askFor (.delete key)
  (line.bind Reply.deleted, link)

def count (verb : CountVerb) (key : Bytes) (delta : UInt64) (link : Link σ) :
    Answer UInt64 × Link σ :=
  let (line, link) := link.askFor (.count verb key delta)
  (line.bind Reply.counted, link)

/-- Reads the value that a header announces, and the line after it. -/
def readItem (header : Reply.Header) (link : Link σ) : Answer Item × Link σ :=
  match link.readExact (header.length + 2) with
  | (.error fault, link) => (.error fault.receiving, link)
  | (.ok bytes, link) =>
    match Reply.block header.length bytes with
    | .error failure => (.error failure, link)
    | .ok value =>
      match link.readLine with
      | (.error fault, link) => (.error fault.receiving, link)
      | (.ok line, link) => ((Reply.trailer line).map fun _ => ⟨header.flags, value⟩, link)

def get (key : Bytes) (link : Link σ) : Answer Item × Link σ :=
  match link.askFor (.get key) with
  | (.error failure, link) => (.error failure, link)
  | (.ok line, link) =>
    match Reply.header key line with
    | .error failure => (.error failure, link)
    | .ok header => link.readItem header

end CacheClient.Link
