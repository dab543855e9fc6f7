import CacheClient.Decimal
import CacheClient.Endpoint
import CacheClient.Failure

namespace CacheClient.Endpoint

inductive AddressFault where
  | empty
  | unterminated
  | textAfterBracket
  | unbracketed
  | missingHost
  | invalidPort
  deriving DecidableEq, Repr

def AddressFault.text : AddressFault → Bytes
  | empty => ascii "empty server address"
  | unterminated => ascii "unterminated IPv6 literal"
  | textAfterBracket => ascii "unexpected text after IPv6 literal"
  | unbracketed => ascii "IPv6 addresses must be bracketed"
  | missingHost => ascii "server address missing host"
  | invalidPort => ascii "server address has an invalid port"

/-- The fault, then the address in quotes. -/
def AddressFault.failure (fault : AddressFault) (address : Bytes) : Failure :=
  ⟨.invalidAddress, fault.text ++ ascii ": \"" ++ address ++ ascii "\"", []⟩

def defaultPort : Bytes := ascii "11211"

/-- A port is written in digits and stands for a number from 1 to 65535. -/
def validPort (port : Bytes) : Bool :=
  match Decimal.readBelow? 65536 port with
  | none => false
  | some n => 0 < n.val

/-- The host and the port that the text names, neither of them checked. -/
def hostAndPort (address : Bytes) : Except AddressFault (Bytes × Bytes) :=
  match address with
  | 91 :: bracketed =>
    match Bytes.cut? 93 bracketed with
    | none => .error .unterminated
    | some (host, []) => .ok (host, defaultPort)
    | some (host, 58 :: port) => .ok (host, port)
    | some (_, _ :: _) => .error .textAfterBracket
  | _ =>
    match Bytes.cut? 58 address with
    | none => .ok (address, defaultPort)
    | some (host, port) => if port.contains 58 then .error .unbracketed else .ok (host, port)

/-- The endpoint that the text names, or what is wrong with it. -/
def read (address : Bytes) : Except AddressFault Endpoint :=
  match address with
  | [] => .error .empty
  | 47 :: _ => .ok (unix address)
  | _ =>
    match hostAndPort address with
    | .error fault => .error fault
    | .ok (host, port) =>
      if host.isEmpty then .error .missingHost
      else if validPort port then .ok (tcp host port).normalize
      else .error .invalidPort

def parse (address : Bytes) : Answer Endpoint :=
  match read address with
  | .ok endpoint => .ok endpoint
  | .error fault => .error (fault.failure address)

end CacheClient.Endpoint
