import CacheClient.Bytes

namespace CacheClient

inductive Endpoint.Family where
  | tcp
  | unix
  deriving DecidableEq, Repr

structure Endpoint where
  family : Endpoint.Family
  host : Bytes
  port : Bytes
  path : Bytes
  deriving DecidableEq

namespace Endpoint

def tcp (host port : Bytes) : Endpoint :=
  ⟨.tcp, host, port, []⟩

def unix (path : Bytes) : Endpoint :=
  ⟨.unix, [], [], path⟩

/-- Host names differ in the case of their letters only by spelling. -/
def normalize (endpoint : Endpoint) : Endpoint :=
  { endpoint with host := endpoint.host.map Bytes.lower }

/-- A path stands for itself; a host with a colon in it is put in brackets. -/
def text (endpoint : Endpoint) : Bytes :=
  match endpoint.family with
  | .unix => endpoint.path
  | .tcp =>
    if endpoint.host.contains 58 then ascii "[" ++ endpoint.host ++ ascii "]:" ++ endpoint.port
    else endpoint.host ++ ascii ":" ++ endpoint.port

end Endpoint

end CacheClient
