import CacheClient.Client.Settings
import CacheClient.Exchange
import CacheClient.Payload.Integer
import CacheClient.Router

namespace CacheClient

/-- Every call of a client is checked before anything is sent, sends at most one command, and never sends it
twice. -/
structure Client where
  settings : Settings
  clock : Clock
  router : Router
  closed : Bool

structure StoreOptions where
  flags : UInt32 := 0
  /-- How long the item lives, in nanoseconds; the client's default if not said. -/
  ttl : Option Int64 := none

namespace Client

def negativeDelta : Failure :=
  ⟨.negativeDelta, ascii "delta must not be negative", []⟩

/-- The counter's value, if the type has it. -/
def fit (type : IntType) (n : UInt64) : Answer (Integer type) :=
  match Integer.ofInt? type n.toNat with
  | some value => .ok value
  | none =>
    .error ⟨.decodeFailed,
      ascii "counter value " ++ Decimal.print n.toNat ++ ascii " does not fit the requested type", []⟩

def config (client : Client) : Settings :=
  { client.settings with clock := some client.clock }

/-- The client must be open and the key valid. -/
def permit (key : Bytes) (client : Client) : Answer Unit :=
  if client.closed then .error .closed else Key.check key

/-- A clock that is not there changes nothing. -/
def setClock (clock : Option Clock) (client : Client) : Client :=
  { client with clock := clock.getD client.clock }

variable [Network σ]

/-- A client for the settings, unless they are refused. -/
def create (settings : Settings) (wire : Wire σ) : Except Settings.Refusal Client :=
  if settings.idle < 0 then .error .negativeIdle
  else if settings.dialTimeout < 0 ∨ settings.ioTimeout < 0 then .error .negativeTimeout
  else
    match settings.clock with
    | none => .error .noClock
    | some clock =>
      if !settings.canDial then .error .noDialer
      else
        match Expiry.seconds settings.defaultTtl (clock.read wire) with
        | .error failure => .error (.invalidTtl failure)
        | .ok _ =>
          match Router.create settings.servers settings.dialOptions settings.idle with
          | .error failure => .error (.invalidServers failure)
          | .ok router => .ok ⟨settings, clock, router, false⟩

def setDefaultTtl (ttl : Int64) (client : Client) (wire : Wire σ) : Answer Unit × Client :=
  match Expiry.seconds ttl (client.clock.read wire) with
  | .error failure => (.error failure, client)
  | .ok _ => (.ok (), { client with settings := { client.settings with defaultTtl := ttl } })

/-- Runs an exchange on a connection to the server that owns the key. -/
def run (key : Bytes) (exchange : Link σ → Answer α × Link σ) (client : Client) (wire : Wire σ) :
    Answer α × Client × Wire σ :=
  let (answer, router, wire) := client.router.run key exchange wire
  (answer, { client with router }, wire)

/-- What a store command is to carry, if the call is permitted: payload and expiry. -/
def prepare (key : Bytes) (payload : Answer Bytes) (options : StoreOptions) (client : Client)
    (wire : Wire σ) : Answer (Bytes × Int64) := do
  client.permit key
  let payload ← payload
  let ttl := options.ttl.getD client.settings.defaultTtl
  let expiry ← Expiry.seconds ttl (client.clock.read wire)
  pure (payload, expiry)

def store [Encode α] (verb : StoreVerb) (key : Bytes) (value : α) (options : StoreOptions)
    (client : Client) (wire : Wire σ) : Answer Unit × Client × Wire σ :=
  match client.prepare key (encode value) options wire with
  | .error failure => (.error failure, client, wire)
  | .ok (payload, expiry) =>
    client.run key (·.store verb key options.flags expiry payload) wire

/-- Stores each item, going on after failures, which it lists. -/
def storeEach [Encode α] (verb : StoreVerb) (options : StoreOptions) :
    List (Bytes × α) → Client → Wire σ → List Failure × Client × Wire σ
  | [], client, wire => ([], client, wire)
  | (key, value) :: items, client, wire =>
    let (answer, client, wire) := client.store verb key value options wire
    let (failures, client, wire) := storeEach verb options items client wire
    (answer.failure?.toList ++ failures, client, wire)

def storeMulti [Encode α] (verb : StoreVerb) (items : List (Bytes × α)) (options : StoreOptions)
    (client : Client) (wire : Wire σ) : Answer Unit × Client × Wire σ :=
  let (failures, client, wire) := storeEach verb options items client wire
  (if failures.isEmpty then .ok () else .error (Failure.join failures), client, wire)

def getItem (key : Bytes) (client : Client) (wire : Wire σ) : Answer Item × Client × Wire σ :=
  match client.permit key with
  | .error failure => (.error failure, client, wire)
  | .ok () => client.run key (·.get key) wire

def get [Decode α] (key : Bytes) (client : Client) (wire : Wire σ) : Answer α × Client × Wire σ :=
  let (item, client, wire) := client.getItem key wire
  (item.bind fun item => decode item.value, client, wire)

def getMulti [Decode α] : List Bytes → Client → Wire σ → List (Answer α) × Client × Wire σ
  | [], client, wire => ([], client, wire)
  | key :: keys, client, wire =>
    let (answer, client, wire) := client.get key wire
    let (answers, client, wire) := getMulti keys client wire
    (answer :: answers, client, wire)

def delete (key : Bytes) (client : Client) (wire : Wire σ) : Answer Unit × Client × Wire σ :=
  match client.permit key with
  | .error failure => (.error failure, client, wire)
  | .ok () => client.run key (·.delete key) wire

/-- Counts up or down by an amount that is not negative; answers the new value. -/
def count (verb : CountVerb) (key : Bytes) (delta : Integer type) (client : Client)
    (wire : Wire σ) : Answer (Integer type) × Client × Wire σ :=
  if delta.val < 0 then (.error negativeDelta, client, wire)
  else
    match client.permit key with
    | .error failure => (.error failure, client, wire)
    | .ok () =>
      let (answer, client, wire) :=
        client.run key (·.count verb key (UInt64.ofNat delta.val.toNat)) wire
      (answer.bind (fit type), client, wire)

/-- Closes every pool. A closed client stays closed. -/
def close (client : Client) (wire : Wire σ) : Answer Unit × Client × Wire σ :=
  if client.closed then (.error .closed, client, wire)
  else
    let (router, wire) := client.router.closeAll wire
    (.ok (), { client with router, closed := true }, wire)

end Client

end CacheClient
