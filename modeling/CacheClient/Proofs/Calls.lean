import CacheClient.Client
import CacheClient.Proofs.Engine

namespace CacheClient

/-- The calls for a single key, by the type of what they yield. -/
inductive Client.Call : Type → Type 1 where
  | store [Encode α] (verb : StoreVerb) (key : Bytes) (value : α) (options : StoreOptions) : Call Unit
  | getItem (key : Bytes) : Call Item
  | get [Decode α] (key : Bytes) : Call α
  | delete (key : Bytes) : Call Unit
  | count (verb : CountVerb) (key : Bytes) (delta : Integer type) : Call (Integer type)

/-- A command to be exchanged, and what is made of its answer. -/
structure Request (β : Type) where
  command : Command
  finish : Answer command.Value → Answer β

structure Running (σ : Type) where
  client : Client
  wire : Wire σ

namespace Running

def engine (running : Running σ) : Engine σ :=
  ⟨running.client.router, running.wire⟩

def resume (engine : Engine σ) (running : Running σ) : Running σ :=
  ⟨{ running.client with router := engine.router }, engine.wire⟩

end Running

/-- What a permitted call asks for. -/
def Client.Call.request [Network σ] : {β : Type} → Client.Call β → Running σ → Answer (Request β)
  | _, @Client.Call.store _ _ verb key value options, running =>
    (running.client.prepare key (encode value) options running.wire).map fun (payload, expiry) =>
      ⟨.store verb key options.flags expiry payload, fun answer => answer⟩
  | _, .getItem key, running =>
    (running.client.permit key).map fun _ => ⟨.get key, fun answer => answer⟩
  | _, @Client.Call.get _ _ key, running =>
    (running.client.permit key).map fun _ =>
      ⟨.get key, fun answer => answer.bind fun item => decode item.value⟩
  | _, .delete key, running =>
    (running.client.permit key).map fun _ => ⟨.delete key, fun answer => answer⟩
  | _, @Client.Call.count type verb key delta, running =>
    if delta.val < 0 then .error Client.negativeDelta
    else
      (running.client.permit key).map fun _ =>
        ⟨.count verb key (UInt64.ofNat delta.val.toNat), fun answer => answer.bind (Client.fit type)⟩

theorem Client.permit_ok {client : Client} (hp : client.permit key = .ok ()) :
    client.closed = false ∧ Key.isValid key = true := by
  unfold permit Key.check at hp
  split at hp
  · cases hp
  · split at hp
    · exact ⟨by simp_all, by assumption⟩
    · cases hp

theorem Answer.map_ok {answer : Answer α} {f : α → β} (h : answer.map f = .ok y) :
    ∃ x, answer = .ok x ∧ f x = y := by
  cases answer with
  | error failure => cases h
  | ok x => exact ⟨x, rfl, Except.ok.inj h⟩

theorem Client.prepare_ok [Network σ] {client : Client} {wire : Wire σ} {options : StoreOptions}
    (hp : client.prepare key payload options wire = .ok (bytes, expiry)) :
    client.permit key = .ok () ∧ payload = .ok bytes ∧
      Expiry.seconds (options.ttl.getD client.settings.defaultTtl) (client.clock.read wire) =
        .ok expiry := by
  simp only [prepare, bind, Except.bind, pure, Except.pure] at hp
  split at hp
  · cases hp
  · rename_i hpermit
    split at hp
    · cases hp
    · split at hp
      · cases hp
      · rename_i hexpiry
        cases hp
        exact ⟨hpermit, rfl, hexpiry⟩

/-- Nothing is asked for that the client does not permit. -/
theorem Client.Call.request_permitted [Network σ] {call : Client.Call β} {running : Running σ}
    {request : Request β} (hq : call.request running = .ok request) :
    running.client.permit request.command.key = .ok () := by
  cases call with
  | store verb key value options =>
    obtain ⟨⟨payload, expiry⟩, hp, rfl⟩ := Answer.map_ok hq
    exact (prepare_ok hp).1
  | getItem key | get key | delete key =>
    obtain ⟨_, hp, rfl⟩ := Answer.map_ok hq
    exact hp
  | count verb key delta =>
    simp only [Client.Call.request] at hq
    split at hq
    · cases hq
    · obtain ⟨_, hp, rfl⟩ := Answer.map_ok hq
      exact hp

namespace Running

variable [Network σ]

def perform : {β : Type} → Client.Call β → Running σ → Answer β × Running σ
  | _, @Client.Call.store _ _ verb key value options, running =>
    let (answer, client, wire) := running.client.store verb key value options running.wire
    (answer, ⟨client, wire⟩)
  | _, .getItem key, running =>
    let (answer, client, wire) := running.client.getItem key running.wire
    (answer, ⟨client, wire⟩)
  | _, @Client.Call.get _ _ key, running =>
    let (answer, client, wire) := running.client.get key running.wire
    (answer, ⟨client, wire⟩)
  | _, .delete key, running =>
    let (answer, client, wire) := running.client.delete key running.wire
    (answer, ⟨client, wire⟩)
  | _, .count verb key delta, running =>
    let (answer, client, wire) := running.client.count verb key delta running.wire
    (answer, ⟨client, wire⟩)

theorem perform_eq (call : Client.Call β) (running : Running σ) : running.perform call =
    match call.request running with
    | .error failure => (.error failure, running)
    | .ok request =>
      (request.finish (running.engine.exchange request.command).1,
        running.resume (running.engine.exchange request.command).2) := by
  obtain ⟨client, wire⟩ := running
  cases call with
  | store verb key value options =>
    simp only [perform, Client.store, Client.Call.request]
    cases client.prepare key (encode value) options wire <;> rfl
  | getItem key =>
    simp only [perform, Client.getItem, Client.Call.request]
    cases client.permit key <;> rfl
  | get key =>
    simp only [perform, Client.get, Client.getItem, Client.Call.request]
    cases client.permit key <;> rfl
  | delete key =>
    simp only [perform, Client.delete, Client.Call.request]
    cases client.permit key <;> rfl
  | count verb key delta =>
    simp only [perform, Client.count, Client.Call.request]
    split
    · rfl
    · cases client.permit key <;> rfl

end Running

/-- What a client does at one time. -/
inductive Step : Type 1 where
  | call (call : Client.Call β)
  | setDefaultTtl (ttl : Int64)
  | setClock (clock : Option Clock)
  | close

/-- All that can be asked of a client. -/
inductive Verb : Type 1 where
  | single (step : Step)
  | storeMulti [Encode α] (verb : StoreVerb) (items : List (Bytes × α)) (options : StoreOptions)
  | getMulti (α : Type) [Decode α] (keys : List Bytes)

/-- The single steps of a verb. -/
def Verb.steps : Verb → List Step
  | .single step => [step]
  | @Verb.storeMulti _ _ verb items options =>
    items.map fun (key, value) => .call (.store verb key value options)
  | @Verb.getMulti α _ keys => keys.map fun key => .call (Client.Call.get key : Client.Call α)

namespace Running

variable [Network σ]

def step : Step → Running σ → Running σ
  | .call call, running => (running.perform call).2
  | .setDefaultTtl ttl, ⟨client, wire⟩ => ⟨(client.setDefaultTtl ttl wire).2, wire⟩
  | .setClock clock, ⟨client, wire⟩ => ⟨client.setClock clock, wire⟩
  | .close, ⟨client, wire⟩ =>
    let (_, client, wire) := client.close wire
    ⟨client, wire⟩

def steps (steps : List Step) (running : Running σ) : Running σ :=
  steps.foldl (fun running step => running.step step) running

def verb : Verb → Running σ → Running σ
  | .single one, running => running.step one
  | @Verb.storeMulti _ _ verb items options, ⟨client, wire⟩ =>
    let (_, client, wire) := client.storeMulti verb items options wire
    ⟨client, wire⟩
  | @Verb.getMulti α _ keys, ⟨client, wire⟩ =>
    let result : List (Answer α) × Client × Wire σ := client.getMulti keys wire
    ⟨result.2.1, result.2.2⟩

def verbs (verbs : List Verb) (running : Running σ) : Running σ :=
  verbs.foldl (fun running verb => running.verb verb) running

theorem storeEach_steps [Encode α] (verb : StoreVerb) (options : StoreOptions)
    (items : List (Bytes × α)) (client : Client) (wire : Wire σ) :
    steps (Verb.storeMulti verb items options).steps ⟨client, wire⟩ =
      Running.verb (.storeMulti verb items options) ⟨client, wire⟩ := by
  induction items generalizing client wire with
  | nil => rfl
  | cons item items ih => exact ih _ _

theorem getMulti_steps [Decode α] (keys : List Bytes) (client : Client) (wire : Wire σ) :
    steps (Verb.getMulti α keys).steps ⟨client, wire⟩ =
      verb (.getMulti α keys) ⟨client, wire⟩ := by
  induction keys generalizing client wire with
  | nil => rfl
  | cons key keys ih => exact ih _ _

theorem verb_eq (verb : Verb) (running : Running σ) : running.verb verb = running.steps verb.steps := by
  obtain ⟨client, wire⟩ := running
  cases verb with
  | single => rfl
  | storeMulti verb items options => exact (storeEach_steps verb options items client wire).symm
  | getMulti α keys => exact (getMulti_steps keys client wire).symm

theorem steps_append (first rest : List Step) (running : Running σ) :
    running.steps (first ++ rest) = (running.steps first).steps rest :=
  List.foldl_append

theorem verbs_eq (verbs : List Verb) (running : Running σ) :
    running.verbs verbs = running.steps (verbs.flatMap Verb.steps) := by
  induction verbs generalizing running with
  | nil => rfl
  | cons verb verbs ih =>
    rw [List.flatMap_cons, steps_append, ← verb_eq]
    exact ih _

end Running

/-- What a step asks of the engine. -/
def Step.moves [Network σ] : Step → Running σ → List Move
  | .call asked, running =>
    match asked.request running with
    | .error _ => []
    | .ok request => [.exchange request.command]
  | .close, running => if running.client.closed then [] else [.close]
  | _, _ => []

namespace Running

variable [Network σ]

def moves : List Step → Running σ → List Move
  | [], _ => []
  | step :: steps, running => step.moves running ++ moves steps (running.step step)

theorem step_engine (step : Step) (running : Running σ) :
    (running.step step).engine = running.engine.moves (step.moves running) := by
  cases step with
  | call call =>
    simp only [Running.step, perform_eq, Step.moves]
    cases call.request running <;> rfl
  | setDefaultTtl ttl =>
    simp only [Running.step, Client.setDefaultTtl]
    split <;> rfl
  | setClock clock => rfl
  | close =>
    simp only [Running.step, Client.close, Step.moves]
    split <;> rfl

theorem steps_engine (steps : List Step) (running : Running σ) :
    (running.steps steps).engine = running.engine.moves (running.moves steps) := by
  induction steps generalizing running with
  | nil => rfl
  | cons step steps ih =>
    simp only [moves, Engine.moves_append, ← step_engine]
    exact ih _

end Running

end CacheClient
