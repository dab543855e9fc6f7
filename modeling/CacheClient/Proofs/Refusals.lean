import CacheClient.Proofs.OneMap
import CacheClient.Proofs.Transcripts

namespace CacheClient

/-- One to 250 bytes, none of them a blank. -/
def Key.Valid (key : Bytes) : Prop :=
  1 ≤ key.length ∧ key.length ≤ 250 ∧ ∀ c ∈ key, c ∉ [9, 10, 11, 12, 13, 32]

instance (key : Bytes) : Decidable (Key.Valid key) :=
  inferInstanceAs (Decidable (_ ∧ _ ∧ _))

/-- No time to live at all, or at least one second. -/
def Expiry.Allowed (ttl : Int64) : Prop :=
  ttl = 0 ∨ second ≤ ttl

instance (ttl : Int64) : Decidable (Expiry.Allowed ttl) :=
  inferInstanceAs (Decidable (_ ∨ _))

def Failure.unless (condition : Prop) [Decidable condition] (failure : Failure) : Option Failure :=
  if condition then none else some failure

namespace Client

/-- The checks that every call makes of the client and the key: for each that fails, its failure. -/
def admission (key : Bytes) (client : Client) : List (Option Failure) :=
  [Failure.closed.unless (client.closed = false), Key.refused.unless (Key.Valid key)]

/-- All checks of a call, in their order. -/
def Call.checks (client : Client) : {β : Type} → Call β → List (Option Failure)
  | _, @Call.store _ _ _ key value options =>
    client.admission key ++ [(encode value).failure?,
      Expiry.refused.unless (Expiry.Allowed (options.ttl.getD client.settings.defaultTtl))]
  | _, .getItem key => client.admission key
  | _, @Call.get _ _ key => client.admission key
  | _, .delete key => client.admission key
  | _, .count _ key delta => negativeDelta.unless (0 ≤ delta.val) :: client.admission key

def Call.refusal? (client : Client) (call : Call β) : Option Failure :=
  (call.checks client).findSome? id

end Client

theorem Key.isValid_iff {key : Bytes} : isValid key = true ↔ Valid key := by
  have hblank (c : UInt8) : Bytes.isBlank c = true ↔ c ∈ [9, 10, 11, 12, 13, 32] := by
    simp only [Bytes.isBlank, Bool.or_eq_true, Bool.and_eq_true, decide_eq_true_eq, List.mem_cons,
      List.not_mem_nil, or_false, ← UInt8.toNat_inj, UInt8.le_iff_toNat_le]
    simp
    omega
  rw [isValid, Bool.and_eq_true, Bool.and_eq_true, decide_eq_true_eq, List.all_eq_true, and_assoc]
  refine and_congr ?_ (and_congr Iff.rfl (forall₂_congr fun c _ => ?_))
  · cases key <;> simp
  · rw [Bool.not_eq_true', ← Bool.not_eq_true, hblank]

theorem Answer.map_failure (answer : Answer α) (f : α → β) :
    Answer.failure? (answer.map f) = answer.failure? := by
  cases answer <;> rfl

theorem Answer.eq_of_failure {answer : Answer α} {failure : Failure}
    (h : answer.failure? = some failure) : answer = .error failure := by
  cases answer with
  | error cause => rw [Option.some.inj h]
  | ok value => cases h

theorem Expiry.seconds_failure (ttl now : Int64) :
    (seconds ttl now).failure? = refused.unless (Allowed ttl) := by
  by_cases ha : Allowed ttl
  · obtain ⟨expiry, hs⟩ := seconds_ok ha now
    rw [hs, Failure.unless, if_pos ha]
    rfl
  · obtain ⟨hne, hlt⟩ := not_or.mp ha
    rw [seconds_refused hne (Int64.not_le.mp hlt), Failure.unless, if_neg ha]
    rfl

namespace Client

variable {client : Client}

theorem permit_failure (key : Bytes) :
    (client.permit key).failure? = (client.admission key).findSome? id := by
  simp only [permit, admission, Key.check, Failure.unless, Key.isValid_iff]
  cases client.closed <;> by_cases hk : Key.Valid key <;> simp [hk, Answer.failure?]

variable [Network σ]

theorem prepare_failure (key : Bytes) (payload : Answer Bytes) (options : StoreOptions) (wire : Wire σ) :
    (client.prepare key payload options wire).failure? =
      (client.admission key ++ [payload.failure?,
        Expiry.refused.unless
          (Expiry.Allowed (options.ttl.getD client.settings.defaultTtl))]).findSome? id := by
  rw [List.findSome?_append, ← permit_failure,
    ← Expiry.seconds_failure _ (client.clock.read wire)]
  simp only [prepare, bind, Except.bind, pure, Except.pure]
  cases client.permit key with
  | error failure => rfl
  | ok _ =>
    cases payload with
    | error failure => rfl
    | ok bytes => cases Expiry.seconds _ (client.clock.read wire) <;> rfl

/-- A call asks for nothing exactly if a check fails, and then it is the first that fails. -/
theorem Call.request_failure (call : Call β) (running : Running σ) :
    (call.request running).failure? = call.refusal? running.client := by
  cases call with
  | store verb key value options =>
    rw [request, Answer.map_failure, prepare_failure]
    rfl
  | getItem key | get key | delete key =>
    rw [request, Answer.map_failure, permit_failure]
    rfl
  | count verb key delta =>
    simp only [request, refusal?, checks, Failure.unless]
    by_cases hneg : delta.val < 0
    · rw [if_pos hneg, if_neg (Int.not_le.mpr hneg)]
      rfl
    · rw [if_neg hneg, if_pos (Int.not_lt.mp hneg), Answer.map_failure, permit_failure]
      rfl

end Client

namespace Pool

variable [Network σ] {pool changed : Pool} {wire next : Wire σ} {command : Command}

/-- Why an exchange fails: the pool is closed, no connection can be opened, the exchange breaks off, or
such a reply was to be expected. -/
theorem Ran.failure_kind {failure : Failure} (h : Ran command pool wire (.error failure) changed next)
    (hp : pool.Sound) : (pool.isClosed = true ∧ failure = .closed) ∨ failure.kind = .connectionError ∨
      failure.kind.breaksOff ∨ failure.kind.isOutcome = true := by
  -- the answer has to be a variable for the cases on what has happened
  generalize ha : Except.error failure = answer at h
  cases h with
  | closed hc =>
    cases ha
    exact .inl ⟨by rw [isClosed, hc]; rfl, rfl⟩
  | refused =>
    cases ha
    refine .inr (.inl ?_)
    rw [dialFailure]
    split
    · assumption
    · rfl
  | hollow =>
    cases ha
    exact .inr (.inr (.inl (Fault.sending_breaksOff _)))
  | kept _ _ hfit =>
    subst ha
    exact .inr (.inr (.inr hfit))
  | dropped hlend he =>
    subst ha
    rcases (hlend.exchanged hp he).fit_or_broken with hfit | ⟨_, ha, hb⟩
    · exact .inr (.inr (.inr hfit))
    · cases ha
      exact .inr (.inr (.inl hb))

end Pool

namespace Engine

variable [Network σ] {engine : Engine σ} {command : Command}

theorem exchange_failure_kind {failure : Failure} (he : engine.Sound)
    (hf : (engine.exchange command).1 = .error failure) :
    ((engine.router.owner command.key).isClosed = true ∧ failure = .closed) ∨
      failure.kind = .connectionError ∨ failure.kind.breaksOff ∨ failure.kind.isOutcome = true := by
  obtain ⟨pool, next, hr, -⟩ := exchange_ran command he
  rw [hf] at hr
  exact hr.failure_kind (he _ (engine.router.owner_mem command.key))

theorem exchange_not_expiration {failure : Failure} (he : engine.Sound)
    (hf : (engine.exchange command).1 = .error failure) : failure.kind ≠ .invalidExpiration := by
  intro hk
  rcases exchange_failure_kind he hf with ⟨-, rfl⟩ | hc | hb | ho
  · cases hk
  · rw [hk] at hc
    cases hc
  · rw [hk] at hb
    rcases hb with hb | hb | hb | hb <;> cases hb
  · rw [hk] at ho
    cases ho

theorem Accounted.asks (he : engine.Accounted)
    (ho : (engine.router.owner command.key).isClosed = false) :
    engine.wire.since (engine.exchange command).2.wire ≠ [] := by
  obtain ⟨events, hj, ht⟩ := he.transcript command
  rw [Wire.since_eq hj, List.reverse_reverse]
  generalize hs : engine.streamFor command = stream at ht
  cases ht with
  | silent ends =>
    -- an exchange is silent only to tell that the pool is closed
    rcases exchange_failure_kind he.sound ends with ⟨hc, -⟩ | hc | hb | hout
    · rw [ho] at hc
      cases hc
    · cases hc
    · rcases hb with hb | hb | hb | hb <;> cases hb
    · cases hout
  | unopened => exact List.cons_ne_nil _ _
  | talked _ htalk =>
    cases htalk with
    | unsent | sent => simp

end Engine

namespace Running

variable {running : Running σ} {room : Nat} {call : Client.Call β}

theorem Accounted.open_pools (hr : running.Accounted room) (ho : running.client.closed = false)
    (key : Bytes) : (running.client.router.owner key).isClosed = false := by
  rw [Pool.isClosed, hr.capacity _ (running.client.router.owner_mem key), ho]
  rfl

variable [Network σ]

theorem perform_of_refusal {failure : Failure} (h : call.refusal? running.client = some failure) :
    running.perform call = (.error failure, running) :=
  perform_refused (Answer.eq_of_failure ((call.request_failure running).trans h))

theorem request_of_admitted (h : call.refusal? running.client = none) :
    ∃ request, call.request running = .ok request := by
  have hq := (call.request_failure running).trans h
  generalize call.request running = request at hq
  cases request with
  | error failure => cases hq
  | ok request => exact ⟨request, rfl⟩

theorem Accounted.perform_asks (hr : running.Accounted room)
    (h : call.refusal? running.client = none) :
    running.wire.since (running.perform call).2.wire ≠ [] := by
  obtain ⟨request, hq⟩ := request_of_admitted h
  have ho := (Client.permit_ok (Client.Call.request_permitted hq)).1
  rw [perform_eq, hq]
  exact hr.engine.asks (hr.open_pools ho request.command.key)

end Running

namespace Client

variable [Network σ] {client : Client} {wire : Wire σ}

theorem setDefaultTtl_eq (ttl : Int64) (client : Client) (wire : Wire σ) :
    client.setDefaultTtl ttl wire =
      if Expiry.Allowed ttl then
        (.ok (), { client with settings := { client.settings with defaultTtl := ttl } })
      else (.error Expiry.refused, client) := by
  rw [setDefaultTtl]
  by_cases ha : Expiry.Allowed ttl
  · obtain ⟨expiry, hs⟩ := Expiry.seconds_ok ha (client.clock.read wire)
    rw [hs, if_pos ha]
  · obtain ⟨hne, hlt⟩ := not_or.mp ha
    rw [Expiry.seconds_refused hne (Int64.not_le.mp hlt), if_neg ha]

theorem create_allowed {settings : Settings} (hc : create settings wire = .ok client) :
    Expiry.Allowed client.settings.defaultTtl := by
  unfold create at hc
  repeat' split at hc
  all_goals cases hc
  rename_i clock _ _ _ _ hs _ _ _
  have hf := Expiry.seconds_failure settings.defaultTtl (clock.read wire)
  rw [hs] at hf
  by_contra hn
  rw [Failure.unless, if_neg hn] at hf
  cases hf

end Client

namespace Running

variable [Network σ] {running : Running σ}

theorem step_allowed (h : Expiry.Allowed running.client.settings.defaultTtl) (step : Step) :
    Expiry.Allowed (running.step step).client.settings.defaultTtl := by
  cases step with
  | call call =>
    rw [Running.step, perform_eq]
    split <;> exact h
  | setDefaultTtl ttl =>
    simp only [Running.step, Client.setDefaultTtl_eq]
    split
    · assumption
    · exact h
  | setClock clock => exact h
  | close =>
    simp only [Running.step, Client.close]
    split <;> exact h

theorem steps_allowed (h : Expiry.Allowed running.client.settings.defaultTtl) (steps : List Step) :
    Expiry.Allowed (running.steps steps).client.settings.defaultTtl := by
  induction steps generalizing running with
  | nil => exact h
  | cons step steps ih => exact ih (step_allowed h step)

/-- A store that says nothing of a time to live is not refused for one. -/
theorem store_not_expiration [Encode α] {verb : StoreVerb} {key : Bytes} {value : α}
    {options : StoreOptions} {failure : Failure} (he : running.engine.Sound)
    (h : Expiry.Allowed running.client.settings.defaultTtl) (hn : options.ttl = none)
    (hf : (running.perform (.store verb key value options)).1 = .error failure)
    (hk : failure.kind = .invalidExpiration) : encode value = .error failure := by
  have hrefusal := (Client.Call.store verb key value options).request_failure running
  rw [perform_eq] at hf
  generalize hq : (Client.Call.store verb key value options).request running = request at hf hrefusal
  cases request with
  | ok request =>
    obtain ⟨⟨payload, expiry⟩, -, rfl⟩ := Answer.map_ok hq
    exact absurd hk (Engine.exchange_not_expiration he hf)
  | error cause =>
    cases hf
    simp only [Client.Call.refusal?, Client.Call.checks, Client.admission, Failure.unless, hn,
      Option.getD_none, h, ↓reduceIte] at hrefusal
    obtain ⟨check, hm, hc⟩ := List.exists_of_findSome?_eq_some hrefusal.symm
    simp only [List.cons_append, List.nil_append, List.mem_cons, List.not_mem_nil, or_false] at hm
    -- client, key, codec, time to live: only the codec can fail with this kind
    rcases hm with rfl | rfl | rfl | rfl
    · split at hc <;> cases hc
      cases hk
    · split at hc <;> cases hc
      cases hk
    · exact Answer.eq_of_failure hc
    · cases hc

end Running

/-- In whatever state a client has got into, a call that does not pass its checks, taken in their order,
fails with the first that it does not pass, and then client and network are as they were; any other call
asks something of the network. A default time to live is accepted if it is allowed, and refused without
effect if it is not. So the default is allowed at all times, and a store that says nothing of a time to live
never fails for one; a codec may still fail that way. The steps are those that a verb has got to. -/
theorem refused_without_effect [Network σ] (network : σ) (settings : Settings) (client : Client)
    (created : Client.create settings (Wire.start network) = .ok client)
    (verbs : List Verb) (steps : List Step) :
    let now := (Running.verbs verbs ⟨client, Wire.start network⟩).steps steps
    (∀ (β : Type) (call : Client.Call β), match call.refusal? now.client with
      | some failure => now.perform call = (.error failure, now)
      | none => now.wire.since (now.perform call).2.wire ≠ []) ∧
    (∀ ttl, now.client.setDefaultTtl ttl now.wire =
      if Expiry.Allowed ttl then
        (.ok (), { now.client with settings := { now.client.settings with defaultTtl := ttl } })
      else (.error Expiry.refused, now.client)) ∧
    (∀ reading, ∃ expiry, Expiry.seconds now.client.settings.defaultTtl reading = .ok expiry) ∧
    ∀ (α : Type) [Encode α] (verb : StoreVerb) (key : Bytes) (value : α) (options : StoreOptions),
      options.ttl = none → ∀ failure,
        (now.perform (.store verb key value options)).1 = .error failure →
        failure.kind = .invalidExpiration → encode value = .error failure := by
  intro now
  have hnow : now.Accounted settings.idle.toNat := Running.reached_accounted created verbs steps
  have hallowed : Expiry.Allowed now.client.settings.defaultTtl := by
    simp only [now, Running.verbs_eq]
    exact Running.steps_allowed (Running.steps_allowed (Client.create_allowed created) _) steps
  refine ⟨?_, ?_, ?_, ?_⟩
  · intro β call
    cases hrefusal : call.refusal? now.client with
    | some failure => exact Running.perform_of_refusal hrefusal
    | none => exact hnow.perform_asks hrefusal
  · intro ttl
    exact Client.setDefaultTtl_eq ttl now.client now.wire
  · intro reading
    exact Expiry.seconds_ok hallowed reading
  · intro α _ verb key value options hn failure hf hk
    exact Running.store_not_expiration hnow.engine.sound hallowed hn hf hk

/-- An amount below zero for an empty key is refused for the amount, and a value that is to live for a
nanosecond under a key with a blank for the key. A nanosecond does not become the default. -/
theorem first_refusal_counts :
    let start : Running Script := ⟨soloClient, Wire.start {}⟩
    let now := (start.verbs [.single (.setDefaultTtl 1)]).steps []
    let negative : Integer ⟨true, .one⟩ := ⟨-1, by decide, by decide⟩
    let brief : Client.Call Unit := .store .set (ascii "a b") (ascii "v") { ttl := some 1 }
    Client.create soloSettings start.wire = .ok soloClient ∧
      now.perform (.count .incr [] negative) = (.error Client.negativeDelta, now) ∧
      now.perform brief = (.error Key.refused, now) ∧
      now.client.setDefaultTtl 1 now.wire = (.error Expiry.refused, now.client) ∧
      now.client.settings.defaultTtl = soloSettings.defaultTtl := by
  intro start now negative brief
  obtain ⟨hcalls, hset, -⟩ := refused_without_effect ({} : Script) soloSettings soloClient
    (solo_created start.wire) [.single (.setDefaultTtl 1)] []
  exact ⟨solo_created start.wire, hcalls _ (.count .incr [] negative), hcalls _ brief, hset 1, rfl⟩

end CacheClient
