import CacheClient.Proofs.Calls

namespace CacheClient

theorem IntType.max_lt (type : IntType) : type.max < UInt64.size := by
  obtain ⟨signed, width⟩ := type
  cases signed <;> cases width <;> decide

/-- The amount that a counter is to change by, as it is sent. -/
def Integer.amount (delta : Integer type) (positive : 0 ≤ delta.val) : UInt64 :=
  UInt64.ofNatLT delta.val.toNat (by
    have := delta.le_max
    have := type.max_lt
    omega)

/-- The key that a call is for. -/
def Client.Call.key : {β : Type} → Client.Call β → Bytes
  | _, @Client.Call.store _ _ _ key _ _ => key
  | _, .getItem key => key
  | _, @Client.Call.get _ _ key => key
  | _, .delete key => key
  | _, .count _ key _ => key

/-- The command that a call asks for, given how long items live that do not say so, and the time. -/
def Client.Call.command? (defaultTtl now : Int64) : {β : Type} → Client.Call β → Option Command
  | _, @Client.Call.store _ _ verb key value options =>
    match encode value, Expiry.seconds (options.ttl.getD defaultTtl) now with
    | .ok payload, .ok expiry => some (.store verb key options.flags expiry payload)
    | _, _ => none
  | _, .getItem key => some (.get key)
  | _, @Client.Call.get _ _ key => some (.get key)
  | _, .delete key => some (.delete key)
  | _, .count verb key delta =>
    if positive : 0 ≤ delta.val then some (.count verb key (delta.amount positive)) else none

namespace Running

variable [Network σ] {running : Running σ} {call : Client.Call β} {request : Request β}

/-- The command that a call sends, if it is admitted: the client is open and the key is valid. -/
def command? (call : Client.Call β) (running : Running σ) : Option Command :=
  if running.client.closed then none
  else
    (call.command? running.client.settings.defaultTtl
      (running.client.clock.read running.wire)).filter fun command => Key.isValid command.key

theorem permit_command? (command : Command) (finish : Answer command.Value → Answer β)
    (client : Client) :
    ((client.permit command.key).map fun _ => Request.mk command finish).toOption.map
        Request.command =
      if client.closed then none
      else (some command).filter fun command => Key.isValid command.key := by
  unfold Client.permit Key.check
  cases client.closed <;> cases hk : Key.isValid command.key <;>
    simp [hk, Except.map, Except.toOption, Option.filter]

/-- A call asks for a request exactly if it is admitted, and the request is for its command. -/
theorem request_command? (call : Client.Call β) (running : Running σ) :
    (call.request running).toOption.map Request.command = running.command? call := by
  cases call with
  | store verb key value options =>
    simp only [Client.Call.request, Client.prepare, Client.permit, Key.check, command?,
      Client.Call.command?]
    generalize encode value = payload
    generalize Expiry.seconds _ _ = expiry
    -- the four checks can fail independently; only where all are passed there is a command
    cases running.client.closed <;> cases hk : Key.isValid key <;> cases payload <;>
      cases expiry <;>
      simp [hk, bind, Except.bind, pure, Except.pure, Except.map, Except.toOption, Option.filter,
        Command.key]
  | getItem key => exact permit_command? (.get key) _ running.client
  | get key => exact permit_command? (.get key) _ running.client
  | delete key => exact permit_command? (.delete key) _ running.client
  | @count type verb key delta =>
    simp only [Client.Call.request]
    by_cases hneg : delta.val < 0
    · have hpos : ¬ 0 ≤ delta.val := by omega
      simp [hneg, hpos, command?, Client.Call.command?, Except.toOption]
    · have hpos : 0 ≤ delta.val := by omega
      have hsame : UInt64.ofNat delta.val.toNat = delta.amount hpos := by
        simp [Integer.amount, UInt64.ofNatLT_eq_ofNat]
      have hp := permit_command? (.count verb key (UInt64.ofNat delta.val.toNat))
        (fun answer => answer.bind (Client.fit type)) running.client
      simp only [command?, Client.Call.command?, hneg, hpos, ↓reduceIte, ↓reduceDIte, ← hsame]
      exact hp

theorem command?_key {command : Command} (h : running.command? call = some command) :
    Key.isValid command.key = true ∧ command.key = call.key := by
  unfold command? at h
  split at h
  · cases h
  · obtain ⟨h, hk⟩ := Option.filter_eq_some_iff.mp h
    refine ⟨hk, ?_⟩
    cases call with
    | store verb key value options =>
      simp only [Client.Call.command?] at h
      split at h
      · cases h
        rfl
      · cases h
    | getItem | get | delete =>
      cases h
      rfl
    | count verb key delta =>
      simp only [Client.Call.command?] at h
      split at h
      · cases h
        rfl
      · cases h

theorem request_key (hq : call.request running = .ok request) : request.command.key = call.key := by
  have hcommand := running.request_command? call
  rw [hq] at hcommand
  exact (command?_key hcommand.symm).2

/-- Whatever failure an exchange ends with, the call returns it. -/
theorem request_finish (hq : call.request running = .ok request) (failure : Failure) :
    request.finish (.error failure) = .error failure := by
  cases call with
  | store | getItem | get | delete =>
    obtain ⟨_, -, rfl⟩ := Answer.map_ok hq
    rfl
  | count =>
    simp only [Client.Call.request] at hq
    split at hq
    · cases hq
    · obtain ⟨_, -, rfl⟩ := Answer.map_ok hq
      rfl

end Running

end CacheClient
