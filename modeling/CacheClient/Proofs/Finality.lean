import CacheClient.Proofs.Ownership

namespace CacheClient

/-- What a call on a closed client fails with. A negative amount is refused before the client is looked
at. -/
def Client.Call.refusal : {β : Type} → Client.Call β → Failure
  | _, .count _ _ delta => if delta.val < 0 then Client.negativeDelta else .closed
  | _, _ => .closed

namespace Client

variable {client : Client}

theorem permit_closed (hc : client.closed = true) (key : Bytes) :
    client.permit key = .error .closed := by
  rw [permit, if_pos hc]

variable [Network σ] {wire : Wire σ}

theorem prepare_closed (hc : client.closed = true) (key : Bytes) (payload : Answer Bytes)
    (options : StoreOptions) : client.prepare key payload options wire = .error .closed := by
  rw [prepare, permit_closed hc]
  rfl

theorem store_closed [Encode α] (hc : client.closed = true) (verb : StoreVerb) (key : Bytes)
    (value : α) (options : StoreOptions) :
    client.store verb key value options wire = (.error .closed, client, wire) := by
  rw [store, prepare_closed hc]

theorem getItem_closed (hc : client.closed = true) (key : Bytes) :
    client.getItem key wire = (.error .closed, client, wire) := by
  rw [getItem, permit_closed hc]

theorem get_closed [Decode α] (hc : client.closed = true) (key : Bytes) :
    (client.get key wire : Answer α × Client × Wire σ) = (.error .closed, client, wire) := by
  rw [get, getItem_closed hc]
  rfl

/-- Every item is refused by itself. -/
theorem storeEach_closed [Encode α] (hc : client.closed = true) (verb : StoreVerb)
    (options : StoreOptions) (items : List (Bytes × α)) :
    client.storeEach verb options items wire =
      (List.replicate items.length .closed, client, wire) := by
  induction items with
  | nil => rfl
  | cons item items ih =>
    simp only [storeEach, store_closed hc, ih, List.length_cons, List.replicate_succ]
    rfl

theorem getMulti_closed [Decode α] (hc : client.closed = true) (keys : List Bytes) :
    (client.getMulti keys wire : List (Answer α) × Client × Wire σ) =
      (keys.map fun _ => .error .closed, client, wire) := by
  induction keys with
  | nil => rfl
  | cons key keys ih => simp only [getMulti, get_closed hc, ih, List.map_cons]

theorem close_closed (hc : client.closed = true) :
    client.close wire = (.error .closed, client, wire) := by
  rw [close, if_pos hc]

theorem close_accepted {final : Client} {last : Wire σ}
    (h : client.close wire = (.ok (), final, last)) : client.closed = false ∧
      final = { client with router := (client.router.closeAll wire).1, closed := true } ∧
      last = (client.router.closeAll wire).2 := by
  unfold close at h
  split at h
  · cases h
  · rename_i ho
    cases h
    exact ⟨by simpa using ho, rfl, rfl⟩

end Client

namespace Running

variable {running before after last : Running σ}

/-- A closed client, of which nothing has changed since but its settings and its clock. -/
structure Stays (before after : Running σ) : Prop where
  closed : after.client.closed = true
  router : after.client.router = before.client.router
  wire : after.wire = before.wire

theorem Stays.trans (h : Stays before after) (h' : Stays after last) : Stays before last :=
  ⟨h'.closed, h'.router.trans h.router, h'.wire.trans h.wire⟩

variable [Network σ]

theorem request_closed (hc : running.client.closed = true) (call : Client.Call β) :
    call.request running = .error call.refusal := by
  cases call with
  | store verb key value options =>
    rw [Client.Call.request, Client.prepare_closed hc]
    rfl
  | getItem key | get key | delete key =>
    rw [Client.Call.request, Client.permit_closed hc]
    rfl
  | count verb key delta =>
    simp only [Client.Call.request, Client.Call.refusal, Client.permit_closed hc]
    split <;> rfl

theorem step_stays (hc : running.client.closed = true) (step : Step) :
    Stays running (running.step step) := by
  cases step with
  | call call =>
    rw [Running.step, perform_eq, request_closed hc]
    exact ⟨hc, rfl, rfl⟩
  | setDefaultTtl ttl =>
    simp only [Running.step, Client.setDefaultTtl]
    split <;> exact ⟨hc, rfl, rfl⟩
  | setClock clock => exact ⟨hc, rfl, rfl⟩
  | close =>
    simp only [Running.step, Client.close_closed hc]
    exact ⟨hc, rfl, rfl⟩

theorem steps_stays (hc : running.client.closed = true) (steps : List Step) :
    Stays running (running.steps steps) := by
  induction steps generalizing running with
  | nil => exact ⟨hc, rfl, rfl⟩
  | cons step steps ih =>
    have hfirst := step_stays hc step
    exact hfirst.trans (ih hfirst.closed)

/-- What an accepted close leaves: closed pools with nothing idle, and no open stream. -/
theorem Accounted.ended {room : Nat} {final : Client} {wire : Wire σ} (hr : running.Accounted room)
    (h : running.client.close running.wire = (.ok (), final, wire)) :
    (∀ pool ∈ final.router.pools, pool.isClosed = true ∧ pool.idle = []) ∧ wire.live = [] := by
  obtain ⟨-, rfl, rfl⟩ := Client.close_accepted h
  have hpools : ∀ pool ∈ (running.client.router.closeAll running.wire).1.pools,
      pool.isClosed = true ∧ pool.idle = [] := by
    have hall := Pool.closeEach_pools running.client.router.pools hr.engine.sound running.wire
    intro pool hm
    simp only [Router.closeAll, hall] at hm
    obtain ⟨_, -, rfl⟩ := List.mem_map.mp hm
    exact ⟨rfl, rfl⟩
  exact ⟨hpools, hr.engine.close_live⟩

end Running

/-- Once a close has been accepted, whatever is asked of the client asks nothing of the network, and no
stream is open. Calls for a single key fail and leave everything as it is, and so does another close;
calls for several keys fail for each of them. The steps are those that a verb has got to. -/
theorem close_is_final [Network σ] (network : σ) (settings : Settings) (client : Client)
    (created : Client.create settings (Wire.start network) = .ok client)
    (before : List Verb) (final : Client) (wire : Wire σ)
    (accepted : let last := Running.verbs before ⟨client, Wire.start network⟩
      last.client.close last.wire = (.ok (), final, wire))
    (after : List Verb) (steps : List Step) :
    let now := ((Running.mk final wire).verbs after).steps steps
    now.wire = wire ∧ now.wire.live = [] ∧
    (∀ pool ∈ now.client.router.pools, pool.isClosed = true ∧ pool.idle = []) ∧
    (∀ (β : Type) (call : Client.Call β), now.perform call = (.error call.refusal, now)) ∧
    (∀ (α : Type) [Decode α] (keys : List Bytes),
      (now.client.getMulti keys now.wire : List (Answer α) × Client × Wire σ) =
        (keys.map fun _ => .error .closed, now.client, now.wire)) ∧
    (∀ (α : Type) [Encode α] (verb : StoreVerb) (items : List (Bytes × α)) (options : StoreOptions),
      items ≠ [] → ∃ failure,
        now.client.storeMulti verb items options now.wire =
          (.error failure, now.client, now.wire) ∧
        failure.kind = .multiple ∧ failure.causes = List.replicate items.length .closed) ∧
    now.client.close now.wire = (.error .closed, now.client, now.wire) := by
  intro now
  have hlast := (Running.create_accounted created).steps (before.flatMap Verb.steps)
  rw [← Running.verbs_eq] at hlast
  obtain ⟨hpools, hlive⟩ := hlast.ended accepted
  have hfinal : final.closed = true := by
    obtain ⟨-, rfl, -⟩ := Client.close_accepted accepted
    rfl
  -- all that follows is one run of steps on a closed client, and such a run changes nothing
  have hstays : Running.Stays ⟨final, wire⟩ now := by
    simp only [now, Running.verbs_eq, ← Running.steps_append]
    exact Running.steps_stays hfinal _
  have hc := hstays.closed
  refine ⟨hstays.wire, ?_, ?_, ?_, ?_, ?_, Client.close_closed hc⟩
  · rw [hstays.wire]
    exact hlive
  · rw [hstays.router]
    exact hpools
  · intro β call
    rw [Running.perform_eq, Running.request_closed hc]
  · intro α _ keys
    exact Client.getMulti_closed hc keys
  · intro α _ verb items options hne
    refine ⟨Failure.join (List.replicate items.length .closed), ?_, rfl, rfl⟩
    have hsome : (List.replicate items.length Failure.closed).isEmpty = false := by
      simpa using hne
    simp only [Client.storeMulti, Client.storeEach_closed hc, hsome, Bool.false_eq_true, ↓reduceIte]

/-- A client that keeps a connection idle is closed; its stream is not used by what is asked later. -/
theorem idle_stream_ended :
    let wire : Wire Script := Wire.start { entries := [{ stream := ⟨[⟨ascii "END\r\n", none⟩], []⟩ }] }
    let last := Running.verbs [.single (.call (.getItem (ascii "k")))] ⟨soloClient, wire⟩
    let now := (last.step .close).verbs [.single (.setDefaultTtl 0), .single (.call (.getItem []))]
    last.wire.live = [0] ∧ now.wire.live = [] ∧
      now.perform (.delete (ascii "k")) = (.error .closed, now) := by
  intro wire last now
  obtain ⟨-, hlive, -, hcalls, -⟩ := close_is_final _ soloSettings soloClient (solo_created wire)
    [.single (.call (.getItem (ascii "k")))] _ _ rfl
    [.single (.setDefaultTtl 0), .single (.call (.getItem []))] []
  exact ⟨rfl, hlive, hcalls Unit (.delete (ascii "k"))⟩

end CacheClient
