import CacheClient.Proofs.Calls
import CacheClient.Proofs.Cluster
import CacheClient.Proofs.Creation

namespace CacheClient

namespace Client

abbrev Asked := (β : Type) × Call β

abbrev Heard := (β : Type) × Answer β

/-- Whatever the call stores is short enough to be read back. -/
def Call.Fits : {β : Type} → Call β → Prop
  | _, @Call.store _ _ _ _ value _ =>
    ∀ payload, encode value = .ok payload → payload.length ≤ Reply.largestValue
  | _, _ => True

end Client

namespace Table

def attempt (command : Command) (table : Table) : Answer command.Value × Table :=
  if Key.isValid command.key then table.run command else (.error Key.refused, table)

/-- A call on one table. Of a time to live it only matters whether there can be such a time. -/
def perform (defaultTtl : Int64) : {β : Type} → Client.Call β → Table → Answer β × Table
  | _, @Client.Call.store _ _ verb key value options, table =>
    let ttl := options.ttl.getD defaultTtl
    if !Key.isValid key then (.error Key.refused, table)
    else
      match encode value with
      | .error failure => (.error failure, table)
      | .ok payload =>
        if ttl = 0 ∨ Expiry.second ≤ ttl then table.run (.store verb key options.flags 0 payload)
        else (.error Expiry.refused, table)
  | _, .getItem key, table => table.attempt (.get key)
  | _, @Client.Call.get _ _ key, table =>
    let (item, table) := table.attempt (.get key)
    (item.bind fun item => decode item.value, table)
  | _, .delete key, table => table.attempt (.delete key)
  | _, @Client.Call.count type verb key delta, table =>
    if delta.val < 0 then (.error Client.negativeDelta, table)
    else
      let (n, table) := table.attempt (.count verb key (UInt64.ofNat delta.val.toNat))
      (n.bind (Client.fit type), table)

def performAll (defaultTtl : Int64) : List Client.Asked → Table → List Client.Heard × Table
  | [], table => ([], table)
  | ⟨β, call⟩ :: calls, table =>
    let (answer, table) := table.perform defaultTtl call
    let (answers, table) := table.performAll defaultTtl calls
    (⟨β, answer⟩ :: answers, table)

end Table

theorem Table.get_of_set [Encode α] [Decode α] {key payload : Bytes} {value : α}
    {options : StoreOptions} {ttl : Int64} (hk : Key.isValid key = true)
    (he : encode value = .ok payload) (hd : decode payload = .ok value)
    (ht : options.ttl.getD ttl = 0 ∨ Expiry.second ≤ options.ttl.getD ttl) (table : Table) :
    ((table.perform ttl (.store .set key value options)).2.perform ttl
      (.get key : Client.Call α)).1 = .ok value := by
  have hset : (table.perform ttl (.store .set key value options)).2 =
      Function.update table key (some ⟨options.flags, payload⟩) := by
    simp [perform, hk, he, ht, run, Command.effect, Command.key]
  rw [hset]
  simp [perform, attempt, hk, run, Command.outcome, Command.key, hd, Except.bind]

theorem Expiry.seconds_refused {ttl : Int64} (hne : ttl ≠ 0) (hlt : ttl < second) (now : Int64) :
    seconds ttl now = .error refused := by
  rw [seconds, if_neg hne, if_pos hlt]

theorem Client.permit_eq {client : Client} (ho : client.closed = false) (key : Bytes) :
    client.permit key = if Key.isValid key then .ok () else .error Key.refused := by
  simp [permit, Key.check, ho]

def Table.answer (table : Table) : Answer (Request β) → Answer β × Table
  | .error failure => (.error failure, table)
  | .ok request => (request.finish (table.run request.command).1, (table.run request.command).2)

namespace Client.Call

variable [Network σ] {running : Running σ}

theorem answer_permitted (command : Command) (finish : Answer command.Value → Answer β)
    (hf : ∀ failure, finish (.error failure) = .error failure) {client : Client}
    (ho : client.closed = false) (table : Table) :
    table.answer ((client.permit command.key).map fun _ => ⟨command, finish⟩) =
      (finish (table.attempt command).1, (table.attempt command).2) := by
  rw [permit_eq ho]
  by_cases hk : Key.isValid command.key = true
  · simp [hk, Except.map, Table.answer, Table.attempt]
  · simp [hk, Except.map, Table.answer, Table.attempt, hf]

theorem answer_request (call : Client.Call β) (ho : running.client.closed = false) (table : Table) :
    table.answer (call.request running) =
      table.perform running.client.settings.defaultTtl call := by
  cases call with
  | store verb key value options =>
    simp only [request, prepare, permit_eq ho, Table.perform]
    by_cases hk : Key.isValid key = true
    · cases he : encode value with
      | error failure => simp [hk, bind, Except.bind, Except.map, Table.answer]
      | ok payload =>
        generalize options.ttl.getD running.client.settings.defaultTtl = ttl
        by_cases hv : ttl = 0 ∨ Expiry.second ≤ ttl
        · obtain ⟨expiry, hx⟩ := Expiry.seconds_ok hv (running.client.clock.read running.wire)
          simp [hk, hv, hx, bind, Except.bind, pure, Except.pure, Except.map, Table.answer]
          rfl
        · obtain ⟨hne, hlt⟩ := not_or.mp hv
          have hx := Expiry.seconds_refused hne (Int64.not_le.mp hlt)
          simp [hk, hv, hx, bind, Except.bind, Except.map, Table.answer]
    · simp [hk, bind, Except.bind, Except.map, Table.answer]
  | getItem key => exact answer_permitted (.get key) _ (fun _ => rfl) ho table
  | get key => exact answer_permitted (.get key) _ (fun _ => rfl) ho table
  | delete key => exact answer_permitted (.delete key) _ (fun _ => rfl) ho table
  | count verb key delta =>
    simp only [request, Table.perform]
    split
    · rfl
    · exact answer_permitted (.count verb key _) _ (fun _ => rfl) ho table

theorem request_fits {call : Client.Call β} {request : Request β} (hf : call.Fits)
    (hq : call.request running = .ok request) :
    ∀ payload, request.command.payload? = some payload → payload.length ≤ Reply.largestValue := by
  cases call with
  | store verb key value options =>
    obtain ⟨⟨payload, expiry⟩, hp, rfl⟩ := Answer.map_ok hq
    intro bytes hb
    cases hb
    exact hf _ (prepare_ok hp).2.1
  | getItem key | get key | delete key =>
    obtain ⟨_, -, rfl⟩ := Answer.map_ok hq
    simp [Command.payload?]
  | count verb key delta =>
    simp only [Client.Call.request] at hq
    split at hq
    · cases hq
    · obtain ⟨_, -, rfl⟩ := Answer.map_ok hq
      simp [Command.payload?]

end Client.Call

def Cluster.Rests (cluster : Cluster) (opened : Nat) (endpoint : Endpoint) (connection : Connection) :
    Prop :=
  ∃ id < opened, connection = .fresh (some id) ∧ cluster.sessions id = ⟨endpoint, [], []⟩

theorem Cluster.Rests.mono {cluster later : Cluster} {endpoint : Endpoint} {connection : Connection}
    (h : cluster.Rests opened endpoint connection) (hle : opened ≤ opened')
    (hs : ∀ id < opened, later.sessions id = cluster.sessions id) :
    later.Rests opened' endpoint connection := by
  obtain ⟨id, hid, hc, hsession⟩ := h
  exact ⟨id, Nat.lt_of_lt_of_le hid hle, hc, (hs id hid).trans hsession⟩

namespace Pool

theorem Lends.rests {pool rest : Pool} {wire : Wire Cluster} {id : Nat} {link : Link Cluster}
    (h : pool.Lends wire id link rest)
    (hp : ∀ connection ∈ pool.idle, wire.state.Rests wire.opened pool.endpoint connection) :
    link.wire.state.Rests link.wire.opened pool.endpoint link.connection ∧
      link.wire.state.tables = wire.state.tables ∧ wire.opened ≤ link.wire.opened ∧
      ∀ other < wire.opened, link.wire.state.sessions other = wire.state.sessions other := by
  cases h with
  | reused _ hi _ =>
    exact ⟨hp _ (hi ▸ List.mem_cons_self), rfl, Nat.le_refl _, fun _ _ => rfl⟩
  | dialed _ _ hd =>
    cases hd
    refine ⟨⟨wire.opened, Nat.lt_succ_self _, rfl, ?_⟩, rfl, Nat.le_succ _, ?_⟩
    · exact Function.update_self ..
    · intro other hother
      exact Function.update_of_ne (Nat.ne_of_lt hother) ..

/-- What an exchange leaves behind: the command has been run on the pool's server and nowhere else, and
what is idle is at rest. -/
structure Served (command : Command) (pool : Pool) (wire : Wire Cluster) (changed : Pool)
    (next : Wire Cluster) : Prop where
  rests : ∀ connection ∈ changed.idle, next.state.Rests next.opened pool.endpoint connection
  opened : wire.opened ≤ next.opened
  others : ∀ other < wire.opened, next.state.sessions other = wire.state.sessions other
  tables : next.state.tables = Function.update wire.state.tables pool.endpoint
    ((wire.state.tables pool.endpoint).run command).2

variable {pool rest changed : Pool} {wire next : Wire Cluster} {command : Command}

theorem Lends.served {id : Nat} {link after : Link Cluster} {answer : Answer command.Value}
    (h : pool.Lends wire id link rest) (he : link.exchange command = (answer, after))
    (hk : Key.isValid command.key = true)
    (hp : ∀ connection ∈ pool.idle, wire.state.Rests wire.opened pool.endpoint connection)
    (hfit : ∀ item, wire.state.tables pool.endpoint command.key = some item →
      item.value.length ≤ Reply.largestValue) :
    answer = ((wire.state.tables pool.endpoint).run command).1 ∧
      Served command pool wire { rest with idle := after.connection :: rest.idle } after.wire := by
  obtain ⟨⟨stream, hid, hc, hs⟩, htables, hopened, hothers⟩ := h.rests hp
  obtain ⟨last, hx, ht, hsessions, ho⟩ :=
    Cluster.exchange_served hk hc hs (congrFun htables pool.endpoint) hfit
  obtain ⟨rfl, rfl⟩ := Prod.mk.inj (he.symm.trans hx)
  have hopened' : wire.opened ≤ last.opened := ho ▸ hopened
  have hothers' (other : Nat) (hother : other < wire.opened) :
      last.state.sessions other = wire.state.sessions other := by
    rw [hsessions, hothers other hother]
  refine ⟨rfl, ?_, hopened', hothers', htables ▸ ht⟩
  intro connection hm
  rcases List.mem_cons.mp hm with rfl | hm
  · exact ⟨stream, ho ▸ hid, hc, hsessions ▸ hs⟩
  · exact (hp connection (h.subset connection hm)).mono hopened' hothers'

/-- Where every dial succeeds and every server answers, there is no other outcome. -/
theorem Ran.served {answer : Answer command.Value} (h : Ran command pool wire answer changed next)
    (hopen : pool.capacity ≠ none) (hk : Key.isValid command.key = true)
    (hp : ∀ connection ∈ pool.idle, wire.state.Rests wire.opened pool.endpoint connection)
    (hfit : ∀ item, wire.state.tables pool.endpoint command.key = some item →
      item.value.length ≤ Reply.largestValue) :
    answer = ((wire.state.tables pool.endpoint).run command).1 ∧
      Served command pool wire changed next := by
  cases h with
  | closed hf => exact absurd hf hopen
  | refused _ _ hd => cases hd
  | hollow _ _ hd => cases hd
  | kept hl he => exact hl.served he hk hp hfit
  | dropped hl he =>
    obtain ⟨hanswer, hserved⟩ := hl.served he hk hp hfit
    refine ⟨hanswer, ?_, hserved.opened, hserved.others, hserved.tables⟩
    exact fun connection hm => hserved.rests connection (List.mem_cons_of_mem _ hm)

end Pool

/-- Tables that share the keys among them are one table: a command changes the one table as it changes
the table of its key. -/
theorem Table.run_shared {table : Table} {tables : Endpoint → Table} {home : Bytes → Endpoint}
    (hk : ∀ key, table key = tables (home key) key) (command : Command) :
    ((tables (home command.key)).run command).1 = (table.run command).1 ∧
      ∀ key, (table.run command).2 key = Function.update tables (home command.key)
        ((tables (home command.key)).run command).2 (home key) key := by
  refine ⟨by simp only [run, hk], ?_⟩
  intro key
  simp only [run]
  by_cases hsame : key = command.key
  · simp [hsame, hk]
  · by_cases hhome : home key = home command.key
    · simp [hsame, hhome, hk]
    · simp [hsame, hhome, hk]

theorem Table.run_short {table : Table} {command : Command}
    (hpayload : ∀ payload, command.payload? = some payload → payload.length ≤ Reply.largestValue)
    (hs : ∀ key item, table key = some item → item.value.length ≤ Reply.largestValue) :
    ∀ key item, (table.run command).2 key = some item → item.value.length ≤ Reply.largestValue := by
  intro key item hi
  simp only [run] at hi
  by_cases hsame : key = command.key
  · subst hsame
    rw [Function.update_self] at hi
    exact command.effect_short hpayload (hs command.key) item hi
  · rw [Function.update_of_ne hsame] at hi
    exact hs key item hi

namespace Engine

/-- An engine stands for a table: the server of each key keeps what the table keeps under it. -/
structure Serves (table : Table) (engine : Engine Cluster) : Prop where
  sound : engine.Sound
  opens : ∀ pool ∈ engine.router.pools, pool.capacity ≠ none
  rests : ∀ pool ∈ engine.router.pools, ∀ connection ∈ pool.idle,
    engine.wire.state.Rests engine.wire.opened pool.endpoint connection
  keeps : ∀ key, table key = engine.wire.state.tables (engine.router.owner key).endpoint key
  short : ∀ key item, table key = some item → item.value.length ≤ Reply.largestValue

variable {engine : Engine Cluster} {table : Table}

theorem exchange_serves {command : Command} (h : engine.Serves table)
    (hk : Key.isValid command.key = true)
    (hpayload : ∀ payload, command.payload? = some payload → payload.length ≤ Reply.largestValue) :
    (engine.exchange command).1 = (table.run command).1 ∧
      (engine.exchange command).2.Serves (table.run command).2 := by
  have hmem := engine.router.owner_mem command.key
  obtain ⟨hanswer, hchange⟩ := Table.run_shared h.keeps command
  obtain ⟨pool, wire, hran, heq⟩ := exchange_ran command h.sound
  obtain ⟨ha, hserved⟩ := hran.served (h.opens _ hmem) hk (h.rests _ hmem)
    fun item hi => h.short command.key item ((h.keeps command.key).trans hi)
  have hset := hran.settled
  have hcap : pool.capacity = (engine.router.owner command.key).capacity := by rw [hset]
  have hhome : pool.endpoint = (engine.router.owner command.key).endpoint := by rw [hset]
  have hsound := exchange_sound command h.sound
  rw [heq] at hsound ⊢
  refine ⟨ha.trans hanswer, hsound, ?_, ?_, ?_, Table.run_short hpayload h.short⟩
  · intro other hm
    rcases List.mem_or_eq_of_mem_set hm with hm | rfl
    · exact h.opens other hm
    · exact hcap ▸ h.opens _ hmem
  · intro other hm connection hc
    rcases List.mem_or_eq_of_mem_set hm with hm | rfl
    · exact (h.rests other hm connection hc).mono hserved.opened hserved.others
    · exact hhome ▸ hserved.rests connection hc
  -- a key of another server finds what it found; the others share the table that has changed
  · intro key
    rw [hchange key, hserved.tables]
    dsimp only
    rw [Router.owner_put]
    split
    · rename_i hpick
      have howner : engine.router.owner key = engine.router.owner command.key := by
        simp [Router.owner, hpick]
      rw [howner, hhome]
    · rfl

end Engine

namespace Running

/-- A client at work stands for a table. -/
structure Serves (table : Table) (running : Running Cluster) : Prop where
  opens : running.client.closed = false
  engine : running.engine.Serves table

variable {running : Running Cluster} {table : Table}

theorem perform_serves {call : Client.Call β} (hfit : call.Fits) (h : running.Serves table) :
    (running.perform call).1 = (table.perform running.client.settings.defaultTtl call).1 ∧
      (running.perform call).2.client.settings = running.client.settings ∧
      (running.perform call).2.Serves (table.perform running.client.settings.defaultTtl call).2 := by
  rw [← call.answer_request h.opens table, perform_eq]
  cases hq : call.request running with
  | error failure => exact ⟨rfl, rfl, h⟩
  | ok request =>
    obtain ⟨-, hk⟩ := Client.permit_ok (Client.Call.request_permitted hq)
    obtain ⟨ha, hs⟩ := Engine.exchange_serves h.engine hk (Client.Call.request_fits hfit hq)
    exact ⟨congrArg request.finish ha, rfl, h.opens, hs⟩

theorem get_of_set [Encode α] [Decode α] {key payload : Bytes} {value : α} {options : StoreOptions}
    (h : running.Serves table) (hk : Key.isValid key = true) (he : encode value = .ok payload)
    (hd : decode payload = .ok value) (hfit : payload.length ≤ Reply.largestValue)
    (ht : options.ttl.getD running.client.settings.defaultTtl = 0 ∨
      Expiry.second ≤ options.ttl.getD running.client.settings.defaultTtl) :
    ((running.perform (.store .set key value options)).2.perform
      (.get key : Client.Call α)).1 = .ok value := by
  have hset : (Client.Call.store .set key value options).Fits := by
    intro bytes hb
    obtain rfl := Except.ok.inj (he.symm.trans hb)
    exact hfit
  obtain ⟨-, hsettings, hs⟩ := perform_serves hset h
  have hget : (Client.Call.get key : Client.Call α).Fits := trivial
  obtain ⟨ha, -⟩ := perform_serves hget hs
  rw [ha, hsettings]
  exact Table.get_of_set hk he hd ht table

variable {σ : Type} [Network σ]

def performAll : List Client.Asked → Running σ → List Client.Heard × Running σ
  | [], running => ([], running)
  | ⟨β, call⟩ :: calls, running =>
    let (answer, running) := running.perform call
    let (answers, running) := performAll calls running
    (⟨β, answer⟩ :: answers, running)

theorem performAll_serves {calls : List Client.Asked} (hfit : ∀ call ∈ calls, call.2.Fits)
    {running : Running Cluster} {table : Table} (h : running.Serves table) :
    (running.performAll calls).1 =
      (table.performAll running.client.settings.defaultTtl calls).1 ∧
    (running.performAll calls).2.Serves
      (table.performAll running.client.settings.defaultTtl calls).2 := by
  induction calls generalizing running table with
  | nil => exact ⟨rfl, h⟩
  | cons call calls ih =>
    obtain ⟨ha, hsettings, hs⟩ := perform_serves (hfit call List.mem_cons_self) h
    obtain ⟨hall, hs⟩ := ih (fun call hm => hfit call (List.mem_cons_of_mem _ hm)) hs
    rw [hsettings] at hall hs
    refine ⟨?_, hs⟩
    simp only [performAll, Table.performAll, ha, hall]

end Running

/-- A new client over empty servers stands for the empty table. -/
theorem Client.create_serves {settings : Settings} {client : Client} {cluster : Cluster}
    (hc : Client.create settings (Wire.start cluster) = .ok client)
    (hempty : ∀ endpoint key, cluster.tables endpoint key = none) :
    (Running.mk client (Wire.start cluster)).Serves fun _ => none := by
  obtain ⟨hopen, hr⟩ := Client.create_router hc
  have hpools := Router.create_pools hr
  refine ⟨hopen, ?_, ?_, ?_, ?_, ?_⟩
  · intro pool hm
    obtain ⟨endpoint, rfl⟩ := hpools pool hm
    exact ⟨by simp [Pool.start], by simp [Pool.start]⟩
  · intro pool hm
    obtain ⟨endpoint, rfl⟩ := hpools pool hm
    exact Option.some_ne_none _
  · intro pool hm connection hidle
    obtain ⟨endpoint, rfl⟩ := hpools pool hm
    cases hidle
  · exact fun key => (hempty _ key).symm
  · exact fun key item hi => absurd hi (Option.some_ne_none item).symm

/-- However many servers there are, however many idle connections are kept, and however the replies are
cut, the calls of a client are answered as on one table. -/
theorem cluster_is_one_map {settings : Settings} (usable : settings.Usable) {cluster : Cluster}
    (empty : ∀ endpoint key, cluster.tables endpoint key = none) {calls : List Client.Asked}
    (fits : ∀ call ∈ calls, call.2.Fits) :
    ∃ client, Client.create settings (Wire.start cluster) = .ok client ∧
      ((Running.mk client (Wire.start cluster)).performAll calls).1 =
        (Table.performAll settings.defaultTtl calls fun _ => none).1 := by
  obtain ⟨client, hc, hsettings⟩ := Client.create_ok usable (Wire.start cluster)
  refine ⟨client, hc, ?_⟩
  have h := (Running.performAll_serves fits (Client.create_serves hc empty)).1
  rwa [hsettings] at h

def pairSettings : Settings where
  servers := [ascii "a", ascii "b"]
  idle := 0

def bytewise : Cluster :=
  ⟨fun _ _ => none, fun _ => ⟨.tcp [] [], [], []⟩, fun _ => 1, fun _ => 0, 0⟩

def errands : List Client.Asked :=
  [⟨_, .store .set (ascii "a") (ascii "41") {}⟩,
    ⟨_, .store .add (ascii "b") (ascii "x") { flags := 7 }⟩,
    ⟨_, .count .incr (ascii "a") (⟨1, by decide, by decide⟩ : Integer ⟨false, .one⟩)⟩,
    ⟨_, .store .add (ascii "b") (ascii "y") {}⟩,
    ⟨_, .getItem (ascii "b")⟩,
    ⟨_, .delete (ascii "b c")⟩]

theorem pair_usable : pairSettings.Usable where
  servers := List.cons_ne_nil _ _
  addresses := by
    intro address hm
    simp only [pairSettings, List.mem_cons, List.not_mem_nil, or_false] at hm
    rcases hm with rfl | rfl
    · exact ⟨_, rfl⟩
    · exact ⟨_, rfl⟩
  idle := by decide
  timeouts := by decide
  clock := rfl
  dialer := rfl
  ttl := .inr (by decide)

theorem errands_on_pair :
    pairSettings.Usable ∧ (∀ endpoint key, bytewise.tables endpoint key = none) ∧
      (∀ call ∈ errands, call.2.Fits) ∧
      ∃ client, Client.create pairSettings (Wire.start bytewise) = .ok client ∧
        ((Running.mk client (Wire.start bytewise)).performAll errands).1 =
          [⟨Unit, .ok ()⟩, ⟨Unit, .ok ()⟩,
            ⟨Integer ⟨false, .one⟩, .ok ⟨42, by decide, by decide⟩⟩,
            ⟨Unit, .error ⟨.notStored, ascii "item not stored", []⟩⟩,
            ⟨Item, .ok ⟨7, ascii "x"⟩⟩, ⟨Unit, .error Key.refused⟩] := by
  have hfits : ∀ call ∈ errands, call.2.Fits := by
    simp [errands, Client.Call.Fits, encode, Encode.encode, Reply.largestValue, ascii]
  refine ⟨pair_usable, fun _ _ => rfl, hfits, ?_⟩
  obtain ⟨client, hc, hr⟩ := @cluster_is_one_map _ pair_usable bytewise (fun _ _ => rfl) _ hfits
  exact ⟨client, hc, hr.trans rfl⟩

end CacheClient
