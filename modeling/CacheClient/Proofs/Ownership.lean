import CacheClient.Proofs.Calls
import CacheClient.Proofs.Creation
import CacheClient.Proofs.Streams
import CacheClient.Script
import Mathlib.Data.List.Perm.Basic

namespace CacheClient

/-- A stream that has been closed; it never opens again. -/
def Wire.Closed (id : Nat) (wire : Wire σ) : Prop :=
  ∃ event ∈ wire.journal, event.closes id = true

namespace Wire

variable {id : Nat} {wire next : Wire σ}

theorem Closed.not_live (h : wire.Closed id) : id ∉ wire.live := by
  obtain ⟨event, hm, hc⟩ := h
  intro hl
  rw [(mem_live.mp hl).2 event hm] at hc
  cases hc

theorem Closed.lt (h : wire.Closed id) (hn : wire.Numbered) : id < wire.opened := by
  obtain ⟨event, hm, hc⟩ := h
  exact hn event hm id (by simp [Event.concerns, hc])

theorem Closed.spared (h : wire.Closed id) (hs : Spares id wire next) : next.Closed id := by
  obtain ⟨event, hm, hc⟩ := h
  obtain ⟨events, hj, -⟩ := hs
  exact ⟨event, by rw [hj]; exact List.mem_append_right events hm, hc⟩

/-- From one state of a wire to another these streams are closed, in this order, and nothing else is
asked. -/
structure Shuts (ids : List Nat) (before after : Wire σ) : Prop where
  opened : after.opened = before.opened
  journal : after.journal = (ids.map Event.closed).reverse ++ before.journal

theorem Shuts.spares {ids : List Nat} (h : Shuts ids wire next) (hnot : id ∉ ids) :
    Spares id wire next := by
  refine ⟨_, h.journal, ?_⟩
  intro event hm
  obtain ⟨other, ho, rfl⟩ := List.mem_map.mp (List.mem_reverse.mp hm)
  have hne : other ≠ id := fun he => hnot (he ▸ ho)
  simpa using hne

end Wire

namespace Pool

def streams (pool : Pool) : List Nat :=
  pool.idle.filterMap Connection.stream

variable [Network σ] {pool rest changed : Pool} {wire next : Wire σ} {id other : Nat}
variable {link : Link σ} {command : Command} {others : List Nat}

theorem Lends.accounted (h : pool.Lends wire id link rest) (hn : wire.Numbered)
    (hl : wire.live.Perm (pool.streams ++ others)) :
    link.wire.Numbered ∧ link.wire.live.Perm (id :: (rest.streams ++ others)) := by
  cases h with
  | reused _ hi hs => exact ⟨hn, by simpa [streams, hi, hs] using hl⟩
  | dialed _ hi hd =>
    obtain ⟨rfl, ho, hj, hlive⟩ := Wire.dial_stream hn hd
    refine ⟨Wire.dial_numbered hn hj (ho ▸ Nat.le_succ _), ?_⟩
    rw [hlive]
    exact List.perm_append_comm.trans (hl.cons _)

theorem Lends.spares (h : pool.Lends wire id link rest) (hn : wire.Numbered)
    (hc : wire.Closed other) (hnot : other ∉ pool.streams) :
    other ≠ id ∧ Wire.Spares other wire link.wire := by
  cases h with
  | reused _ hi hs =>
    refine ⟨?_, .refl other wire⟩
    rintro rfl
    exact hnot (by simp [streams, hi, hs])
  | dialed _ _ hd =>
    obtain ⟨rfl, -, hj, -⟩ := Wire.dial_stream hn hd
    exact ⟨Nat.ne_of_lt (hc.lt hn), [_], hj, by simp⟩

theorem Ran.accounted {answer : Answer command.Value}
    (h : Ran command pool wire answer changed next) (hp : pool.Sound) (hn : wire.Numbered)
    (hl : wire.live.Perm (pool.streams ++ others)) :
    next.Numbered ∧ next.live.Perm (changed.streams ++ others) := by
  cases h with
  | closed => exact ⟨hn, hl⟩
  | refused _ _ hd =>
    obtain ⟨hn', hlive, -⟩ := Wire.dial_nothing_accounted hn hd (by simp)
    exact ⟨hn', hlive ▸ hl⟩
  | hollow _ _ hd =>
    obtain ⟨hn', hlive, -⟩ := Wire.dial_nothing_accounted hn hd (by simp)
    exact ⟨hn', hlive ▸ hl⟩
  | @kept rest id link after _ hlend he =>
    have hx := hlend.exchanged hp he
    obtain ⟨hn', hl'⟩ := hlend.accounted hn hl
    have hid : id < link.wire.opened := (Wire.mem_live.mp (hl'.mem_iff.mpr List.mem_cons_self)).1
    have hs : after.connection.stream = some id := by
      rw [hx.connection]
      exact (hlend.connection hp).1
    refine ⟨hx.talks.numbered hn' hid, ?_⟩
    rw [hx.talks.live]
    simpa [streams, hs] using hl'
  | @dropped rest id link after _ hlend he =>
    have hx := hlend.exchanged hp he
    obtain ⟨hn', hl'⟩ := hlend.accounted hn hl
    have hid : id < link.wire.opened := (Wire.mem_live.mp (hl'.mem_iff.mpr List.mem_cons_self)).1
    refine ⟨Wire.close_numbered (hx.talks.numbered hn' hid) (hx.talks.opened ▸ hid), ?_⟩
    exact Wire.close_live (hx.talks.live ▸ hl')

theorem Ran.spares {answer : Answer command.Value}
    (h : Ran command pool wire answer changed next) (hp : pool.Sound) (hn : wire.Numbered)
    (hc : wire.Closed other) (hnot : other ∉ pool.streams) : Wire.Spares other wire next := by
  cases h with
  | closed => exact .refl other wire
  | refused _ _ hd => exact (Wire.dial_nothing_accounted hn hd (by simp)).2.2 other
  | hollow _ _ hd => exact (Wire.dial_nothing_accounted hn hd (by simp)).2.2 other
  | kept hlend he =>
    obtain ⟨hne, hs⟩ := hlend.spares hn hc hnot
    exact hs.trans ((hlend.exchanged hp he).talks.spares hne)
  | dropped hlend he =>
    obtain ⟨hne, hs⟩ := hlend.spares hn hc hnot
    exact (hs.trans ((hlend.exchanged hp he).talks.spares hne)).trans (Wire.close_spares hne)

/-- The stream that the next exchange would run on; none if no connection can be had. -/
def streamFor (wire : Wire σ) (pool : Pool) : Option Nat :=
  match (pool.acquire wire).1 with
  | .error _ => none
  | .ok connection => connection.stream

theorem Lends.streamFor (h : pool.Lends wire id link rest) (hp : pool.Sound) :
    pool.streamFor wire = some id := by
  simp only [Pool.streamFor, h.acquire]
  exact (h.connection hp).1

/-- Where there is a stream for an exchange, the exchange runs on it, and then the stream is given back
or closed. -/
theorem Ran.lent {answer : Answer command.Value}
    (h : Ran command pool wire answer changed next) (hp : pool.Sound)
    (hs : pool.streamFor wire = some id) : ∃ link rest after,
      pool.Lends wire id link rest ∧ link.exchange command = (answer, after) ∧
      if answer.keepsHealthy = true ∧ 0 < pool.capacity.getD 0 then
        changed = { rest with idle := after.connection :: rest.idle } ∧ next = after.wire
      else changed = rest ∧ next = after.wire.close id := by
  cases h with
  | closed hc => simp [Pool.streamFor, acquire, hc] at hs
  | refused hc hi hd => simp [Pool.streamFor, acquire, hc, hi, hd, Except.map] at hs
  | hollow hc hi hd =>
    simp [Pool.streamFor, acquire, hc, hi, hd, Except.map, Connection.fresh] at hs
  | kept hlend he hfit hroom =>
    obtain rfl := Option.some.inj ((hlend.streamFor hp).symm.trans hs)
    exact ⟨_, _, _, hlend, he, by rw [if_pos ⟨hfit, hroom⟩]; exact ⟨rfl, rfl⟩⟩
  | dropped hlend he hunfit =>
    obtain rfl := Option.some.inj ((hlend.streamFor hp).symm.trans hs)
    refine ⟨_, _, _, hlend, he, ?_⟩
    rw [if_neg]
    · exact ⟨rfl, rfl⟩
    · rintro ⟨hfit, hroom⟩
      rcases hunfit with hunfit | hunfit
      · rw [hfit] at hunfit
        cases hunfit
      · omega

theorem Ran.disposed {answer : Answer command.Value}
    (h : Ran command pool wire answer changed next) (hp : pool.Sound)
    (hs : pool.streamFor wire = some id) :
    (answer.keepsHealthy = true ∨ ∃ failure, answer = .error failure ∧ failure.kind.breaksOff) ∧
    (if answer.keepsHealthy = true ∧ 0 < pool.capacity.getD 0 then
      ∃ connection rest, changed.idle = connection :: rest ∧ connection.stream = some id
    else next.Closed id) := by
  obtain ⟨link, rest, after, hlend, he, hend⟩ := h.lent hp hs
  have hx := hlend.exchanged hp he
  refine ⟨hx.fit_or_broken, ?_⟩
  split at hend
  · rename_i hkept
    obtain ⟨rfl, rfl⟩ := hend
    rw [if_pos hkept]
    refine ⟨_, _, rfl, ?_⟩
    rw [hx.connection]
    exact (hlend.connection hp).1
  · rename_i hdropped
    obtain ⟨rfl, rfl⟩ := hend
    rw [if_neg hdropped]
    exact ⟨.closed id, List.mem_cons_self, by simp [Event.closes]⟩

theorem discard_eq {connection : Connection} (hs : connection.stream = some id) (wire : Wire σ) :
    connection.discard wire = wire.close id := by
  simp [Connection.discard, Link.close, hs]

theorem discards_shuts (idle : List Connection) (wire : Wire σ) :
    Wire.Shuts (idle.filterMap Connection.stream) wire
      (idle.foldl (fun wire connection => connection.discard wire) wire) := by
  induction idle generalizing wire with
  | nil => exact ⟨rfl, rfl⟩
  | cons connection idle ih =>
    cases hs : connection.stream with
    | none =>
      have hkept : connection.discard wire = wire := by
        simp [Connection.discard, Link.close, hs]
      rw [List.foldl_cons, hkept, List.filterMap_cons_none hs]
      exact ih wire
    | some id =>
      obtain ⟨ho, hj⟩ := ih (wire.close id)
      rw [List.foldl_cons, discard_eq hs, List.filterMap_cons_some hs]
      refine ⟨ho, ?_⟩
      rw [hj, List.map_cons, List.reverse_cons, List.append_assoc]
      rfl

theorem discards_accounted (idle : List Connection)
    (hr : ∀ connection ∈ idle, connection.Resting) (hn : wire.Numbered)
    (hl : wire.live.Perm (idle.filterMap Connection.stream ++ others)) :
    (idle.foldl (fun wire connection => connection.discard wire) wire).Numbered ∧
      (idle.foldl (fun wire connection => connection.discard wire) wire).live.Perm others := by
  induction idle generalizing wire with
  | nil => exact ⟨hn, hl⟩
  | cons connection idle ih =>
    obtain ⟨id, hs⟩ := (hr connection List.mem_cons_self).isOpen
    have hl' : wire.live.Perm (id :: (idle.filterMap Connection.stream ++ others)) := by
      simpa [hs] using hl
    have hid : id < wire.opened := (Wire.mem_live.mp (hl'.mem_iff.mpr List.mem_cons_self)).1
    rw [List.foldl_cons, discard_eq hs]
    exact ih (fun later hm => hr later (List.mem_cons_of_mem _ hm)) (Wire.close_numbered hn hid)
      (Wire.close_live hl')

theorem close_eq (hp : pool.Sound) (wire : Wire σ) :
    pool.close wire = ({ pool with capacity := none, idle := [] },
      pool.idle.foldl (fun wire connection => connection.discard wire) wire) := by
  obtain ⟨endpoint, options, capacity, idle⟩ := pool
  cases capacity with
  | none =>
    obtain rfl : idle = [] := List.eq_nil_of_length_eq_zero (Nat.le_zero.mp hp.bounded)
    rfl
  | some => rfl

theorem closeEach_accounted (pools : List Pool) (hp : ∀ pool ∈ pools, pool.Sound)
    (hn : wire.Numbered) (hl : wire.live.Perm (pools.flatMap streams ++ others)) :
    (closeEach pools wire).2.Numbered ∧ (closeEach pools wire).2.live.Perm others := by
  induction pools generalizing wire with
  | nil => exact ⟨hn, hl⟩
  | cons pool pools ih =>
    have hpool := hp pool List.mem_cons_self
    rw [List.flatMap_cons, List.append_assoc] at hl
    obtain ⟨hn', hl'⟩ := discards_accounted pool.idle hpool.resting hn hl
    simp only [closeEach, close_eq hpool]
    exact ih (fun pool hm => hp pool (List.mem_cons_of_mem _ hm)) hn' hl'

theorem closeEach_spares (pools : List Pool) (hp : ∀ pool ∈ pools, pool.Sound)
    (hnot : other ∉ pools.flatMap streams) : Wire.Spares other wire (closeEach pools wire).2 := by
  induction pools generalizing wire with
  | nil => exact .refl other wire
  | cons pool pools ih =>
    have hpool := hp pool List.mem_cons_self
    simp only [List.flatMap_cons, List.mem_append, not_or] at hnot
    simp only [closeEach, close_eq hpool]
    exact ((discards_shuts pool.idle wire).spares hnot.1).trans
      (ih (fun pool hm => hp pool (List.mem_cons_of_mem _ hm)) hnot.2)

theorem closeEach_pools (pools : List Pool) (hp : ∀ pool ∈ pools, pool.Sound) (wire : Wire σ) :
    (closeEach pools wire).1 = pools.map fun pool => { pool with capacity := none, idle := [] } := by
  induction pools generalizing wire with
  | nil => rfl
  | cons pool pools ih =>
    simp only [closeEach, close_eq (hp pool List.mem_cons_self), List.map_cons]
    rw [ih fun pool hm => hp pool (List.mem_cons_of_mem _ hm)]

end Pool

namespace Engine

/-- The streams of all idle connections. -/
def idleStreams (engine : Engine σ) : List Nat :=
  engine.router.pools.flatMap Pool.streams

theorem idleStreams_put (key : Bytes) (pool : Pool) (engine : Engine σ) : ∃ others,
    engine.idleStreams.Perm ((engine.router.owner key).streams ++ others) ∧
    ((engine.router.put (engine.router.pick key) pool).pools.flatMap Pool.streams).Perm
      (pool.streams ++ others) := by
  have hlt := engine.router.pick_lt key
  refine ⟨(engine.router.pools.eraseIdx (engine.router.pick key)).flatMap Pool.streams, ?_, ?_⟩
  · exact (List.getElem_cons_eraseIdx_perm hlt).symm.flatMap_right Pool.streams
  · exact (List.set_perm_cons_eraseIdx hlt pool).flatMap_right Pool.streams

variable [Network σ] {engine : Engine σ} {id : Nat}

/-- Every open stream belongs to exactly one idle connection. -/
structure Accounted (engine : Engine σ) : Prop where
  sound : engine.Sound
  numbered : engine.wire.Numbered
  live : engine.wire.live.Perm engine.idleStreams

def streamFor (command : Command) (engine : Engine σ) : Option Nat :=
  (engine.router.owner command.key).streamFor engine.wire

theorem Accounted.exchange (he : engine.Accounted) (command : Command) :
    (engine.exchange command).2.Accounted := by
  obtain ⟨pool, next, hr, heq⟩ := exchange_ran command he.sound
  obtain ⟨others, hbefore, hafter⟩ := idleStreams_put command.key pool engine
  obtain ⟨hn, hl⟩ := hr.accounted (he.sound _ (engine.router.owner_mem command.key)) he.numbered
    (he.live.trans hbefore)
  have hs := exchange_sound command he.sound
  rw [heq] at hs ⊢
  exact ⟨hs, hn, hl.trans hafter.symm⟩

theorem close_idle (he : engine.Sound) : engine.close.idleStreams = [] := by
  simp [idleStreams, Engine.close, Router.closeAll, Pool.closeEach_pools _ he, List.flatMap_map, Pool.streams]

theorem Accounted.close (he : engine.Accounted) : engine.close.Accounted := by
  have hl : engine.wire.live.Perm (engine.router.pools.flatMap Pool.streams ++ []) := by
    rw [List.append_nil]
    exact he.live
  obtain ⟨hn, hlive⟩ := Pool.closeEach_accounted _ he.sound he.numbered hl
  refine ⟨closeEach_sound _ _ he.sound, hn, ?_⟩
  rw [close_idle he.sound]
  exact hlive

theorem Accounted.close_live (he : engine.Accounted) : engine.close.wire.live = [] := by
  have hlive := he.close.live
  rw [close_idle he.sound] at hlive
  exact hlive.eq_nil

theorem Accounted.move (he : engine.Accounted) (move : Move) : (engine.move move).Accounted := by
  cases move with
  | exchange command => exact he.exchange command
  | close => exact he.close

theorem Accounted.moves (he : engine.Accounted) (moves : List Move) :
    (engine.moves moves).Accounted := by
  induction moves generalizing engine with
  | nil => exact he
  | cons move moves ih => exact ih (he.move move)

theorem Accounted.spares (he : engine.Accounted) (hc : engine.wire.Closed id) (move : Move) :
    Wire.Spares id engine.wire (engine.move move).wire := by
  have hnot : id ∉ engine.idleStreams := fun hm => hc.not_live (he.live.mem_iff.mpr hm)
  cases move with
  | exchange command =>
    obtain ⟨pool, next, hr, heq⟩ := exchange_ran command he.sound
    simp only [Engine.move, heq]
    apply hr.spares (he.sound _ (engine.router.owner_mem command.key)) he.numbered hc
    intro hm
    exact hnot (List.mem_flatMap.mpr ⟨_, engine.router.owner_mem command.key, hm⟩)
  | close => exact Pool.closeEach_spares _ he.sound hnot

theorem Accounted.spares_all (he : engine.Accounted) (hc : engine.wire.Closed id)
    (moves : List Move) : Wire.Spares id engine.wire (engine.moves moves).wire := by
  induction moves generalizing engine with
  | nil => exact .refl id engine.wire
  | cons move moves ih =>
    have hs := he.spares hc move
    exact hs.trans (ih (he.move move) (hc.spared hs))

theorem exchange_capacity (he : engine.Sound) (command : Command) :
    ∀ pool ∈ (engine.exchange command).2.router.pools,
      ∃ before ∈ engine.router.pools, pool.capacity = before.capacity := by
  obtain ⟨changed, next, hr, heq⟩ := exchange_ran command he
  rw [heq]
  intro pool hm
  rcases List.mem_or_eq_of_mem_set hm with hm | rfl
  · exact ⟨pool, hm, rfl⟩
  · exact ⟨_, engine.router.owner_mem command.key, by rw [hr.settled]⟩

theorem exchange_disposed (he : engine.Sound) (command : Command)
    (hs : engine.streamFor command = some id) :
    ((engine.exchange command).1.keepsHealthy = true ∨
      ∃ failure, (engine.exchange command).1 = .error failure ∧ failure.kind.breaksOff) ∧
    (if (engine.exchange command).1.keepsHealthy = true ∧
        0 < (engine.router.owner command.key).capacity.getD 0 then
      ∃ connection rest, ((engine.exchange command).2.router.owner command.key).idle =
        connection :: rest ∧ connection.stream = some id
    else (engine.exchange command).2.wire.Closed id) := by
  obtain ⟨changed, next, hr, heq⟩ := exchange_ran command he
  rw [heq, Router.owner_put, if_pos rfl]
  exact hr.disposed (he _ (engine.router.owner_mem command.key)) hs

end Engine

namespace Running

variable [Network σ] {running : Running σ} {room id : Nat}

/-- Every pool has room for the same number of idle connections until the client is closed. -/
structure Accounted (room : Nat) (running : Running σ) : Prop where
  engine : running.engine.Accounted
  capacity : ∀ pool ∈ running.client.router.pools,
    pool.capacity = if running.client.closed then none else some room

theorem Accounted.perform (hr : running.Accounted room) (call : Client.Call β) :
    (running.perform call).2.Accounted room := by
  rw [perform_eq]
  split
  · exact hr
  · rename_i request _
    refine ⟨hr.engine.exchange request.command, ?_⟩
    intro pool hm
    obtain ⟨before, hb, hc⟩ := Engine.exchange_capacity hr.engine.sound request.command pool hm
    rw [hc]
    exact hr.capacity before hb

theorem Accounted.close (hr : running.Accounted room) : (running.step .close).Accounted room := by
  simp only [Running.step, Client.close]
  split
  · exact hr
  · refine ⟨hr.engine.close, ?_⟩
    have hpools := Pool.closeEach_pools running.client.router.pools hr.engine.sound running.wire
    intro pool hm
    simp only [Router.closeAll] at hm
    rw [hpools] at hm
    obtain ⟨before, -, rfl⟩ := List.mem_map.mp hm
    rfl

theorem Accounted.step (hr : running.Accounted room) (step : Step) :
    (running.step step).Accounted room := by
  cases step with
  | call call => exact hr.perform call
  | setDefaultTtl ttl =>
    simp only [Running.step, Client.setDefaultTtl]
    split
    · exact hr
    · exact ⟨hr.engine, hr.capacity⟩
  | setClock clock => exact ⟨hr.engine, hr.capacity⟩
  | close => exact hr.close

theorem Accounted.steps (hr : running.Accounted room) (steps : List Step) :
    (running.steps steps).Accounted room := by
  induction steps generalizing running with
  | nil => exact hr
  | cons step steps ih => exact ih (hr.step step)

theorem create_accounted {network : σ} {settings : Settings} {client : Client}
    (hc : Client.create settings (Wire.start network) = .ok client) :
    Accounted settings.idle.toNat ⟨client, Wire.start network⟩ := by
  obtain ⟨hopen, hrouter⟩ := Client.create_router hc
  have hpools := Router.create_pools hrouter
  refine ⟨⟨?_, ?_, ?_⟩, ?_⟩
  · intro pool hm
    obtain ⟨endpoint, rfl⟩ := hpools pool hm
    exact ⟨by simp [Pool.start], by simp [Pool.start]⟩
  · intro event hm
    cases hm
  · have hidle : (Running.mk client (Wire.start network)).engine.idleStreams = [] := by
      simp only [Engine.idleStreams, List.flatMap_eq_nil_iff]
      intro pool hm
      obtain ⟨endpoint, rfl⟩ := hpools pool hm
      rfl
    rw [hidle]
    rfl
  · intro pool hm
    obtain ⟨endpoint, rfl⟩ := hpools pool hm
    simp [hopen, Pool.start]

/-- So it is in every state that a client gets into. -/
theorem reached_accounted {network : σ} {settings : Settings} {client : Client}
    (hc : Client.create settings (Wire.start network) = .ok client) (verbs : List Verb)
    (steps : List Step) :
    ((Running.verbs verbs ⟨client, Wire.start network⟩).steps steps).Accounted
      settings.idle.toNat := by
  rw [verbs_eq, ← steps_append]
  exact (create_accounted hc).steps _

/-- However the client goes on, nothing is asked of the stream again; it is closed. -/
def Retired (id : Nat) (running : Running σ) : Prop :=
  running.wire.Closed id ∧ ∀ (steps : List Step) (verbs : List Verb),
    ∀ event ∈ running.wire.since ((running.steps steps).verbs verbs).wire,
      event.concerns id = false

theorem Accounted.retired (hr : running.Accounted room) (hc : running.wire.Closed id) :
    running.Retired id := by
  refine ⟨hc, ?_⟩
  intro steps verbs
  rw [verbs_eq, ← steps_append]
  apply Wire.Spares.since
  have hs := hr.engine.spares_all hc (running.moves (steps ++ verbs.flatMap Verb.steps))
  rw [← steps_engine] at hs
  exact hs

theorem Accounted.disposed (hr : running.Accounted room) (call : Client.Call β)
    (request : Request β) (hq : call.request running = .ok request)
    (hs : running.engine.streamFor request.command = some id) :
    ((running.engine.exchange request.command).1.keepsHealthy = true ∨
      ∃ failure, (running.engine.exchange request.command).1 = .error failure ∧
        failure.kind.breaksOff) ∧
    (if (running.engine.exchange request.command).1.keepsHealthy = true ∧ 0 < room then
      ∃ connection rest,
        ((running.perform call).2.client.router.owner request.command.key).idle =
          connection :: rest ∧ connection.stream = some id
    else (running.perform call).2.Retired id) := by
  have hopen := (Client.permit_ok (Client.Call.request_permitted hq)).1
  obtain ⟨hends, hd⟩ := Engine.exchange_disposed hr.engine.sound request.command hs
  refine ⟨hends, ?_⟩
  have hnext := hr.perform call
  have hcap := hr.capacity _ (running.engine.router.owner_mem request.command.key)
  rw [perform_eq, hq] at hnext ⊢
  simp only [hopen, Bool.false_eq_true, ↓reduceIte] at hcap
  rw [hcap, Option.getD_some] at hd
  split at hd
  · rename_i hkept
    rw [if_pos hkept]
    exact hd
  · rename_i hdropped
    rw [if_neg hdropped]
    exact hnext.retired hd

end Running

end CacheClient
