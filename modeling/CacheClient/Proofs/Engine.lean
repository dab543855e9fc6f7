import CacheClient.Proofs.Exchanges
import CacheClient.Router

namespace CacheClient

/-- What every idle connection is like: open, sound, and with nothing waiting to be sent. -/
structure Connection.Resting (connection : Connection) : Prop where
  isOpen : ∃ id, connection.stream = some id
  unsent : connection.unsent = []
  healthy : connection.healthy = true

namespace Link

variable [Network σ] {id : Nat} {link after : Link σ}

theorem Exchanged.connection {answer : Answer command.Value}
    (h : Exchanged id command link answer after) :
    after.connection = { link.connection with unread := after.connection.unread } := by
  cases h with
  | unsent => rfl
  | broken _ hr => exact hr.connection
  | replied _ hr => exact hr.connection

theorem Exchanged.fit_or_broken {answer : Answer command.Value}
    (h : Exchanged id command link answer after) :
    answer.keepsHealthy = true ∨ ∃ failure, answer = .error failure ∧ failure.kind.breaksOff := by
  cases h with
  | unsent => exact .inr ⟨_, rfl, Fault.sending_breaksOff _⟩
  | broken _ _ hb => exact .inr ⟨_, rfl, hb⟩
  | replied _ _ hm => exact .inl hm.keepsHealthy

end Link

namespace Pool

variable [Network σ]

/-- Runs an exchange on a borrowed connection and gives the connection back. -/
def run (exchange : Link σ → Answer α × Link σ) (pool : Pool) (wire : Wire σ) :
    Answer α × Pool × Wire σ :=
  match pool.acquire wire with
  | (.error failure, pool, wire) => (.error failure, pool, wire)
  | (.ok connection, pool, wire) =>
    let (answer, link) := exchange ⟨connection, wire⟩
    let connection := link.connection.record answer.keepsHealthy
    let (pool, wire) := pool.release (some connection) link.wire
    (answer, pool, wire)

/-- What holds of every pool at rest. -/
structure Sound (pool : Pool) : Prop where
  resting : ∀ connection ∈ pool.idle, connection.Resting
  bounded : pool.idle.length ≤ pool.capacity.getD 0

/-- A stream on loan: its link, and the pool without it. -/
inductive Lends (pool : Pool) (wire : Wire σ) (id : Nat) : Link σ → Pool → Prop where
  | reused (capacity : pool.capacity = some room) (idle : pool.idle = connection :: rest)
      (stream : connection.stream = some id) :
      Lends pool wire id ⟨connection, wire⟩ { pool with idle := rest }
  | dialed {next : Wire σ} (capacity : pool.capacity = some room) (empty : pool.idle = [])
      (dial : wire.dial pool.endpoint pool.options = (.ok (some id), next)) :
      Lends pool wire id ⟨.fresh (some id), next⟩ pool

/-- All that the exchange of a command on a pool can come to. -/
inductive Ran (command : Command) (pool : Pool) (wire : Wire σ) :
    Answer command.Value → Pool → Wire σ → Prop where
  | closed (final : pool.capacity = none) : Ran command pool wire (.error .closed) pool wire
  | refused {failure : Failure} {next : Wire σ} (capacity : pool.capacity = some room)
      (empty : pool.idle = [])
      (dial : wire.dial pool.endpoint pool.options = (.error failure, next)) :
      Ran command pool wire (.error (dialFailure failure)) pool next
  | hollow {next : Wire σ} (capacity : pool.capacity = some room) (empty : pool.idle = [])
      (dial : wire.dial pool.endpoint pool.options = (.ok none, next)) :
      Ran command pool wire (.error (Fault.sending .notConnected)) pool next
  | kept {id : Nat} {link after : Link σ} {answer : Answer command.Value}
      (lends : pool.Lends wire id link rest) (ends : link.exchange command = (answer, after))
      (fit : answer.keepsHealthy = true) (room : 0 < pool.capacity.getD 0) :
      Ran command pool wire answer { rest with idle := after.connection :: rest.idle } after.wire
  | dropped {id : Nat} {link after : Link σ} {answer : Answer command.Value}
      (lends : pool.Lends wire id link rest) (ends : link.exchange command = (answer, after))
      (unfit : answer.keepsHealthy = false ∨ pool.capacity.getD 0 = 0) :
      Ran command pool wire answer rest (after.wire.close id)

variable {pool rest changed : Pool} {wire : Wire σ} {id : Nat} {link after : Link σ} {command : Command}

theorem Lends.connection (h : pool.Lends wire id link rest) (hp : pool.Sound) :
    link.connection.stream = some id ∧ link.connection.Resting := by
  cases h with
  | reused _ hi hs => exact ⟨hs, hp.resting _ (hi ▸ List.mem_cons_self)⟩
  | dialed => exact ⟨rfl, ⟨id, rfl⟩, rfl, rfl⟩

theorem Lends.exchanged {answer : Answer command.Value} (h : pool.Lends wire id link rest)
    (hp : pool.Sound) (he : link.exchange command = (answer, after)) :
    Link.Exchanged id command link answer after := by
  obtain ⟨hs, hr⟩ := h.connection hp
  have hx := Link.exchange_exchanged command hs hr.unsent
  rwa [he] at hx

theorem Lends.acquire (h : pool.Lends wire id link rest) :
    pool.acquire wire = (.ok link.connection, rest, link.wire) := by
  cases h with
  | reused hc hi _ => simp [Pool.acquire, hc, hi]
  | dialed hc hi hd => simp [Pool.acquire, hc, hi, hd, Except.map]

theorem Lends.subset (h : pool.Lends wire id link rest) :
    ∀ connection ∈ rest.idle, connection ∈ pool.idle := by
  intro connection hm
  cases h with
  | reused _ hi _ => exact hi ▸ List.mem_cons_of_mem _ hm
  | dialed => exact hm

theorem Lends.room (h : pool.Lends wire id link rest) (hp : pool.Sound)
    (hroom : 0 < pool.capacity.getD 0) : rest.idle.length < rest.capacity.getD 0 := by
  cases h with
  | reused _ hi _ =>
    have hb := hp.bounded
    rw [hi, List.length_cons] at hb
    exact hb
  | dialed _ hi => simpa [hi] using hroom

theorem Lends.remains (h : pool.Lends wire id link rest) :
    rest = { pool with idle := rest.idle } ∧ rest.idle.length ≤ pool.idle.length := by
  cases h with
  | reused _ hi _ => exact ⟨rfl, by simp [hi]⟩
  | dialed => exact ⟨rfl, Nat.le_refl _⟩

theorem release_eq (connection : Connection) (hs : connection.stream = some id) (pool : Pool)
    (wire : Wire σ) : pool.release (some connection) wire =
      if connection.healthy = true ∧ pool.idle.length < pool.capacity.getD 0 then
        ({ pool with idle := connection :: pool.idle }, wire)
      else (pool, wire.close id) := by
  obtain ⟨endpoint, options, capacity, idle⟩ := pool
  cases capacity <;>
    simp [release, keeps, Connection.isOpen, hs, Connection.discard, Link.close]

theorem release_hollow (connection : Connection) (hs : connection.stream = none) (pool : Pool)
    (wire : Wire σ) : pool.release (some connection) wire = (pool, wire) := by
  obtain ⟨endpoint, options, capacity, idle⟩ := pool
  cases capacity <;> simp [release, keeps, Connection.isOpen, hs, Connection.discard, Link.close]

theorem run_lent {answer : Answer command.Value} (hp : pool.Sound)
    (hl : pool.Lends wire id link rest) (he : link.exchange command = (answer, after)) :
    Ran command pool wire (pool.run (·.exchange command) wire).1
      (pool.run (·.exchange command) wire).2.1 (pool.run (·.exchange command) wire).2.2 := by
  obtain ⟨hs, hr⟩ := hl.connection hp
  have hc := (hl.exchanged hp he).connection
  have hs' : (after.connection.record answer.keepsHealthy).stream = some id := by
    rw [hc]
    exact hs
  have hh : (after.connection.record answer.keepsHealthy).healthy = answer.keepsHealthy := by
    rw [hc]
    simp [Connection.record, hr.healthy]
  have hcap : rest.capacity = pool.capacity := by rw [hl.remains.1]
  simp only [run, hl.acquire, he, release_eq _ hs', hh]
  -- kept if it is fit and there is room; the exchange itself never changes the health
  by_cases hfit : answer.keepsHealthy = true
  · by_cases hroom : 0 < pool.capacity.getD 0
    · have hrec : after.connection.record true = after.connection := by
        rw [hc]
        simp [Connection.record, hr.healthy]
      simp only [hfit, hl.room hp hroom, and_self, ↓reduceIte, hrec]
      exact .kept hl he hfit hroom
    · have hz : rest.capacity.getD 0 = 0 := by
        rw [hcap]
        omega
      simp only [hz, Nat.not_lt_zero, and_false, ↓reduceIte]
      exact .dropped hl he (.inr (hcap ▸ hz))
  · simp only [hfit, false_and, ↓reduceIte, Bool.false_eq_true]
    exact .dropped hl he (.inl (by simpa using hfit))

theorem run_ran (command : Command) (hp : pool.Sound) (wire : Wire σ) :
    Ran command pool wire (pool.run (·.exchange command) wire).1
      (pool.run (·.exchange command) wire).2.1 (pool.run (·.exchange command) wire).2.2 := by
  -- closed, something idle, or a dial that is refused, comes to nothing or opens a stream
  cases hcap : pool.capacity with
  | none =>
    have ha : pool.acquire wire = (.error .closed, pool, wire) := by simp [acquire, hcap]
    simp only [run, ha]
    exact .closed hcap
  | some capacity =>
    cases hi : pool.idle with
    | cons connection idle =>
      obtain ⟨id, hs⟩ := (hp.resting connection (hi ▸ List.mem_cons_self)).isOpen
      exact @run_lent _ _ _ _ _ _ ⟨connection, wire⟩ _ _ _ hp (.reused hcap hi hs) rfl
    | nil =>
      generalize hd : wire.dial pool.endpoint pool.options = dialed
      obtain ⟨failure | stream, next⟩ := dialed
      · have ha : pool.acquire wire = (.error (dialFailure failure), pool, next) := by
          simp [acquire, hcap, hi, hd, Except.map]
        simp only [run, ha]
        exact .refused hcap hi hd
      · cases stream with
        | none =>
          have ha : pool.acquire wire = (.ok (.fresh none), pool, next) := by
            simp [acquire, hcap, hi, hd, Except.map]
          have hs : (Link.mk (.fresh none) next).connection.stream = none := rfl
          simp only [run, ha, Link.exchange_hollow command hs]
          rw [release_hollow _ rfl]
          exact .hollow hcap hi hd
        | some id =>
          exact @run_lent _ _ _ _ _ _ ⟨.fresh (some id), next⟩ _ _ _ hp (.dialed hcap hi hd) rfl

theorem Ran.settled {answer : Answer command.Value} {next : Wire σ}
    (h : Ran command pool wire answer changed next) :
    changed = { pool with idle := changed.idle } := by
  cases h with
  | closed | refused | hollow => rfl
  | kept hl =>
    rw [hl.remains.1]
  | dropped hl => exact hl.remains.1

theorem Ran.sound {answer : Answer command.Value} {next : Wire σ}
    (h : Ran command pool wire answer changed next) (hp : pool.Sound) : changed.Sound := by
  have hrest {id : Nat} {link : Link σ} {rest : Pool} (hl : pool.Lends wire id link rest) :
      rest.Sound := by
    cases hl with
    | reused _ hi _ =>
      refine ⟨fun connection hm => hp.resting connection (hi ▸ List.mem_cons_of_mem _ hm), ?_⟩
      have hb := hp.bounded
      rw [hi, List.length_cons] at hb
      exact Nat.le_of_succ_le hb
    | dialed => exact hp
  cases h with
  | closed | refused | hollow => exact hp
  | dropped hl => exact hrest hl
  | kept hl he _ hroom =>
    obtain ⟨hs, -, hu, hh⟩ := hl.connection hp
    have hc := (hl.exchanged hp he).connection
    refine ⟨?_, hl.room hp hroom⟩
    intro connection hm
    rcases List.mem_cons.mp hm with rfl | hm
    · rw [hc]
      exact ⟨⟨_, hs⟩, hu, hh⟩
    · exact (hrest hl).resting connection hm

theorem close_sound (hp : pool.Sound) (wire : Wire σ) : (pool.close wire).1.Sound := by
  unfold close
  split
  · exact hp
  · exact ⟨by simp, by simp⟩

end Pool

namespace Router

def owner (key : Bytes) (router : Router) : Pool :=
  router.pools.get ⟨router.pick key, router.pick_lt key⟩

theorem owner_mem (key : Bytes) (router : Router) : router.owner key ∈ router.pools :=
  List.get_mem ..

theorem owner_getElem? (key : Bytes) (router : Router) :
    router.pools[router.pick key]? = some (router.owner key) :=
  List.getElem?_eq_getElem (router.pick_lt key)

theorem owner_put (key other : Bytes) (pool : Pool) (router : Router) :
    (router.put (router.pick key) pool).owner other =
      if router.pick other = router.pick key then pool else router.owner other := by
  simp [owner, put, pick, size, List.getElem_set, eq_comm]

variable [Network σ]

theorem run_eq (key : Bytes) (exchange : Link σ → Answer α × Link σ) (router : Router)
    (wire : Wire σ) : router.run key exchange wire =
      let (answer, pool, wire) := (router.owner key).run exchange wire
      (answer, router.put (router.pick key) pool, wire) := by
  have hlt := router.pick_lt key
  simp only [run, borrow, Pool.run, owner]
  generalize (router.pools.get ⟨router.pick key, hlt⟩).acquire wire = acquired
  obtain ⟨failure | connection, pool, next⟩ := acquired
  · rfl
  · simp [Except.map, release, put, hlt]

end Router

structure Engine (σ : Type) where
  router : Router
  wire : Wire σ

inductive Move where
  | exchange (command : Command)
  | close

namespace Engine

variable [Network σ]

def exchange (command : Command) (engine : Engine σ) : Answer command.Value × Engine σ :=
  let (answer, router, wire) := engine.router.run command.key (·.exchange command) engine.wire
  (answer, ⟨router, wire⟩)

def close (engine : Engine σ) : Engine σ :=
  ⟨(engine.router.closeAll engine.wire).1, (engine.router.closeAll engine.wire).2⟩

def move : Move → Engine σ → Engine σ
  | .exchange command, engine => (engine.exchange command).2
  | .close, engine => engine.close

def moves (moves : List Move) (engine : Engine σ) : Engine σ :=
  moves.foldl (fun engine move => engine.move move) engine

def Sound (engine : Engine σ) : Prop :=
  ∀ pool ∈ engine.router.pools, pool.Sound

variable {engine : Engine σ}

theorem moves_append (first rest : List Move) (engine : Engine σ) :
    engine.moves (first ++ rest) = (engine.moves first).moves rest :=
  List.foldl_append

/-- An exchange, seen from the pool that it runs on. -/
theorem exchange_ran (command : Command) (he : engine.Sound) : ∃ pool wire,
    Pool.Ran command (engine.router.owner command.key) engine.wire (engine.exchange command).1
      pool wire ∧
    (engine.exchange command).2 = ⟨engine.router.put (engine.router.pick command.key) pool, wire⟩ := by
  have hr := Pool.run_ran command (he _ (engine.router.owner_mem command.key)) engine.wire
  simp only [exchange, Router.run_eq]
  exact ⟨_, _, hr, rfl⟩

theorem exchange_sound (command : Command) (he : engine.Sound) :
    (engine.exchange command).2.Sound := by
  obtain ⟨after, next, hr, heq⟩ := exchange_ran command he
  rw [heq]
  intro pool hm
  rcases List.mem_or_eq_of_mem_set hm with hm | rfl
  · exact he pool hm
  · exact hr.sound (he _ (engine.router.owner_mem command.key))

theorem closeEach_sound (pools : List Pool) (wire : Wire σ) (hp : ∀ pool ∈ pools, pool.Sound) :
    ∀ pool ∈ (Pool.closeEach pools wire).1, pool.Sound := by
  induction pools generalizing wire with
  | nil => simp [Pool.closeEach]
  | cons first pools ih =>
    intro pool hm
    rcases List.mem_cons.mp hm with rfl | hm
    · exact Pool.close_sound (hp first List.mem_cons_self) wire
    · exact ih _ (fun pool hm => hp pool (List.mem_cons_of_mem _ hm)) pool hm

theorem move_sound (move : Move) (he : engine.Sound) : (engine.move move).Sound := by
  cases move with
  | exchange command => exact exchange_sound command he
  | close => exact closeEach_sound _ _ he

theorem moves_sound (he : engine.Sound) (moves : List Move) : (engine.moves moves).Sound := by
  induction moves generalizing engine with
  | nil => exact he
  | cons move moves ih => exact ih (move_sound move he)

end Engine

end CacheClient
