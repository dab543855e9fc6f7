import CacheClient.Pool

namespace CacheClient

structure Deposit where
  connection : Connection
  taken : Bool := false

namespace Deposit

def waiting (deposits : List Deposit) : List Connection :=
  (deposits.filter fun deposit => !deposit.taken).map connection

def take : List Deposit → List Deposit
  | [] => []
  | deposit :: deposits =>
    if deposit.taken then deposit :: take deposits else { deposit with taken := true } :: deposits

theorem waiting_take (deposits : List Deposit) : waiting (take deposits) = (waiting deposits).tail := by
  induction deposits with
  | nil => rfl
  | cons deposit deposits ih =>
    cases ht : deposit.taken with
    | false => simp [take, waiting, ht]
    | true =>
      have hrest : waiting (deposit :: deposits) = waiting deposits := by
        simp [waiting, ht]
      rw [hrest, ← ih]
      simp [take, waiting, ht]

end Deposit

inductive Use (σ : Type) where
  | acquire
  | release (connection : Option Connection)
  | close
  | elsewhere (change : Wire σ → Wire σ)

/-- What the uses of a pool so far oblige it to: of all connections that were stored, to hand out the one
stored last that has not been taken yet. -/
structure Ledger where
  room : Nat
  closed : Bool := false
  deposits : List Deposit := []

namespace Ledger

def waiting (ledger : Ledger) : List Connection :=
  Deposit.waiting ledger.deposits

/-- The connection stored last of those that were not taken yet. -/
def latest? (ledger : Ledger) : Option Connection :=
  (ledger.deposits.find? fun deposit => !deposit.taken).map Deposit.connection

theorem latest?_eq (ledger : Ledger) : ledger.latest? = ledger.waiting.head? := by
  rw [latest?, waiting, Deposit.waiting, List.head?_map, List.head?_filter]

/-- Whether a connection that is given back is to be stored. -/
def Stores (connection : Connection) (ledger : Ledger) : Prop :=
  ledger.closed = false ∧ connection.healthy = true ∧ connection.isOpen = true ∧
    ledger.waiting.length < ledger.room

instance : Decidable (Stores connection ledger) :=
  inferInstanceAs (Decidable (_ ∧ _ ∧ _ ∧ _))

def enter : Use σ → Ledger → Ledger
  | .acquire, ledger =>
    if ledger.closed then ledger else { ledger with deposits := Deposit.take ledger.deposits }
  | .release (some connection), ledger =>
    if ledger.Stores connection then { ledger with deposits := ⟨connection, false⟩ :: ledger.deposits }
    else ledger
  | .close, ledger => { ledger with closed := true }
  | .release none, ledger => ledger
  | .elsewhere _, ledger => ledger

def enterAll (uses : List (Use σ)) (ledger : Ledger) : Ledger :=
  uses.foldl (fun ledger use => ledger.enter use) ledger

theorem enterAll_room (uses : List (Use σ)) (ledger : Ledger) :
    (ledger.enterAll uses).room = ledger.room := by
  induction uses generalizing ledger with
  | nil => rfl
  | cons use uses ih =>
    have hfirst : (ledger.enter use).room = ledger.room := by
      unfold enter
      split
      · split <;> rfl
      · split <;> rfl
      · rfl
      · rfl
      · rfl
    rw [← hfirst]
    exact ih _

theorem enterAll_closed (uses : List (Use σ)) (ledger : Ledger) :
    (ledger.enterAll uses).closed = true ↔ ledger.closed = true ∨ .close ∈ uses := by
  induction uses generalizing ledger with
  | nil => simp [enterAll]
  | cons use uses ih =>
    have hfirst : (ledger.enter use).closed = true ↔ ledger.closed = true ∨ .close = use := by
      unfold enter
      split
      · split <;> simp
      · split <;> simp
      · simp
      · simp
      · simp
    rw [List.mem_cons, ← or_assoc, ← hfirst]
    exact ih _

end Ledger

/-- What one who asks for a connection gets where a dial is needed for it: a fresh connection, on the
stream that was opened if one was, or a connection error, which names any other kind of failure that it
stands for. -/
def Dialed.answer (id : Nat) : Dialed → Answer Connection
  | opened => .ok (.fresh (some id))
  | nothing => .ok (.fresh none)
  | refused failure =>
    .error {
      kind := .connectionError
      message :=
        if failure.kind = .connectionError then failure.message
        else failure.kind.name ++ ascii ": " ++ failure.message
      causes := failure.causes }

theorem Pool.dialFailure_eq (id : Nat) (failure : Failure) :
    .error (Pool.dialFailure failure) = Dialed.answer id (.refused failure) := by
  simp only [Pool.dialFailure, Dialed.answer]
  split
  · obtain ⟨kind, message, causes⟩ := failure
    simp_all
  · rfl

theorem Wire.dial_answer [Network σ] (endpoint : Endpoint) (options : DialOptions) (wire : Wire σ) :
    ((wire.dial endpoint options).1.mapError Pool.dialFailure).map Connection.fresh =
      (Network.dial wire.opened endpoint options wire.state).1.answer wire.opened := by
  unfold Wire.dial
  split <;> rename_i hd
  · rw [hd]
    rfl
  · rw [hd]
    rfl
  · rw [hd]
    exact Pool.dialFailure_eq _ _

theorem Wire.dial_once [Network σ] (endpoint : Endpoint) (options : DialOptions) (wire : Wire σ) :
    ∃ opened, (wire.dial endpoint options).2.journal =
      .dialed endpoint options opened :: wire.journal := by
  unfold Wire.dial
  split <;> exact ⟨_, rfl⟩

/-- A pool, and the wire that its streams run over. -/
structure Depot (σ : Type) where
  pool : Pool
  wire : Wire σ

namespace Depot

variable [Network σ]

def use : Use σ → Depot σ → Depot σ
  | .acquire, ⟨pool, wire⟩ =>
    let (_, pool, wire) := pool.acquire wire
    ⟨pool, wire⟩
  | .release connection, ⟨pool, wire⟩ =>
    let (pool, wire) := pool.release connection wire
    ⟨pool, wire⟩
  | .close, ⟨pool, wire⟩ =>
    let (pool, wire) := pool.close wire
    ⟨pool, wire⟩
  | .elsewhere change, ⟨pool, wire⟩ => ⟨pool, change wire⟩

def uses (uses : List (Use σ)) (depot : Depot σ) : Depot σ :=
  uses.foldl (fun depot use => depot.use use) depot

end Depot

namespace Pool

/-- A pool is as its ledger says: open, with the idle connections that it owes, or closed; all of them fit
for use, and no more than there is room for. -/
structure Follows (endpoint : Endpoint) (options : DialOptions) (ledger : Ledger) (pool : Pool) :
    Prop where
  endpoint : pool.endpoint = endpoint
  options : pool.options = options
  opened : ledger.closed = false → pool.capacity = some ledger.room ∧ pool.idle = ledger.waiting
  closed : ledger.closed = true → pool.capacity = none ∧ pool.idle = []
  fit : ∀ connection ∈ pool.idle, connection.healthy = true ∧ connection.isOpen = true
  bounded : pool.idle.length ≤ ledger.room

theorem start_follows (endpoint : Endpoint) (options : DialOptions) (idle : Int) :
    Follows endpoint options ⟨idle.toNat, false, []⟩ (start endpoint options idle) where
  endpoint := rfl
  options := rfl
  opened := fun _ => ⟨rfl, rfl⟩
  closed := fun hc => by cases hc
  fit := by simp [start]
  bounded := Nat.zero_le _

variable [Network σ] {endpoint : Endpoint} {options : DialOptions} {ledger : Ledger} {pool : Pool}
variable {connection : Connection} {wire : Wire σ}

theorem Follows.isClosed (h : Follows endpoint options ledger pool) :
    pool.isClosed = ledger.closed := by
  cases hc : ledger.closed with
  | false => simp [Pool.isClosed, (h.opened hc).1]
  | true => simp [Pool.isClosed, (h.closed hc).1]

theorem Follows.acquire_closed (h : Follows endpoint options ledger pool)
    (hc : ledger.closed = true) : pool.acquire wire = (.error .closed, pool, wire) := by
  simp [acquire, (h.closed hc).1]

theorem Follows.acquire_latest (h : Follows endpoint options ledger pool)
    (ho : ledger.closed = false) (hl : ledger.latest? = some connection) :
    pool.acquire wire = (.ok connection, { pool with idle := pool.idle.tail }, wire) := by
  obtain ⟨hroom, hidle⟩ := h.opened ho
  rw [ledger.latest?_eq, ← hidle] at hl
  obtain ⟨rest, hrest⟩ := List.head?_eq_some_iff.mp hl
  simp [acquire, hroom, hrest]

theorem Follows.acquire_dials (h : Follows endpoint options ledger pool)
    (ho : ledger.closed = false) (hl : ledger.latest? = none) :
    pool.acquire wire =
      (((wire.dial endpoint options).1.mapError dialFailure).map Connection.fresh, pool,
        (wire.dial endpoint options).2) := by
  obtain ⟨hroom, hidle⟩ := h.opened ho
  rw [ledger.latest?_eq, ← hidle, List.head?_eq_none_iff] at hl
  simp [acquire, hroom, hl, h.endpoint, h.options]

theorem Follows.acquire_pool (h : Follows endpoint options ledger pool)
    (ho : ledger.closed = false) :
    (pool.acquire wire).2.1 = { pool with idle := pool.idle.tail } := by
  cases hl : ledger.latest? with
  | some connection => rw [h.acquire_latest ho hl]
  | none =>
    rw [h.acquire_dials ho hl]
    rw [ledger.latest?_eq, ← (h.opened ho).2, List.head?_eq_none_iff] at hl
    rw [hl, List.tail_nil, ← hl]

theorem Follows.acquire (h : Follows endpoint options ledger pool) :
    Follows endpoint options (ledger.enter (.acquire : Use σ)) (pool.acquire wire).2.1 := by
  cases hc : ledger.closed with
  | true =>
    rw [h.acquire_closed hc, Ledger.enter, if_pos hc]
    exact h
  | false =>
    obtain ⟨hroom, hidle⟩ := h.opened hc
    have htake : Deposit.waiting (Deposit.take ledger.deposits) = pool.idle.tail := by
      rw [Deposit.waiting_take, hidle]
      rfl
    rw [h.acquire_pool hc, Ledger.enter, if_neg (by simp [hc])]
    refine ⟨h.endpoint, h.options, fun _ => ⟨hroom, htake.symm⟩, ?_, ?_, ?_⟩
    · intro hclosed
      cases hc.symm.trans hclosed
    · intro connection hm
      exact h.fit connection (List.mem_of_mem_tail hm)
    · have hlength := pool.idle.length_tail
      have hbounded := h.bounded
      show pool.idle.tail.length ≤ ledger.room
      omega

theorem Follows.keeps (h : Follows endpoint options ledger pool) (connection : Connection) :
    pool.keeps connection = decide (ledger.Stores connection) := by
  cases hc : ledger.closed with
  | false =>
    obtain ⟨hroom, hidle⟩ := h.opened hc
    simp [Pool.keeps, Ledger.Stores, hroom, hidle, hc, Bool.and_assoc]
  | true => simp [Pool.keeps, Ledger.Stores, (h.closed hc).1, hc]

theorem Follows.release_stored (h : Follows endpoint options ledger pool)
    (hs : ledger.Stores connection) :
    pool.release (some connection) wire = ({ pool with idle := connection :: pool.idle }, wire) := by
  simp [Pool.release, h.keeps, hs]

theorem Follows.release_closed (h : Follows endpoint options ledger pool)
    (hs : ¬ ledger.Stores connection) :
    pool.release (some connection) wire = (pool, connection.discard wire) := by
  simp [Pool.release, h.keeps, hs]

theorem Follows.release (h : Follows endpoint options ledger pool) (connection : Option Connection) :
    Follows endpoint options (ledger.enter (.release connection : Use σ))
      (pool.release connection wire).1 := by
  cases connection with
  | none => exact h
  | some connection =>
    by_cases hs : ledger.Stores connection
    · rw [h.release_stored hs, Ledger.enter, if_pos hs]
      obtain ⟨hc, hhealthy, hopen, hroom⟩ := hs
      obtain ⟨hcapacity, hidle⟩ := h.opened hc
      refine ⟨h.endpoint, h.options, fun _ => ⟨hcapacity, ?_⟩, ?_, ?_, ?_⟩
      · simp [Ledger.waiting, Deposit.waiting, hidle]
      · intro hclosed
        cases hc.symm.trans hclosed
      · rw [List.forall_mem_cons]
        exact ⟨⟨hhealthy, hopen⟩, h.fit⟩
      · rw [← hidle] at hroom
        exact hroom
    · rw [h.release_closed hs, Ledger.enter, if_neg hs]
      exact h

theorem Follows.close (h : Follows endpoint options ledger pool) :
    Follows endpoint options (ledger.enter (.close : Use σ)) (pool.close wire).1 := by
  have hpool : (pool.close wire).1 = { pool with capacity := none, idle := [] } := by
    cases hc : ledger.closed with
    | false => simp [Pool.close, (h.opened hc).1]
    | true =>
      obtain ⟨hcapacity, hidle⟩ := h.closed hc
      have hsame : (pool.close wire).1 = pool := by simp [Pool.close, hcapacity]
      rw [hsame, ← hcapacity, ← hidle]
  rw [hpool]
  refine ⟨h.endpoint, h.options, ?_, fun _ => ⟨rfl, rfl⟩, by simp, Nat.zero_le _⟩
  intro ho
  cases ho

/-- A pool and its ledger stay in step. -/
theorem Follows.use {depot : Depot σ} (h : Follows endpoint options ledger depot.pool) (use : Use σ) :
    Follows endpoint options (ledger.enter use) (depot.use use).pool := by
  cases use with
  | acquire => exact h.acquire
  | release connection => exact h.release connection
  | close => exact h.close
  | elsewhere change => exact h

theorem Follows.uses {depot : Depot σ} (h : Follows endpoint options ledger depot.pool)
    (uses : List (Use σ)) :
    Follows endpoint options (ledger.enterAll uses) (depot.uses uses).pool := by
  induction uses generalizing ledger depot with
  | nil => exact h
  | cons use uses ih => exact ih (h.use use)

/-- A pool is a stack of bounded height whose close is final. Whatever is done with it, and whatever
others do on the network meanwhile, it hands out the connection stored last that was not taken yet; it
dials once if there is none, and otherwise not; it stores a connection exactly if it is open, has room
and the connection is fit for use, and closes it if not. -/
theorem bounded_stack (endpoint : Endpoint) (options : DialOptions) (idle : Int) (before : Wire σ)
    (uses : List (Use σ)) :
    let depot := (Depot.mk (start endpoint options idle) before).uses uses
    let ledger := (Ledger.mk idle.toNat false []).enterAll uses
    let pool := depot.pool
    let wire := depot.wire
    (pool.isClosed = true ↔ .close ∈ uses) ∧
    (.close ∉ uses → pool.idle = ledger.waiting ∧ pool.idle.length ≤ idle.toNat) ∧
    (.close ∈ uses → pool.idle = [] ∧ pool.acquire wire = (.error .closed, pool, wire)) ∧
    (∀ connection ∈ pool.idle, connection.healthy = true ∧ connection.isOpen = true) ∧
    (.close ∉ uses → ∀ connection, ledger.latest? = some connection →
      pool.acquire wire = (.ok connection, { pool with idle := pool.idle.tail }, wire)) ∧
    (.close ∉ uses → ledger.latest? = none →
      (pool.acquire wire).1 =
        (Network.dial wire.opened endpoint options wire.state).1.answer wire.opened ∧
      (pool.acquire wire).2.1 = pool ∧
      ∃ opened, (pool.acquire wire).2.2.journal =
        .dialed endpoint options opened :: wire.journal) ∧
    (∀ connection, .close ∉ uses ∧ connection.healthy = true ∧ connection.isOpen = true ∧
        pool.idle.length < idle.toNat →
      pool.release (some connection) wire =
        ({ pool with idle := connection :: pool.idle }, wire)) ∧
    (∀ connection, ¬ (.close ∉ uses ∧ connection.healthy = true ∧ connection.isOpen = true ∧
        pool.idle.length < idle.toNat) →
      pool.release (some connection) wire =
        (pool, match connection.stream with | none => wire | some id => wire.close id)) ∧
    pool.release none wire = (pool, wire) := by
  intro depot ledger pool wire
  have hfollows : Follows endpoint options ledger pool :=
    (start_follows endpoint options idle).uses uses
  have hclosed : ledger.closed = true ↔ .close ∈ uses := by
    simpa using Ledger.enterAll_closed uses ⟨idle.toNat, false, []⟩
  have hopened : ledger.closed = false ↔ .close ∉ uses := by
    rw [← hclosed, Bool.not_eq_true]
  have hroom : ledger.room = idle.toNat := Ledger.enterAll_room uses _
  -- the ledger's test, told of the pool that follows it
  have hstores : ∀ connection, ledger.Stores connection ↔ .close ∉ uses ∧
      connection.healthy = true ∧ connection.isOpen = true ∧ pool.idle.length < idle.toNat := by
    intro connection
    rw [Ledger.Stores, hroom, hopened]
    apply and_congr_right
    intro ho
    rw [(hfollows.opened (hopened.mpr ho)).2]
  refine ⟨?_, ?_, ?_, hfollows.fit, ?_, ?_, ?_, ?_, rfl⟩
  · rw [hfollows.isClosed, hclosed]
  · intro ho
    exact ⟨(hfollows.opened (hopened.mpr ho)).2, hroom ▸ hfollows.bounded⟩
  · intro hc
    exact ⟨(hfollows.closed (hclosed.mpr hc)).2, hfollows.acquire_closed (hclosed.mpr hc)⟩
  · intro ho connection hl
    exact hfollows.acquire_latest (hopened.mpr ho) hl
  · intro ho hl
    rw [hfollows.acquire_dials (hopened.mpr ho) hl]
    exact ⟨wire.dial_answer endpoint options, rfl, wire.dial_once endpoint options⟩
  · intro connection hs
    exact hfollows.release_stored ((hstores connection).mpr hs)
  · intro connection hs
    exact hfollows.release_closed fun h => hs ((hstores connection).mp h)

example (before : Wire σ) :
    let depot := (Depot.mk (start endpoint options 2) before).uses
      [.release (some (.fresh (some 0))), .release (some (.fresh (some 1))),
        .release (some (.fresh (some 2)))]
    (depot.pool.acquire depot.wire).1 = .ok (.fresh (some 1)) := rfl

end Pool

end CacheClient
