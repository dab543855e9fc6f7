import CacheClient.Proofs.Sites

namespace CacheClient

/-- A connection as it is seen at an endpoint with these streams. -/
def Connection.localize (streams : List Nat) (connection : Connection) : Connection :=
  { connection with stream := connection.stream.bind (Event.number · streams) }

/-- A pool as it is seen at its endpoint, which has these streams. -/
def Pool.localize (streams : List Nat) (pool : Pool) : Pool :=
  { pool with idle := pool.idle.map (Connection.localize streams) }

variable {endpoint : Endpoint} {streams mirrored : List Nat}

section Twins

variable {related : Wire σ → Wire τ → Prop} {wire : Wire σ} {mirror : Wire τ}
  {link : Link σ} {twin : Link τ} {connection other : Connection}

theorem Connection.twins (hsame : connection.localize streams = other.localize mirrored)
    (hs : ∃ id, connection.stream = some id ∧ id ∈ streams)
    (hs' : ∃ id, other.stream = some id ∧ id ∈ mirrored) (hr : related wire mirror) :
    Link.Twins (Wire.Paired streams mirrored) related ⟨connection, wire⟩ ⟨other, mirror⟩ := by
  obtain ⟨stream, unread, unsent, healthy⟩ := connection
  obtain ⟨stream', unread', unsent', healthy'⟩ := other
  obtain ⟨id, rfl, hm⟩ := hs
  obtain ⟨echo, rfl, hm'⟩ := hs'
  obtain ⟨hnumber, rfl, rfl, rfl⟩ := Connection.mk.inj hsame
  obtain ⟨k, hk⟩ := Event.number_of_mem hm
  exact .opened ⟨k, hk, hnumber.symm.trans hk⟩ hr

theorem Link.Twins.localize (h : Twins (Wire.Paired streams mirrored) related link twin) :
    link.connection.localize streams = twin.connection.localize mirrored := by
  cases h with
  | closed => rfl
  | opened hp =>
    obtain ⟨k, hk, hk'⟩ := hp
    simp [Connection.localize, hk, hk']

end Twins

namespace Pool

variable [Network τ] {pool echo : Pool} {wire mirror : Wire (Sites τ)}

theorem acquire_aligned (hp : pool.endpoint = endpoint)
    (hsame : pool.localize streams = echo.localize mirrored) (hh : pool.Homed wire)
    (hh' : echo.Homed mirror) (h : Wire.Aligned endpoint streams mirrored wire mirror) :
    ∃ streams' mirrored',
      (pool.acquire wire).2.1.localize streams' = (echo.acquire mirror).2.1.localize mirrored' ∧
      ((∃ failure, (pool.acquire wire).1 = .error failure ∧ (echo.acquire mirror).1 = .error failure ∧
          Wire.Aligned endpoint streams' mirrored' (pool.acquire wire).2.2 (echo.acquire mirror).2.2) ∨
        ∃ connection other, (pool.acquire wire).1 = .ok connection ∧
          (echo.acquire mirror).1 = .ok other ∧
          Link.Twins (Wire.Paired streams' mirrored') (Wire.Aligned endpoint streams' mirrored')
            ⟨connection, (pool.acquire wire).2.2⟩ ⟨other, (echo.acquire mirror).2.2⟩) := by
  obtain ⟨_, options, capacity, idle⟩ := pool
  obtain ⟨_, options', capacity', idle'⟩ := echo
  -- pools seen alike have as many idle connections, so that both hand one out or both dial
  obtain ⟨rfl, rfl, rfl, hidle⟩ := Pool.mk.inj hsame
  obtain rfl := hp
  cases capacity with
  | none => exact ⟨streams, mirrored, hsame, .inl ⟨.closed, rfl, rfl, h⟩⟩
  | some room =>
    cases idle with
    | cons first idle =>
      cases idle' with
      | nil => cases hidle
      | cons first' idle' =>
        obtain ⟨hfirst, hrest⟩ := List.cons.inj hidle
        refine ⟨streams, mirrored, ?_, .inr ⟨first, first', rfl, rfl, ?_⟩⟩
        · exact congrArg (Pool.mk _ options (some room)) hrest
        · refine Connection.twins hfirst ?_ ?_ h
          · exact h.lists.1 ▸ hh first List.mem_cons_self
          · exact h.lists.2 ▸ hh' first' List.mem_cons_self
    | nil =>
      obtain rfl : idle' = [] := List.map_eq_nil_iff.mp hidle.symm
      simp only [acquire]
      rcases h.dial options with ⟨hanswer, hnothing, hnext⟩ | ⟨id, echo, hid, hid', hnext⟩
      · refine ⟨streams, mirrored, rfl, ?_⟩
        rw [← hanswer]
        cases hd : (wire.dial _ options).1 with
        | error failure => exact .inl ⟨dialFailure failure, rfl, rfl, hnext⟩
        | ok stream =>
          cases stream with
          | some id => exact absurd hd (hnothing id)
          | none => exact .inr ⟨.fresh none, .fresh none, rfl, rfl, .closed hnext⟩
      · refine ⟨id :: streams, echo :: mirrored, rfl, .inr ⟨.fresh (some id), .fresh (some echo), ?_⟩⟩
        rw [hid, hid']
        refine ⟨rfl, rfl, .opened ⟨streams.length, Event.number_cons id streams, ?_⟩ hnext⟩
        rw [h.count]
        exact Event.number_cons echo mirrored

theorem release_aligned {link twin : Link (Sites τ)}
    (hsame : pool.localize streams = echo.localize mirrored)
    (h : Link.Twins (Wire.Paired streams mirrored) (Wire.Aligned endpoint streams mirrored) link twin) :
    (pool.release (some link.connection) link.wire).1.localize streams =
        (echo.release (some twin.connection) twin.wire).1.localize mirrored ∧
      Wire.Aligned endpoint streams mirrored (pool.release (some link.connection) link.wire).2
        (echo.release (some twin.connection) twin.wire).2 := by
  obtain ⟨home, options, capacity, idle⟩ := pool
  obtain ⟨_, options', capacity', idle'⟩ := echo
  obtain ⟨rfl, rfl, rfl, hidle⟩ := Pool.mk.inj hsame
  have hlength : idle.length = idle'.length := by simpa using congrArg List.length hidle
  have hkeeps : (Pool.mk home options capacity idle).keeps link.connection =
      (Pool.mk home options capacity idle').keeps twin.connection := by
    unfold keeps
    cases capacity with
    | none => rfl
    | some room => cases h <;> simp [Connection.isOpen, hlength]
  simp only [release, ← hkeeps]
  split
  · refine ⟨?_, h.wires⟩
    simp only [localize, List.map_cons, h.localize, hidle]
  · exact ⟨hsame, (h.close (Wire.Aligned.mirrors endpoint streams mirrored)).wires⟩

theorem run_aligned (hp : pool.endpoint = endpoint)
    (hsame : pool.localize streams = echo.localize mirrored) (hh : pool.Homed wire)
    (hh' : echo.Homed mirror) (h : Wire.Aligned endpoint streams mirrored wire mirror)
    (dialogue : Dialogue α) :
    (pool.run dialogue.run wire).1 = (echo.run dialogue.run mirror).1 ∧
      ∃ streams' mirrored',
        (pool.run dialogue.run wire).2.1.localize streams' =
          (echo.run dialogue.run mirror).2.1.localize mirrored' ∧
        Wire.Aligned endpoint streams' mirrored' (pool.run dialogue.run wire).2.2
          (echo.run dialogue.run mirror).2.2 := by
  obtain ⟨streams', mirrored', hrest, hlent⟩ := acquire_aligned hp hsame hh hh' h
  simp only [run]
  generalize pool.acquire wire = acquired at *
  generalize echo.acquire mirror = acquired' at *
  obtain ⟨answer, rest, next⟩ := acquired
  obtain ⟨answer', rest', next'⟩ := acquired'
  rcases hlent with ⟨failure, rfl, rfl, hnext⟩ | ⟨connection, other, rfl, rfl, htwins⟩
  · exact ⟨rfl, streams', mirrored', hrest, hnext⟩
  · obtain ⟨hanswer, hafter⟩ :=
      dialogue.run_twins (Wire.Aligned.mirrors endpoint streams' mirrored') htwins
    dsimp only at *
    generalize dialogue.run ⟨connection, next⟩ = held at *
    generalize dialogue.run ⟨other, next'⟩ = held' at *
    obtain ⟨answer, link⟩ := held
    obtain ⟨_, twin⟩ := held'
    obtain rfl := hanswer
    have hrecord := hafter.update (Connection.record answer.keepsHealthy) fun _ _ => rfl
    obtain ⟨hreturned, hlast⟩ := release_aligned hrest hrecord
    exact ⟨rfl, streams', mirrored', hreturned, hlast⟩

theorem discards_aligned {idle echoes : List Connection}
    (hsame : idle.map (Connection.localize streams) = echoes.map (Connection.localize mirrored))
    (hs : ∀ connection ∈ idle, ∃ id, connection.stream = some id ∧ id ∈ streams)
    (hs' : ∀ connection ∈ echoes, ∃ id, connection.stream = some id ∧ id ∈ mirrored)
    (h : Wire.Aligned endpoint streams mirrored wire mirror) :
    Wire.Aligned endpoint streams mirrored
      (idle.foldl (fun wire connection => connection.discard wire) wire)
      (echoes.foldl (fun wire connection => connection.discard wire) mirror) := by
  induction idle generalizing echoes wire mirror with
  | nil =>
    obtain rfl : echoes = [] := List.map_eq_nil_iff.mp hsame.symm
    exact h
  | cons first idle ih =>
    cases echoes with
    | nil => cases hsame
    | cons first' echoes =>
      obtain ⟨hfirst, hrest⟩ := List.cons.inj hsame
      have htwins := Connection.twins hfirst (hs first List.mem_cons_self)
        (hs' first' List.mem_cons_self) h
      simp only [List.foldl_cons]
      exact ih hrest (fun connection hm => hs connection (List.mem_cons_of_mem _ hm))
        (fun connection hm => hs' connection (List.mem_cons_of_mem _ hm))
        (htwins.close (Wire.Aligned.mirrors endpoint streams mirrored)).wires

theorem close_aligned (hp : pool.endpoint = endpoint)
    (hsame : pool.localize streams = echo.localize mirrored) (hh : pool.Homed wire)
    (hh' : echo.Homed mirror) (h : Wire.Aligned endpoint streams mirrored wire mirror) :
    (pool.close wire).1.localize streams = (echo.close mirror).1.localize mirrored ∧
      Wire.Aligned endpoint streams mirrored (pool.close wire).2 (echo.close mirror).2 := by
  obtain ⟨_, options, capacity, idle⟩ := pool
  obtain ⟨_, options', capacity', idle'⟩ := echo
  obtain ⟨rfl, rfl, rfl, hidle⟩ := Pool.mk.inj hsame
  obtain rfl := hp
  cases capacity with
  | none => exact ⟨hsame, h⟩
  | some room => exact ⟨rfl, discards_aligned hidle (h.lists.1 ▸ hh) (h.lists.2 ▸ hh') h⟩

def Alike (endpoint : Endpoint) (streams mirrored : List Nat) (pools echoes : List Pool) : Prop :=
  ∀ (j : Nat) (pool echo : Pool), pools[j]? = some pool → echoes[j]? = some echo →
    pool.endpoint = endpoint → pool.localize streams = echo.localize mirrored

theorem closeEach_aligned {pools echoes : List Pool}
    (hends : pools.map Pool.endpoint = echoes.map Pool.endpoint)
    (halike : Alike endpoint streams mirrored pools echoes) (hh : ∀ pool ∈ pools, pool.Homed wire)
    (hh' : ∀ echo ∈ echoes, echo.Homed mirror)
    (h : Wire.Aligned endpoint streams mirrored wire mirror) :
    Alike endpoint streams mirrored (closeEach pools wire).1 (closeEach echoes mirror).1 ∧
      Wire.Aligned endpoint streams mirrored (closeEach pools wire).2 (closeEach echoes mirror).2 := by
  induction pools generalizing echoes wire mirror with
  | nil =>
    obtain rfl : echoes = [] := List.map_eq_nil_iff.mp hends.symm
    exact ⟨halike, h⟩
  | cons pool pools ih =>
    cases echoes with
    | nil => cases hends
    | cons echo echoes =>
      obtain ⟨hend, hends⟩ := List.cons.inj hends
      have hpool := hh pool List.mem_cons_self
      have hecho := hh' echo List.mem_cons_self
      obtain ⟨hhome, hkept, -⟩ := close_homed (.trivial _) ⟨⟩ h.placed.1.registered hpool
      obtain ⟨-, hkept', -⟩ := close_homed (.trivial _) ⟨⟩ h.placed.2.registered hecho
      obtain ⟨hfirst, hnext⟩ : (pool.endpoint = endpoint →
            (pool.close wire).1.localize streams = (echo.close mirror).1.localize mirrored) ∧
          Wire.Aligned endpoint streams mirrored (pool.close wire).2 (echo.close mirror).2 := by
        -- elsewhere the two pools may hold different streams, but closing them is not seen here
        by_cases hp : pool.endpoint = endpoint
        · obtain ⟨hsame, hnext⟩ := close_aligned hp (halike 0 pool echo rfl rfl hp) hpool hecho h
          exact ⟨fun _ => hsame, hnext⟩
        · obtain ⟨-, -, hframed, -⟩ := close_homed (Wire.Framed.isLocal hp) (.refl _ h.placed.1)
            h.placed.1.registered hpool
          obtain ⟨-, -, hframed', -⟩ := close_homed (Wire.Framed.isLocal (hend ▸ hp))
            (.refl _ h.placed.2) h.placed.2.registered hecho
          exact ⟨fun he => absurd he hp, (h.left hframed).right hframed'⟩
      obtain ⟨hrest, hlast⟩ := ih hends (fun j => halike (j + 1))
        (fun other hm => (hh other (List.mem_cons_of_mem _ hm)).mono hkept.grows)
        (fun other hm => (hh' other (List.mem_cons_of_mem _ hm)).mono hkept'.grows) hnext
      refine ⟨?_, hlast⟩
      rintro (_ | j) first first' hj hj' hp
      · obtain rfl := Option.some.inj hj
        obtain rfl := Option.some.inj hj'
        exact hfirst (hhome ▸ hp)
      · exact hrest j first first' hj hj' hp

end Pool

theorem Router.pick_eq_iff {router : Router} (distinct : (router.pools.map Pool.endpoint).Nodup)
    {j : Nat} (hj : (router.pools.map Pool.endpoint)[j]? = some endpoint) (key : Bytes) :
    router.pick key = j ↔ (router.owner key).endpoint = endpoint := by
  have hkey := router.owner_endpoint key
  refine ⟨?_, ?_⟩
  · rintro rfl
    exact Option.some.inj (hkey.symm.trans hj)
  · rintro rfl
    have hlt := (List.getElem?_eq_some_iff.mp hkey).1
    exact (List.getElem?_inj hlt distinct).mp (hkey.trans hj.symm)

namespace Engine

variable {engine mirror : Engine (Sites τ)} {router : Router}

/-- Two engines with the pools of a router stand the same at an endpoint. -/
structure Aligned (endpoint : Endpoint) (router : Router) (engine mirror : Engine (Sites τ)) :
    Prop where
  homed : engine.Homed router ∧ mirror.Homed router
  same : ∃ streams mirrored, Wire.Aligned endpoint streams mirrored engine.wire mirror.wire ∧
    Pool.Alike endpoint streams mirrored engine.router.pools mirror.router.pools

theorem Homed.pool_at {pool : Pool} {i : Nat} (h : engine.Homed router)
    (server : router.pools[i]? = some pool) :
    ∃ now, engine.router.pools[i]? = some now ∧ now.endpoint = pool.endpoint := by
  have hend := Pool.endpoint_at server
  rw [← h.endpoints, List.getElem?_map] at hend
  exact Option.map_eq_some_iff.mp hend

variable [Network τ]

theorem Aligned.run (h : Aligned (router.owner key).endpoint router engine mirror)
    (distinct : (router.pools.map Pool.endpoint).Nodup) (dialogue : Dialogue α) :
    (engine.run key dialogue).1 = (mirror.run key dialogue).1 ∧
      Aligned (router.owner key).endpoint router (engine.run key dialogue).2
        (mirror.run key dialogue).2 := by
  obtain ⟨⟨hh, hh'⟩, streams, mirrored, hwires, halike⟩ := h
  have hpick : mirror.router.pick key = engine.router.pick key := by
    rw [hh.pick, hh'.pick]
  have hsame := halike _ _ _ (engine.router.owner_getElem? key)
    (hpick ▸ mirror.router.owner_getElem? key) (hh.owner key)
  obtain ⟨hanswer, streams', mirrored', hpool, hlast⟩ := Pool.run_aligned (hh.owner key) hsame
    (hh.pools _ (engine.router.owner_mem key)) (hh'.pools _ (mirror.router.owner_mem key)) hwires
    dialogue
  have hhomed := (hh.run key dialogue (.trivial _) ⟨⟩).2.2
  have hhomed' := (hh'.run key dialogue (.trivial _) ⟨⟩).2.2
  refine ⟨?_, ⟨hhomed, hhomed'⟩, streams', mirrored', ?_, ?_⟩
  · simp only [Engine.run, Router.run_eq]
    exact hanswer
  · simp only [Engine.run, Router.run_eq]
    exact hlast
  · intro j pool echo hj hj' hp
    have hend := Pool.endpoint_at hj
    rw [hhomed.endpoints] at hend
    -- endpoints tell pools apart, so that the pool at this endpoint is the one that has changed
    obtain rfl : engine.router.pick key = j :=
      (hh.pick key).trans ((Router.pick_eq_iff distinct hend key).mpr hp.symm)
    simp only [Engine.run, Router.run_eq, Router.put] at hj hj'
    rw [List.getElem?_set_self (engine.router.pick_lt key)] at hj
    rw [hpick, List.getElem?_set_self (hpick ▸ mirror.router.pick_lt key)] at hj'
    obtain rfl := Option.some.inj hj
    obtain rfl := Option.some.inj hj'
    exact hpool

theorem Aligned.elsewhere (h : Aligned endpoint router engine mirror)
    (hne : (router.owner key).endpoint ≠ endpoint) (dialogue : Dialogue α) :
    Aligned endpoint router (engine.run key dialogue).2 mirror := by
  obtain ⟨⟨hh, hh'⟩, streams, mirrored, hwires, halike⟩ := h
  obtain ⟨-, hframed, hhomed⟩ := hh.run key dialogue (Wire.Framed.isLocal hne)
    (.refl endpoint hwires.placed.1)
  refine ⟨⟨hhomed, hh'⟩, streams, mirrored, hwires.left hframed, ?_⟩
  intro j pool echo hj hj' hp
  have hother : engine.router.pick key ≠ j := by
    rintro rfl
    rw [hh.pick, ← hhomed.pick, Router.owner_getElem?] at hj
    obtain rfl := Option.some.inj hj
    exact hne ((hhomed.owner key).symm.trans hp)
  simp only [Engine.run, Router.run_eq, Router.put] at hj
  rw [List.getElem?_set_ne hother] at hj
  exact halike j pool echo hj hj' hp

theorem Aligned.close (h : Aligned endpoint router engine mirror) :
    Aligned endpoint router engine.close mirror.close := by
  obtain ⟨⟨hh, hh'⟩, streams, mirrored, hwires, halike⟩ := h
  obtain ⟨hpools, hlast⟩ := Pool.closeEach_aligned (hh.endpoints.trans hh'.endpoints.symm) halike
    hh.pools hh'.pools hwires
  exact ⟨⟨hh.close, hh'.close⟩, streams, mirrored, hlast, hpools⟩

end Engine

def Step.isFor (i : Nat) (router : Router) : Step → Bool
  | .call asked => router.pick asked.key = i
  | _ => true

namespace Running

variable {running mirror : Running (Sites τ)} {router : Router}

def answer [Network σ] : Step → Running σ → (β : Type) × Answer β
  | @Step.call β call, running => ⟨β, (running.perform call).1⟩
  | .setDefaultTtl ttl, running => ⟨Unit, (running.client.setDefaultTtl ttl running.wire).1⟩
  | .setClock _, _ => ⟨Unit, .ok ()⟩
  | .close, running => ⟨Unit, (running.client.close running.wire).1⟩

def told [Network σ] : List Step → Running σ → List (Step × (β : Type) × Answer β)
  | [], _ => []
  | step :: steps, running => (step, running.answer step) :: told steps (running.step step)

/-- The pool with a number, as it is seen at an endpoint. -/
def seenPool (i : Nat) (endpoint : Endpoint) (running : Running σ) : Option Pool :=
  (running.client.router.pools[i]?).map
    (Pool.localize (Event.streamsAt endpoint running.wire.journal))

/-- Two clients that differ in nothing but their engines, which stand the same at an endpoint. -/
inductive Aligned (endpoint : Endpoint) (router : Router) : Running (Sites τ) → Running (Sites τ) → Prop
  where
  | of {settings : Settings} {clock : Clock} {closed : Bool} {first second : Router}
    {wire mirror : Wire (Sites τ)}
    (engines : Engine.Aligned endpoint router ⟨first, wire⟩ ⟨second, mirror⟩) :
    Aligned endpoint router ⟨⟨settings, clock, first, closed⟩, wire⟩
      ⟨⟨settings, clock, second, closed⟩, mirror⟩

theorem Aligned.engine (h : Aligned endpoint router running mirror) :
    running.engine.Aligned endpoint router mirror.engine := by
  obtain ⟨hengines⟩ := h
  exact hengines

theorem Aligned.resume {engine echo : Engine (Sites τ)} (h : Aligned endpoint router running mirror)
    (hnext : engine.Aligned endpoint router echo) :
    Aligned endpoint router (running.resume engine) (mirror.resume echo) := by
  obtain ⟨-⟩ := h
  exact .of hnext

variable [Network τ]

theorem clock_read_eq {wire mirror : Wire (Sites τ)} (h : wire.state.time = mirror.state.time)
    (clock : Clock) : clock.read wire = clock.read mirror := by
  cases clock with
  | fixed => rfl
  | system => exact h

theorem Aligned.clock (h : Aligned endpoint router running mirror) (clock : Clock) :
    clock.read running.wire = clock.read mirror.wire := by
  obtain ⟨-, _, _, hwires, -⟩ := h.engine
  exact clock_read_eq hwires.time clock

theorem Aligned.request (h : Aligned endpoint router running mirror) (call : Client.Call β) :
    call.request running = call.request mirror := by
  have hclock := h.clock running.client.clock
  obtain ⟨-⟩ := h
  dsimp only at hclock
  cases call with
  | store verb key value options =>
    simp only [Client.Call.request, Client.prepare, Client.permit, hclock]
  | getItem | get | delete | count => rfl

theorem Aligned.perform {call : Client.Call β}
    (h : Aligned (router.owner call.key).endpoint router running mirror)
    (distinct : (router.pools.map Pool.endpoint).Nodup) :
    (running.perform call).1 = (mirror.perform call).1 ∧
      Aligned (router.owner call.key).endpoint router (running.perform call).2
        (mirror.perform call).2 := by
  rw [perform_eq, perform_eq, ← h.request]
  cases hq : call.request running with
  | error failure => exact ⟨rfl, h⟩
  | ok request =>
    have hkey := request_key hq
    rw [← hkey] at h ⊢
    obtain ⟨hanswer, hnext⟩ := h.engine.run distinct request.command.dialogue
    rw [Engine.run_exchange, Engine.run_exchange] at hanswer hnext
    exact ⟨congrArg request.finish hanswer, h.resume hnext⟩

theorem Aligned.elsewhere {call : Client.Call β} (h : Aligned endpoint router running mirror)
    (hne : (router.owner call.key).endpoint ≠ endpoint) :
    Aligned endpoint router (running.perform call).2 mirror := by
  rw [perform_eq]
  cases hq : call.request running with
  | error failure => exact h
  | ok request =>
    rw [← request_key hq] at hne
    have hnext := h.engine.elsewhere hne request.command.dialogue
    rw [Engine.run_exchange] at hnext
    obtain ⟨-⟩ := h
    exact .of hnext

theorem Aligned.setDefaultTtl (h : Aligned endpoint router running mirror) (ttl : Int64) :
    running.answer (.setDefaultTtl ttl) = mirror.answer (.setDefaultTtl ttl) ∧
      Aligned endpoint router (running.step (.setDefaultTtl ttl)) (mirror.step (.setDefaultTtl ttl)) := by
  have hclock := h.clock running.client.clock
  obtain ⟨hengines⟩ := h
  simp only [answer, Running.step, Client.setDefaultTtl, ← hclock]
  split
  · exact ⟨rfl, .of hengines⟩
  · exact ⟨rfl, .of hengines⟩

theorem Aligned.close (h : Aligned endpoint router running mirror) :
    running.answer .close = mirror.answer .close ∧
      Aligned endpoint router (running.step .close) (mirror.step .close) := by
  obtain ⟨hengines⟩ := h
  simp only [answer, Running.step, Client.close]
  split
  · exact ⟨rfl, .of hengines⟩
  · exact ⟨rfl, .of hengines.close⟩

/-- One step: if it is for the server, it is taken by both; if not, by the one only. -/
theorem Aligned.step {pool : Pool} {i : Nat} (h : Aligned pool.endpoint router running mirror)
    (distinct : (router.pools.map Pool.endpoint).Nodup) (server : router.pools[i]? = some pool)
    (step : Step) :
    if step.isFor i router then
      running.answer step = mirror.answer step ∧
        Aligned pool.endpoint router (running.step step) (mirror.step step)
    else Aligned pool.endpoint router (running.step step) mirror := by
  cases step with
  | call call =>
    have howner := Router.pick_eq_iff distinct (Pool.endpoint_at server) call.key
    simp only [Step.isFor, decide_eq_true_eq]
    split
    · rename_i hfor
      rw [← howner.mp hfor] at h ⊢
      obtain ⟨hanswer, hnext⟩ := h.perform distinct
      exact ⟨congrArg (Sigma.mk _) hanswer, hnext⟩
    · rename_i hnot
      exact h.elsewhere fun he => hnot (howner.mpr he)
  | setDefaultTtl ttl => exact h.setDefaultTtl ttl
  | setClock clock =>
    obtain ⟨hengines⟩ := h
    exact ⟨rfl, .of hengines⟩
  | close => exact h.close

theorem Aligned.told {pool : Pool} {i : Nat} (h : Aligned pool.endpoint router running mirror)
    (distinct : (router.pools.map Pool.endpoint).Nodup) (server : router.pools[i]? = some pool)
    (steps : List Step) :
    (running.told steps).filter (fun told => told.1.isFor i router) =
        mirror.told (steps.filter (Step.isFor i router)) ∧
      Aligned pool.endpoint router (running.steps steps)
        (mirror.steps (steps.filter (Step.isFor i router))) := by
  induction steps generalizing running mirror with
  | nil => exact ⟨rfl, h⟩
  | cons step steps ih =>
    have hstep := h.step distinct server step
    simp only [Running.told, List.filter_cons]
    split at hstep
    · rename_i hfor
      obtain ⟨hanswer, hnext⟩ := hstep
      obtain ⟨htold, hlast⟩ := ih hnext
      rw [if_pos hfor, if_pos hfor, htold, hanswer]
      exact ⟨rfl, hlast⟩
    · rename_i hnot
      rw [if_neg hnot, if_neg hnot]
      exact ih hstep

end Running

theorem Router.create_distinct {router : Router} (hc : create addresses options idle = .ok router)
    (distinct : addresses.Pairwise fun a b => Endpoint.parse a ≠ Endpoint.parse b) :
    (router.pools.map Pool.endpoint).Nodup := by
  obtain ⟨endpoints, hline, hpools⟩ := create_endpoints hc
  have hnodup : (addresses.map Endpoint.parse).Nodup := List.pairwise_map.mpr distinct
  rw [← ((Bytes.sort_perm addresses).map Endpoint.parse).nodup_iff, hline] at hnodup
  have hends : router.pools.map Pool.endpoint = endpoints := by
    rw [hpools, List.map_map]
    exact List.map_id endpoints
  rw [hends]
  exact List.Pairwise.of_map Except.ok (fun a b hne he => hne (congrArg Except.ok he)) hnodup

/-- A new client stands the same over servers that are the same at an endpoint. -/
theorem Client.create_aligned [Network τ] {settings : Settings} {client : Client} {sites others : Endpoint → τ}
    {time : Int64} (hc : create settings (Wire.start (Sites.start sites time)) = .ok client)
    (hsame : others endpoint = sites endpoint) :
    create settings (Wire.start (Sites.start others time)) = .ok client ∧
      Running.Aligned endpoint client.router ⟨client, Wire.start (Sites.start sites time)⟩
        ⟨client, Wire.start (Sites.start others time)⟩ := by
  have hrouter := (create_router hc).2
  have hclock (clock : Clock) : clock.read (Wire.start (Sites.start sites time)) =
      clock.read (Wire.start (Sites.start others time)) := Running.clock_read_eq rfl clock
  refine ⟨?_, .of ⟨⟨Engine.create_homed hrouter _, Engine.create_homed hrouter _⟩, [], [], ?_, ?_⟩⟩
  · rw [← hc]
    simp only [create, hclock]
  · exact ⟨⟨Wire.start_placed sites time, Wire.start_placed others time⟩, ⟨rfl, rfl⟩, rfl, rfl,
      hsame.symm, rfl⟩
  · intro j pool echo hj hj' _
    obtain rfl := Option.some.inj (hj.symm.trans hj')
    rfl

/-- A bad server affects only its own keys. Let a client's addresses name different endpoints, and leave out
all calls for keys that are not those of one server: setters and closing may stand anywhere. Then all that is
left tells the same as before; what happens at the server is the same, streams being numbered as they were
opened there; and so is the state of its pool. The other servers may be any, and others in the two runs. -/
theorem bad_server_contained [Network τ] {settings : Settings} {client : Client}
    {sites others : Endpoint → τ} {time : Int64}
    (distinct : settings.servers.Pairwise fun a b => Endpoint.parse a ≠ Endpoint.parse b)
    (created : Client.create settings (Wire.start (Sites.start sites time)) = .ok client)
    {i : Nat} {pool : Pool} (server : client.router.pools[i]? = some pool)
    (same : others pool.endpoint = sites pool.endpoint) (steps : List Step) :
    let all := Running.mk client (Wire.start (Sites.start sites time))
    let own := Running.mk client (Wire.start (Sites.start others time))
    let ours := steps.filter (Step.isFor i client.router)
    Client.create settings own.wire = .ok client ∧
      (all.told steps).filter (fun told => told.1.isFor i client.router) = own.told ours ∧
      Event.seenAt pool.endpoint (all.steps steps).wire.journal =
        Event.seenAt pool.endpoint (own.steps ours).wire.journal ∧
      (all.steps steps).seenPool i pool.endpoint = (own.steps ours).seenPool i pool.endpoint := by
  intro all own ours
  obtain ⟨hcreated, halign⟩ := Client.create_aligned created same
  have hdistinct := Router.create_distinct (Client.create_router created).2 distinct
  obtain ⟨htold, hlast⟩ := halign.told hdistinct server steps
  obtain ⟨⟨hh, hh'⟩, streams, mirrored, hwires, halike⟩ := hlast.engine
  refine ⟨hcreated, htold, hwires.seen, ?_⟩
  obtain ⟨now, hnow, hend⟩ := hh.pool_at server
  obtain ⟨echo, hecho, -⟩ := hh'.pool_at server
  have hpool := halike i now echo hnow hecho hend
  rw [← hwires.lists.1, ← hwires.lists.2] at hpool
  show (Option.map _ (all.steps steps).engine.router.pools[i]?) =
    Option.map _ (own.steps ours).engine.router.pools[i]?
  rw [hnow, hecho]
  exact congrArg some hpool

def noneBroken (_ : Endpoint) : Script :=
  deletions

def oneBroken (endpoint : Endpoint) : Script :=
  if endpoint.host = ascii "a" then deletions
  else { fallback := { stream := ⟨[⟨ascii "DELE", some .connectionReset⟩], []⟩ } }

def mixedCalls : List Step :=
  [.call (.delete (ascii "b")), .call (.delete (ascii "a")), .setDefaultTtl 0,
    .call (.delete (ascii "b")), .close]

def soundPool : Pool :=
  Pool.start (.tcp (ascii "a") (ascii "11211")) duoSettings.dialOptions 1

def duoOver (sites : Endpoint → Script) : Running (Sites Script) :=
  ⟨duoClient, Wire.start (Sites.start sites 0)⟩

/-- The stream of the sound server is the second of three, but the first of its own. -/
theorem sound_server_untouched :
    let ours := [.call (.delete (ascii "a")), .setDefaultTtl 0, .close]
    (duoSettings.servers.Pairwise fun a b => Endpoint.parse a ≠ Endpoint.parse b) ∧
      Client.create duoSettings (duoOver oneBroken).wire = .ok duoClient ∧
      duoClient.router.pools[0]? = some soundPool ∧
      noneBroken soundPool.endpoint = oneBroken soundPool.endpoint ∧
      (duoOver oneBroken).answer (.call (.delete (ascii "b"))) =
        ⟨Unit, .error (Fault.receiving .connectionReset)⟩ ∧
      ((duoOver oneBroken).steps mixedCalls).wire.opened = 3 ∧
      mixedCalls.filter (Step.isFor 0 duoClient.router) = ours ∧
      ((duoOver oneBroken).told mixedCalls).filter (fun told => told.1.isFor 0 duoClient.router) =
        (duoOver noneBroken).told ours ∧
      Event.seenAt soundPool.endpoint ((duoOver oneBroken).steps mixedCalls).wire.journal =
        [.closed 0, .read 0 (ascii "DELETED\r\n") none, .wrote 0 (ascii "delete a\r\n") none,
          .dialed soundPool.endpoint duoSettings.dialOptions (some 0)] ∧
      Event.seenAt soundPool.endpoint ((duoOver oneBroken).steps mixedCalls).wire.journal =
        Event.seenAt soundPool.endpoint ((duoOver noneBroken).steps ours).wire.journal ∧
      ((duoOver oneBroken).steps mixedCalls).seenPool 0 soundPool.endpoint =
        ((duoOver noneBroken).steps ours).seenPool 0 soundPool.endpoint := by
  have hdistinct : duoSettings.servers.Pairwise fun a b => Endpoint.parse a ≠ Endpoint.parse b := by
    have hne : Endpoint.parse (ascii "b") ≠ Endpoint.parse (ascii "a") := by
      intro h
      have hends : Endpoint.tcp (ascii "b") (ascii "11211") = .tcp (ascii "a") (ascii "11211") :=
        Except.ok.inj h
      exact absurd hends (by decide)
    simpa [duoSettings] using hne
  have hcreated := duo_created (duoOver oneBroken).wire
  have hserver : duoClient.router.pools[0]? = some soundPool := rfl
  have hsame : noneBroken soundPool.endpoint = oneBroken soundPool.endpoint := rfl
  have hours : mixedCalls.filter (Step.isFor 0 duoClient.router) =
      [.call (.delete (ascii "a")), .setDefaultTtl 0, .close] := rfl
  have hbroken : (duoOver oneBroken).answer (.call (.delete (ascii "b"))) =
      ⟨Unit, .error (Fault.receiving .connectionReset)⟩ := by
    cbv
  have hopened : ((duoOver oneBroken).steps mixedCalls).wire.opened = 3 := by
    cbv
  have hevents : Event.seenAt soundPool.endpoint ((duoOver oneBroken).steps mixedCalls).wire.journal =
      [.closed 0, .read 0 (ascii "DELETED\r\n") none, .wrote 0 (ascii "delete a\r\n") none,
        .dialed soundPool.endpoint duoSettings.dialOptions (some 0)] := by
    cbv
  have hcontained := bad_server_contained hdistinct hcreated hserver hsame mixedCalls
  rw [hours] at hcontained
  obtain ⟨-, htold, hseen, hpool⟩ := hcontained
  exact ⟨hdistinct, hcreated, hserver, hsame, hbroken, hopened, hours, htold, hevents, hseen, hpool⟩

end CacheClient
