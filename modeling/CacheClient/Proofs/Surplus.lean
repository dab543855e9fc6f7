import CacheClient.Proofs.Ownership

namespace CacheClient

theorem Event.received_append (id : Nat) (first rest : List Event) :
    received id (first ++ rest) = received id first ++ received id rest :=
  List.flatMap_append

namespace Pool

/-- No idle connection holds bytes that it has not consumed. -/
def Drained (pool : Pool) : Prop :=
  ∀ connection ∈ pool.idle, connection.unread = []

variable [Network σ] {pool rest changed : Pool} {wire next : Wire σ} {id : Nat} {link : Link σ}
variable {command : Command}

/-- The bytes that wait on the connection that the next exchange would run on. -/
def unreadFor (wire : Wire σ) (pool : Pool) : Bytes :=
  match (pool.acquire wire).1 with
  | .error _ => []
  | .ok connection => connection.unread

theorem Drained.unreadFor (hd : pool.Drained) (wire : Wire σ) : pool.unreadFor wire = [] := by
  obtain ⟨endpoint, options, capacity, idle⟩ := pool
  cases capacity with
  | none => rfl
  | some room =>
    cases idle with
    | cons connection idle => exact hd connection List.mem_cons_self
    | nil =>
      simp only [Pool.unreadFor, acquire]
      generalize wire.dial endpoint options = dialed
      obtain ⟨failure | stream, next⟩ := dialed <;> rfl

theorem Lends.since (h : pool.Lends wire id link rest) :
    ∃ before, link.wire.journal = before.reverse ++ wire.journal ∧
      Event.received id before = [] := by
  cases h with
  | reused => exact ⟨[], rfl, rfl⟩
  | dialed _ _ hd =>
    unfold Wire.dial at hd
    split at hd <;> cases hd
    exact ⟨[.dialed _ _ _], rfl, rfl⟩

theorem Ran.surplus {answer : Answer command.Value}
    (h : Ran command pool wire answer changed next) (hp : pool.Sound)
    (hs : pool.streamFor wire = some id) (hfit : answer.keepsHealthy = true) : ∃ reply unread,
      Reply.Means command reply answer ∧
      pool.unreadFor wire ++ Event.received id (wire.since next) = reply ++ unread ∧
      (0 < pool.capacity.getD 0 → ∃ connection idle, changed.idle = connection :: idle ∧
        connection.unread = unread ∧ ∀ other ∈ idle, other ∈ pool.idle) := by
  obtain ⟨link, rest, after, hlend, hends, hend⟩ := h.lent hp hs
  obtain ⟨before, hbefore, hnone⟩ := hlend.since
  obtain ⟨events, hevents, -, hreply⟩ := Link.exchange_talk (hlend.connection hp).1 hends
  obtain ⟨reply, hm, he⟩ := hreply hfit
  have hunread : pool.unreadFor wire = link.connection.unread := by
    simp only [Pool.unreadFor, hlend.acquire]
  -- a dial brings nothing, so that all that came came to the exchange
  have hjournal : after.wire.journal = (events.reverse ++ before.reverse) ++ wire.journal := by
    rw [hevents, hbefore, List.append_assoc]
  refine ⟨reply, after.connection.unread, hm, ?_, ?_⟩
  · rw [hunread, ← he]
    congr 1
    split at hend
    · obtain ⟨-, rfl⟩ := hend
      rw [Wire.since_eq hjournal]
      simp [Event.received_append, hnone]
    · obtain ⟨-, rfl⟩ := hend
      have hclosed : (after.wire.close id).journal =
          (.closed id :: (events.reverse ++ before.reverse)) ++ wire.journal := by
        simp [Wire.close, hjournal]
      rw [Wire.since_eq hclosed]
      simp [Event.received_append, hnone]
      rfl
  · intro hroom
    rw [if_pos ⟨hfit, hroom⟩] at hend
    obtain ⟨rfl, -⟩ := hend
    exact ⟨_, _, rfl, rfl, hlend.subset⟩

/-- A pool stays drained as long as nothing but complete replies comes to the connections it keeps. -/
theorem Ran.drained_iff {answer : Answer command.Value}
    (h : Ran command pool wire answer changed next) (hp : pool.Sound) (hd : pool.Drained) :
    changed.Drained ↔ ∀ id, pool.streamFor wire = some id → answer.keepsHealthy = true →
      0 < pool.capacity.getD 0 →
        ∃ meaning, Reply.Means command (Event.received id (wire.since next)) meaning := by
  constructor
  · intro hchanged id hs hfit hroom
    obtain ⟨reply, unread, hm, he, hkept⟩ := h.surplus hp hs hfit
    obtain ⟨connection, idle, hi, rfl, -⟩ := hkept hroom
    have hnone := hchanged connection (hi ▸ List.mem_cons_self)
    rw [hd.unreadFor, hnone, List.nil_append, List.append_nil] at he
    exact ⟨answer, he ▸ hm⟩
  · intro hreply
    by_cases hkept : ∃ id, pool.streamFor wire = some id ∧ answer.keepsHealthy = true ∧
        0 < pool.capacity.getD 0
    · obtain ⟨id, hs, hfit, hroom⟩ := hkept
      obtain ⟨reply, unread, hm, he, hkept⟩ := h.surplus hp hs hfit
      obtain ⟨connection, idle, hi, rfl, hidle⟩ := hkept hroom
      obtain ⟨meaning, hm'⟩ := hreply id hs hfit hroom
      -- what came is one whole reply, and no reply is the beginning of another
      have hunread : [] = connection.unread := by
        apply hm'.prefix_free hm
        rw [List.append_nil, ← he, hd.unreadFor, List.nil_append]
      intro other hother
      rw [hi] at hother
      rcases List.mem_cons.mp hother with rfl | hother
      · exact hunread.symm
      · exact hd other (hidle other hother)
    · intro connection hm
      cases h with
      | closed | refused | hollow => exact hd connection hm
      | dropped hlend => exact hd connection (hlend.subset connection hm)
      | kept hlend _ hfit hroom => exact absurd ⟨_, hlend.streamFor hp, hfit, hroom⟩ hkept

end Pool

namespace Engine

variable [Network σ] {engine : Engine σ} {id : Nat}

def Drained (engine : Engine σ) : Prop :=
  ∀ pool ∈ engine.router.pools, pool.Drained

def unreadFor (command : Command) (engine : Engine σ) : Bytes :=
  (engine.router.owner command.key).unreadFor engine.wire

def BringsOneReply (command : Command) (engine : Engine σ) : Prop :=
  ∀ id, engine.streamFor command = some id → (engine.exchange command).1.keepsHealthy = true →
    0 < (engine.router.owner command.key).capacity.getD 0 →
      ∃ meaning, Reply.Means command
        (Event.received id (engine.wire.since (engine.exchange command).2.wire)) meaning

theorem exchange_surplus (he : engine.Sound) (command : Command)
    (hs : engine.streamFor command = some id)
    (hfit : (engine.exchange command).1.keepsHealthy = true) : ∃ reply rest,
      Reply.Means command reply (engine.exchange command).1 ∧
      engine.unreadFor command ++
        Event.received id (engine.wire.since (engine.exchange command).2.wire) = reply ++ rest := by
  obtain ⟨changed, next, hr, heq⟩ := exchange_ran command he
  obtain ⟨reply, rest, hm, heq', -⟩ :=
    hr.surplus (he _ (engine.router.owner_mem command.key)) hs hfit
  rw [heq]
  exact ⟨reply, rest, hm, heq'⟩

theorem exchange_drained_iff (he : engine.Sound) (hd : engine.Drained) (command : Command) :
    (engine.exchange command).2.Drained ↔ engine.BringsOneReply command := by
  obtain ⟨changed, next, hr, heq⟩ := exchange_ran command he
  have howner := engine.router.owner_mem command.key
  have hiff := hr.drained_iff (he _ howner) (hd _ howner)
  unfold BringsOneReply
  rw [heq]
  refine Iff.trans ?_ hiff
  constructor
  · intro hall
    apply hall
    exact List.mem_set (engine.router.pick_lt command.key) changed
  · intro hchanged pool hm
    rcases List.mem_or_eq_of_mem_set hm with hm | rfl
    · exact hd pool hm
    · exact hchanged

theorem close_drained (he : engine.Sound) : engine.close.Drained := by
  intro pool hm
  simp only [Engine.close, Router.closeAll, Pool.closeEach_pools _ he] at hm
  obtain ⟨before, -, rfl⟩ := List.mem_map.mp hm
  simp [Pool.Drained]

end Engine

theorem foldl_throughout {S : Type} {A : Type u} (step : S → A → S) (sound good : S → Prop)
    (condition : A → S → Prop) (hsound : ∀ s a, sound s → sound (step s a))
    (hstep : ∀ s a, sound s → good s → (good (step s a) ↔ condition a s))
    (run : List A) {s : S} (hs : sound s) (hg : good s) :
    (∀ before after, run = before ++ after → good (before.foldl step s)) ↔
      ∀ before a after, run = before ++ a :: after → condition a (before.foldl step s) := by
  constructor
  · intro hgood before a after hrun
    have hbefore := hgood before (a :: after) hrun
    have hafter := hgood (before ++ [a]) after (by simp [hrun])
    have hs' : sound (before.foldl step s) := by
      clear hbefore hafter hgood hg hrun
      induction before generalizing s with
      | nil => exact hs
      | cons b before ih => exact ih (hsound s b hs)
    rw [List.foldl_append] at hafter
    exact (hstep _ a hs' hbefore).mp hafter
  · intro hcondition before after hrun
    subst hrun
    induction before generalizing s with
    | nil => exact hg
    | cons a before ih =>
      have hnext := (hstep s a hs hg).mpr (hcondition [] a _ rfl)
      apply ih (hsound s a hs) hnext
      intro first b rest hrest
      exact hcondition (a :: first) b rest (by simp [hrest])

namespace Engine

variable [Network σ] {engine : Engine σ}

theorem moves_drained_iff (he : engine.Sound) (hd : engine.Drained) (run : List Move) :
    (∀ before after, run = before ++ after → (engine.moves before).Drained) ↔
      ∀ before command after, run = before ++ .exchange command :: after →
        (engine.moves before).BringsOneReply command := by
  have hthroughout := foldl_throughout (fun engine move => engine.move move) Sound Drained
    (fun move engine => ∀ command, move = .exchange command → engine.BringsOneReply command)
    (fun engine move he => move_sound move he) ?_ run he hd
  · refine Iff.trans hthroughout ?_
    constructor
    · intro h before command after hrun
      exact h before _ after hrun command rfl
    · rintro h before _ after hrun command rfl
      exact h before command after hrun
  · intro engine move he hd
    cases move with
    | exchange command => simpa [Engine.move] using exchange_drained_iff he hd command
    | close => simpa [Engine.move] using close_drained he

end Engine

namespace Running

variable [Network σ] {running : Running σ} {room : Nat}

theorem step_drained_iff (hr : running.Accounted room) (hd : running.engine.Drained) (step : Step) :
    (running.step step).engine.Drained ↔
      ∀ command, .exchange command ∈ step.moves running → running.engine.BringsOneReply command := by
  rw [step_engine]
  cases step with
  | call call =>
    simp only [Step.moves]
    cases call.request running with
    | error failure => simpa [Engine.moves] using hd
    | ok request =>
      simpa [Engine.moves, Engine.move] using
        Engine.exchange_drained_iff hr.engine.sound hd request.command
  | close =>
    simp only [Step.moves]
    split
    · simpa [Engine.moves] using hd
    · simpa [Engine.moves, Engine.move] using Engine.close_drained hr.engine.sound
  | setDefaultTtl ttl => simpa [Engine.moves, Step.moves] using hd
  | setClock clock => simpa [Engine.moves, Step.moves] using hd

theorem steps_drained_iff (hr : running.Accounted room) (hd : running.engine.Drained)
    (steps : List Step) :
    (∀ before after, steps = before ++ after → (running.steps before).engine.Drained) ↔
      ∀ before step after, steps = before ++ step :: after →
        ∀ command, .exchange command ∈ step.moves (running.steps before) →
          (running.steps before).engine.BringsOneReply command := by
  refine foldl_throughout _ (Accounted room) (fun running => running.engine.Drained)
    (fun step running => ∀ command, .exchange command ∈ step.moves running →
      running.engine.BringsOneReply command)
    (fun running step hr => hr.step step) ?_ steps hr hd
  intro running step hr hd
  exact step_drained_iff hr hd step

end Running

def Engine.start (router : Router) (network : σ) : Engine σ :=
  ⟨router, Wire.start network⟩

theorem Engine.start_drained {router : Router} (network : σ)
    (hc : Router.create addresses options idle = .ok router) :
    (Engine.start router network).Sound ∧ (Engine.start router network).Drained := by
  have hpools := Router.create_pools hc
  constructor
  · intro pool hm
    obtain ⟨endpoint, rfl⟩ := hpools pool hm
    exact ⟨by simp [Pool.start], by simp [Pool.start]⟩
  · intro pool hm
    obtain ⟨endpoint, rfl⟩ := hpools pool hm
    simp [Pool.Drained, Pool.start]

/-- Idle connections have nothing unread, in every state of a run, exactly as long as each exchange that
gives its connection back has been brought one complete reply and nothing more. In any case a reply
begins with the bytes that were unread before its command was sent. This holds of what is asked of an
engine, and of what is asked of a client. -/
theorem idle_drained_iff [Network σ] (network : σ) :
    (∀ (addresses : List Bytes) (options : DialOptions) (idle : Int) (router : Router),
      Router.create addresses options idle = .ok router → ∀ run : List Move,
        let start := Engine.start router network
        ((∀ before after, run = before ++ after → (start.moves before).Drained) ↔
          ∀ before command after, run = before ++ .exchange command :: after →
            (start.moves before).BringsOneReply command) ∧
        ∀ command id, (start.moves run).streamFor command = some id →
          let answer := ((start.moves run).exchange command).1
          let next := ((start.moves run).exchange command).2
          answer.keepsHealthy = true → ∃ reply rest, Reply.Means command reply answer ∧
            (start.moves run).unreadFor command ++
              Event.received id ((start.moves run).wire.since next.wire) = reply ++ rest) ∧
    ∀ (settings : Settings) (client : Client),
      Client.create settings (Wire.start network) = .ok client → ∀ steps : List Step,
        let start := Running.mk client (Wire.start network)
        (start.steps steps).engine =
          (Engine.start client.router network).moves (start.moves steps) ∧
        ((∀ before after, steps = before ++ after → (start.steps before).engine.Drained) ↔
          ∀ before step after, steps = before ++ step :: after →
            ∀ command, .exchange command ∈ step.moves (start.steps before) →
              (start.steps before).engine.BringsOneReply command) := by
  constructor
  · intro addresses options idle router created run start
    obtain ⟨hs, hd⟩ := Engine.start_drained network created
    refine ⟨Engine.moves_drained_iff hs hd run, ?_⟩
    intro command id hid answer next hfit
    exact Engine.exchange_surplus (Engine.moves_sound hs run) command hid hfit
  · intro settings client created steps start
    refine ⟨Running.steps_engine steps start, ?_⟩
    have hr := Running.create_accounted created
    obtain ⟨-, hd⟩ := Engine.start_drained network (Client.create_router created).2
    exact Running.steps_drained_iff hr hd steps

def surplusWire : Wire Script :=
  Wire.start { entries := [{ stream := ⟨[⟨ascii "NOT_FOUND\r\nEND\r\n", none⟩,
    ⟨ascii "VALUE b 0 1\r\nx\r\nEND\r\n", none⟩], []⟩ }] }

theorem surplus_kept :
    ¬ ((Running.mk soloClient surplusWire).perform (.delete (ascii "a"))).2.engine.Drained := by
  intro hd
  let first := (Running.mk soloClient surplusWire).perform (.delete (ascii "a"))
  have hkept : first.2.engine.router.pools =
      [{ Pool.start (.tcp (ascii "a") (ascii "11211")) soloSettings.dialOptions 1 with
        idle := [⟨some 0, ascii "END\r\n", [], true⟩] }] := rfl
  have hnone := hd _ (hkept ▸ List.mem_cons_self) _ List.mem_cons_self
  cases hnone

/-- The bytes left over from the first exchange answer the second: it is a miss, although the server has
the item, and nothing is read. -/
theorem surplus_answers_next :
    let first := (Running.mk soloClient surplusWire).perform (.delete (ascii "a"))
    let second := first.2.perform (.getItem (ascii "b"))
    ¬ first.2.engine.Drained ∧ second.1 = .error ⟨.cacheMiss, ascii "cache miss", []⟩ ∧
      first.2.wire.since second.2.wire = [.wrote 0 (ascii "get b\r\n") none] :=
  ⟨surplus_kept, rfl, rfl⟩

theorem surplus_is_no_reply :
    Client.create soloSettings surplusWire = .ok soloClient ∧
      ¬ (Running.mk soloClient surplusWire).engine.BringsOneReply (.delete (ascii "a")) := by
  refine ⟨solo_created surplusWire, ?_⟩
  intro hreply
  have hiff := ((idle_drained_iff _).2 soloSettings soloClient (solo_created surplusWire)
    [.call (.delete (ascii "a"))]).2
  refine surplus_kept (hiff.mpr ?_ [.call (.delete (ascii "a"))] [] rfl)
  intro before step after hrun command hm
  cases before with
  | nil =>
    obtain ⟨rfl, rfl⟩ := List.cons.inj hrun
    obtain rfl : command = .delete (ascii "a") := Move.exchange.inj (List.mem_singleton.mp hm)
    exact hreply
  | cons first before =>
    have hlen := congrArg List.length hrun
    simp at hlen

end CacheClient
