import CacheClient.Proofs.Places

namespace CacheClient

/-- What is done with a pool and the connections that it has handed out. Holders are known by numbers, and
each has one connection in hand at most. -/
inductive Act : Type 1 where
  | acquire (holder : Nat)
  | use (holder : Nat) (dialogue : Dialogue α)
  | release (holder : Nat)
  | drop (holder : Nat)
  | close

def Act.holder? : Act → Option Nat
  | acquire holder | use holder _ | release holder | drop holder => some holder
  | close => none

structure Custody (σ : Type) where
  pool : Pool
  wire : Wire σ
  held : List (Nat × Connection) := []

namespace Custody

def holding (holder : Nat) (custody : Custody σ) : Option Connection :=
  custody.held.lookup holder

def others (holder : Nat) (custody : Custody σ) : List (Nat × Connection) :=
  custody.held.filter (·.1 ≠ holder)

def streamsOf (held : List (Nat × Connection)) : List Nat :=
  held.filterMap fun (_, connection) => connection.stream

/-- The streams that are in the hands of holders. -/
def inHand (custody : Custody σ) : List Nat :=
  streamsOf custody.held

variable [Network σ]

def drop (holder : Nat) (custody : Custody σ) : Custody σ :=
  match custody.holding holder with
  | none => custody
  | some connection =>
    { custody with
      wire := connection.discard custody.wire
      held := custody.others holder }

def act : Act → Custody σ → Custody σ
  | .acquire holder, custody =>
    match custody.pool.acquire custody.wire with
    | (.error _, pool, wire) => { custody with pool, wire }
    | (.ok connection, pool, wire) =>
      let custody := { custody with pool, wire }.drop holder
      { custody with held := (holder, connection) :: custody.held }
  | .use holder dialogue, custody =>
    match custody.holding holder with
    | none => custody
    | some connection =>
      let (_, link) := dialogue.run ⟨connection, custody.wire⟩
      { custody with
        wire := link.wire
        held := (holder, link.connection) :: custody.others holder }
  | .release holder, custody =>
    let (pool, wire) := custody.pool.release (custody.holding holder) custody.wire
    { pool, wire, held := custody.others holder }
  | .drop holder, custody => custody.drop holder
  | .close, custody =>
    let (pool, wire) := custody.pool.close custody.wire
    { custody with pool, wire }

def acts (acts : List Act) (custody : Custody σ) : Custody σ :=
  acts.foldl (fun custody act => custody.act act) custody

end Custody

section Held

variable {held : List (Nat × Connection)} {holder other : Nat} {connection : Connection}

theorem lookup_others (held : List (Nat × Connection)) (holder other : Nat) :
    (held.filter (·.1 ≠ holder)).lookup other =
      if other = holder then none else held.lookup other := by
  induction held with
  | nil => simp
  | cons entry held ih =>
    obtain ⟨name, connection⟩ := entry
    by_cases hn : name = holder
    · subst hn
      rw [List.filter_cons_of_neg (by simp), ih]
      split
      · rfl
      · rename_i hne
        rw [List.lookup_cons, beq_false_of_ne hne]
    · rw [List.filter_cons_of_pos (by simpa using hn), List.lookup_cons, List.lookup_cons, ih]
      by_cases ho : other = name
      · subst ho
        simp [hn]
      · rw [beq_false_of_ne ho]

theorem lookup_hand (held : List (Nat × Connection)) (holder other : Nat) (connection : Connection) :
    ((holder, connection) :: held.filter (·.1 ≠ holder)).lookup other =
      if other = holder then some connection else held.lookup other := by
  rw [List.lookup_cons]
  split
  · rename_i he
    rw [if_pos (eq_of_beq he)]
  · rename_i hne
    have hother : other ≠ holder := by simpa using hne
    rw [lookup_others, if_neg hother, if_neg hother]

theorem others_of_lookup_none (h : held.lookup holder = none) :
    held.filter (·.1 ≠ holder) = held := by
  rw [List.filter_eq_self]
  intro entry hm
  have hne : holder ≠ entry.1 := by simpa using List.lookup_eq_none_iff.mp h entry hm
  simpa using hne.symm

theorem held_perm (hn : (held.map Prod.fst).Nodup) (hh : held.lookup holder = some connection) :
    held.Perm ((holder, connection) :: held.filter (·.1 ≠ holder)) := by
  induction held with
  | nil => cases hh
  | cons entry held ih =>
    obtain ⟨name, first⟩ := entry
    rw [List.map_cons, List.nodup_cons] at hn
    by_cases he : holder = name
    · subst he
      rw [List.lookup_cons_self] at hh
      obtain rfl := Option.some.inj hh
      have hnone : held.lookup holder = none := by
        rw [List.lookup_eq_none_iff]
        intro entry hm
        have hne : holder ≠ entry.1 := by
          rintro rfl
          exact hn.1 (List.mem_map.mpr ⟨entry, hm, rfl⟩)
        simpa using hne
      rw [List.filter_cons_of_neg (by simp), others_of_lookup_none hnone]
    · rw [List.lookup_cons, beq_false_of_ne he] at hh
      rw [List.filter_cons_of_pos (by simpa using Ne.symm he)]
      exact ((ih hn.2 hh).cons _).trans (.swap _ _ _)

theorem streamsOf_cons (holder : Nat) (connection : Connection) (held : List (Nat × Connection)) :
    Custody.streamsOf ((holder, connection) :: held) =
      connection.stream.toList ++ Custody.streamsOf held := by
  cases hs : connection.stream <;> simp [Custody.streamsOf, hs]

theorem streamsOf_perm (hn : (held.map Prod.fst).Nodup) (hh : held.lookup holder = some connection) :
    (Custody.streamsOf held).Perm
      (connection.stream.toList ++ Custody.streamsOf (held.filter (·.1 ≠ holder))) := by
  rw [← streamsOf_cons holder]
  exact (held_perm hn hh).filterMap _

theorem others_nodup (hn : (held.map Prod.fst).Nodup) (holder : Nat) :
    ((held.filter (·.1 ≠ holder)).map Prod.fst).Nodup :=
  hn.sublist (List.filter_sublist.map Prod.fst)

theorem hand_nodup (hn : (held.map Prod.fst).Nodup) (holder : Nat) (connection : Connection) :
    (((holder, connection) :: held.filter (·.1 ≠ holder)).map Prod.fst).Nodup := by
  rw [List.map_cons, List.nodup_cons]
  refine ⟨?_, others_nodup hn holder⟩
  intro hm
  obtain ⟨entry, hentry, he⟩ := List.mem_map.mp hm
  have hne := (List.mem_filter.mp hentry).2
  simp [he] at hne

end Held

namespace Pool

variable [Network σ] {pool changed : Pool} {wire next : Wire σ} {others : List Nat}

theorem dial_places {endpoint : Endpoint} {options : DialOptions} {answer : Answer (Option Nat)}
    (hp : wire.Places others) (hd : wire.dial endpoint options = (answer, next)) :
    next.Places (answer.toOption.join.toList ++ others) ∧
      ∀ id, Wire.Spares id wire next := by
  unfold Wire.dial at hd
  split at hd <;> obtain ⟨rfl, rfl⟩ := Prod.mk.inj hd <;>
    refine ⟨?_, fun id => ⟨[_], rfl, by simp⟩⟩
  · have hplaced : (List.range (wire.opened + 1)).Perm (wire.opened :: (others ++ wire.ended)) := by
      rw [List.range_succ]
      exact List.perm_append_comm.trans (List.Perm.cons _ hp)
    exact hplaced
  · exact hp
  · exact hp

theorem streams_cons {connection : Connection} {idle : List Connection}
    (hi : pool.idle = connection :: idle) :
    pool.streams = connection.stream.toList ++ idle.filterMap Connection.stream := by
  rw [streams, hi]
  cases hs : connection.stream <;> simp [hs]

/-- What is handed out is on no place any more. -/
theorem acquire_places {answer : Answer Connection} (hp : wire.Places (pool.streams ++ others))
    (ha : pool.acquire wire = (answer, changed, next)) :
    next.Places ((answer.toOption.bind Connection.stream).toList ++ (changed.streams ++ others)) ∧
      (∀ id, Wire.Spares id wire next) ∧
      changed = { pool with idle := changed.idle } ∧ changed.idle <:+ pool.idle := by
  unfold acquire at ha
  split at ha
  · cases ha
    exact ⟨hp, fun id => .refl id wire, rfl, List.suffix_refl _⟩
  · rename_i connection idle hc hi
    cases ha
    refine ⟨?_, fun id => .refl id wire, rfl, ?_⟩
    · rw [streams_cons hi, List.append_assoc] at hp
      exact hp
    · rw [hi]
      exact List.suffix_cons _ _
  · dsimp only at ha
    generalize hd : wire.dial pool.endpoint pool.options = dialed at ha
    obtain ⟨stream, last⟩ := dialed
    cases ha
    obtain ⟨hplaces, hspares⟩ := dial_places hp hd
    refine ⟨?_, hspares, rfl, List.suffix_refl _⟩
    cases stream with
    | error failure => exact hplaces
    | ok stream => cases stream <;> exact hplaces

end Pool

theorem Connection.discard_ended [Network σ] {id : Nat} {connection : Connection}
    (hs : connection.stream = some id) (wire : Wire σ) : id ∈ (connection.discard wire).ended := by
  rw [Wire.mem_ended, discard, Link.close, hs]
  exact List.mem_cons_self

namespace Custody

variable {custody : Custody σ} {holder id : Nat} {connection : Connection} {more : List Nat}

/-- What holds of a pool and its holders at all times. -/
structure Owned (custody : Custody σ) : Prop where
  fit : ∀ connection ∈ custody.pool.idle, connection.healthy = true ∧ connection.isOpen = true
  closed : custody.pool.capacity = none → custody.pool.idle = []
  holders : (custody.held.map Prod.fst).Nodup
  places : custody.wire.Places (custody.pool.streams ++ custody.inHand)

/-- Of the streams that have been closed, none is concerned. -/
def Spared (before after : Wire σ) : Prop :=
  ∀ id ∈ before.ended, Wire.Spares id before after

theorem handled_places {after : Link σ} (hn : (custody.held.map Prod.fst).Nodup)
    (hp : custody.wire.Places (more ++ custody.inHand))
    (hh : custody.holding holder = some connection)
    (hl : Link.Handled ⟨connection, custody.wire⟩ after) :
    after.wire.Places (after.connection.stream.toList ++
        (more ++ streamsOf (custody.others holder))) ∧
      Spared custody.wire after.wire := by
  have hplaces := (hp.perm ((streamsOf_perm hn hh).append_left more)).swap
  refine ⟨hl.places hplaces, ?_⟩
  intro id hm
  apply hl.spares
  intro hs
  exact hplaces.not_ended (List.mem_append_left _ (Option.mem_toList.mpr hs)) hm

theorem inHand_of_holding (hh : custody.holding holder = some connection)
    (hs : connection.stream = some id) : id ∈ custody.inHand := by
  rw [inHand, streamsOf, List.mem_filterMap]
  obtain ⟨entries, others, hheld, -⟩ := List.lookup_eq_some_iff.mp hh
  refine ⟨(holder, connection), ?_, hs⟩
  rw [hheld]
  exact List.mem_append_right entries List.mem_cons_self

/-- The stream has been closed, or its connection is in hand and no longer healthy. -/
def Spoiled (id : Nat) (custody : Custody σ) : Prop :=
  id ∈ custody.wire.ended ∨ ∃ holder connection, custody.holding holder = some connection ∧
    connection.stream = some id ∧ connection.healthy = false

theorem start_owned (network : σ) (endpoint : Endpoint) (options : DialOptions) (idle : Int) :
    Owned ⟨Pool.start endpoint options idle, Wire.start network, []⟩ :=
  ⟨by simp [Pool.start], fun _ => rfl, List.nodup_nil, .refl _⟩

variable [Network σ]

theorem drop_held (holder : Nat) (custody : Custody σ) :
    (custody.drop holder).held = custody.others holder := by
  unfold drop
  split
  · rename_i hnone
    exact (others_of_lookup_none hnone).symm
  · rfl

theorem drop_pool (holder : Nat) (custody : Custody σ) :
    (custody.drop holder).pool = custody.pool := by
  unfold drop
  split <;> rfl

theorem drop_places (hn : (custody.held.map Prod.fst).Nodup)
    (hp : custody.wire.Places (more ++ custody.inHand)) (holder : Nat) :
    (custody.drop holder).wire.Places (more ++ streamsOf (custody.others holder)) ∧
      Spared custody.wire (custody.drop holder).wire := by
  unfold drop
  split
  · rename_i hnone
    rw [others, others_of_lookup_none hnone]
    exact ⟨hp, fun id _ => .refl id custody.wire⟩
  · rename_i connection hh
    exact handled_places hn hp hh (Link.close_handled ⟨connection, custody.wire⟩)

theorem Owned.acquire (ho : custody.Owned) (holder : Nat) :
    (custody.act (.acquire holder)).Owned ∧
      Spared custody.wire (custody.act (.acquire holder)).wire := by
  simp only [act]
  generalize ha : custody.pool.acquire custody.wire = acquired
  obtain ⟨failure | connection, pool, wire⟩ := acquired
  all_goals
    obtain ⟨hplaces, hspares, hpool, hidle⟩ := Pool.acquire_places ho.places ha
    have hfit := fun connection hm => ho.fit connection (hidle.subset hm)
    have hclosed : pool.capacity = none → pool.idle = [] := by
      intro hc
      rw [hpool] at hc
      rw [ho.closed hc] at hidle
      exact List.suffix_nil.mp hidle
  · exact ⟨⟨hfit, hclosed, ho.holders, hplaces⟩, fun id _ => hspares id⟩
  · have hmore : wire.Places (connection.stream.toList ++ pool.streams ++ custody.inHand) := by
      rw [List.append_assoc]
      exact hplaces
    -- what the holder had before goes only after the pool has handed out the next
    obtain ⟨hdropped, hspared⟩ :=
      @drop_places _ ⟨pool, wire, custody.held⟩ _ _ ho.holders hmore holder
    refine ⟨⟨?_, ?_, ?_, ?_⟩, ?_⟩
    · simp only [drop_pool]
      exact hfit
    · simp only [drop_pool]
      exact hclosed
    · simp only [drop_held]
      exact hand_nodup ho.holders holder connection
    · simp only [drop_pool, inHand, drop_held, streamsOf_cons]
      rw [List.append_assoc] at hdropped
      exact hdropped.swap
    · intro id hm
      have hfirst := hspares id
      exact hfirst.trans (hspared id (hfirst.ended hm))

theorem Owned.use (ho : custody.Owned) (holder : Nat) (dialogue : Dialogue α) :
    (custody.act (.use holder dialogue)).Owned ∧
      Spared custody.wire (custody.act (.use holder dialogue)).wire := by
  simp only [act]
  split
  · exact ⟨ho, fun id _ => .refl id custody.wire⟩
  · rename_i connection hh
    have hhandled := dialogue.run_handled ⟨connection, custody.wire⟩
    obtain ⟨hplaces, hspared⟩ := handled_places ho.holders ho.places hh hhandled
    dsimp only
    generalize (dialogue.run ⟨connection, custody.wire⟩).2 = after at hplaces hspared ⊢
    refine ⟨⟨ho.fit, ho.closed, hand_nodup ho.holders holder after.connection, ?_⟩, hspared⟩
    rw [inHand, streamsOf_cons]
    exact hplaces.swap

theorem Owned.release (ho : custody.Owned) (holder : Nat) :
    (custody.act (.release holder)).Owned ∧
      Spared custody.wire (custody.act (.release holder)).wire := by
  have hnodup := others_nodup ho.holders holder
  simp only [act]
  cases hh : custody.holding holder with
  | none =>
    have hplaces := ho.places
    rw [inHand, ← others_of_lookup_none hh] at hplaces
    exact ⟨⟨ho.fit, ho.closed, hnodup, hplaces⟩, fun id _ => .refl id custody.wire⟩
  | some connection =>
    simp only [Pool.release]
    split
    · rename_i hkeeps
      unfold Pool.keeps at hkeeps
      split at hkeeps
      · cases hkeeps
      · rename_i room hc
        simp only [Bool.and_eq_true] at hkeeps
        refine ⟨⟨?_, ?_, hnodup, ?_⟩, fun id _ => .refl id custody.wire⟩
        · rw [List.forall_mem_cons]
          exact ⟨hkeeps.1, ho.fit⟩
        · intro hclosed
          rw [hc] at hclosed
          cases hclosed
        · have hplaces := ho.places.perm ((streamsOf_perm ho.holders hh).append_left _)
          rw [Pool.streams_cons rfl, List.append_assoc]
          exact hplaces.swap
    · obtain ⟨hplaces, hspared⟩ := handled_places ho.holders ho.places hh
        (Link.close_handled ⟨connection, custody.wire⟩)
      exact ⟨⟨ho.fit, ho.closed, hnodup, hplaces⟩, hspared⟩

theorem Owned.drop (ho : custody.Owned) (holder : Nat) :
    (custody.act (.drop holder)).Owned ∧
      Spared custody.wire (custody.act (.drop holder)).wire := by
  obtain ⟨hplaces, hspared⟩ := drop_places ho.holders ho.places holder
  refine ⟨⟨?_, ?_, ?_, ?_⟩, hspared⟩
  · simp only [act, drop_pool]
    exact ho.fit
  · simp only [act, drop_pool]
    exact ho.closed
  · simp only [act, drop_held]
    exact others_nodup ho.holders holder
  · simp only [act, drop_pool, inHand, drop_held]
    exact hplaces

theorem Owned.shuts (ho : custody.Owned) :
    Wire.Shuts custody.pool.streams custody.wire (custody.pool.close custody.wire).2 := by
  unfold Pool.close
  split
  · rename_i hc
    rw [Pool.streams, ho.closed hc]
    exact ⟨rfl, rfl⟩
  · exact Pool.discards_shuts custody.pool.idle custody.wire

theorem Owned.close (ho : custody.Owned) :
    (custody.act .close).Owned ∧ Spared custody.wire (custody.act .close).wire := by
  have hidle : (custody.pool.close custody.wire).1.idle = [] := by
    unfold Pool.close
    split
    · rename_i hc
      exact ho.closed hc
    · rfl
  have hplaces := ho.shuts.places ho.places
  refine ⟨⟨?_, fun _ => hidle, ho.holders, ?_⟩, ?_⟩
  · simp [act, hidle]
  · simp only [act, Pool.streams, hidle]
    exact hplaces
  · intro id hm
    apply ho.shuts.spares
    intro hs
    exact ho.places.not_ended (List.mem_append_left _ hs) hm

/-- Whatever is done, every stream stays accounted for, and one that has been closed is left alone. -/
theorem Owned.act (ho : custody.Owned) (act : Act) :
    (custody.act act).Owned ∧ Spared custody.wire (custody.act act).wire := by
  cases act with
  | acquire holder => exact ho.acquire holder
  | use holder dialogue => exact ho.use holder dialogue
  | release holder => exact ho.release holder
  | drop holder => exact ho.drop holder
  | close => exact ho.close

theorem Owned.acts (ho : custody.Owned) (acts : List Act) :
    (custody.acts acts).Owned ∧ Spared custody.wire (custody.acts acts).wire := by
  induction acts generalizing custody with
  | nil => exact ⟨ho, fun id _ => .refl id custody.wire⟩
  | cons act acts ih =>
    obtain ⟨hnext, hspared⟩ := ho.act act
    obtain ⟨hlast, hlater⟩ := ih hnext
    refine ⟨hlast, ?_⟩
    intro id hm
    have hfirst := hspared id hm
    exact hfirst.trans (hlater id (hfirst.ended hm))

theorem act_holding {act : Act} (hne : act.holder? ≠ some holder) :
    (custody.act act).holding holder = custody.holding holder := by
  have hothers : ∀ other, act.holder? = some other → holder ≠ other := by
    rintro other ha rfl
    exact hne ha
  cases act with
  | acquire other =>
    simp only [act]
    split
    · rfl
    · rw [holding, drop_held]
      exact (lookup_hand custody.held other holder _).trans (if_neg (hothers other rfl))
  | use other dialogue =>
    simp only [act]
    split
    · rfl
    · exact (lookup_hand custody.held other holder _).trans (if_neg (hothers other rfl))
  | release other => exact (lookup_others custody.held other holder).trans (if_neg (hothers other rfl))
  | drop other =>
    simp only [act, holding, drop_held]
    exact (lookup_others custody.held other holder).trans (if_neg (hothers other rfl))
  | close => rfl

theorem drop_ended (hh : custody.holding holder = some connection)
    (hs : connection.stream = some id) : id ∈ (custody.drop holder).wire.ended := by
  simp only [drop, hh]
  exact connection.discard_ended hs custody.wire

/-- A stream that is spoiled remains so, whatever is done. -/
theorem Spoiled.act (hspoiled : custody.Spoiled id) (ho : custody.Owned) (act : Act) :
    (custody.act act).Spoiled id := by
  rcases hspoiled with hm | ⟨holder, connection, hh, hs, hhealth⟩
  · exact .inl (((ho.act act).2 id hm).ended hm)
  -- only the holder itself can do something with what it has in hand
  by_cases hother : act.holder? ≠ some holder
  · exact .inr ⟨holder, connection, (act_holding hother).trans hh, hs, hhealth⟩
  rw [not_not] at hother
  cases act with
  | acquire other =>
    obtain rfl := Option.some.inj hother
    simp only [Custody.act]
    split
    · exact .inr ⟨other, connection, hh, hs, hhealth⟩
    · exact .inl (drop_ended hh hs)
  | use other dialogue =>
    obtain rfl := Option.some.inj hother
    have hhandled := dialogue.run_handled ⟨connection, custody.wire⟩
    simp only [Custody.act, hh]
    generalize (dialogue.run ⟨connection, custody.wire⟩).2 = after at hhandled ⊢
    rcases hhandled.spoiled hs hhealth with hm | ⟨hs', hhealth'⟩
    · exact .inl hm
    · refine .inr ⟨other, after.connection, ?_, hs', hhealth'⟩
      exact List.lookup_cons_self
  | release other =>
    obtain rfl := Option.some.inj hother
    have hrefused : custody.pool.keeps connection = false := by
      unfold Pool.keeps
      split <;> simp [hhealth]
    refine .inl ?_
    simp only [Custody.act, Pool.release, hh, hrefused, Bool.false_eq_true, ↓reduceIte]
    exact connection.discard_ended hs custody.wire
  | drop other =>
    obtain rfl := Option.some.inj hother
    exact .inl (drop_ended hh hs)
  | close => cases hother

theorem Spoiled.acts (hspoiled : custody.Spoiled id) (ho : custody.Owned) (acts : List Act) :
    (custody.acts acts).Spoiled id := by
  induction acts generalizing custody with
  | nil => exact hspoiled
  | cons act acts ih => exact ih (hspoiled.act ho act) (ho.act act).1

end Custody

example (endpoint : Endpoint) (options : DialOptions) :
    let custody := Custody.acts [.acquire 0, .acquire 0]
      ⟨Pool.start endpoint options 1, Wire.start ({} : Script), []⟩
    custody.inHand = [1] ∧ custody.wire.ended = [0] := ⟨rfl, rfl⟩

end CacheClient
