import CacheClient.Proofs.Custody
import Mathlib.Logic.Relation

namespace CacheClient

namespace Wire

theorem Places.open_stream {wire : Wire σ} {stream : Option Nat} {id : Nat} {others : List Nat}
    (hp : wire.Places (stream.toList ++ others)) (hs : stream = some id) : id ∈ wire.live := by
  rw [hp.live.mem_iff, hs]
  exact List.mem_cons_self

variable [Network σ]

/-- One thing that is asked of a wire: a dial, or something of an open stream. -/
inductive Turn (wire : Wire σ) : Wire σ → Prop where
  | dial (endpoint : Endpoint) (options : DialOptions) : Turn wire (wire.dial endpoint options).2
  | read {id : Nat} (isOpen : id ∈ wire.live) (room : Nat) : Turn wire (wire.read id room).2
  | write {id : Nat} (isOpen : id ∈ wire.live) (bytes : Bytes) : Turn wire (wire.write id bytes).2
  | close {id : Nat} (isOpen : id ∈ wire.live) : Turn wire (wire.close id)

def Orderly : Wire σ → Wire σ → Prop :=
  Relation.ReflTransGen Turn

variable {wire next last : Wire σ} {id : Nat}

theorem Orderly.refl (wire : Wire σ) : Orderly wire wire :=
  Relation.ReflTransGen.refl

theorem Orderly.trans (h : Orderly wire next) (h' : Orderly next last) : Orderly wire last :=
  Relation.ReflTransGen.trans h h'

theorem Turn.orderly (h : wire.Turn next) : Orderly wire next :=
  Relation.ReflTransGen.single h

theorem dial_orderly {answer : Answer (Option Nat)}
    (hd : wire.dial endpoint options = (answer, next)) : Orderly wire next := by
  have h : wire.Turn (wire.dial endpoint options).2 := .dial endpoint options
  rw [hd] at h
  exact h.orderly

theorem write_orderly {fault : Option Fault} (hid : id ∈ wire.live)
    (hw : wire.write id bytes = (fault, next)) : Orderly wire next := by
  have h := Turn.write hid bytes
  rw [hw] at h
  exact h.orderly

theorem Brings.orderly (h : Brings id bytes wire last) (hid : id ∈ wire.live) : Orderly wire last := by
  induction h with
  | done wire => exact .refl wire
  | @read wire next last more room delivery hr _ ih =>
    have hturn := Turn.read hid room
    rw [hr] at hturn
    apply hturn.orderly.trans
    apply ih
    rw [(Brings.once hr).talks.live]
    exact hid

/-- What all turns keep is kept. -/
theorem Orderly.keeps {kept : Wire σ → Prop} (h : Orderly wire last) (hw : kept wire)
    (hturn : ∀ {wire next : Wire σ}, kept wire → wire.Turn next → kept next) : kept last := by
  induction h with
  | refl => exact hw
  | tail _ hlast ih => exact hturn ih hlast

end Wire

theorem Connection.discard_orderly [Network σ] {connection : Connection} {wire : Wire σ}
    (hs : ∀ id, connection.stream = some id → id ∈ wire.live) :
    Wire.Orderly wire (connection.discard wire) := by
  cases hstream : connection.stream with
  | none =>
    rw [discard, Link.close, hstream]
    exact .refl wire
  | some id =>
    rw [Pool.discard_eq hstream]
    exact (Wire.Turn.close (hs id hstream)).orderly

namespace Link

variable [Network σ] {id : Nat} {link after : Link σ} {others : List Nat}

theorem Reads.orderly {consumed : Bytes} (h : Reads id consumed link after) (hid : id ∈ link.wire.live) :
    Wire.Orderly link.wire after.wire := by
  obtain ⟨-, bytes, hb, -⟩ := h
  exact hb.orderly hid

theorem Exchanged.orderly {answer : Answer command.Value} (h : Exchanged id command link answer after)
    (hid : id ∈ link.wire.live) : Wire.Orderly link.wire after.wire := by
  have hreads {consumed : Bytes} {wire : Wire σ} (hw : link.wire.write id command.text = (none, wire))
      (hr : Reads id consumed ⟨link.connection, wire⟩ after) : Wire.Orderly link.wire after.wire := by
    apply (Wire.write_orderly hid hw).trans
    apply hr.orderly
    rw [(Wire.write_talks hw).live]
    exact hid
  cases h with
  | unsent hw => exact Wire.write_orderly hid hw
  | broken hw hr => exact hreads hw hr
  | replied hw hr => exact hreads hw hr

section Steps

variable (hp : link.wire.Places (link.connection.stream.toList ++ others))
include hp

theorem flush_orderly : Wire.Orderly link.wire link.flush.2.wire := by
  cases hs : link.connection.stream with
  | none =>
    simp only [flush, hs]
    exact .refl _
  | some id =>
    simp only [flush, hs]
    split
    · exact .refl _
    · exact (Wire.Turn.write (hp.open_stream hs) _).orderly

theorem readLine_orderly : Wire.Orderly link.wire link.readLine.2.wire := by
  cases hs : link.connection.stream with
  | none =>
    obtain ⟨unread, hread⟩ := readLine_hollow hs
    rw [hread]
    exact .refl _
  | some id =>
    have hid := hp.open_stream hs
    generalize hr : link.readLine = result
    obtain ⟨fault | line, after⟩ := result
    · obtain ⟨broken, ht, -⟩ := readLine_fails hs hr
      exact ht.reads.orderly hid
    · exact (readLine_takes hs hr).1.reads.orderly hid

theorem readExact_orderly (n : Nat) : Wire.Orderly link.wire (link.readExact n).2.wire := by
  cases hs : link.connection.stream with
  | none =>
    obtain ⟨unread, hread⟩ := readExact_hollow n hs
    rw [hread]
    exact .refl _
  | some id =>
    generalize hr : link.readExact n = result
    obtain ⟨answer, after⟩ := result
    obtain ⟨broken, ht, -⟩ := readExact_outcome n hs hr
    exact ht.reads.orderly (hp.open_stream hs)

theorem close_orderly : Wire.Orderly link.wire link.close.wire :=
  Connection.discard_orderly fun _ => hp.open_stream

end Steps

end Link

theorem Dialogue.run_orderly [Network σ] {link : Link σ} {others : List Nat} (dialogue : Dialogue α)
    (hp : link.wire.Places (link.connection.stream.toList ++ others)) :
    Wire.Orderly link.wire (dialogue.run link).2.wire := by
  induction dialogue generalizing link with
  | done answer => exact .refl _
  | write bytes next ih => exact @ih (link.update (·.write bytes)) hp
  | flush next ih => exact (Link.flush_orderly hp).trans (ih _ (link.flush_handled.places hp))
  | readLine next ih => exact (Link.readLine_orderly hp).trans (ih _ (link.readLine_handled.places hp))
  | readExact n next ih =>
    exact (Link.readExact_orderly hp n).trans (ih _ ((link.readExact_handled n).places hp))
  | record ok next ih => exact @ih (link.update (·.record ok)) hp
  | close next ih => exact (Link.close_orderly hp).trans (ih (link.close_handled.places hp))
  | look next ih => exact ih _ _ _ hp

namespace Pool

variable [Network σ] {pool rest changed : Pool} {wire next : Wire σ} {id : Nat}
variable {link : Link σ} {command : Command} {others : List Nat}

theorem acquire_orderly (pool : Pool) (wire : Wire σ) : Wire.Orderly wire (pool.acquire wire).2.2 := by
  unfold acquire
  split
  · exact .refl wire
  · exact .refl wire
  · exact Wire.dial_orderly rfl

theorem discards_orderly (idle : List Connection)
    (hl : wire.live.Perm (idle.filterMap Connection.stream ++ others)) :
    Wire.Orderly wire (idle.foldl (fun wire connection => connection.discard wire) wire) := by
  induction idle generalizing wire with
  | nil => exact .refl wire
  | cons connection idle ih =>
    cases hs : connection.stream with
    | none =>
      rw [List.filterMap_cons_none hs] at hl
      have hkept : connection.discard wire = wire := by simp [Connection.discard, Link.close, hs]
      rw [List.foldl_cons, hkept]
      exact ih hl
    | some id =>
      rw [List.filterMap_cons_some hs] at hl
      have hid : id ∈ wire.live := hl.mem_iff.mpr List.mem_cons_self
      rw [List.foldl_cons, discard_eq hs]
      exact (Wire.Turn.close hid).orderly.trans (ih (Wire.close_live hl))

theorem close_orderly (pool : Pool) (hl : wire.live.Perm (pool.streams ++ others)) :
    Wire.Orderly wire (pool.close wire).2 := by
  unfold close
  split
  · exact .refl wire
  · exact discards_orderly pool.idle hl

theorem closeEach_orderly (pools : List Pool) (hp : ∀ pool ∈ pools, pool.Sound) (hn : wire.Numbered)
    (hl : wire.live.Perm (pools.flatMap streams ++ others)) :
    Wire.Orderly wire (closeEach pools wire).2 := by
  induction pools generalizing wire with
  | nil => exact .refl wire
  | cons pool pools ih =>
    have hpool := hp pool List.mem_cons_self
    rw [List.flatMap_cons, List.append_assoc] at hl
    obtain ⟨hn', hl'⟩ := discards_accounted pool.idle hpool.resting hn hl
    simp only [closeEach, close_eq hpool]
    apply (discards_orderly pool.idle hl).trans
    exact ih (fun pool hm => hp pool (List.mem_cons_of_mem _ hm)) hn' hl'

theorem Lends.orderly (h : pool.Lends wire id link rest) : Wire.Orderly wire link.wire := by
  cases h with
  | reused => exact .refl wire
  | dialed _ _ hd => exact Wire.dial_orderly hd

theorem Ran.orderly {answer : Answer command.Value} (h : Ran command pool wire answer changed next)
    (hp : pool.Sound) (hn : wire.Numbered) (hl : wire.live.Perm (pool.streams ++ others)) :
    Wire.Orderly wire next := by
  have hexchange {id : Nat} {link after : Link σ} {rest : Pool} {answer : Answer command.Value}
      (hlend : pool.Lends wire id link rest) (he : link.exchange command = (answer, after)) :
      Wire.Orderly wire after.wire ∧ id ∈ after.wire.live := by
    have hx := hlend.exchanged hp he
    have hid : id ∈ link.wire.live := (hlend.accounted hn hl).2.mem_iff.mpr List.mem_cons_self
    refine ⟨hlend.orderly.trans (hx.orderly hid), ?_⟩
    rw [hx.talks.live]
    exact hid
  cases h with
  | closed => exact .refl wire
  | refused _ _ hd => exact Wire.dial_orderly hd
  | hollow _ _ hd => exact Wire.dial_orderly hd
  | kept hlend he => exact (hexchange hlend he).1
  | dropped hlend he =>
    obtain ⟨horderly, hid⟩ := hexchange hlend he
    exact horderly.trans (Wire.Turn.close hid).orderly

end Pool

namespace Engine

variable [Network σ] {engine : Engine σ}

theorem Accounted.move_orderly (he : engine.Accounted) (move : Move) :
    Wire.Orderly engine.wire (engine.move move).wire := by
  cases move with
  | exchange command =>
    obtain ⟨pool, next, hr, heq⟩ := exchange_ran command he.sound
    obtain ⟨others, hbefore, -⟩ := idleStreams_put command.key pool engine
    simp only [Engine.move, heq]
    exact hr.orderly (he.sound _ (engine.router.owner_mem command.key)) he.numbered (he.live.trans hbefore)
  | close =>
    have hl : engine.wire.live.Perm (engine.router.pools.flatMap Pool.streams ++ []) := by
      rw [List.append_nil]
      exact he.live
    exact Pool.closeEach_orderly _ he.sound he.numbered hl

theorem Accounted.moves_orderly (he : engine.Accounted) (moves : List Move) :
    Wire.Orderly engine.wire (engine.moves moves).wire := by
  induction moves generalizing engine with
  | nil => exact .refl _
  | cons move moves ih => exact (he.move_orderly move).trans (ih (he.move move))

end Engine

theorem Running.Accounted.orderly [Network σ] {running : Running σ} {room : Nat}
    (hr : running.Accounted room) (steps : List Step) :
    Wire.Orderly running.wire (running.steps steps).wire := by
  have hmoves := hr.engine.moves_orderly (running.moves steps)
  rw [← steps_engine] at hmoves
  exact hmoves

namespace Custody

variable [Network σ] {custody : Custody σ} {holder : Nat} {connection : Connection} {more : List Nat}

theorem drop_orderly (hp : custody.wire.Places (more ++ custody.inHand)) (holder : Nat) :
    Wire.Orderly custody.wire (custody.drop holder).wire := by
  unfold drop
  split
  · exact .refl _
  · rename_i connection hh
    apply Connection.discard_orderly
    intro id hs
    rw [hp.live.mem_iff]
    exact List.mem_append_right more (inHand_of_holding hh hs)

theorem Owned.act_orderly (ho : custody.Owned) (act : Act) :
    Wire.Orderly custody.wire (custody.act act).wire := by
  cases act with
  | acquire holder =>
    have hacquire := custody.pool.acquire_orderly custody.wire
    simp only [Custody.act]
    generalize ha : custody.pool.acquire custody.wire = acquired at hacquire ⊢
    obtain ⟨failure | connection, pool, wire⟩ := acquired
    · exact hacquire
    · have hplaces := (Pool.acquire_places ho.places ha).1
      rw [← List.append_assoc] at hplaces
      exact hacquire.trans (@drop_orderly _ _ ⟨pool, wire, custody.held⟩ _ hplaces holder)
  | use holder dialogue =>
    simp only [Custody.act]
    split
    · exact .refl _
    · rename_i connection hh
      have hplaces := (ho.places.perm ((streamsOf_perm ho.holders hh).append_left _)).swap
      exact @Dialogue.run_orderly _ _ _ ⟨connection, custody.wire⟩ _ dialogue hplaces
  | release holder =>
    simp only [Custody.act]
    cases hh : custody.holding holder with
    | none => exact .refl _
    | some connection =>
      simp only [Pool.release]
      split
      · exact .refl _
      · have hdrop := drop_orderly ho.places holder
        simp only [Custody.drop, hh] at hdrop
        exact hdrop
  | drop holder => exact drop_orderly ho.places holder
  | close => exact custody.pool.close_orderly ho.places.live

theorem Owned.acts_orderly (ho : custody.Owned) (acts : List Act) :
    Wire.Orderly custody.wire (custody.acts acts).wire := by
  induction acts generalizing custody with
  | nil => exact .refl _
  | cons act acts ih => exact (ho.act_orderly act).trans (ih (ho.act act).1)

end Custody

end CacheClient
