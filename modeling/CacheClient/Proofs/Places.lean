import CacheClient.Proofs.Dialogues
import CacheClient.Proofs.Ownership

namespace CacheClient

def Event.ended? : Event → Option Nat
  | .closed id => some id
  | _ => none

namespace Wire

/-- The streams that have been closed, as often as they were. -/
def ended (wire : Wire σ) : List Nat :=
  wire.journal.filterMap Event.ended?

/-- Every stream that was opened is in one of these places or has been closed, and only once in all. -/
def Places (places : List Nat) (wire : Wire σ) : Prop :=
  (List.range wire.opened).Perm (places ++ wire.ended)

variable {id : Nat} {ids here others : List Nat} {wire next : Wire σ}

theorem mem_ended : id ∈ wire.ended ↔ .closed id ∈ wire.journal := by
  simp only [ended, List.mem_filterMap]
  constructor
  · rintro ⟨event, hm, he⟩
    cases event with
    | closed other =>
      obtain rfl := Option.some.inj he
      exact hm
    | _ => cases he
  · intro hm
    exact ⟨_, hm, rfl⟩

theorem Spares.ended (h : Spares id wire next) {other : Nat} (hm : other ∈ wire.ended) :
    other ∈ next.ended := by
  obtain ⟨events, hj, -⟩ := h
  rw [mem_ended, hj]
  exact List.mem_append_right events (mem_ended.mp hm)

theorem Talks.ended (h : Talks id wire next) : next.ended = wire.ended := by
  obtain ⟨-, events, hj, he⟩ := h
  have hnone : events.filterMap Event.ended? = [] := by
    rw [List.filterMap_eq_nil_iff]
    intro event hm
    have hid := he event hm
    cases event with
    | closed => cases hid
    | _ => rfl
  rw [Wire.ended, hj, List.filterMap_append, hnone]
  rfl

theorem Talks.refl (id : Nat) (wire : Wire σ) : Talks id wire wire :=
  ⟨rfl, [], rfl, by simp⟩

theorem Places.perm (h : wire.Places here) (hp : here.Perm others) : wire.Places others :=
  List.Perm.trans h (hp.append_right wire.ended)

theorem Places.swap {first second rest : List Nat} (h : wire.Places (first ++ (second ++ rest))) :
    wire.Places (second ++ (first ++ rest)) := by
  apply h.perm
  rw [← List.append_assoc, ← List.append_assoc]
  exact List.perm_append_comm.append_right rest

theorem Places.not_ended (h : wire.Places here) (hm : id ∈ here) : id ∉ wire.ended := by
  have hnodup := (List.Perm.nodup_iff h).mp List.nodup_range
  intro he
  exact (List.nodup_append.mp hnodup).2.2 id hm id he rfl

theorem Places.elsewhere (h : wire.Places (here ++ others)) (hm : id ∈ here) : id ∉ others := by
  have hnodup := (List.nodup_append.mp ((List.Perm.nodup_iff h).mp List.nodup_range)).1
  intro ho
  exact (List.nodup_append.mp hnodup).2.2 id hm id ho rfl

theorem Places.live (h : wire.Places here) : wire.live.Perm here := by
  -- open is what was opened and has not ended; the places hold just that, each once
  have hopen : ∀ id, id ∈ wire.live ↔ id < wire.opened ∧ id ∉ wire.ended := by
    intro id
    rw [mem_live, mem_ended]
    apply and_congr_right
    intro _
    constructor
    · intro hnone hm
      have hclosed := hnone _ hm
      simp [Event.closes] at hclosed
    · intro hnot event hm
      cases event with
      | closed other =>
        have hne : other ≠ id := fun he => hnot (he ▸ hm)
        simpa [Event.closes] using hne
      | _ => rfl
  have hnodup := (List.nodup_append.mp ((List.Perm.nodup_iff h).mp List.nodup_range)).1
  rw [List.perm_ext_iff_of_nodup wire.live_nodup hnodup]
  intro id
  rw [hopen, ← List.mem_range, List.Perm.mem_iff h, List.mem_append]
  constructor
  · rintro ⟨hm | hm, hnot⟩
    · exact hm
    · exact absurd hm hnot
  · intro hm
    exact ⟨.inl hm, h.not_ended hm⟩

theorem Shuts.ended (h : Shuts ids wire next) : next.ended = ids.reverse ++ wire.ended := by
  have hids : (ids.map Event.closed).reverse.filterMap Event.ended? = ids.reverse := by
    rw [← List.map_reverse, List.filterMap_map]
    exact List.filterMap_some
  rw [Wire.ended, h.journal, List.filterMap_append, hids]
  rfl

theorem Shuts.places (h : Shuts ids wire next) (hp : wire.Places (ids ++ others)) :
    next.Places others := by
  rw [Places, h.opened, h.ended]
  refine List.Perm.trans hp ?_
  rw [List.append_assoc]
  refine List.perm_append_comm.trans ?_
  rw [List.append_assoc]
  apply List.Perm.append_left
  exact List.perm_append_comm.trans (ids.reverse_perm.symm.append_right _)

end Wire

namespace Link

/-- What can become of a connection and its wire while somebody has it in hand: it may lose its stream, by
closing it, and its health; other streams are left alone. -/
structure Handled (link after : Link σ) : Prop where
  stream : after.connection.stream = link.connection.stream ∨ after.connection.stream = none
  opened : after.wire.opened = link.wire.opened
  ended : (after.connection.stream.toList ++ after.wire.ended).Perm
    (link.connection.stream.toList ++ link.wire.ended)
  spares : ∀ other, link.connection.stream ≠ some other → Wire.Spares other link.wire after.wire
  healthy : after.connection.healthy = true → link.connection.healthy = true

variable {id : Nat} {link after last : Link σ} {others : List Nat}

theorem Handled.trans (h : Handled link after) (h' : Handled after last) : Handled link last := by
  refine ⟨?_, h'.opened.trans h.opened, h'.ended.trans h.ended, ?_, h.healthy ∘ h'.healthy⟩
  · rcases h'.stream with hs | hs
    · rw [hs]
      exact h.stream
    · exact .inr hs
  · intro other hne
    apply (h.spares other hne).trans
    apply h'.spares
    rcases h.stream with hs | hs
    · rw [hs]
      exact hne
    · rw [hs]
      simp

theorem Handled.update (change : Connection → Connection)
    (hs : (change link.connection).stream = link.connection.stream)
    (hh : (change link.connection).healthy = true → link.connection.healthy = true) :
    Handled link (link.update change) :=
  ⟨.inl hs, rfl, by rw [Link.update, hs], fun other _ => .refl other link.wire, hh⟩

theorem Handled.talk (hs : link.connection.stream = some id)
    (hs' : after.connection.stream = link.connection.stream)
    (hh : after.connection.healthy = link.connection.healthy)
    (ht : Wire.Talks id link.wire after.wire) : Handled link after := by
  refine ⟨.inl hs', ht.opened, by rw [hs', ht.ended], ?_, fun h => hh ▸ h⟩
  intro other hne
  apply ht.spares
  rintro rfl
  exact hne hs

theorem Handled.places (h : Handled link after)
    (hp : link.wire.Places (link.connection.stream.toList ++ others)) :
    after.wire.Places (after.connection.stream.toList ++ others) := by
  have hfront {first rest ended : List Nat} :
      (first ++ rest ++ ended).Perm (rest ++ (first ++ ended)) := by
    rw [← List.append_assoc]
    exact List.perm_append_comm.append_right ended
  rw [Wire.Places, h.opened]
  refine List.Perm.trans hp (hfront.trans ?_)
  exact (h.ended.symm.append_left others).trans hfront.symm

theorem Handled.ends (h : Handled link after) (hs : link.connection.stream = some id)
    (hs' : after.connection.stream = none) : id ∈ after.wire.ended := by
  have hm := h.ended.symm.subset (List.mem_append_left _ (Option.mem_toList.mpr hs))
  simpa [hs'] using hm

/-- The stream has been closed, or its connection is not healthy any more. -/
def Spoiled (id : Nat) (link : Link σ) : Prop :=
  id ∈ link.wire.ended ∨ link.connection.stream = some id ∧ link.connection.healthy = false

theorem Handled.spoiled (h : Handled link after) (hs : link.connection.stream = some id)
    (hhealth : link.connection.healthy = false) : after.Spoiled id := by
  rcases h.stream with hs' | hs'
  · refine .inr ⟨hs'.trans hs, ?_⟩
    rw [← Bool.not_eq_true]
    intro hhealthy
    rw [h.healthy hhealthy] at hhealth
    cases hhealth
  · exact .inl (h.ends hs hs')

theorem Handled.later (h : Handled link after) (h' : Handled after last)
    (hs : link.connection.stream = some id)
    (hlast : after.connection.stream = some id → last.Spoiled id) : last.Spoiled id := by
  rcases h.stream with hs' | hs'
  · exact hlast (hs'.trans hs)
  · refine .inl ((h'.spares id ?_).ended (h.ends hs hs'))
    rw [hs']
    simp

variable [Network σ]

theorem Reads.handled {consumed : Bytes} (hs : link.connection.stream = some id)
    (h : Reads id consumed link after) : Handled link after := by
  obtain ⟨hc, bytes, hb, -⟩ := h
  exact .talk hs (by rw [hc]) (by rw [hc]) hb.talks

theorem flush_handled (link : Link σ) : Handled link link.flush.2 := by
  cases hs : link.connection.stream with
  | none =>
    simp only [flush, hs]
    exact .update id rfl fun h => h
  | some id =>
    simp only [flush, hs]
    split
    · exact .talk hs rfl rfl (.refl id link.wire)
    · exact .talk hs hs.symm rfl (Wire.write_talks rfl)

theorem awaitLine_hollow (hs : link.connection.stream = none) (allowance scanned : Nat) :
    (link.awaitLine allowance scanned).2 = link := by
  obtain ⟨⟨stream, unread, unsent, healthy⟩, wire⟩ := link
  obtain rfl : stream = none := hs
  unfold awaitLine
  split
  · rfl
  · cases allowance with
    | zero => rfl
    | succ allowance =>
      dsimp only
      split
      · rfl
      · simp [pull, Link.update, Connection.receive]

theorem gather_hollow (hs : link.connection.stream = none) (allowance missing : Nat) :
    (link.gather allowance missing).2.2 = link := by
  cases allowance with
  | zero => rfl
  | succ allowance =>
    unfold gather
    split
    · rfl
    · simp [pull, hs]

theorem readLine_hollow (hs : link.connection.stream = none) :
    ∃ unread, link.readLine.2 = link.update fun connection => { connection with unread } := by
  have hkept := awaitLine_hollow hs (Connection.longestLine + 1 - link.connection.unread.length) 0
  rw [readLine_eq]
  split <;> rename_i ha <;> rw [ha] at hkept <;> dsimp only at hkept ⊢ <;> subst hkept
  · exact ⟨_, rfl⟩
  · exact ⟨_, rfl⟩

theorem readExact_hollow (n : Nat) (hs : link.connection.stream = none) :
    ∃ unread, (link.readExact n).2 = link.update fun connection => { connection with unread } := by
  have hkept := gather_hollow hs (n - link.connection.unread.length) (n - link.connection.unread.length)
  rw [readExact_eq]
  split
  · exact ⟨_, rfl⟩
  · dsimp only
    generalize link.gather _ _ = gathered at hkept
    obtain ⟨bytes, fault, next⟩ := gathered
    obtain rfl : next = link := hkept
    cases fault <;> exact ⟨_, rfl⟩

theorem readLine_handled (link : Link σ) : Handled link link.readLine.2 := by
  cases hs : link.connection.stream with
  | none =>
    obtain ⟨unread, hread⟩ := readLine_hollow hs
    rw [hread]
    exact .update _ rfl fun h => h
  | some id =>
    generalize hr : link.readLine = result
    obtain ⟨fault | line, after⟩ := result
    · obtain ⟨broken, ht, -⟩ := readLine_fails hs hr
      exact ht.reads.handled hs
    · exact (readLine_takes hs hr).1.reads.handled hs

theorem readExact_handled (n : Nat) (link : Link σ) : Handled link (link.readExact n).2 := by
  cases hs : link.connection.stream with
  | none =>
    obtain ⟨unread, hread⟩ := readExact_hollow n hs
    rw [hread]
    exact .update _ rfl fun h => h
  | some id =>
    generalize hr : link.readExact n = result
    obtain ⟨answer, after⟩ := result
    obtain ⟨broken, ht, -⟩ := readExact_outcome n hs hr
    exact ht.reads.handled hs

theorem close_handled (link : Link σ) : Handled link link.close := by
  cases hs : link.connection.stream with
  | none =>
    have hwire : link.close.wire = link.wire := by simp only [close, hs]
    refine ⟨.inr rfl, by rw [hwire], ?_, fun other _ => by rw [hwire]; exact .refl other _, fun h => h⟩
    rw [hwire, hs]
    exact .refl _
  | some id =>
    have hwire : link.close.wire = link.wire.close id := by simp only [close, hs]
    refine ⟨.inr rfl, by rw [hwire]; rfl, ?_, ?_, fun h => h⟩
    · rw [hwire, hs]
      exact .refl _
    · intro other hne
      rw [hwire]
      apply Wire.close_spares
      rintro rfl
      exact hne hs

end Link

namespace Dialogue

variable [Network σ] {id : Nat} {link : Link σ}

theorem run_handled (dialogue : Dialogue α) (link : Link σ) :
    Link.Handled link (dialogue.run link).2 := by
  induction dialogue generalizing link with
  | done answer => exact .update (fun connection => connection) rfl fun h => h
  | write bytes next ih =>
    exact (Link.Handled.update (Connection.write bytes) rfl fun h => h).trans (ih _)
  | flush next ih => exact link.flush_handled.trans (ih _ _)
  | readLine next ih => exact link.readLine_handled.trans (ih _ _)
  | readExact n next ih => exact (link.readExact_handled n).trans (ih _ _)
  | record ok next ih =>
    refine (Link.Handled.update (Connection.record ok) rfl fun h => ?_).trans (ih _)
    exact (Bool.and_eq_true_iff.mp h).1
  | close next ih => exact link.close_handled.trans (ih _)
  | look next ih => exact ih _ _ _ link

end Dialogue

end CacheClient
