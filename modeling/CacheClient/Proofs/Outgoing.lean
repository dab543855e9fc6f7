import CacheClient.Proofs.Requests
import CacheClient.Proofs.Transcripts

namespace CacheClient

namespace Event

variable {id other : Nat} {events : List Event}

theorem written_append (id : Nat) (first rest : List Event) :
    written id (first ++ rest) = written id first ++ written id rest :=
  List.flatMap_append

theorem written_nil (h : ∀ event ∈ events, event.writes id = false) : written id events = [] := by
  apply List.flatMap_eq_nil_iff.mpr
  intro event hm
  have hnot := h event hm
  cases event with
  | wrote of bytes fault =>
    have hne : of ≠ id := by simpa [writes] using hnot
    cases fault <;> simp [hne]
  | _ => rfl

def WritesSucceed (id : Nat) (events : List Event) : Prop :=
  ∀ bytes fault, .wrote id bytes fault ∈ events → fault = none

theorem Talk.written {text : Bytes} {answer : Answer α} (h : Talk id text answer events)
    (hw : WritesSucceed id events) : Event.written id events = text := by
  cases h with
  | unsent fault =>
    cases hw text (some fault) List.mem_cons_self
  | @sent _ _ events hr =>
    have hreads : Event.written id events = [] := by
      apply written_nil
      intro event hm
      have hread := hr.reads event hm
      cases event with
      | wrote => cases hread
      | _ => rfl
    have hcons : Event.written id (.wrote id text none :: events) =
        text ++ Event.written id events := by
      simp [Event.written]
    rw [hcons, hreads, List.append_nil]

end Event

namespace Wire

variable {before middle after : Wire σ}

def Ends (before after : Wire σ) : Prop :=
  ∃ events, after.journal = events ++ before.journal ∧ ∀ event ∈ events, ∃ id, event = .closed id

theorem Ends.trans (h : Ends before middle) (h' : Ends middle after) :
    Ends before after := by
  obtain ⟨events, hj, he⟩ := h
  obtain ⟨events', hj', he'⟩ := h'
  refine ⟨events' ++ events, by rw [hj', hj, List.append_assoc], ?_⟩
  intro event hm
  rcases List.mem_append.mp hm with hm | hm
  · exact he' event hm
  · exact he event hm

theorem Shuts.ends {ids : List Nat} (h : Shuts ids before after) : Ends before after := by
  refine ⟨_, h.journal, ?_⟩
  intro event hm
  obtain ⟨id, -, rfl⟩ := List.mem_map.mp (List.mem_reverse.mp hm)
  exact ⟨id, rfl⟩

end Wire

namespace Pool

variable [Network σ] {pool : Pool} {wire : Wire σ} {id : Nat} {command : Command}
variable {stream : Option Nat} {events : List Event}

theorem Transcript.written {answer : Answer command.Value}
    (h : Transcript command pool wire answer stream events) (hw : Event.WritesSucceed id events) :
    Event.written id events = if stream = some id then command.text else [] := by
  cases h with
  | silent => simp [Event.written]
  | unopened => simp [Event.written]
  | @talked of opening talk closing ho ht hc =>
    -- dials and ends put nothing on a stream
    have hopening : Event.written id opening = [] := by
      rcases ho with rfl | rfl <;> rfl
    have hclosing : Event.written id closing = [] := by
      rcases hc with rfl | rfl <;> rfl
    rw [Event.written_append, Event.written_append, hopening, hclosing, List.nil_append,
      List.append_nil]
    by_cases hid : of = id
    · subst hid
      rw [if_pos rfl]
      apply ht.written
      intro bytes fault hm
      exact hw bytes fault (List.mem_append_right _ (List.mem_append_left _ hm))
    · rw [if_neg (fun he => hid (Option.some.inj he))]
      apply Event.written_nil
      intro event hm
      cases hwrites : event.writes id with
      | false => rfl
      | true =>
        have hevent : event.concerns id = true := by simp [Event.concerns, hwrites]
        exact absurd (Event.concerns_eq (ht.concerns event hm) hevent) hid

end Pool

namespace Running

variable [Network σ] {running : Running σ} {room id : Nat} {call : Client.Call β}

end Running

end CacheClient
