import CacheClient.Proofs.Calls
import CacheClient.Proofs.Creation
import CacheClient.Script

namespace CacheClient

namespace Failure

/-- How the kinds are spelled. -/
def spelling : List (Kind × Bytes) :=
  [(.keyInvalid, ascii "KeyInvalid"), (.invalidExpiration, ascii "InvalidExpiration"),
    (.negativeDelta, ascii "NegativeDelta"), (.invalidAddress, ascii "InvalidAddress"),
    (.clientClosed, ascii "ClientClosed"), (.connectionError, ascii "ConnectionError"),
    (.sendFailed, ascii "SendFailed"), (.receiveFailed, ascii "ReceiveFailed"), (.timeout, ascii "Timeout"),
    (.cacheMiss, ascii "CacheMiss"), (.notFound, ascii "NotFound"), (.notStored, ascii "NotStored"),
    (.conflict, ascii "Conflict"), (.nonNumeric, ascii "NonNumeric"), (.protocolError, ascii "ProtocolError"),
    (.encodeFailed, ascii "EncodeFailed"), (.decodeFailed, ascii "DecodeFailed"), (.multiple, ascii "Multiple")]

/-- The table has every kind with its name; no name is empty, and none is that of two kinds. -/
theorem spelling_names :
    spelling = Kind.all.map (fun kind => (kind, kind.name)) ∧ (∀ kind, kind ∈ Kind.all) ∧
      (∀ entry ∈ spelling, entry.2 ≠ []) ∧ (spelling.map Prod.snd).Nodup := by
  refine ⟨rfl, ?_, by decide +kernel, by decide +kernel⟩
  intro kind
  cases kind <;> decide

theorem name_spelled (kind : Kind) : (kind, kind.name) ∈ spelling := by
  obtain ⟨htable, hall, -⟩ := spelling_names
  rw [htable]
  exact List.mem_map_of_mem (hall kind)

theorem name_ne_nil (kind : Kind) : kind.name ≠ [] :=
  spelling_names.2.2.1 _ (name_spelled kind)

/-- What stands for a failure in a list: the name of its kind, and its message if it has one. -/
inductive Entry (failure : Failure) : Bytes → Prop where
  | bare {name : Bytes} (named : (failure.kind, name) ∈ spelling) (silent : failure.message = []) :
      Entry failure name
  | full {name : Bytes} (named : (failure.kind, name) ∈ spelling) (said : failure.message ≠ []) :
      Entry failure (name ++ ascii ": " ++ failure.message)

/-- An entry for each failure, in their order, and a line feed between any two of them. -/
inductive Listing : List Failure → Bytes → Prop where
  | last {failure : Failure} (entry : failure.Entry text) : Listing [failure] text
  | more {failure : Failure} (entry : failure.Entry text) (rest : Listing failures lines) :
      Listing (failure :: failures) (text ++ 10 :: lines)

theorem addLine_entry (failure : Failure) : Entry failure (addLine [] failure) := by
  unfold addLine
  dsimp only [List.isEmpty_nil, ↓reduceIte, List.nil_append]
  split
  · rename_i hsilent
    exact .bare (name_spelled _) (List.isEmpty_iff.mp hsilent)
  · rename_i hsaid
    exact .full (name_spelled _) fun h => hsaid (List.isEmpty_iff.mpr h)

theorem addLine_ne_nil (text : Bytes) (failure : Failure) : addLine text failure ≠ [] := by
  unfold addLine
  dsimp only
  split <;> simp [name_ne_nil]

theorem addLine_append {text : Bytes} (h : text ≠ []) (failure : Failure) :
    addLine text failure = text ++ 10 :: addLine [] failure := by
  have htext : text.isEmpty = false := by simpa using h
  simp only [addLine, htext, Bool.false_eq_true, ↓reduceIte, List.isEmpty_nil, List.nil_append]
  split <;> simp

theorem foldl_addLine {text : Bytes} {failures : List Failure} (htext : text ≠ []) (hf : failures ≠ []) :
    failures.foldl addLine text = text ++ 10 :: failures.foldl addLine [] := by
  induction failures generalizing text with
  | nil => exact absurd rfl hf
  | cons failure failures ih =>
    rw [List.foldl_cons, List.foldl_cons, addLine_append htext]
    cases failures with
    | nil => rfl
    | cons next failures =>
      -- no name is empty, so that the line just added tells the next one that it is not the first
      rw [ih (by simp) (List.cons_ne_nil _ _), ih (addLine_ne_nil _ _) (List.cons_ne_nil _ _),
        List.append_assoc, List.cons_append]

theorem join_listing {failures : List Failure} (some_failure : failures ≠ []) :
    Listing failures (join failures).message := by
  induction failures with
  | nil => exact absurd rfl some_failure
  | cons failure failures ih =>
    cases failures with
    | nil => exact .last failure.addLine_entry
    | cons next failures =>
      have hmore : (join (failure :: next :: failures)).message =
          addLine [] failure ++ 10 :: (join (next :: failures)).message :=
        foldl_addLine (addLine_ne_nil _ _) (List.cons_ne_nil _ _)
      rw [hmore]
      exact .more failure.addLine_entry (ih (List.cons_ne_nil _ _))

end Failure

namespace Answer

theorem failures_eq_nil {answers : List (Answer Unit)} :
    answers.filterMap failure? = [] ↔ ∀ answer ∈ answers, answer = .ok () := by
  rw [List.filterMap_eq_nil_iff]
  refine forall₂_congr fun answer _ => ?_
  cases answer with
  | error failure => exact ⟨fun h => (Option.some_ne_none _ h).elim, fun h => nomatch h⟩
  | ok _ => exact ⟨fun _ => rfl, fun _ => rfl⟩

end Answer

namespace Running

variable [Network σ]

/-- What calls answer that are made one after the other. -/
def answers : List (Client.Call β) → Running σ → List (Answer β)
  | [], _ => []
  | call :: calls, running => (running.perform call).1 :: answers calls (running.step (.call call))

/-- The state in which calls made one after the other leave client and network. -/
def after (calls : List (Client.Call β)) (running : Running σ) : Running σ :=
  running.steps (calls.map .call)

theorem length_answers (calls : List (Client.Call β)) (running : Running σ) :
    (running.answers calls).length = calls.length := by
  induction calls generalizing running with
  | nil => rfl
  | cons call calls ih => exact congrArg (· + 1) (ih _)

theorem answers_getElem? (calls : List (Client.Call β)) (running : Running σ) (i : Nat) :
    (running.answers calls)[i]? =
      calls[i]?.map fun call => ((running.after (calls.take i)).perform call).1 := by
  induction calls generalizing running i with
  | nil => rfl
  | cons call calls ih =>
    cases i with
    | zero => rfl
    | succ i => exact ih (running.step (.call call)) i

theorem storeEach_eq [Encode α] (verb : StoreVerb) (options : StoreOptions)
    (items : List (Bytes × α)) (client : Client) (wire : Wire σ) :
    let calls := items.map fun (key, value) => Client.Call.store verb key value options
    let now := Running.mk client wire
    client.storeEach verb options items wire =
      ((now.answers calls).filterMap Answer.failure?, (now.after calls).client, (now.after calls).wire) := by
  induction items generalizing client wire with
  | nil => rfl
  | cons item items ih =>
    obtain ⟨key, value⟩ := item
    simp only [Client.storeEach, ih, List.map_cons, answers, List.filterMap_cons]
    cases hfailure : Answer.failure? (client.store verb key value options wire).1 <;>
      simp only [perform, hfailure] <;> rfl

theorem getMulti_eq [Decode α] (keys : List Bytes) (client : Client) (wire : Wire σ) :
    let calls : List (Client.Call α) := keys.map .get
    let now := Running.mk client wire
    client.getMulti keys wire =
      (now.answers calls, (now.after calls).client, (now.after calls).wire) := by
  induction keys generalizing client wire with
  | nil => rfl
  | cons key keys ih =>
    simp only [Client.getMulti, ih]
    rfl

theorem storeMulti_eq [Encode α] (verb : StoreVerb) (items : List (Bytes × α)) (options : StoreOptions)
    (client : Client) (wire : Wire σ) :
    let calls := items.map fun (key, value) => Client.Call.store verb key value options
    let now := Running.mk client wire
    let failures := (now.answers calls).filterMap Answer.failure?
    client.storeMulti verb items options wire =
      (if failures = [] then .ok () else .error (Failure.join failures),
        (now.after calls).client, (now.after calls).wire) := by
  simp only [Client.storeMulti, storeEach_eq, List.isEmpty_iff]

end Running

/-- A call for several keys is the calls for each of them, one after the other. It leaves the client, its pools
and the network as they would, with the same dials, writes and reads, and none of them is left out because
another failed. Storing succeeds exactly if each of them does; else its failure has theirs as causes, in the
order of the items, and tells them one a line. Getting answers what each of them does, key by key. -/
theorem batches_are_sequences [Network σ] (client : Client) (wire : Wire σ) :
    (∀ (α : Type) [Encode α] (verb : StoreVerb) (items : List (Bytes × α)) (options : StoreOptions),
      let calls := items.map fun (key, value) => Client.Call.store verb key value options
      let now := Running.mk client wire
      let answers := now.answers calls
      let result := client.storeMulti verb items options wire
      Running.mk result.2.1 result.2.2 = now.after calls ∧
      (∀ i, answers[i]? =
        calls[i]?.map fun call => ((now.after (calls.take i)).perform call).1) ∧
      (result.1 = .ok () ↔ ∀ answer ∈ answers, answer = .ok ()) ∧
      ∀ failure, result.1 = .error failure → failure.kind = .multiple ∧
        failure.causes = answers.filterMap Answer.failure? ∧
        Failure.Listing failure.causes failure.message) ∧
    ∀ (α : Type) [Decode α] (keys : List Bytes),
      let calls : List (Client.Call α) := keys.map .get
      let now := Running.mk client wire
      let result := client.getMulti keys wire
      Running.mk result.2.1 result.2.2 = now.after calls ∧ result.1.length = keys.length ∧
      ∀ i, result.1[i]? =
        calls[i]?.map fun call => ((now.after (calls.take i)).perform call).1 := by
  refine ⟨?_, ?_⟩
  · intro α _ verb items options calls now answers result
    simp only [result, Running.storeMulti_eq]
    refine ⟨rfl, now.answers_getElem? calls, ?_, ?_⟩
    · rw [← Answer.failures_eq_nil]
      split
      · rename_i hnone
        exact iff_of_true rfl hnone
      · rename_i hsome
        exact iff_of_false (fun h => nomatch h) hsome
    · intro failure hanswer
      split at hanswer
      · cases hanswer
      · rename_i hsome
        obtain rfl := Except.error.inj hanswer
        exact ⟨rfl, rfl, Failure.join_listing hsome⟩
  · intro α _ keys calls now result
    simp only [result, Running.getMulti_eq]
    refine ⟨rfl, ?_, now.answers_getElem? calls⟩
    rw [Running.length_answers, List.length_map]

/-- Of three items the first is answered with an error line, so that its stream is closed, and the second has no
valid key. The third is stored all the same, on a stream of its own. -/
theorem third_item_stored :
    let wire : Wire Script := Wire.start
      { entries := [{ stream := ⟨[⟨ascii "ERROR\r\n", none⟩], []⟩ },
          { stream := ⟨[⟨ascii "STORED\r\n", none⟩], []⟩ }] }
    let items := [(ascii "a", ascii "1"), ([], ascii "2"), (ascii "c", ascii "3")]
    let result := soloClient.storeMulti .set items {} wire
    result.2.2.live = [1] ∧ ∃ failure, result.1 = .error failure ∧ failure.kind = .multiple ∧
      failure.causes.map Failure.kind = [.protocolError, .keyInvalid] ∧
      failure.message = ascii "ProtocolError: ERROR\nKeyInvalid: key is not valid" ∧
      Failure.Listing failure.causes failure.message := by
  intro wire items result
  obtain ⟨-, -, -, hfailure⟩ := (batches_are_sequences soloClient wire).1 Bytes .set items {}
  have hlive : result.2.2.live = [1] := by decide +kernel
  have htold : (Answer.failure? result.1).map (fun failure => (failure.causes.map Failure.kind, failure.message)) =
      some ([.protocolError, .keyInvalid], ascii "ProtocolError: ERROR\nKeyInvalid: key is not valid") := by
    decide +kernel
  cases hr : result.1 with
  | ok _ =>
    rw [hr] at htold
    cases htold
  | error failure =>
    rw [hr] at htold
    obtain ⟨hkind, -, hlisting⟩ := hfailure failure hr
    obtain ⟨hcauses, hmessage⟩ := Prod.mk.inj (Option.some.inj htold)
    exact ⟨hlive, failure, rfl, hkind, hcauses, hmessage, hlisting⟩

end CacheClient
