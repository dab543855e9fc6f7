import CacheClient.Exchange
import CacheClient.Proofs.Arrival
import CacheClient.Proofs.Reading
import CacheClient.Proofs.Replies

namespace CacheClient

@[simp] theorem mapError_ok (f : ε → ε') (x : α) : (Except.ok x).mapError f = .ok x := rfl

@[simp] theorem mapError_error (f : ε → ε') (e : ε) :
    (Except.error e : Except ε α).mapError f = .error (f e) := rfl

/-- The kinds of failure after which nobody knows where in the stream a connection stands. -/
def Failure.Kind.breaksOff (kind : Failure.Kind) : Prop :=
  kind = .sendFailed ∨ kind = .receiveFailed ∨ kind = .timeout ∨ kind = .protocolError

theorem Failure.Kind.breaksOff.not_outcome {kind : Failure.Kind} (h : kind.breaksOff) :
    kind.isOutcome = false := by
  rcases h with rfl | rfl | rfl | rfl <;> rfl

theorem Failure.breaksOff_unfit {failure : Failure} (h : failure.kind.breaksOff) :
    ¬ Answer.keepsHealthy (.error failure : Answer α) = true := by
  simp [Answer.keepsHealthy, h.not_outcome]

namespace Fault

theorem sending_breaksOff (fault : Fault) : fault.sending.kind.breaksOff := by
  cases fault <;> simp [sending, Fault.failure, Failure.Kind.breaksOff]

theorem receiving_breaksOff (fault : Fault) : fault.receiving.kind.breaksOff := by
  cases fault <;> simp [receiving, Fault.failure, Failure.Kind.breaksOff]

end Fault

theorem Reply.violation_breaksOff (text : Bytes) : (Reply.violation text).kind.breaksOff := by
  simp [Reply.violation, Failure.Kind.breaksOff]

namespace Link

def sent (wire : Wire σ) (link : Link σ) : Link σ :=
  ⟨{ link.connection with unsent := [] }, wire⟩

theorem sent_eq {link : Link σ} (hu : link.connection.unsent = []) (wire : Wire σ) :
    link.sent wire = ⟨link.connection, wire⟩ := by
  rw [sent, ← hu]

variable [Network σ]

def exchange : (command : Command) → Link σ → Answer command.Value × Link σ
  | .store verb key flags expiry payload, link => link.store verb key flags expiry payload
  | .get key, link => link.get key
  | .delete key, link => link.delete key
  | .count verb key delta, link => link.count verb key delta

def hearLine (meaning : Bytes → Answer α) (link : Link σ) : Answer α × Link σ :=
  let (line, link) := link.readLine
  ((line.mapError Fault.receiving).bind meaning, link)

def hearItem (key : Bytes) (link : Link σ) : Answer Item × Link σ :=
  match link.readLine with
  | (.error fault, link) => (.error fault.receiving, link)
  | (.ok line, link) =>
    match Reply.header key line with
    | .error failure => (.error failure, link)
    | .ok header => link.readItem header

def hear : (command : Command) → Link σ → Answer command.Value × Link σ
  | .store verb _ _ _ _, link => link.hearLine (Reply.stored verb)
  | .get key, link => link.hearItem key
  | .delete _, link => link.hearLine Reply.deleted
  | .count _ _ _, link => link.hearLine Reply.counted

/-- All that reading the reply to a command can come to. -/
inductive Heard (id : Nat) (command : Command) (link : Link σ) :
    Answer command.Value → Link σ → Prop where
  | faulted {after : Link σ} {fault : Fault} (takes : Takes id wanting consumed broken link after)
      (cause : ∀ cause, broken = some cause → cause = fault) :
      Heard id command link (.error fault.receiving) after
  | violated {after : Link σ} (takes : Takes id wanting consumed none link after) :
      Heard id command link (.error (Reply.violation text)) after
  | replied {after : Link σ} {answer : Answer command.Value}
      (takes : Takes id wanting reply none link after)
      (means : Reply.Means command reply answer) : Heard id command link answer after

/-- All that an exchange on an open stream can come to. -/
inductive Exchanged (id : Nat) (command : Command) (link : Link σ) :
    Answer command.Value → Link σ → Prop where
  | unsent {fault : Fault} {wire : Wire σ}
      (write : link.wire.write id command.text = (some fault, wire)) :
      Exchanged id command link (.error fault.sending) ⟨link.connection, wire⟩
  | broken {wire : Wire σ} {after : Link σ} {failure : Failure}
      (write : link.wire.write id command.text = (none, wire))
      (reads : Reads id consumed ⟨link.connection, wire⟩ after)
      (breaksOff : failure.kind.breaksOff) : Exchanged id command link (.error failure) after
  | replied {wire : Wire σ} {after : Link σ} {answer : Answer command.Value}
      (write : link.wire.write id command.text = (none, wire))
      (reads : Reads id reply ⟨link.connection, wire⟩ after)
      (means : Reply.Means command reply answer) : Exchanged id command link answer after

variable {id : Nat} {link after : Link σ} {command : Command}

theorem text_ne_nil (command : Command) : command.text.isEmpty = false := by
  simp [Command.text, Bytes.crlf]

theorem askFor_eq (hs : link.connection.stream = some id) (command : Command) :
    link.askFor command =
      match link.wire.write id (link.connection.unsent ++ command.text) with
      | (some fault, wire) => (.error fault.sending, link.sent wire)
      | (none, wire) =>
        let (line, next) := (link.sent wire).readLine
        (line.mapError Fault.receiving, next) := by
  obtain ⟨⟨stream, unread, unsent, healthy⟩, wire⟩ := link
  obtain rfl : stream = some id := hs
  have hsome : (unsent ++ command.text).isEmpty = false := by
    cases unsent with
    | nil => exact text_ne_nil command
    | cons => rfl
  simp only [askFor, ask, flush, update, Connection.write, hsome, Bool.false_eq_true, ↓reduceIte]
  generalize wire.write id _ = written
  obtain ⟨fault, wire⟩ := written
  cases fault <;> rfl

theorem exchange_eq (command : Command) (hs : link.connection.stream = some id) :
    link.exchange command =
      match link.wire.write id (link.connection.unsent ++ command.text) with
      | (some fault, wire) => (.error fault.sending, link.sent wire)
      | (none, wire) => (link.sent wire).hear command := by
  cases command with
  | store | delete | count =>
    simp only [exchange, store, delete, count, askFor_eq hs]
    generalize link.wire.write id _ = written
    obtain ⟨fault | fault, wire⟩ := written <;> rfl
  | get key =>
    simp only [exchange, get, askFor_eq hs]
    generalize link.wire.write id _ = written
    obtain ⟨fault | fault, wire⟩ := written
    · simp only [hear, hearItem]
      generalize (link.sent wire).readLine = read
      obtain ⟨fault | line, next⟩ := read <;> rfl
    · rfl

theorem exchange_hollow (command : Command) (hs : link.connection.stream = none) :
    link.exchange command =
      (.error (Fault.sending .notConnected), link.update (·.write command.text)) := by
  have hf : (link.update (·.write command.text)).flush =
      (.error .notConnected, link.update (·.write command.text)) := by
    simp [flush, update, Connection.write, hs]
  cases command <;> simp [exchange, store, get, delete, count, askFor, ask, hf, Except.bind]

theorem hearLine_heard (command : Command) (meaning : Bytes → Answer command.Value)
    (hm : ∀ line, Bytes.IsLine line →
      Reply.Means command (line ++ Bytes.crlf) (meaning line) ∨
        meaning line = .error (Reply.violation line))
    (hs : link.connection.stream = some id) :
    Heard id command link (link.hearLine meaning).1 (link.hearLine meaning).2 := by
  unfold hearLine
  generalize hr : link.readLine = read
  obtain ⟨fault | line, next⟩ := read
  · obtain ⟨broken, ht, hcause⟩ := readLine_fails hs hr
    exact .faulted ht hcause
  · obtain ⟨ht, hl⟩ := readLine_takes hs hr
    rcases hm line hl with h | h
    · exact .replied ht h
    · show Heard id command link (meaning line) next
      rw [h]
      exact .violated ht

theorem readItem_heard {line : Bytes} {header : Reply.Header} {next : Link σ}
    (ht : Takes id wanting (line ++ Bytes.crlf) none link next)
    (hh : Reply.Announces key line header.flags header.length)
    (hs : next.connection.stream = some id) :
    Heard id (.get key) link (next.readItem header).1 (next.readItem header).2 := by
  have hall : Takes id (fun _ => True) (line ++ Bytes.crlf) none link next :=
    ht.mono fun _ _ => trivial
  -- three reads, one inside the other: each that fails ends the reply where it stands
  unfold readItem
  generalize hr : next.readExact (header.length + 2) = read
  obtain ⟨fault | bytes, last⟩ := read
  · obtain ⟨broken, hblock, hcause⟩ := readExact_fails hs hr
    exact .faulted (hall.trans (hblock.mono fun _ _ => trivial)) hcause
  · have hblock := readExact_takes hs hr
    have htwo : Takes id (fun _ => True) (line ++ Bytes.crlf ++ bytes) none link last :=
      hall.trans (hblock.mono fun _ _ => trivial)
    have hs' := hblock.stream.trans hs
    dsimp only
    generalize hb : Reply.block header.length bytes = block
    obtain failure | value := block
    · obtain rfl : Reply.violation (bytes.drop header.length) = failure := by
        unfold Reply.block at hb
        split at hb
        · cases hb
        · exact Except.error.inj hb
      exact .violated htwo
    · obtain ⟨rfl, hlen⟩ := Reply.block_eq_ok hb
      dsimp only
      generalize hl : last.readLine = read
      obtain ⟨fault | trailer, final⟩ := read
      · obtain ⟨broken, hline, hcause⟩ := readLine_fails hs' hl
        exact .faulted (htwo.trans (hline.mono fun _ _ => trivial)) hcause
      · have hthree := htwo.trans ((readLine_takes hs' hl).1.mono fun _ _ => trivial)
        by_cases hend : trailer = Reply.finish
        · subst hend
          rw [List.append_assoc] at hthree
          refine .replied hthree ?_
          rw [← hlen] at hh
          simpa [Reply.trailer, Except.map] using hh.found
        · simp only [Reply.trailer, hend, ↓reduceIte, Except.map]
          exact .violated hthree

theorem hearItem_heard (key : Bytes) (hs : link.connection.stream = some id) :
    Heard id (.get key) link (link.hearItem key).1 (link.hearItem key).2 := by
  unfold hearItem
  generalize hr : link.readLine = read
  obtain ⟨fault | line, next⟩ := read
  · obtain ⟨broken, ht, hcause⟩ := readLine_fails hs hr
    exact .faulted ht hcause
  · obtain ⟨ht, -⟩ := readLine_takes hs hr
    have hh := Reply.header_means key line
    dsimp only
    cases he : Reply.header key line with
    | error failure =>
      rw [he] at hh
      rcases hh with hmeans | rfl
      · exact .replied ht hmeans
      · exact .violated ht
    | ok header =>
      rw [he] at hh
      exact readItem_heard ht hh (ht.stream.trans hs)

theorem hear_heard (command : Command) (hs : link.connection.stream = some id) :
    Heard id command link (link.hear command).1 (link.hear command).2 := by
  cases command with
  | store verb key flags expiry payload =>
    exact hearLine_heard (.store verb key flags expiry payload) (Reply.stored verb)
      (fun line _ => Reply.stored_means verb line) hs
  | get key => exact hearItem_heard key hs
  | delete key =>
    exact hearLine_heard (.delete key) Reply.deleted (fun line _ => Reply.deleted_means line) hs
  | count verb key delta =>
    exact hearLine_heard (.count verb key delta) Reply.counted
      (fun line hl => Reply.counted_means hl) hs

/-- Whatever an exchange does on an open stream, it is one of these. -/
theorem exchange_exchanged (command : Command) (hs : link.connection.stream = some id)
    (hu : link.connection.unsent = []) :
    Exchanged id command link (link.exchange command).1 (link.exchange command).2 := by
  rw [exchange_eq command hs, hu, List.nil_append]
  generalize hw : link.wire.write id command.text = written
  obtain ⟨fault | fault, wire⟩ := written
  · simp only [sent_eq hu]
    generalize he : (Link.mk link.connection wire).hear command = heard
    obtain ⟨answer, after⟩ := heard
    have hs' : (Link.mk link.connection wire).connection.stream = some id := hs
    have hh := hear_heard command hs'
    rw [he] at hh
    cases hh with
    | faulted ht => exact .broken hw ht.reads (Fault.receiving_breaksOff _)
    | violated ht => exact .broken hw ht.reads (Reply.violation_breaksOff _)
    | replied ht hm => exact .replied hw ht.reads hm
  · simp only [sent_eq hu]
    exact .unsent hw

end Link

namespace Link

open Connection

variable [Network σ] {id : Nat} {feed : Bytes → Wire σ → Prop} {link : Link σ} {wire : Wire σ}

namespace Offers

variable {line value rest : Bytes}

theorem hearLine (hf : Wire.Feeds id feed) (meaning : Bytes → Answer α) (hl : Bytes.IsLine line)
    (hshort : line.length < longestLine) (h : link.Offers id feed (line ++ Bytes.crlf ++ rest)) :
    ∃ after, link.hearLine meaning = (meaning line, after) ∧ after.Offers id feed rest ∧
      Consumes id (line ++ Bytes.crlf) link after := by
  obtain ⟨after, hr, ho, hc⟩ := h.readLine hf hl hshort
  exact ⟨after, by simp [Link.hearLine, hr, Except.bind], ho, hc⟩

theorem readItem (hf : Wire.Feeds id feed) (flags : UInt32) {trailer : Bytes}
    (hfit : value.length ≤ Reply.largestValue) (hl : Bytes.IsLine trailer)
    (hshort : trailer.length < longestLine)
    (h : link.Offers id feed (value ++ Bytes.crlf ++ (trailer ++ Bytes.crlf) ++ rest)) :
    ∃ after, link.readItem ⟨flags, value.length⟩ =
        ((Reply.trailer trailer).map fun _ => ⟨flags, value⟩, after) ∧
      after.Offers id feed rest ∧
      Consumes id (value ++ Bytes.crlf ++ (trailer ++ Bytes.crlf)) link after := by
  rw [List.append_assoc (value ++ Bytes.crlf)] at h
  obtain ⟨next, hblock, hnext, hfirst⟩ := h.readExact hf (Reply.block_fits hfit rfl)
  obtain ⟨after, hline, ho, hsecond⟩ := hnext.readLine hf hl hshort
  rw [Reply.length_block value rfl] at hblock
  have hval : Reply.block value.length (value ++ Bytes.crlf) = .ok value := by
    simp [Reply.block]
  exact ⟨after, by simp [Link.readItem, hblock, hval, hline], ho, hfirst.trans hsecond⟩

theorem announced (hf : Wire.Feeds id feed) (ha : Reply.Announces key line flags length)
    (hkey : Key.isValid key = true) (hshort : line.length < longestLine)
    (h : link.Offers id feed (line ++ Bytes.crlf ++ rest)) :
    ∃ next, link.hearItem key = next.readItem ⟨flags, length⟩ ∧ next.Offers id feed rest ∧
      Consumes id (line ++ Bytes.crlf) link next := by
  obtain ⟨next, hr, ho, hc⟩ := h.readLine hf (ha.isLine hkey) hshort
  exact ⟨next, by simp [Link.hearItem, hr, ha.header hkey], ho, hc⟩

theorem unannounced {failure : Failure} (hf : Wire.Feeds id feed) (hl : Bytes.IsLine line)
    (hshort : line.length < longestLine) (hh : Reply.header key line = .error failure)
    (h : link.Offers id feed (line ++ Bytes.crlf ++ rest)) :
    ∃ after, link.hearItem key = (.error failure, after) ∧ after.Offers id feed rest ∧
      Consumes id (line ++ Bytes.crlf) link after := by
  obtain ⟨after, hr, ho, hc⟩ := h.readLine hf hl hshort
  exact ⟨after, by simp [Link.hearItem, hr, hh], ho, hc⟩

theorem hearItem {answer : Answer Item} (hf : Wire.Feeds id feed)
    (hmeans : Reply.Means (.get key) reply answer) (hkey : Key.isValid key = true)
    (hshort : ∀ n, Bytes.lineEnd? reply = some n → n < longestLine)
    (h : link.Offers id feed (reply ++ rest)) :
    ∃ after, link.hearItem key = (answer, after) ∧ after.Offers id feed rest ∧
      Consumes id reply link after := by
  cases answer with
  | error failure =>
    cases hmeans with
    | missed => exact h.unannounced hf Reply.finish_isLine (by decide) rfl
  | ok item =>
    obtain ⟨line, ha, rfl⟩ := Reply.means_found hmeans
    have hlen := hshort _ (Bytes.lineEnd?_line (ha.isLine hkey) _)
    rw [List.append_assoc] at h
    obtain ⟨next, he, hnext, hfirst⟩ := h.announced hf ha hkey hlen
    obtain ⟨after, hi, ho, hsecond⟩ :=
      hnext.readItem hf item.flags ha.fits Reply.finish_isLine (by decide)
    refine ⟨after, ?_, ho, hfirst.trans hsecond⟩
    rw [he, hi]
    rfl

/-- A complete reply, however it comes, is read to its end and no further, and is answered with what it
means. -/
theorem hear {command : Command} {answer : Answer command.Value} (hf : Wire.Feeds id feed)
    (hmeans : Reply.Means command reply answer) (hkey : Key.isValid command.key = true)
    (hshort : ∀ n, Bytes.lineEnd? reply = some n → n < longestLine)
    (h : link.Offers id feed (reply ++ rest)) :
    ∃ after, link.hear command = (answer, after) ∧ after.Offers id feed rest ∧
      Consumes id reply link after := by
  have hlen {line : Bytes} (hl : Bytes.IsLine line) (he : reply = line ++ Bytes.crlf) :
      line.length < longestLine :=
    hshort line.length (by simpa [he] using Bytes.lineEnd?_line hl [])
  cases command with
  | store verb key flags expiry payload =>
    obtain ⟨line, hl, he⟩ := hmeans.line (by simp)
    subst he
    rw [← Reply.stored_of_means hmeans]
    exact h.hearLine hf (Reply.stored verb) hl (hlen hl rfl)
  | delete key =>
    obtain ⟨line, hl, he⟩ := hmeans.line (by simp)
    subst he
    rw [← Reply.deleted_of_means hmeans]
    exact h.hearLine hf Reply.deleted hl (hlen hl rfl)
  | count verb key delta =>
    obtain ⟨line, hl, he⟩ := hmeans.line (by simp)
    subst he
    rw [← Reply.counted_of_means hmeans]
    exact h.hearLine hf Reply.counted hl (hlen hl rfl)
  | get key => exact h.hearItem hf hmeans hkey hshort

end Offers

theorem exchange_of_reply {command : Command} {answer : Answer command.Value}
    (hf : Wire.Feeds id feed) (hmeans : Reply.Means command reply answer)
    (hkey : Key.isValid command.key = true)
    (hshort : ∀ n, Bytes.lineEnd? reply = some n → n < longestLine)
    (hs : link.connection.stream = some id) (hu : link.connection.unsent = [])
    (hw : link.wire.write id command.text = (none, wire)) (hb : feed bytes wire)
    (he : link.connection.unread ++ bytes = reply ++ rest) :
    ∃ unread more next, link.exchange command =
        (answer, ⟨{ link.connection with unread }, next⟩) ∧
      feed more next ∧ unread ++ more = rest := by
  have hoffers : (Link.mk link.connection wire).Offers id feed (reply ++ rest) :=
    ⟨hs, bytes, hb, he⟩
  obtain ⟨after, hr, ⟨-, more, hm, hrest⟩, hc⟩ := hoffers.hear hf hmeans hkey hshort
  refine ⟨after.connection.unread, more, after.wire, ?_, hm, hrest⟩
  rw [exchange_eq command hs, hu, List.nil_append, hw]
  simp only [sent_eq hu, hr]
  rw [← hc.connection]

end Link

end CacheClient
