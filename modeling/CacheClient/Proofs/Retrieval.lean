import CacheClient.Proofs.Session
import CacheClient.Proofs.Streams

namespace CacheClient.Link

open Connection

variable [Network σ] {id : Nat} {key reply : Bytes} {answer : Answer Item} {link after : Link σ}

/-- However this reply comes, the exchange gives this answer once its command is written. It consumes
the reply and nothing after it, and it reads nothing from the stream once the reply is in view. -/
def Resolves (key reply : Bytes) (answer : Answer Item) (link : Link σ) : Prop :=
  ∀ (id : Nat) (wire : Wire σ) (bytes rest : Bytes), link.connection.stream = some id →
    link.wire.write id (link.connection.unsent ++ (Command.get key).text) = (none, wire) →
    wire.Delivers id bytes → link.connection.unread ++ bytes = reply ++ rest →
    ∃ (after : Link σ) (more : Bytes), link.get key = (answer, after) ∧
      after.wire.Delivers id more ∧ after.connection.unread ++ more = rest ∧
      ∀ first event later, link.wire.since after.wire = first ++ event :: later →
        event.reads id = true → ¬ reply <+: link.connection.unread ++ Event.received id first

theorem Consumes.journal (h : Consumes id reply link after) :
    ∃ events, after.wire.journal = events.reverse ++ link.wire.journal ∧
      Event.Drawn id (fun got => ¬ reply <+: link.connection.unread ++ got) none events := by
  obtain ⟨-, bytes, hd, -⟩ := h
  obtain ⟨-, events, hj, -, hdrawn⟩ := hd.journal
  exact ⟨events, hj, hdrawn⟩

theorem resolves_of_hear (link : Link σ)
    (hh : ∀ (id : Nat) (rest : Bytes) (next : Link σ),
      next.Offers id (Wire.Delivers id) (reply ++ rest) →
        ∃ after, next.hearItem key = (answer, after) ∧ after.Offers id (Wire.Delivers id) rest ∧
          Consumes id reply next after) :
    link.Resolves key reply answer := by
  intro id wire bytes rest hs hw hb he
  have hoffers : (link.sent wire).Offers id (Wire.Delivers id) (reply ++ rest) := ⟨hs, bytes, hb, he⟩
  obtain ⟨after, hr, ⟨-, more, hm, hrest⟩, hc⟩ := hh id rest _ hoffers
  have hget : link.get key = (answer, after) := by
    have hx := exchange_eq (.get key) hs
    rw [hw] at hx
    exact hx.trans hr
  refine ⟨after, more, hget, hm, hrest, ?_⟩
  obtain ⟨events, hj, hdrawn⟩ := hc.journal
  intro first event later hsplit hreads
  rw [Wire.since_write hw hj] at hsplit
  rcases List.cons_eq_append_iff.mp hsplit with ⟨rfl, hhead⟩ | ⟨before, rfl, htail⟩
  · obtain ⟨rfl, -⟩ := List.cons.inj hhead
    cases hreads
  · exact hdrawn.wanted before event later htail

/-- Where no line end follows the value, the two bytes that stand there are the violation. -/
theorem Offers.readItem_broken {feed : Bytes → Wire σ → Prop} (hf : Wire.Feeds id feed)
    (flags : UInt32) {value ending rest : Bytes} (hfit : value.length ≤ Reply.largestValue)
    (hend : ending.length = 2) (hne : ending ≠ Bytes.crlf)
    (h : link.Offers id feed (value ++ ending ++ rest)) :
    ∃ after, link.readItem ⟨flags, value.length⟩ = (.error (Reply.violation ending), after) ∧
      after.Offers id feed rest ∧ Consumes id (value ++ ending) link after := by
  obtain ⟨after, hblock, ho, hc⟩ := h.readExact hf (Reply.block_fits hfit hend)
  rw [Reply.length_block value hend] at hblock
  have hval : Reply.block value.length (value ++ ending) = .error (Reply.violation ending) := by
    simp [Reply.block, hne]
  exact ⟨after, by simp [Link.readItem, hblock, hval], ho, hc⟩

section Announced

variable {line value : Bytes} {flags : UInt32} (ha : Reply.Announces key line flags value.length)
  (valid : Key.isValid key = true) (short : line.length < longestLine)

include ha valid short

theorem resolves_value {trailer : Bytes} (hl : Bytes.IsLine trailer)
    (hshort : trailer.length < longestLine) (link : Link σ) :
    link.Resolves key (line ++ Bytes.crlf ++ (value ++ Bytes.crlf ++ (trailer ++ Bytes.crlf)))
      ((Reply.trailer trailer).map fun _ => ⟨flags, value⟩) := by
  apply resolves_of_hear
  intro id rest next hnext
  have hf := @Wire.delivers_feeds σ _ id
  rw [List.append_assoc] at hnext
  obtain ⟨mid, he, hmid, hfirst⟩ := hnext.announced hf ha valid short
  obtain ⟨after, hr, ho, hsecond⟩ := hmid.readItem hf flags ha.fits hl hshort
  exact ⟨after, he.trans hr, ho, hfirst.trans hsecond⟩

theorem resolves_broken {ending : Bytes} (hend : ending.length = 2) (hne : ending ≠ Bytes.crlf)
    (link : Link σ) :
    link.Resolves key (line ++ Bytes.crlf ++ (value ++ ending))
      (.error (Reply.violation ending)) := by
  apply resolves_of_hear
  intro id rest next hnext
  have hf := @Wire.delivers_feeds σ _ id
  rw [List.append_assoc] at hnext
  obtain ⟨mid, he, hmid, hfirst⟩ := hnext.announced hf ha valid short
  obtain ⟨after, hr, ho, hsecond⟩ := hmid.readItem_broken hf flags ha.fits hend hne
  exact ⟨after, he.trans hr, ho, hfirst.trans hsecond⟩

end Announced

theorem resolves_line {line : Bytes} {failure : Failure} (hl : Bytes.IsLine line)
    (hshort : line.length < longestLine) (hh : Reply.header key line = .error failure)
    (link : Link σ) : link.Resolves key (line ++ Bytes.crlf) (.error failure) := by
  apply resolves_of_hear
  intro id rest next hnext
  exact hnext.unannounced (Wire.delivers_feeds id) hl hshort hh

/-- A get command accepts exactly the replies of its grammar. An item is answered only where a line that
announces it, its value and the end are what was unread and what came; a miss only where the end stands
alone. Either is answered whenever it is offered, and so is a violation for any other line, for a value
that no line end follows, and for a line after it that is not the end. -/
theorem get_accepts_grammar {key : Bytes} (valid : Key.isValid key = true) (link : Link σ) :
    (∀ item after, link.get key = (.ok item, after) →
      ∃ id line, link.connection.stream = some id ∧
        Reply.Announces key line item.flags item.value.length ∧
        link.connection.unread ++ Event.received id (link.wire.since after.wire) =
          line ++ Bytes.crlf ++ (item.value ++ Bytes.crlf ++ (Reply.finish ++ Bytes.crlf)) ++
            after.connection.unread) ∧
    (∀ failure after, link.get key = (.error failure, after) → failure.kind = .cacheMiss →
      ∃ id, link.connection.stream = some id ∧
        link.connection.unread ++ Event.received id (link.wire.since after.wire) =
          Reply.finish ++ Bytes.crlf ++ after.connection.unread) ∧
    link.Resolves key (Reply.finish ++ Bytes.crlf) (.error ⟨.cacheMiss, ascii "cache miss", []⟩) ∧
    (∀ line, Bytes.IsLine line → line.length < longestLine → line ≠ Reply.finish →
      (∀ flags length, ¬ Reply.Announces key line flags length) →
      link.Resolves key (line ++ Bytes.crlf) (.error (Reply.violation line))) ∧
    ∀ line flags value, Reply.Announces key line flags value.length →
      line.length < longestLine →
      link.Resolves key
        (line ++ Bytes.crlf ++ (value ++ Bytes.crlf ++ (Reply.finish ++ Bytes.crlf)))
        (.ok ⟨flags, value⟩) ∧
      (∀ ending, ending.length = 2 → ending ≠ Bytes.crlf →
        link.Resolves key (line ++ Bytes.crlf ++ (value ++ ending))
          (.error (Reply.violation ending))) ∧
      ∀ trailer, Bytes.IsLine trailer → trailer.length < longestLine → trailer ≠ Reply.finish →
        link.Resolves key
          (line ++ Bytes.crlf ++ (value ++ Bytes.crlf ++ (trailer ++ Bytes.crlf)))
          (.error (Reply.violation trailer)) := by
  -- what is answered was there to be read; then each reply there can be, and what it is answered with
  refine ⟨?_, ?_, ?_, ?_, ?_⟩
  · intro item after he
    have hx : link.exchange (.get key) = (.ok item, after) := he
    obtain ⟨id, reply, hs, hm, hbytes⟩ := exchange_fit hx rfl
    obtain ⟨line, ha, rfl⟩ := Reply.means_found hm
    exact ⟨id, line, hs, ha, hbytes⟩
  · intro failure after he hk
    have hx : link.exchange (.get key) = (.error failure, after) := he
    have hfit : Answer.keepsHealthy (.error failure : Answer Item) = true := by
      rw [Answer.keepsHealthy, hk]
      rfl
    obtain ⟨id, reply, hs, hm, hbytes⟩ := exchange_fit hx hfit
    cases hm with
    | missed => exact ⟨id, hs, hbytes⟩
  · exact resolves_line Reply.finish_isLine (by decide) rfl link
  · intro line hl hshort hne hn
    exact resolves_line hl hshort (Reply.header_foreign hne hn) link
  · intro line flags value ha hshort
    refine ⟨?_, ?_, ?_⟩
    · exact resolves_value ha valid hshort Reply.finish_isLine (by decide) link
    · intro ending hend hne
      exact resolves_broken ha valid hshort hend hne link
    · intro trailer hl htrailer hne
      have hv := resolves_value ha valid hshort hl htrailer link
      simp only [Reply.trailer, hne, ↓reduceIte, Except.map] at hv
      exact hv

def paddedLink : Link Script where
  connection := ⟨some 0, ascii "VAL", [], true⟩
  wire := Wire.start { streams := [(0, ⟨[⟨ascii "UE k 007 02 \r", none⟩, ⟨ascii "\n\r\n\r", none⟩,
    ⟨ascii "\nEND\r\nSTORED", none⟩], [none]⟩)] }

theorem padded_header_accepted :
    Key.isValid (ascii "k") = true ∧ ∃ after more,
      paddedLink.get (ascii "k") = (.ok ⟨7, Bytes.crlf⟩, after) ∧
        after.wire.Delivers 0 more ∧ after.connection.unread ++ more = ascii "STORED" := by
  have hkey : Key.isValid (ascii "k") = true := rfl
  have ha : Reply.Announces (ascii "k") (ascii "VALUE k 007 02 ") 7 Bytes.crlf.length :=
    ⟨ascii "007", ascii "02", [Bytes.space], rfl, rfl, rfl, by decide, .inr rfl⟩
  obtain ⟨-, -, -, -, hvalue⟩ := get_accepts_grammar hkey paddedLink
  obtain ⟨hfound, -⟩ := hvalue _ 7 Bytes.crlf ha (by decide)
  refine ⟨hkey, ?_⟩
  obtain ⟨after, more, hget, hm, hrest, -⟩ := hfound 0 _ _ (ascii "STORED") rfl rfl
    ((Script.holds_feeds 0).delivers ⟨⟨by decide, by decide⟩, rfl⟩) (by decide)
  exact ⟨after, more, hget, hm, hrest⟩

/-- What stands after a value is given up once it has grown beyond the limit without a line end. -/
theorem get_overlong {line value long : Bytes} {wire : Wire σ}
    (ha : Reply.Announces key line flags value.length) (valid : Key.isValid key = true)
    (hl : Bytes.IsLine long) (hlong : longestLine < long.length)
    (hs : link.connection.stream = some id)
    (hw : link.wire.write id (link.connection.unsent ++ (Command.get key).text) = (none, wire))
    (hu : link.connection.unread = line ++ Bytes.crlf ++ (value ++ Bytes.crlf ++ long)) :
    link.get key = (.error (Fault.receiving .messageSize),
      ⟨{ link.connection with unread := long, unsent := [] }, wire⟩) := by
  have hheader := @readLine_in_view _ _ (link.sent wire) _ _ (ha.isLine valid) hu
  have hblock := @readExact_in_view _ _
    ⟨{ link.connection with unread := value ++ Bytes.crlf ++ long, unsent := [] }, wire⟩ _ _
    (Reply.block_fits ha.fits rfl) rfl
  have hline := @readLine_overlong _ _
    ⟨{ link.connection with unread := long, unsent := [] }, wire⟩ hl hlong
  have hval : Reply.block value.length (value ++ Bytes.crlf) = .ok value := by
    simp [Reply.block]
  rw [Reply.length_block value rfl] at hblock
  have hx := exchange_eq (.get key) hs
  rw [hw] at hx
  calc link.get key = (link.sent wire).hearItem key := hx
    _ = Link.readItem ⟨flags, value.length⟩
        ⟨{ link.connection with unread := value ++ Bytes.crlf ++ long, unsent := [] }, wire⟩ := by
      simp only [hearItem, hheader, ha.header valid]
      rfl
    _ = _ := by simp only [readItem, hblock, hval, hline]

def overlong : Bytes := List.replicate (longestLine + 1) 65

def overlongLink : Link Script where
  connection := ⟨some 0, ascii "VALUE k 0 1\r\nx\r\n" ++ overlong, [], true⟩
  wire := Wire.start { streams := [(0, { reads := [⟨Bytes.crlf, none⟩] })] }

theorem overlong_length : overlong.length = longestLine + 1 :=
  List.length_replicate

theorem overlong_isLine : Bytes.IsLine overlong := by
  apply Bytes.isLine_of_not_mem
  simp [overlong]

/-- An overlong line after a value is given up, although its end would have come. -/
theorem overlong_trailer_given_up :
    Reply.Announces (ascii "k") (ascii "VALUE k 0 1") 0 (ascii "x").length ∧
      Bytes.IsLine overlong ∧ overlong ≠ Reply.finish ∧
      (overlongLink.get (ascii "k")).1 = .error (Fault.receiving .messageSize) ∧
      ¬ overlongLink.Resolves (ascii "k")
        (ascii "VALUE k 0 1" ++ Bytes.crlf ++
          (ascii "x" ++ Bytes.crlf ++ (overlong ++ Bytes.crlf)))
        (.error (Reply.violation overlong)) := by
  have ha : Reply.Announces (ascii "k") (ascii "VALUE k 0 1") 0 (ascii "x").length :=
    ⟨ascii "0", ascii "1", [], rfl, rfl, rfl, by decide, .inl rfl⟩
  have hne : overlong ≠ Reply.finish := by
    intro he
    have hlen := overlong_length
    rw [he] at hlen
    cases hlen
  obtain ⟨wire, hw, hd⟩ : ∃ wire : Wire Script,
      overlongLink.wire.write 0 (ascii "get k\r\n") = (none, wire) ∧ wire.Delivers 0 Bytes.crlf :=
    ⟨_, rfl, (Script.holds_feeds 0).delivers ⟨⟨by decide, by decide⟩, rfl⟩⟩
  have hget := get_overlong ha rfl overlong_isLine
    (overlong_length ▸ Nat.lt_succ_self longestLine) (rfl : overlongLink.connection.stream = some 0)
    hw rfl
  refine ⟨ha, overlong_isLine, hne, by rw [hget], ?_⟩
  intro hresolves
  obtain ⟨after, more, hviolation, -⟩ := hresolves 0 wire Bytes.crlf [] rfl hw hd (by
    simp [overlongLink, ascii, Bytes.crlf])
  rw [hget] at hviolation
  cases hviolation

end CacheClient.Link
