import CacheClient.Proofs.Session
import CacheClient.Proofs.Transcripts
import Mathlib.Algebra.Group.Nat.Defs

namespace CacheClient

namespace Reply

/-- A row of digits with this value; spaces may follow it. -/
def Numeral (line : Bytes) (n : Nat) : Prop :=
  ∃ digits pad, line = digits ++ pad ∧ digits ≠ [] ∧ (∀ c ∈ digits, Decimal.isDigit c = true) ∧
    (∀ c ∈ pad, c = Bytes.space) ∧ Decimal.value digits = n

variable {line : Bytes} {n : Nat}

theorem numeral_iff : Numeral line n ↔ Decimal.read? (Bytes.trimEnd line) = some n := by
  constructor
  · rintro ⟨digits, pad, rfl, hne, hd, hp, hv⟩
    have hread : Decimal.read? digits = some n := Decimal.read?_eq_some.mpr ⟨hne, hd, hv⟩
    rwa [Bytes.trimEnd_append (Decimal.not_mem_of_read? hread Decimal.space_not_digit) hp]
  · intro hread
    obtain ⟨hne, hd, hv⟩ := Decimal.read?_eq_some.mp hread
    obtain ⟨pad, he, hp⟩ := Bytes.eq_trimEnd_append line
    exact ⟨_, pad, he, hne, hd, hp, hv⟩

/-- What a line is to a counter, and what is answered then. -/
inductive Tells (line : Bytes) : Answer UInt64 → Prop where
  | value (n : UInt64) (numeral : Numeral line n.toNat) : Tells line (.ok n)
  | missing (absent : line = ascii "NOT_FOUND") : Tells line (.error missing)
  | nonNumeric (word : ascii "non-numeric" <:+: line) : Tells line (.error ⟨.nonNumeric, line, []⟩)
  | foreign (present : line ≠ ascii "NOT_FOUND") (wordless : ¬ ascii "non-numeric" <:+: line)
      (numberless : ∀ n < 2 ^ 64, ¬ Numeral line n) : Tells line (.error (violation line))

theorem counted_tells (line : Bytes) : Tells line (counted line) := by
  unfold counted
  split
  · exact .missing ‹_›
  · rename_i hpresent
    split
    · rename_i hw
      exact .nonNumeric (Bytes.has_iff.mp hw)
    · rename_i hw
      split
      · rename_i n hn
        refine .value _ (numeral_iff.mpr ?_)
        simpa using Decimal.readBelow?_eq_some_iff.mp hn
      · rename_i hnone
        refine .foreign hpresent (fun h => hw (Bytes.has_iff.mpr h)) ?_
        intro n hlt hnum
        have hread : Decimal.readBelow? UInt64.size (Bytes.trimEnd line) = some ⟨n, hlt⟩ :=
          Decimal.readBelow?_eq_some_iff.mpr (numeral_iff.mp hnum)
        rw [hread] at hnone
        cases hnone

theorem counted_of_numeral (h : Numeral line n) (hlt : n < 2 ^ 64) :
    counted line = .ok (UInt64.ofNatLT n hlt) := by
  obtain ⟨digits, pad, rfl, hne, hd, hp, hv⟩ := h
  apply counted_of_digits _ _ hp
  rw [UInt64.toNat_ofNatLT]
  exact Decimal.read?_eq_some.mpr ⟨hne, hd, hv⟩

/-- The answer to a counting command does not tell that it was not sent. -/
theorem counted_ne_sending (line : Bytes) (fault : Fault) : counted line ≠ .error fault.sending := by
  intro he
  have ht := counted_tells line
  rw [he] at ht
  generalize hf : fault.sending = failure at ht
  have hkind := congrArg Failure.kind hf
  cases ht <;> cases fault <;> cases hkind

end Reply

theorem Integer.ofInt?_natCast {type : IntType} {n : Nat} {value : Integer type} :
    ofInt? type n = some value ↔ n ≤ type.max ∧ value.val = n := by
  have hmin := type.min_nonpos
  unfold ofInt?
  split
  · rename_i h
    constructor
    · rintro ⟨⟩
      exact ⟨by omega, rfl⟩
    · rintro ⟨-, hv⟩
      rw [← Integer.ext (a := ⟨n, h.1, h.2⟩) hv.symm]
  · rename_i h
    constructor
    · rintro ⟨⟩
    · rintro ⟨hle, -⟩
      omega

namespace Client

open Reply

variable {type : IntType}

theorem fit_eq_ok {n : UInt64} {value : Integer type} :
    fit type n = .ok value ↔ n.toNat ≤ type.max ∧ value.val = n.toNat := by
  rw [← Integer.ofInt?_natCast, fit]
  cases Integer.ofInt? type n.toNat <;> simp

theorem fit_is {n : UInt64} {kind : Failure.Kind} :
    (fit type n).is kind = true ↔ kind = .decodeFailed ∧ type.max < n.toNat := by
  have hmin := type.min_nonpos
  unfold fit Integer.ofInt?
  by_cases hfit : n.toNat ≤ type.max
  · have hhas : type.min ≤ n.toNat ∧ (n.toNat : Int) ≤ type.max := by omega
    simp [hhas, Answer.is, Nat.not_lt.mpr hfit]
  · have hlacks : ¬ (type.min ≤ n.toNat ∧ (n.toNat : Int) ≤ type.max) := by omega
    simp only [hlacks, ↓reduceDIte, Answer.is, decide_eq_true_eq]
    exact ⟨fun hk => ⟨hk.symm, Nat.not_le.mp hfit⟩, fun h => h.1.symm⟩

theorem counted_value {line : Bytes} {value : Integer type} :
    (counted line).bind (fit type) = .ok value ↔
      ∃ n, Numeral line n ∧ n ≤ type.max ∧ value.val = n := by
  constructor
  · intro ha
    have ht := counted_tells line
    generalize counted line = told at ha ht
    cases ht with
    | value n hn =>
      obtain ⟨hle, hv⟩ := fit_eq_ok.mp ha
      exact ⟨_, hn, hle, hv⟩
    | missing | nonNumeric | foreign => cases ha
  · rintro ⟨n, hn, hle, hv⟩
    rw [counted_of_numeral hn (Nat.lt_of_le_of_lt hle type.max_lt)]
    exact fit_eq_ok.mpr (by rw [UInt64.toNat_ofNatLT]; exact ⟨hle, hv⟩)

theorem counted_unfit (line : Bytes) :
    Answer.is ((counted line).bind (fit type)) .decodeFailed = true ↔
      ∃ n, Numeral line n ∧ type.max < n ∧ n < 2 ^ 64 := by
  constructor
  · intro ha
    have ht := counted_tells line
    generalize counted line = told at ha ht
    cases ht with
    | value n hn => exact ⟨_, hn, (fit_is.mp ha).2, n.toNat_lt⟩
    | missing | nonNumeric | foreign => cases ha
  · rintro ⟨n, hn, hbig, hlt⟩
    rw [counted_of_numeral hn hlt]
    exact fit_is.mpr ⟨rfl, by rwa [UInt64.toNat_ofNatLT]⟩

theorem counted_missing (line : Bytes) :
    Answer.is ((counted line).bind (fit type)) .notFound = true ↔ line = ascii "NOT_FOUND" := by
  constructor
  · intro ha
    have ht := counted_tells line
    generalize counted line = told at ha ht
    cases ht with
    | value => cases (fit_is.mp ha).1
    | missing absent => exact absent
    | nonNumeric | foreign => cases ha
  · rintro rfl
    rfl

theorem counted_nonNumeric (line : Bytes) :
    Answer.is ((counted line).bind (fit type)) .nonNumeric = true ↔
      ascii "non-numeric" <:+: line := by
  constructor
  · intro ha
    have ht := counted_tells line
    generalize counted line = told at ha ht
    cases ht with
    | value => cases (fit_is.mp ha).1
    | nonNumeric word => exact word
    | missing | foreign => cases ha
  · intro word
    rw [counted_of_word word]
    rfl

theorem counted_foreign (line : Bytes) :
    Answer.is ((counted line).bind (fit type)) .protocolError = true ↔
      line ≠ ascii "NOT_FOUND" ∧ ¬ ascii "non-numeric" <:+: line ∧
        ∀ n < 2 ^ 64, ¬ Numeral line n := by
  have ht := counted_tells line
  generalize counted line = told at ht
  cases ht with
  | value n hn =>
    refine iff_of_false ?_ (fun h => h.2.2 _ n.toNat_lt hn)
    exact fun ha => nomatch (fit_is.mp ha).1
  | missing absent => exact iff_of_false (fun ha => nomatch ha) (fun h => h.1 absent)
  | nonNumeric word => exact iff_of_false (fun ha => nomatch ha) (fun h => h.2.1 word)
  | foreign present wordless numberless => exact iff_of_true rfl ⟨present, wordless, numberless⟩

/-- A connection is given up for a line that no counter answers with, and for no other; that line is what
the failure tells. -/
theorem counted_fit (type : IntType) (line : Bytes) :
    if Answer.is ((counted line).bind (fit type)) .protocolError then
      (counted line).keepsHealthy = false ∧
        (counted line).bind (fit type) = .error (violation line)
    else (counted line).keepsHealthy = true := by
  have ht := counted_tells line
  generalize counted line = told at ht
  cases ht with
  | value n =>
    rw [if_neg]
    · rfl
    · exact fun ha => nomatch (fit_is.mp ha).1
  | missing | nonNumeric => rfl
  | foreign => exact ⟨rfl, rfl⟩

end Client

theorem Command.count_text (verb : CountVerb) (key : Bytes) (amount : UInt64) :
    (Command.count verb key amount).text =
      verb.text ++ [Bytes.space] ++ key ++ [Bytes.space] ++ Decimal.print amount.toNat ++ Bytes.crlf := by
  simp [Command.text, Command.fields, Command.block, List.intercalate]

/-- What is asked for is the amount itself, since every type's values fit the wire's. -/
theorem Integer.toNat_ofNat (delta : Integer type) :
    (UInt64.ofNat delta.val.toNat).toNat = delta.val.toNat := by
  have hmax := delta.le_max
  have hlt := type.max_lt
  exact UInt64.toNat_ofNat_of_lt (by omega)

section Runs

variable [Network σ] {id : Nat} {pool rest : Pool} {wire next : Wire σ} {link : Link σ}

/-- A complete line that comes without a fault answers the command. -/
theorem Link.count_answer {line bytes more : Bytes} {verb : CountVerb} {key : Bytes} {amount : UInt64}
    (hs : link.connection.stream = some id) (hu : link.connection.unsent = [])
    (hw : link.wire.write id (Command.count verb key amount).text = (none, wire))
    (hl : Bytes.IsLine line) (hshort : line.length < Connection.longestLine)
    (hd : wire.Delivers id bytes)
    (he : link.connection.unread ++ bytes = line ++ Bytes.crlf ++ more) :
    (link.exchange (.count verb key amount)).1 = Reply.counted line := by
  have hoffers : (link.sent wire).Offers id (Wire.Delivers id) (line ++ Bytes.crlf ++ more) :=
    ⟨hs, bytes, hd, he⟩
  obtain ⟨after, hr, -, -⟩ := hoffers.hearLine (Wire.delivers_feeds id) Reply.counted hl hshort
  have hx := exchange_eq (.count verb key amount) hs
  rw [hu, List.nil_append, hw] at hx
  rw [hx]
  exact congrArg Prod.fst hr

/-- What an exchange comes to is what it comes to on the stream on loan. -/
theorem Engine.exchange_lent (command : Command) (engine : Engine σ)
    (h : (engine.router.owner command.key).Lends engine.wire id link rest) :
    (engine.exchange command).1 = (link.exchange command).1 := by
  simp only [exchange, Router.run_eq, Pool.run, h.acquire]

theorem Running.Accounted.open_of_lends {running : Running σ} {room : Nat} {key : Bytes}
    (hr : running.Accounted room)
    (h : (running.client.router.owner key).Lends running.wire id link rest) :
    running.client.closed = false := by
  have hcap := hr.capacity _ (running.client.router.owner_mem key)
  cases hc : running.client.closed with
  | false => rfl
  | true =>
    rw [hc] at hcap
    cases h with
    | reused hsome | dialed hsome =>
      rw [hcap] at hsome
      cases hsome

theorem Client.Call.count_request {running : Running σ} {verb : CountVerb} {key : Bytes}
    {delta : Integer type} (ho : running.client.closed = false) (hk : Key.isValid key = true)
    (hp : 0 ≤ delta.val) : (Call.count verb key delta).request running =
      .ok ⟨.count verb key (UInt64.ofNat delta.val.toNat), fun answer => answer.bind (fit type)⟩ := by
  simp [request, Int.not_lt.mpr hp, permit, Key.check, ho, hk, Except.map]

/-- An exchange that does not tell that its command was not sent has written it. -/
theorem Engine.Accounted.wrote {engine : Engine σ} {command : Command} (he : engine.Accounted)
    (hs : engine.streamFor command = some id)
    (ha : ∀ fault, (engine.exchange command).1 ≠ .error (Fault.sending fault)) :
    .wrote id command.text none ∈ engine.wire.since (engine.exchange command).2.wire := by
  obtain ⟨events, hj, ht⟩ := he.transcript command
  rw [Wire.since_eq hj, List.reverse_reverse]
  rw [hs] at ht
  cases ht with
  | talked _ htalk =>
    cases htalk with
    | unsent fault ends => exact absurd ends (ha fault)
    | sent => simp

end Runs

/-- For every type of integer, and every amount of it to count by that is not negative: if the command is
written, and a complete line is the first that is unread or comes, then the command has carried just that
amount, and the answer depends on the line alone. It is the value of a numeral where the type has that
value, and never another value. A numeral beyond the type, a missing item and a value that is no number have
a kind of failure each; for every other line the failure tells that line. Only then the stream is given up,
if there is room for idle connections at all. The steps are those that a verb has got to. -/
theorem counters_exact [Network σ] (network : σ) (settings : Settings) (client : Client)
    (created : Client.create settings (Wire.start network) = .ok client)
    (verbs : List Verb) (steps : List Step)
    {type : IntType} (verb : CountVerb) (key : Bytes) (delta : Integer type)
    (valid : Key.isValid key = true) (positive : 0 ≤ delta.val)
    {id : Nat} {link : Link σ} {rest : Pool} {wire : Wire σ} {line bytes more : Bytes}
    (lent : let now := (Running.verbs verbs ⟨client, Wire.start network⟩).steps steps
      (now.client.router.owner key).Lends now.wire id link rest)
    (written : link.wire.write id (verb.text ++ [Bytes.space] ++ key ++ [Bytes.space] ++
      Decimal.print delta.val.toNat ++ Bytes.crlf) = (none, wire))
    (whole : Bytes.IsLine line) (short : line.length < Connection.longestLine)
    (arrives : wire.Delivers id bytes)
    (first : link.connection.unread ++ bytes = line ++ Bytes.crlf ++ more) :
    let now := (Running.verbs verbs ⟨client, Wire.start network⟩).steps steps
    let answer := (now.perform (.count verb key delta)).1
    let next := (now.perform (.count verb key delta)).2
    .wrote id (verb.text ++ [Bytes.space] ++ key ++ [Bytes.space] ++
      Decimal.print delta.val.toNat ++ Bytes.crlf) none ∈ now.wire.since next.wire ∧
    Decimal.read? (Decimal.print delta.val.toNat) = some delta.val.toNat ∧
    (∀ value, answer = .ok value ↔
      ∃ n, Reply.Numeral line n ∧ n ≤ type.max ∧ value.val = n) ∧
    (answer.is .decodeFailed = true ↔ ∃ n, Reply.Numeral line n ∧ type.max < n ∧ n < 2 ^ 64) ∧
    (answer.is .notFound = true ↔ line = ascii "NOT_FOUND") ∧
    (answer.is .nonNumeric = true ↔ ascii "non-numeric" <:+: line) ∧
    (answer.is .protocolError = true ↔ line ≠ ascii "NOT_FOUND" ∧
      ¬ ascii "non-numeric" <:+: line ∧ ∀ n < 2 ^ 64, ¬ Reply.Numeral line n) ∧
    if answer.is .protocolError then answer = .error (Reply.violation line) ∧ next.Retired id
    else 0 < settings.idle → ∃ connection others,
      (next.client.router.owner key).idle = connection :: others ∧ connection.stream = some id := by
  intro now answer next
  let amount := UInt64.ofNat delta.val.toNat
  have hnow : now.Accounted settings.idle.toNat := Running.reached_accounted created verbs steps
  have hsound := hnow.engine.sound _ (now.client.router.owner_mem key)
  obtain ⟨hs, hr⟩ := lent.connection hsound
  have htext : (Command.count verb key amount).text = _ := Command.count_text verb key amount
  rw [delta.toNat_ofNat] at htext
  rw [← htext] at written ⊢
  have hq := @Client.Call.count_request _ _ _ _ verb _ _ (hnow.open_of_lends lent) valid positive
  have hstream : now.engine.streamFor (.count verb key amount) = some id := lent.streamFor hsound
  have hexchange : (now.engine.exchange (.count verb key amount)).1 = Reply.counted line :=
    (now.engine.exchange_lent (.count verb key amount) lent).trans
      (Link.count_answer hs hr.unsent written whole short arrives first)
  have hanswer : answer = (Reply.counted line).bind (Client.fit type) := by
    rw [← hexchange]
    simp only [answer, Running.perform_eq, hq]
    rfl
  have hwrote : .wrote id (Command.count verb key amount).text none ∈ now.wire.since next.wire := by
    have hsent := hnow.engine.wrote hstream fun fault => by
      rw [hexchange]
      exact Reply.counted_ne_sending line fault
    simp only [next, Running.perform_eq, hq]
    exact hsent
  -- what becomes of the stream hangs on the answer of the exchange, not on what the type makes of it
  obtain ⟨-, hend⟩ := hnow.disposed _ _ hq hstream
  rw [hexchange] at hend
  have hfit := Client.counted_fit type line
  rw [hanswer]
  refine ⟨hwrote, Decimal.read?_print _, fun value => Client.counted_value, Client.counted_unfit line,
    Client.counted_missing line, Client.counted_nonNumeric line, Client.counted_foreign line, ?_⟩
  split at hfit
  · rename_i hforeign
    rw [if_pos hforeign]
    refine ⟨hfit.2, ?_⟩
    rwa [hfit.1, if_neg (by simp)] at hend
  · rename_i hkept
    rw [if_neg hkept]
    intro hroom
    rwa [if_pos ⟨hfit, by omega⟩] at hend

/-- A signed byte goes to 127: for 300 the call fails, but keeps the stream. -/
theorem byte_counter_unfit :
    let wire : Wire Script := Wire.start { entries := [{ stream := ⟨[⟨ascii "300\r\n", none⟩], []⟩ }] }
    let now : Running Script := ⟨soloClient, wire⟩
    let step : Integer ⟨true, .one⟩ := ⟨1, by decide, by decide⟩
    let result := now.perform (.count .incr (ascii "k") step)
    Client.create soloSettings wire = .ok soloClient ∧ result.1.is .decodeFailed = true ∧
      ∃ connection others, (result.2.client.router.owner (ascii "k")).idle = connection :: others ∧
        connection.stream = some 0 := by
  intro wire now step result
  have hlent : (soloClient.router.owner (ascii "k")).Lends wire 0
      ⟨.fresh (some 0), (wire.dial (.tcp (ascii "a") (ascii "11211")) soloSettings.dialOptions).2⟩ _ :=
    .dialed rfl rfl rfl
  obtain ⟨-, -, -, hunfit, -, -, -, hkept⟩ := counters_exact _ soloSettings soloClient
    (solo_created wire) [] [] .incr (ascii "k") step rfl (by decide) hlent rfl
    (Bytes.isLine_of_not_mem (by decide) : Bytes.IsLine (ascii "300")) (by decide)
    ((Script.holds_feeds 0).delivers ⟨⟨by decide, by decide⟩, rfl⟩) rfl
  have hnumeral : Reply.Numeral (ascii "300") 300 := Reply.numeral_iff.mpr rfl
  exact ⟨solo_created wire, hunfit.mpr ⟨300, hnumeral, by decide, by decide⟩, hkept (by decide)⟩

end CacheClient
