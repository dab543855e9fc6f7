import CacheClient.Proofs.Fields
import CacheClient.Proofs.Lines
import CacheClient.Reply

namespace CacheClient

/-- What a command yields when it succeeds. -/
@[reducible] def Command.Value : Command → Type
  | store .. => Unit
  | get _ => Item
  | delete _ => Unit
  | count .. => UInt64

namespace Reply

/-- The first line of a value, in which one space may follow the length. -/
def headerLine (key flags length pad : Bytes) : Bytes :=
  ascii "VALUE" ++ Bytes.space :: (key ++ Bytes.space :: (flags ++ Bytes.space :: (length ++ pad)))

/-- The complete replies to a command, each with its meaning. -/
inductive Means : (command : Command) → Bytes → Answer command.Value → Prop where
  | stored : Means (.store verb key flags expiry payload) (ascii "STORED" ++ Bytes.crlf) (.ok ())
  | declined : Means (.store verb key flags expiry payload) (ascii "NOT_STORED" ++ Bytes.crlf)
      (.error ⟨.notStored, ascii "item not stored", []⟩)
  | present : Means (.store .add key flags expiry payload) (ascii "EXISTS" ++ Bytes.crlf)
      (.error ⟨.conflict, ascii "item already exists", []⟩)
  | missed : Means (.get key) (ascii "END" ++ Bytes.crlf)
      (.error ⟨.cacheMiss, ascii "cache miss", []⟩)
  | found (item : Item) (flags : Decimal.read? flagsText = some item.flags.toNat)
      (length : Decimal.read? lengthText = some item.value.length)
      (fits : item.value.length ≤ largestValue) (padding : pad = [] ∨ pad = [Bytes.space]) :
      Means (.get key) (headerLine key flagsText lengthText pad ++ Bytes.crlf ++
        (item.value ++ Bytes.crlf ++ (ascii "END" ++ Bytes.crlf))) (.ok item)
  | deleted : Means (.delete key) (ascii "DELETED" ++ Bytes.crlf) (.ok ())
  | absent : Means (.delete key) (ascii "NOT_FOUND" ++ Bytes.crlf)
      (.error ⟨.notFound, ascii "item not found", []⟩)
  | counted (n : UInt64) (digits : Decimal.read? text = some n.toNat)
      (padding : ∀ c ∈ pad, c = Bytes.space) :
      Means (.count verb key delta) (text ++ pad ++ Bytes.crlf) (.ok n)
  | uncounted : Means (.count verb key delta) (ascii "NOT_FOUND" ++ Bytes.crlf)
      (.error ⟨.notFound, ascii "item not found", []⟩)
  | nonNumeric (line : Bytes) (whole : Bytes.IsLine line)
      (word : ascii "non-numeric" <:+: line) :
      Means (.count verb key delta) (line ++ Bytes.crlf) (.error ⟨.nonNumeric, line, []⟩)

theorem Means.keepsHealthy (h : Means command reply answer) : answer.keepsHealthy = true := by
  cases h <;> rfl

theorem Means.line (h : Means command reply answer) (hget : ∀ key, command ≠ .get key) :
    ∃ line, Bytes.IsLine line ∧ reply = line ++ Bytes.crlf := by
  cases h with
  | missed | found => exact absurd rfl (hget _)
  | nonNumeric line hl => exact ⟨line, hl, rfl⟩
  | counted n hd hp =>
    refine ⟨_, Bytes.isLine_of_not_mem ?_, rfl⟩
    intro hm
    rcases List.mem_append.mp hm with hm | hm
    · exact Decimal.not_mem_of_read? hd Decimal.newline_not_digit hm
    · exact absurd (hp 10 hm) (by decide)
  | _ => exact ⟨_, Bytes.isLine_of_not_mem (by decide), rfl⟩

theorem found_unique {key flags flags' length length' pad pad' value value' rest rest' : Bytes}
    (hf : Decimal.read? flags = some n) (hf' : Decimal.read? flags' = some n')
    (hl : Decimal.read? length = some value.length)
    (hl' : Decimal.read? length' = some value'.length)
    (hp : pad = [] ∨ pad = [Bytes.space]) (hp' : pad' = [] ∨ pad' = [Bytes.space])
    (he : headerLine key flags length pad ++ Bytes.crlf ++ (value ++ rest) =
      headerLine key flags' length' pad' ++ Bytes.crlf ++ (value' ++ rest')) :
    rest = rest' := by
  have hspace := Decimal.space_not_digit
  have hreturn : Decimal.isDigit 13 = false := rfl
  simp only [headerLine, List.append_assoc, List.cons_append, List.append_cancel_left_eq,
    List.cons.injEq, true_and] at he
  obtain ⟨-, he⟩ := Decimal.digits_unique hf hf' hspace hspace he
  simp only [List.cons.injEq, true_and] at he
  have hvalue (hsame : length = length') (ht : value ++ rest = value' ++ rest') : rest = rest' := by
    rw [hsame, hl', Option.some.injEq] at hl
    exact (List.append_inj ht hl.symm).2
  rcases hp with rfl | rfl <;> rcases hp' with rfl | rfl
  · obtain ⟨hsame, ht⟩ := Decimal.digits_unique hl hl' hreturn hreturn he
    exact hvalue hsame (by simpa using ht)
  · obtain ⟨-, ht⟩ := Decimal.digits_unique hl hl' hreturn hspace he
    cases (List.cons.inj ht).1
  · obtain ⟨-, ht⟩ := Decimal.digits_unique hl hl' hspace hreturn he
    cases (List.cons.inj ht).1
  · obtain ⟨hsame, ht⟩ := Decimal.digits_unique hl hl' hspace hspace he
    exact hvalue hsame (by simpa [Bytes.crlf] using ht)

/-- Complete replies to a command end at their own end: none begins with another. -/
theorem Means.prefix_free (h : Means command reply answer) (h' : Means command reply' answer')
    (he : reply ++ rest = reply' ++ rest') : rest = rest' := by
  cases command with
  | store | delete | count =>
    obtain ⟨line, hl, rfl⟩ := h.line (by simp)
    obtain ⟨line', hl', rfl⟩ := h'.line (by simp)
    exact (Bytes.line_unique hl hl' he).2
  | get key =>
    -- a miss and a value differ in their first byte
    have hhead {flags length pad tail tail' : Bytes} :
        headerLine key flags length pad ++ tail ≠ ascii "END" ++ tail' := by
      intro he
      have := congrArg List.head? he
      simp [headerLine, ascii] at this
    cases h with
    | missed =>
      cases h' with
      | missed => exact List.append_cancel_left he
      | found => exact absurd he.symm (by simpa [List.append_assoc] using hhead)
    | found item hf hl _ hp =>
      cases h' with
      | missed => exact absurd he (by simpa [List.append_assoc] using hhead)
      | found item' hf' hl' _ hp' =>
        have hend : Bytes.crlf ++ (ascii "END" ++ Bytes.crlf) ++ rest =
            Bytes.crlf ++ (ascii "END" ++ Bytes.crlf) ++ rest' := by
          apply found_unique hf hf' hl hl' hp hp'
          simp only [List.append_assoc] at he ⊢
          exact he
        exact List.append_cancel_left hend

theorem readHeader?_of_line {key flags length pad : Bytes} (header : Header)
    (hk : Bytes.space ∉ key) (hf : Decimal.read? flags = some header.flags.toNat)
    (hl : Decimal.read? length = some header.length) (hfit : header.length ≤ largestValue)
    (hp : pad = [] ∨ pad = [Bytes.space]) :
    readHeader? key (headerLine key flags length pad) = some header := by
  have hspace := Decimal.space_not_digit
  have hnf := Decimal.not_mem_of_read? hf hspace
  have hnl := Decimal.not_mem_of_read? hl hspace
  have hf' : Decimal.readBelow? UInt32.size flags = some ⟨_, header.flags.toNat_lt⟩ :=
    Decimal.readBelow?_eq_some_iff.mpr hf
  have hl' : Decimal.readBelow? (largestValue + 1) length = some ⟨_, Nat.lt_succ_of_le hfit⟩ :=
    Decimal.readBelow?_eq_some_iff.mpr hl
  have hword : Bytes.space ∉ ascii "VALUE" := by decide
  unfold readHeader? headerLine
  rcases hp with rfl | rfl
  · simp [Bytes.cut?_append hword, Bytes.cut?_append hk, Bytes.cut?_append hnf,
      Bytes.cut?_of_not_mem hnl, hf', hl']
  · simp [Bytes.cut?_append hword, Bytes.cut?_append hk, Bytes.cut?_append hnf,
      Bytes.cut?_append hnl, hf', hl']

theorem line_of_readHeader? {key line : Bytes} {header : Header}
    (hr : readHeader? key line = some header) : ∃ flags length pad,
      line = headerLine key flags length pad ∧
      Decimal.read? flags = some header.flags.toNat ∧
      Decimal.read? length = some header.length ∧ header.length ≤ largestValue ∧
      (pad = [] ∨ pad = [Bytes.space]) := by
  simp only [readHeader?, Option.bind_eq_bind, Option.bind_eq_some_iff] at hr
  obtain ⟨⟨word, _⟩, h1, ⟨named, _⟩, h2, ⟨flags, last⟩, h3, hr⟩ := hr
  obtain ⟨rfl, -⟩ := Bytes.eq_of_cut? h1
  obtain ⟨rfl, -⟩ := Bytes.eq_of_cut? h2
  obtain ⟨rfl, -⟩ := Bytes.eq_of_cut? h3
  -- The length is all that is left, or stands before one last space.
  obtain ⟨length, pad, hlast, hp, ht⟩ : ∃ length pad, last = length ++ pad ∧
      (pad = [] ∨ pad = [Bytes.space]) ∧
      ((Decimal.readBelow? UInt32.size flags).bind fun flags =>
        (Decimal.readBelow? (largestValue + 1) length).bind fun length =>
          if word = ascii "VALUE" ∧ named = key then
            some (Header.mk (UInt32.ofNatLT flags flags.isLt) length)
          else none) = some header := by
    split at hr
    · exact ⟨last, [], by simp, .inl rfl, hr⟩
    · rename_i length hc
      exact ⟨length, [Bytes.space], (Bytes.eq_of_cut? hc).1, .inr rfl, hr⟩
    · cases hr
  simp only [Option.bind_eq_some_iff] at ht
  obtain ⟨n, hf, m, hl, ht⟩ := ht
  split at ht
  · rename_i he
    obtain ⟨rfl, rfl⟩ := he
    obtain rfl := Option.some.inj ht
    refine ⟨flags, length, pad, ?_, ?_, ?_, Nat.le_of_lt_succ m.isLt, hp⟩
    · rw [hlast]
      rfl
    · simpa using Decimal.readBelow?_eq_some_iff.mp hf
    · exact Decimal.readBelow?_eq_some_iff.mp hl
  · cases ht

end Reply

end CacheClient
