import CacheClient.Connection
import CacheClient.Proofs.Fields
import CacheClient.Proofs.Grammar
import CacheClient.Proofs.Lines

namespace CacheClient.Reply

theorem stored_means (verb : StoreVerb) (line : Bytes) :
    Means (.store verb key flags expiry payload) (line ++ Bytes.crlf) (stored verb line) ∨
      stored verb line = .error (violation line) := by
  unfold stored
  split
  · rename_i he
    exact .inl (he ▸ .stored)
  · split
    · rename_i he
      exact .inl (he ▸ .declined)
    · split
      · rename_i he
        obtain ⟨rfl, rfl⟩ := he
        exact .inl .present
      · exact .inr rfl

theorem deleted_means (line : Bytes) :
    Means (.delete key) (line ++ Bytes.crlf) (deleted line) ∨
      deleted line = .error (violation line) := by
  unfold deleted
  split
  · rename_i he
    exact .inl (he ▸ .deleted)
  · split
    · rename_i he
      exact .inl (he ▸ .absent)
    · exact .inr rfl

theorem counted_means {line : Bytes} (hl : Bytes.IsLine line) :
    Means (.count verb key delta) (line ++ Bytes.crlf) (counted line) ∨
      counted line = .error (violation line) := by
  unfold counted
  split
  · rename_i he
    exact .inl (he ▸ .uncounted)
  · split
    · rename_i hw
      exact .inl (.nonNumeric line hl (Bytes.has_iff.mp hw))
    · split
      · rename_i n hn
        obtain ⟨pad, he, hp⟩ := Bytes.eq_trimEnd_append line
        have hd := Decimal.readBelow?_eq_some_iff.mp hn
        have hmeans : Means (.count verb key delta) (Bytes.trimEnd line ++ pad ++ Bytes.crlf)
            (.ok (UInt64.ofNatLT n n.isLt)) := .counted _ (by simpa using hd) hp
        rw [← he] at hmeans
        exact .inl hmeans
      · exact .inr rfl

/-- A line that announces a value under the key: its flags and its length. -/
def Announces (key line : Bytes) (flags : UInt32) (length : Nat) : Prop :=
  ∃ flagsText lengthText pad, line = headerLine key flagsText lengthText pad ∧
    Decimal.read? flagsText = some flags.toNat ∧ Decimal.read? lengthText = some length ∧
    length ≤ largestValue ∧ (pad = [] ∨ pad = [Bytes.space])

theorem finish_isLine : Bytes.IsLine finish :=
  Bytes.isLine_of_not_mem (by decide)

theorem headerLine_isLine {key flags length pad : Bytes} (hk : Key.isValid key = true)
    (hf : Decimal.read? flags = some n) (hl : Decimal.read? length = some m)
    (hp : pad = [] ∨ pad = [Bytes.space]) : Bytes.IsLine (headerLine key flags length pad) := by
  have hkey := Key.newline_not_mem hk
  have hflags := Decimal.not_mem_of_read? hf Decimal.newline_not_digit
  have hlength := Decimal.not_mem_of_read? hl Decimal.newline_not_digit
  apply Bytes.isLine_of_not_mem
  rcases hp with rfl | rfl <;> simp [headerLine, ascii, Bytes.space, hkey, hflags, hlength]

namespace Announces

variable {key line value : Bytes} {flags : UInt32} {length : Nat}

theorem fits (h : Announces key line flags length) : length ≤ largestValue := by
  obtain ⟨_, _, _, -, -, -, hfit, -⟩ := h
  exact hfit

theorem isLine (h : Announces key line flags length) (hk : Key.isValid key = true) :
    Bytes.IsLine line := by
  obtain ⟨flagsText, lengthText, pad, rfl, hf, hl, -, hp⟩ := h
  exact headerLine_isLine hk hf hl hp

theorem header (h : Announces key line flags length) (hk : Key.isValid key = true) :
    Reply.header key line = .ok ⟨flags, length⟩ := by
  obtain ⟨flagsText, lengthText, pad, rfl, hf, hl, hfit, hp⟩ := h
  have hne : headerLine key flagsText lengthText pad ≠ finish := by
    intro he
    have := congrArg List.head? he
    simp [headerLine, finish, ascii] at this
  rw [Reply.header, if_neg hne, readHeader?_of_line ⟨flags, length⟩ (Key.space_not_mem hk) hf hl hfit hp]

theorem found (h : Announces key line flags value.length) :
    Means (.get key) (line ++ Bytes.crlf ++ (value ++ Bytes.crlf ++ (finish ++ Bytes.crlf)))
      (.ok ⟨flags, value⟩) := by
  obtain ⟨flagsText, lengthText, pad, rfl, hf, hl, hfit, hp⟩ := h
  exact .found ⟨flags, value⟩ hf hl hfit hp

end Announces

theorem means_found {key reply : Bytes} {item : Item} (h : Means (.get key) reply (.ok item)) :
    ∃ line, Announces key line item.flags item.value.length ∧
      reply = line ++ Bytes.crlf ++ (item.value ++ Bytes.crlf ++ (finish ++ Bytes.crlf)) := by
  cases h with
  | found _ hf hl hfit hp => exact ⟨_, ⟨_, _, _, rfl, hf, hl, hfit, hp⟩, rfl⟩

theorem header_means (key line : Bytes) : match header key line with
    | .error failure =>
      Means (.get key) (line ++ Bytes.crlf) (.error failure) ∨ failure = violation line
    | .ok header => Announces key line header.flags header.length := by
  by_cases he : line = finish
  · subst he
    simp only [header, ↓reduceIte]
    exact .inl .missed
  · cases hr : readHeader? key line with
    | none => simp [header, he, hr]
    | some announced =>
      simp only [header, he, ↓reduceIte, hr]
      exact line_of_readHeader? hr

theorem header_foreign {key line : Bytes} (hne : line ≠ finish)
    (hn : ∀ flags length, ¬ Announces key line flags length) :
    header key line = .error (violation line) := by
  cases hr : readHeader? key line with
  | none => simp [header, hne, hr]
  | some announced => exact absurd (line_of_readHeader? hr) (hn _ _)

theorem block_eq_ok {bytes value : Bytes} {length : Nat} (hb : block length bytes = .ok value) :
    bytes = value ++ Bytes.crlf ∧ value.length = length := by
  unfold block at hb
  split at hb
  · rename_i he
    cases hb
    have hlen := congrArg List.length he
    simp only [List.length_drop, Bytes.crlf, List.length_cons, List.length_nil] at hlen
    refine ⟨by rw [← he, List.take_append_drop], ?_⟩
    rw [List.length_take]
    omega
  · cases hb

theorem length_block {ending : Bytes} (value : Bytes) (hend : ending.length = 2) :
    (value ++ ending).length = value.length + 2 := by
  rw [List.length_append, hend]

theorem block_fits {value ending : Bytes} (hfit : value.length ≤ largestValue)
    (hend : ending.length = 2) : (value ++ ending).length ≤ Connection.largestBlock := by
  rw [length_block value hend]
  simp only [largestValue] at hfit
  simp only [Connection.largestBlock]
  omega

theorem counted_of_digits {text pad : Bytes} (n : UInt64)
    (hd : Decimal.read? text = some n.toNat) (hp : ∀ c ∈ pad, c = Bytes.space) :
    counted (text ++ pad) = .ok n := by
  have hother (c : UInt8) (hc : Decimal.isDigit c = false) (hs : c ≠ Bytes.space) :
      c ∉ text ++ pad := by
    intro hm
    rcases List.mem_append.mp hm with hm | hm
    · exact Decimal.not_mem_of_read? hd hc hm
    · exact hs (hp c hm)
  have hn : text ++ pad ≠ ascii "NOT_FOUND" := by
    intro he
    exact hother 78 rfl (by decide) (he ▸ List.mem_cons_self)
  have hw : Bytes.has (ascii "non-numeric") (text ++ pad) ≠ true := by
    intro hw
    exact hother 110 rfl (by decide) ((Bytes.has_iff.mp hw).subset List.mem_cons_self)
  have ht : Bytes.trimEnd (text ++ pad) = text :=
    Bytes.trimEnd_append (Decimal.not_mem_of_read? hd Decimal.space_not_digit) hp
  have hb : Decimal.readBelow? UInt64.size text = some ⟨n.toNat, n.toNat_lt⟩ :=
    Decimal.readBelow?_eq_some_iff.mpr hd
  rw [counted, if_neg hn, if_neg hw, ht, hb]
  simp

theorem counted_of_word {line : Bytes} (hw : ascii "non-numeric" <:+: line) :
    counted line = .error ⟨.nonNumeric, line, []⟩ := by
  have hne : line ≠ ascii "NOT_FOUND" := by
    rintro rfl
    exact absurd (Bytes.has_iff.mpr hw) (by decide)
  rw [counted, if_neg hne, if_pos (Bytes.has_iff.mpr hw)]

/-- A line that answers a store command is read as what it means. -/
theorem stored_of_means
    (h : Means (.store verb key flags expiry payload) (line ++ Bytes.crlf) answer) :
    stored verb line = answer := by
  generalize he : line ++ Bytes.crlf = reply at h
  cases h with
  | stored | declined | present =>
    obtain rfl := List.append_cancel_right he
    rfl

theorem deleted_of_means (h : Means (.delete key) (line ++ Bytes.crlf) answer) :
    deleted line = answer := by
  generalize he : line ++ Bytes.crlf = reply at h
  cases h with
  | deleted | absent =>
    obtain rfl := List.append_cancel_right he
    rfl

theorem counted_of_means (h : Means (.count verb key delta) (line ++ Bytes.crlf) answer) :
    counted line = answer := by
  generalize he : line ++ Bytes.crlf = reply at h
  cases h with
  | counted n hd hp =>
    obtain rfl := List.append_cancel_right he
    exact counted_of_digits n hd hp
  | uncounted =>
    obtain rfl := List.append_cancel_right he
    rfl
  | nonNumeric line' _ hword =>
    obtain rfl := List.append_cancel_right he
    exact counted_of_word hword

end CacheClient.Reply
