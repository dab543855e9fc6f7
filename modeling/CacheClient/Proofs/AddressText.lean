import CacheClient.Proofs.AddressGrammar

namespace CacheClient

namespace Bytes

theorem lower_eq_iff {c d : UInt8} (hc : c < 65 ∨ 90 < c ∧ c < 97) : lower d = c ↔ d = c := by
  simp only [UInt8.lt_iff_toNat_lt] at hc
  unfold lower
  split
  · rename_i hd
    simp only [UInt8.le_iff_toNat_le] at hd
    rw [← UInt8.toNat_inj, ← UInt8.toNat_inj, UInt8.toNat_add]
    simp at hc hd ⊢
    omega
  · rfl

theorem mem_map_lower {c : UInt8} {bytes : Bytes} (hc : c < 65 ∨ 90 < c ∧ c < 97) :
    c ∈ bytes.map lower ↔ c ∈ bytes := by
  simp [List.mem_map, lower_eq_iff hc]

theorem head?_map_lower {c : UInt8} {bytes : Bytes} (hc : c < 65 ∨ 90 < c ∧ c < 97) :
    (bytes.map lower).head? = some c ↔ bytes.head? = some c := by
  simp [List.head?_map, lower_eq_iff hc]

theorem lower_not_mem (c : UInt8) : lower c ∉ capitals := by
  rw [mem_capitals]
  unfold lower
  split
  · rename_i hc
    simp only [UInt8.le_iff_toNat_le, UInt8.toNat_add] at hc ⊢
    simp at hc ⊢
    omega
  · assumption

theorem map_lower_map_lower (bytes : Bytes) : (bytes.map lower).map lower = bytes.map lower := by
  simp [lower_of_not_mem (lower_not_mem _)]

end Bytes

namespace Endpoint

/-- A host without a colon that begins like a path or like a bracket. -/
def Ambiguous (endpoint : Endpoint) : Prop :=
  endpoint.family = .tcp ∧ colon ∉ endpoint.host ∧
    (endpoint.host.head? = slash ∨ endpoint.host.head? = opening)

instance (endpoint : Endpoint) : Decidable endpoint.Ambiguous :=
  inferInstanceAs (Decidable (_ ∧ _ ∧ _))

/-- What every endpoint is like that an address names. -/
inductive Formed : Endpoint → Prop where
  | path (rest : Bytes) : Formed (unix (slash :: rest))
  | server {host port : Bytes} (present : host ≠ []) (lowered : host.map Bytes.lower = host)
      (valid : IsPort port)
      (apart : closing ∉ host ∨ colon ∉ host ∧ host.head? ≠ slash ∧ host.head? ≠ opening) :
      Formed (tcp host port)

variable {address host port : Bytes} {endpoint : Endpoint}

theorem Names.formed (h : Names address endpoint) : endpoint.Formed := by
  cases h with
  | path rest => exact .path rest
  | bracketed present closed after =>
    refine .server (by simpa using present) (Bytes.map_lower_map_lower _) after.isPort (.inl ?_)
    rwa [Bytes.mem_map_lower (by decide)]
  | plain present whole pathless bare after =>
    refine .server (by simpa using present) (Bytes.map_lower_map_lower _) after.isPort (.inr ?_)
    rw [Bytes.mem_map_lower (by decide), ne_eq, ne_eq, Bytes.head?_map_lower (by decide),
      Bytes.head?_map_lower (by decide)]
    exact ⟨whole, pathless, bare⟩

theorem Names.opening_of_ambiguous (h : Names address endpoint) (ha : endpoint.Ambiguous) :
    address.head? = opening := by
  obtain ⟨hfamily, -, hhead⟩ := ha
  cases h with
  | path rest => cases hfamily
  | bracketed present closed after => rfl
  | plain present whole pathless bare after =>
    rcases hhead with hhead | hhead
    · exact absurd ((Bytes.head?_map_lower (by decide)).mp hhead) pathless
    · exact absurd ((Bytes.head?_map_lower (by decide)).mp hhead) bare

theorem text_of_colon (h : colon ∈ host) :
    (tcp host port).text = opening :: host ++ closing :: colon :: port := by
  simp [text, tcp, h, ascii]

theorem text_of_no_colon (h : colon ∉ host) : (tcp host port).text = host ++ colon :: port := by
  simp [text, tcp, h, ascii]

theorem Formed.names_text (h : endpoint.Formed) (hclear : ¬ endpoint.Ambiguous) :
    Names endpoint.text endpoint := by
  cases h with
  | path rest => exact .path rest
  | @server host port present lowered valid apart =>
    -- The split is the printer's: a colon in the host is what puts brackets around it.
    by_cases hcolon : colon ∈ host
    · have hclosed : closing ∉ host := apart.resolve_right fun h => h.1 hcolon
      have hnames := Names.bracketed present hclosed (.named port valid)
      rwa [lowered, ← text_of_colon hcolon] at hnames
    · obtain ⟨hpathless, hbare⟩ := not_or.mp fun h => hclear ⟨rfl, hcolon, h⟩
      have hnames := Names.plain present hcolon hpathless hbare (.named port valid)
      rwa [lowered, ← text_of_no_colon hcolon] at hnames

theorem parse_unclosed {rest : Bytes} (h : closing ∉ rest) :
    parse (opening :: rest) = .error (AddressFault.unterminated.failure (opening :: rest)) := by
  have hcut : Bytes.cut? 93 rest = none := Bytes.cut?_of_not_mem h
  simp [parse, read, hostAndPort, opening, hcut]

/-- What is printed for an ambiguous host is a path, or a bracket that is never closed. -/
theorem Formed.text_of_ambiguous (h : endpoint.Formed) (ha : endpoint.Ambiguous) :
    parse endpoint.text = if endpoint.host.head? = slash then .ok (unix endpoint.text)
      else .error (AddressFault.unterminated.failure endpoint.text) := by
  obtain ⟨hfamily, hcolon, hhead⟩ := ha
  cases h with
  | path rest => cases hfamily
  | @server host port present lowered valid apart =>
    change colon ∉ host at hcolon
    change host.head? = slash ∨ host.head? = opening at hhead
    -- The host stood in brackets, so nothing in its text closes the bracket that it may begin with.
    have hclosed : closing ∉ host := apart.resolve_right fun h => hhead.elim h.2.1 h.2.2
    have hport : closing ∉ port := fun hm => absurd (valid.2.1 closing hm).2 (by decide)
    rw [text_of_no_colon hcolon]
    rcases hhead with hhead | hhead
    · obtain ⟨rest, rfl⟩ := List.head?_eq_some_iff.mp hhead
      rfl
    · obtain ⟨rest, rfl⟩ := List.head?_eq_some_iff.mp hhead
      have hrest : closing ∉ rest ++ colon :: port := by
        rw [List.mem_append, List.mem_cons]
        exact not_or.mpr ⟨List.not_mem_of_not_mem_cons hclosed, not_or.mpr ⟨nofun, hport⟩⟩
      exact parse_unclosed hrest

/-- An endpoint that an address names is read back from its text, unless it is ambiguous. An ambiguous one
comes from an address in brackets, and its text is a path or no address. Of the others no two have one
text. -/
theorem printed_reads_back (parsed : parse address = .ok endpoint) :
    (parse endpoint.text = .ok endpoint ↔ ¬ endpoint.Ambiguous) ∧
    (endpoint.Ambiguous → address.head? = opening ∧
      (parse endpoint.text = .ok (unix endpoint.text) ∨
        (parse endpoint.text).is .invalidAddress = true)) ∧
    ∀ otherAddress other, parse otherAddress = .ok other → ¬ endpoint.Ambiguous →
      ¬ other.Ambiguous → endpoint ≠ other → endpoint.text ≠ other.text := by
  have hnames := parse_eq_ok.mp parsed
  have hback (hclear : ¬ endpoint.Ambiguous) : parse endpoint.text = .ok endpoint :=
    parse_eq_ok.mpr (hnames.formed.names_text hclear)
  refine ⟨⟨?_, hback⟩, ?_, ?_⟩
  · intro hread ha
    -- read back, the text of an ambiguous endpoint would be a path or nothing
    rw [hnames.formed.text_of_ambiguous ha] at hread
    split at hread
    · have hfamily := congrArg family (Except.ok.inj hread)
      rw [ha.1] at hfamily
      cases hfamily
    · cases hread
  · intro ha
    refine ⟨hnames.opening_of_ambiguous ha, ?_⟩
    rw [hnames.formed.text_of_ambiguous ha]
    split
    · exact .inl rfl
    · exact .inr rfl
  · intro otherAddress other hother hclear hclear' hne hsame
    have hread : parse other.text = .ok other :=
      parse_eq_ok.mpr ((parse_eq_ok.mp hother).formed.names_text hclear')
    rw [← hsame, hback hclear] at hread
    exact hne (Except.ok.inj hread)

/-- Brackets that are printed again, with the port as it was written, and brackets that are not. -/
theorem brackets_printed :
    let kept := tcp (ascii "f::1") (ascii "007")
    let other := tcp (ascii "f::1") (ascii "7")
    let lost := tcp (ascii "/a") (ascii "11211")
    (parse (ascii "[F::1]:007") = .ok kept ∧ parse kept.text = .ok kept) ∧
      (parse (ascii "[f::1]:7") = .ok other ∧ kept.text ≠ other.text) ∧
      parse (ascii "[/A]") = .ok lost ∧ parse lost.text ≠ .ok lost := by
  intro kept other lost
  have hkept : parse (ascii "[F::1]:007") = .ok kept := rfl
  have hother : parse (ascii "[f::1]:7") = .ok other := rfl
  have hlost : parse (ascii "[/A]") = .ok lost := rfl
  obtain ⟨hback, -, hapart⟩ := printed_reads_back hkept
  obtain ⟨hnever, -⟩ := printed_reads_back hlost
  have hclear : ¬ kept.Ambiguous := by decide
  refine ⟨⟨hkept, hback.mpr hclear⟩, ⟨hother, ?_⟩, hlost, ?_⟩
  · exact hapart _ other hother hclear (by decide) (by decide)
  · exact fun hread => hnever.mp hread (by decide)

end Endpoint

end CacheClient
