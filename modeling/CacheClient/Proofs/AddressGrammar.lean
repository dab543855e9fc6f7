import CacheClient.Endpoint.Address
import CacheClient.Proofs.Fields
import Mathlib.Data.List.Basic
import Mathlib.Data.List.Induction
import Mathlib.Data.Nat.Digits.Defs

namespace CacheClient

namespace Bytes

def capitals : Bytes := ascii "ABCDEFGHIJKLMNOPQRSTUVWXYZ"

theorem mem_capitals {c : UInt8} : c ∈ capitals ↔ 65 ≤ c ∧ c ≤ 90 := by
  have hrow : capitals = (List.range 26).map fun i => UInt8.ofNat (65 + i) := rfl
  rw [hrow, List.mem_map, UInt8.le_iff_toNat_le, UInt8.le_iff_toNat_le]
  constructor
  · rintro ⟨i, hi, rfl⟩
    have hlt : i < 26 := List.mem_range.mp hi
    rw [UInt8.toNat_ofNat']
    simp
    omega
  · rintro ⟨hlow, hhigh⟩
    simp at hlow hhigh
    refine ⟨c.toNat - 65, List.mem_range.mpr (by omega), UInt8.toNat_inj.mp ?_⟩
    rw [UInt8.toNat_ofNat']
    omega

theorem lower_of_not_mem {c : UInt8} (h : c ∉ capitals) : lower c = c :=
  if_neg (mem_capitals.not.mp h)

end Bytes

namespace Decimal

/-- The number to base ten, whose last digit is the lowest. -/
def number (digits : Bytes) : Nat :=
  Nat.ofDigits 10 (digits.reverse.map fun c => c.toNat - 48)

theorem value_eq_number (digits : Bytes) : value digits = number digits := by
  induction digits using List.reverseRecOn with
  | nil => rfl
  | append_singleton digits c ih =>
    rw [value_append, ih, number, number, List.reverse_append, List.reverse_singleton,
      List.singleton_append, List.map_cons, Nat.ofDigits_cons, Nat.add_comm]

theorem isDigit_iff {c : UInt8} : isDigit c = true ↔ 48 ≤ c ∧ c ≤ 57 := by
  simp [isDigit]

end Decimal

namespace Endpoint

abbrev slash : UInt8 := 47

abbrev colon : UInt8 := 58

abbrev opening : UInt8 := 91

abbrev closing : UInt8 := 93

/-- Digits, as many as there may be, that stand for a number from 1 to 65535. -/
def IsPort (port : Bytes) : Prop :=
  port ≠ [] ∧ (∀ c ∈ port, 48 ≤ c ∧ c ≤ 57) ∧
    1 ≤ Decimal.number port ∧ Decimal.number port ≤ 65535

/-- What may follow the host in an address, and the port that it stands for. -/
inductive PortPart : Bytes → Bytes → Prop where
  | absent : PortPart [] (ascii "11211")
  | named (port : Bytes) (valid : IsPort port) : PortPart (colon :: port) port

/-- The addresses, and the endpoint that each of them names. -/
inductive Names : Bytes → Endpoint → Prop where
  | path (rest : Bytes) : Names (slash :: rest) (unix (slash :: rest))
  | bracketed {host rest port : Bytes} (present : host ≠ []) (closed : closing ∉ host)
      (after : PortPart rest port) :
      Names (opening :: host ++ closing :: rest) (tcp (host.map Bytes.lower) port)
  | plain {host rest port : Bytes} (present : host ≠ []) (whole : colon ∉ host)
      (pathless : host.head? ≠ slash) (bare : host.head? ≠ opening) (after : PortPart rest port) :
      Names (host ++ rest) (tcp (host.map Bytes.lower) port)

variable {address host port rest : Bytes} {endpoint : Endpoint}

theorem validPort_iff : validPort port = true ↔ IsPort port := by
  rw [IsPort, ← Decimal.value_eq_number]
  constructor
  · intro h
    unfold validPort at h
    split at h
    · cases h
    · rename_i n hn
      obtain ⟨hne, hd, hv⟩ := Decimal.read?_eq_some.mp (Decimal.readBelow?_eq_some_iff.mp hn)
      have hpos : 0 < n.val := of_decide_eq_true h
      have hlt := n.isLt
      exact ⟨hne, fun c hc => Decimal.isDigit_iff.mp (hd c hc), by omega, by omega⟩
  · rintro ⟨hne, hd, hpos, hle⟩
    have hread : Decimal.readBelow? 65536 port = some ⟨Decimal.value port, by omega⟩ := by
      rw [Decimal.readBelow?_eq_some_iff, Decimal.read?_eq_some]
      exact ⟨hne, fun c hc => Decimal.isDigit_iff.mpr (hd c hc), rfl⟩
    rw [validPort, hread]
    exact decide_eq_true hpos

theorem IsPort.colon_not_mem (h : IsPort port) : colon ∉ port := fun hm =>
  absurd (h.2.1 colon hm).2 (by decide)

theorem PortPart.isPort (h : PortPart rest port) : IsPort port := by
  cases h with
  | absent => exact validPort_iff.mp rfl
  | named _ valid => exact valid

/-- Where a host ends, and what stands for its port. -/
theorem eq_of_hostAndPort (h : hostAndPort address = .ok (host, port)) :
    ∃ rest, (rest = [] ∧ port = defaultPort ∨ rest = colon :: port) ∧
      (closing ∉ host ∧ address = opening :: host ++ closing :: rest ∨
        colon ∉ host ∧ address.head? ≠ opening ∧ address = host ++ rest) := by
  unfold hostAndPort at h
  split at h
  · split at h
    · cases h
    · rename_i hcut
      cases h
      obtain ⟨rfl, hclosed⟩ := Bytes.eq_of_cut? hcut
      exact ⟨[], .inl ⟨rfl, rfl⟩, .inl ⟨hclosed, rfl⟩⟩
    · rename_i hcut
      cases h
      obtain ⟨rfl, hclosed⟩ := Bytes.eq_of_cut? hcut
      exact ⟨colon :: port, .inr rfl, .inl ⟨hclosed, rfl⟩⟩
    · cases h
  · rename_i hbare
    have hhead : address.head? ≠ opening := by
      intro he
      obtain ⟨rest, rfl⟩ := List.head?_eq_some_iff.mp he
      exact hbare rest rfl
    split at h
    · rename_i hcut
      cases h
      exact ⟨[], .inl ⟨rfl, rfl⟩,
        .inr ⟨Bytes.not_mem_of_cut? hcut, hhead, (List.append_nil _).symm⟩⟩
    · rename_i hcut
      split at h
      · cases h
      · cases h
        obtain ⟨rfl, hwhole⟩ := Bytes.eq_of_cut? hcut
        exact ⟨colon :: port, .inr rfl, .inr ⟨hwhole, hhead, rfl⟩⟩

theorem hostAndPort_eq (bare : address.head? ≠ opening) : hostAndPort address =
    match Bytes.cut? colon address with
    | none => .ok (address, defaultPort)
    | some (host, port) => if port.contains colon then .error .unbracketed else .ok (host, port) := by
  unfold hostAndPort
  split
  · exact absurd rfl bare
  · rfl

/-- Of an address that is no path, the host must be there and the port be valid. -/
theorem read_eq_ok (pathless : address.head? ≠ slash) : read address = .ok endpoint ↔
    ∃ host port, hostAndPort address = .ok (host, port) ∧ host ≠ [] ∧ IsPort port ∧
      tcp (host.map Bytes.lower) port = endpoint := by
  unfold read
  split
  -- The empty address is refused before it is divided; divided, it has no host either.
  · refine iff_of_false nofun ?_
    rintro ⟨host, port, hd, hne, -⟩
    cases hd
    exact hne rfl
  · exact absurd rfl pathless
  · cases hostAndPort address with
    | error fault => simp
    | ok divided =>
      obtain ⟨host, port⟩ := divided
      by_cases hne : host = []
      · simp [hne]
      · by_cases hv : IsPort port
        · simp [hne, hv, validPort_iff.mpr hv, normalize, tcp]
        · simp [hne, hv, mt validPort_iff.mp hv]

theorem read_of_names (h : Names address endpoint) : read address = .ok endpoint := by
  cases h with
  | path => rfl
  | @bracketed host rest port present closed after =>
    have hpathless : (opening :: host ++ closing :: rest).head? ≠ slash := nofun
    have hdivided : hostAndPort (opening :: host ++ closing :: rest) = .ok (host, port) := by
      cases after <;> simp [hostAndPort, Bytes.cut?_append closed, defaultPort]
    exact (read_eq_ok hpathless).mpr ⟨host, port, hdivided, present, after.isPort, rfl⟩
  | @plain host rest port present whole pathless bare after =>
    have hhead : (host ++ rest).head? = host.head? := List.head?_append_of_ne_nil _ present
    have hdivided : hostAndPort (host ++ rest) = .ok (host, port) := by
      rw [hostAndPort_eq (hhead ▸ bare)]
      cases after with
      | absent =>
        rw [List.append_nil, Bytes.cut?_of_not_mem whole]
        rfl
      | named _ valid => simp [Bytes.cut?_append whole, valid.colon_not_mem]
    exact (read_eq_ok (hhead ▸ pathless)).mpr ⟨host, port, hdivided, present, after.isPort, rfl⟩

theorem names_of_read (h : read address = .ok endpoint) : Names address endpoint := by
  by_cases hpath : address.head? = slash
  · obtain ⟨rest, rfl⟩ := List.head?_eq_some_iff.mp hpath
    cases h
    exact .path rest
  · obtain ⟨host, port, hdivided, hpresent, hvalid, rfl⟩ := (read_eq_ok hpath).mp h
    obtain ⟨rest, hrest, haddress⟩ := eq_of_hostAndPort hdivided
    have hafter : PortPart rest port := by
      rcases hrest with ⟨rfl, rfl⟩ | rfl
      · exact .absent
      · exact .named port hvalid
    rcases haddress with ⟨hclosed, rfl⟩ | ⟨hwhole, hbare, rfl⟩
    · exact .bracketed hpresent hclosed hafter
    · have hhead : (host ++ rest).head? = host.head? := List.head?_append_of_ne_nil _ hpresent
      exact .plain hpresent hwhole (hhead ▸ hpath) (hhead ▸ hbare) hafter

theorem parse_eq_ok : parse address = .ok endpoint ↔ Names address endpoint := by
  rw [show parse address = .ok endpoint ↔ read address = .ok endpoint by
    unfold parse
    cases read address <;> simp]
  exact ⟨names_of_read, read_of_names⟩

/-- An address parses exactly if it is in the grammar, to the endpoint that it names there, and every other
text is an invalid address. In lower case the letters A to Z are the letters a to z, and every other byte
stays as it is. -/
theorem addresses_by_grammar (address : Bytes) :
    (∀ endpoint, parse address = .ok endpoint ↔ Names address endpoint) ∧
    ((parse address).is .invalidAddress = true ↔ ∀ endpoint, ¬ Names address endpoint) ∧
    Bytes.capitals.map Bytes.lower = ascii "abcdefghijklmnopqrstuvwxyz" ∧
    ∀ c ∉ Bytes.capitals, Bytes.lower c = c := by
  refine ⟨fun endpoint => parse_eq_ok, ?_, rfl, fun c => Bytes.lower_of_not_mem⟩
  simp only [← parse_eq_ok]
  unfold parse
  cases read address <;> simp [Answer.is, AddressFault.failure]

end Endpoint

end CacheClient
