import CacheClient.Proofs.Calls
import CacheClient.Proofs.Creation
import Mathlib

namespace CacheClient

namespace Bytes

theorem sort_eq_insertionSort (texts : List Bytes) : sort texts = texts.insertionSort (· ≤ ·) :=
  (eq_sort (List.perm_insertionSort _ texts) (List.pairwise_insertionSort _ texts)).symm

theorem map_orderedInsert {f : Bytes → α} {text : Bytes} {texts : List Bytes}
    (h : ∀ other ∈ texts, f text ≠ f other → text ≤ other) :
    (texts.orderedInsert (· ≤ ·) text).map f = f text :: texts.map f := by
  induction texts with
  | nil => rfl
  | cons first texts ih =>
    rw [List.orderedInsert_cons]
    split
    · rfl
    · rename_i hbehind
      -- What the text goes behind looks the same as the text.
      have hsame : f text = f first := by
        by_contra hne
        exact hbehind (h first List.mem_cons_self hne)
      have hrest := ih fun other hm => h other (List.mem_cons_of_mem _ hm)
      rw [List.map_cons, List.map_cons, hrest, hsame]

theorem map_sort {f : Bytes → α} {texts : List Bytes}
    (h : texts.Pairwise fun text other => f text ≠ f other → text ≤ other) :
    (sort texts).map f = texts.map f := by
  rw [sort_eq_insertionSort]
  induction texts with
  | nil => rfl
  | cons text texts ih =>
    obtain ⟨hfirst, hrest⟩ := List.pairwise_cons.mp h
    rw [List.insertionSort_cons, map_orderedInsert, ih hrest, List.map_cons]
    intro other hm
    exact hfirst other ((List.mem_insertionSort _).mp hm)

end Bytes

namespace Endpoint

/-- The addresses name the same endpoint. -/
def Alike (address other : Bytes) : Prop :=
  ∃ endpoint, parse address = .ok endpoint ∧ parse other = .ok endpoint

/-- What addresses name, in the byte order of the addresses. -/
def lineup (addresses : List Bytes) : List (Answer Endpoint) :=
  (Bytes.sort addresses).map parse

theorem length_lineup (addresses : List Bytes) : (lineup addresses).length = addresses.length := by
  rw [lineup, List.length_map, (Bytes.sort_perm addresses).length_eq]

theorem lineup_respelled {spellings : List (Bytes × Bytes)}
    (alike : ∀ pair ∈ spellings, Alike pair.1 pair.2)
    (ordered : ∀ pair ∈ spellings, ∀ other ∈ spellings, ¬Alike pair.1 other.1 →
      pair.1 < other.1 → pair.2 < other.2) :
    lineup (spellings.map Prod.fst) = lineup (spellings.map Prod.snd) := by
  -- the pairs in the order of their first spellings: the second ones are then in order too, save among those alike
  obtain ⟨sorted, hp, hs⟩ : ∃ sorted : List (Bytes × Bytes), sorted.Perm spellings ∧
      sorted.Pairwise fun pair other => pair.1 ≤ other.1 := by
    refine ⟨spellings.mergeSort fun pair other => decide (pair.1 ≤ other.1),
      List.mergeSort_perm .., ?_⟩
    simpa using @List.pairwise_mergeSort (Bytes × Bytes) (fun pair other => decide (pair.1 ≤ other.1))
      (fun _ _ _ h h' => by simpa using List.le_trans (by simpa using h) (by simpa using h'))
      (fun pair other => by simpa using List.le_total pair.1 other.1) spellings
  have hfirst : Bytes.sort (spellings.map Prod.fst) = sorted.map Prod.fst :=
    (Bytes.eq_sort (hp.map Prod.fst) (List.pairwise_map.mpr hs)).symm
  have hsecond : lineup (spellings.map Prod.snd) = (sorted.map Prod.snd).map parse := by
    rw [lineup, ← Bytes.sort_congr (hp.map Prod.snd)]
    apply Bytes.map_sort
    rw [List.pairwise_map]
    apply hs.imp_of_mem
    intro pair other hm hm' hle hne
    obtain ⟨endpoint, hpair, hpair'⟩ := alike pair (hp.mem_iff.mp hm)
    obtain ⟨endpoint', hother, hother'⟩ := alike other (hp.mem_iff.mp hm')
    have hdiffer : ¬Alike pair.1 other.1 := by
      rintro ⟨both, h, h'⟩
      rw [hpair', hother', ← hpair, ← hother, h, h'] at hne
      exact hne rfl
    have hlt : pair.1 < other.1 := by
      by_contra hnot
      have hsame := List.le_antisymm hle (List.not_lt.mp hnot)
      exact hdiffer ⟨endpoint, hpair, hsame ▸ hpair⟩
    exact List.le_of_lt (ordered pair (hp.mem_iff.mp hm) other (hp.mem_iff.mp hm') hdiffer hlt)
  rw [hsecond, lineup, hfirst, List.map_map, List.map_map]
  apply List.map_congr_left
  intro pair hm
  obtain ⟨endpoint, h, h'⟩ := alike pair (hp.mem_iff.mp hm)
  exact h.trans h'.symm

end Endpoint

namespace Shard

theorem index_lt_fold_size (key : Bytes) (servers : Nat) : index key servers < 256 := by
  unfold index
  split
  · decide
  · exact Nat.lt_of_le_of_lt (Nat.mod_le _ _) (fold key).toNat_lt

/-- A key of printable bytes for every value that bytes can fold into. -/
def keyFor (value : UInt8) : Bytes :=
  if Bytes.isBlank (37 ^^^ value) then [33, 37 ^^^ value ^^^ 33] else [37 ^^^ value]

theorem fold_keyFor (value : UInt8) : fold (keyFor value) = value := by
  have hcancel (c : UInt8) : c ^^^ (c ^^^ value) = value := by
    rw [← UInt8.xor_assoc, UInt8.xor_self, UInt8.zero_xor]
  unfold keyFor
  split
  · calc 37 ^^^ 33 ^^^ (37 ^^^ value ^^^ 33)
      _ = 37 ^^^ (37 ^^^ value) ^^^ (33 ^^^ 33) := by ac_rfl
      _ = value := by rw [hcancel, UInt8.xor_self, UInt8.xor_zero]
  · exact hcancel 37

theorem blank_moved : ∀ bits : BitVec 8, Bytes.isBlank ⟨bits⟩ = true →
    Bytes.isBlank (⟨bits⟩ ^^^ 33) = false := by
  decide

theorem keyFor_valid (value : UInt8) : Key.isValid (keyFor value) = true := by
  unfold keyFor
  split
  · rename_i hblank
    have hfirst : Bytes.isBlank 33 = false := rfl
    have hmoved : Bytes.isBlank (37 ^^^ value ^^^ 33) = false := blank_moved _ hblank
    simp [Key.isValid, Key.longest, hfirst, hmoved]
  · rename_i hfit
    simp [Key.isValid, Key.longest, hfit]

theorem index_reaches {i servers : Nat} (hi : i < 256) (hs : i < servers) :
    ∃ key, Key.isValid key = true ∧ index key servers = i := by
  refine ⟨keyFor (UInt8.ofNat i), keyFor_valid _, ?_⟩
  unfold index
  split
  · omega
  · rw [fold_keyFor, UInt8.toNat_ofNat_of_lt' hi, Nat.mod_eq_of_lt hs]

end Shard

namespace Router

def destination (key : Bytes) (router : Router) : Endpoint :=
  (router.owner key).endpoint

variable {router : Router}

theorem create_texts {spellings : List α} (listed : spellings ≠ []) (text : α → Bytes)
    (hv : ∀ spelling ∈ spellings, ∃ endpoint, Endpoint.parse (text spelling) = .ok endpoint)
    (options : DialOptions) (idle : Int) :
    ∃ router, create (spellings.map text) options idle = .ok router := by
  apply create_ok (by simpa using listed)
  intro address hm
  obtain ⟨spelling, hs, rfl⟩ := List.mem_map.mp hm
  exact hv spelling hs

theorem create_size (hc : create addresses options idle = .ok router) :
    router.size = addresses.length := by
  obtain ⟨endpoints, hline, hpools⟩ := create_endpoints hc
  have hlength := congrArg List.length hline
  rw [List.length_map, List.length_map, (Bytes.sort_perm addresses).length_eq] at hlength
  rw [size, hpools, List.length_map, hlength]

/-- A key is sent to what the address at its place in the line names. -/
theorem create_destination (hc : create addresses options idle = .ok router) (key : Bytes) :
    (Endpoint.lineup addresses)[router.pick key]? = some (.ok (router.destination key)) := by
  obtain ⟨endpoints, hline, hpools⟩ := create_endpoints hc
  have howner := router.owner_getElem? key
  rw [hpools, List.getElem?_map] at howner
  obtain ⟨endpoint, hat, hstart⟩ := Option.map_eq_some_iff.mp howner
  rw [Endpoint.lineup, hline, List.getElem?_map, hat, destination, ← hstart]
  rfl

end Router

/-- Two lists of addresses of which each names the same endpoints as the other, one by one, both make a
router. Each sends a key to what the address at the key's place names, in the byte order of its own
addresses. All keys go to the same endpoint in both as soon as valid keys do, which is so exactly if the two
lines of servers name the same at each of the first 256 places; as they do if respelling keeps the order of
addresses for different endpoints. -/
theorem routing_follows_lineup {spellings : List (Bytes × Bytes)} (listed : spellings ≠ [])
    (alike : ∀ pair ∈ spellings, Endpoint.Alike pair.1 pair.2) (options others : DialOptions)
    (idle room : Int) :
    let firsts := spellings.map Prod.fst
    let seconds := spellings.map Prod.snd
    ∃ router other, Router.create firsts options idle = .ok router ∧
      Router.create seconds others room = .ok other ∧
      (∀ key, router.pick key = other.pick key ∧
        (Endpoint.lineup firsts)[router.pick key]? = some (.ok (router.destination key)) ∧
        (Endpoint.lineup seconds)[other.pick key]? = some (.ok (other.destination key))) ∧
      ((∀ key, Key.isValid key = true → router.destination key = other.destination key) →
        ∀ i < 256, (Endpoint.lineup firsts)[i]? = (Endpoint.lineup seconds)[i]?) ∧
      ((∀ i < 256, (Endpoint.lineup firsts)[i]? = (Endpoint.lineup seconds)[i]?) →
        ∀ key, router.destination key = other.destination key) ∧
      ((∀ pair ∈ spellings, ∀ neighbour ∈ spellings, ¬Endpoint.Alike pair.1 neighbour.1 →
          pair.1 < neighbour.1 → pair.2 < neighbour.2) →
        ∀ key, router.destination key = other.destination key) := by
  intro firsts seconds
  obtain ⟨router, hrouter⟩ := Router.create_texts listed Prod.fst
    (fun pair hm => (alike pair hm).imp fun _ h => h.1) options idle
  obtain ⟨other, hother⟩ := Router.create_texts listed Prod.snd
    (fun pair hm => (alike pair hm).imp fun _ h => h.2) others room
  have hsize : router.size = other.size := by
    rw [Router.create_size hrouter, Router.create_size hother, List.length_map, List.length_map]
  have hpick (key : Bytes) : router.pick key = other.pick key := by
    rw [Router.pick, Router.pick, hsize]
  have hfirst := Router.create_destination hrouter
  have hsecond := Router.create_destination hother
  have hagree (key : Bytes) (hat : (Endpoint.lineup firsts)[router.pick key]? =
      (Endpoint.lineup seconds)[router.pick key]?) :
      router.destination key = other.destination key := by
    rw [hfirst, hpick, hsecond] at hat
    exact Except.ok.inj (Option.some.inj hat)
  refine ⟨router, other, hrouter, hother, fun key => ⟨hpick key, hfirst key, hsecond key⟩, ?_, ?_, ?_⟩
  -- every place has a key that shows where it leads
  · intro hsame i hi
    by_cases hs : i < router.size
    · obtain ⟨key, hvalid, hkey⟩ := Shard.index_reaches hi hs
      have hat := hfirst key
      rw [hsame key hvalid, ← hsecond key, ← hpick key] at hat
      rwa [← hkey]
    · have hlength : router.size ≤ i := Nat.le_of_not_lt hs
      rw [List.getElem?_eq_none, List.getElem?_eq_none]
      · rwa [Endpoint.length_lineup, ← Router.create_size hother, ← hsize]
      · rwa [Endpoint.length_lineup, ← Router.create_size hrouter]
  · intro hlines key
    exact hagree key (hlines _ (Shard.index_lt_fold_size key _))
  · intro hordered key
    apply hagree
    rw [Endpoint.lineup_respelled alike hordered]

/-- Brackets, the port and the case of a letter, but no change of order. -/
theorem respelled_in_order :
    let spellings := [(ascii "a", ascii "a:11211"), (ascii "[b]", ascii "B")]
    let options : DialOptions := ⟨5000, 0, .system⟩
    (∀ pair ∈ spellings, Endpoint.Alike pair.1 pair.2) ∧
      ∃ router other, Router.create [ascii "a", ascii "[b]"] options 1 = .ok router ∧
        Router.create [ascii "a:11211", ascii "B"] options 1 = .ok other ∧
        ∀ key, router.destination key = other.destination key := by
  intro spellings options
  have halike : ∀ pair ∈ spellings, Endpoint.Alike pair.1 pair.2 := by
    simp only [spellings, List.forall_mem_cons]
    exact ⟨⟨.tcp (ascii "a") (ascii "11211"), rfl, rfl⟩,
      ⟨.tcp (ascii "b") (ascii "11211"), rfl, rfl⟩, by simp⟩
  have hordered : ∀ pair ∈ spellings, ∀ neighbour ∈ spellings,
      pair.1 < neighbour.1 → pair.2 < neighbour.2 := by
    decide
  obtain ⟨router, other, hrouter, hother, -, -, -, hsame⟩ :=
    routing_follows_lineup (List.cons_ne_nil _ _) halike options options 1 1
  exact ⟨halike, router, other, hrouter, hother,
    hsame fun pair hp neighbour hn _ => hordered pair hp neighbour hn⟩

/-- A capital letter can move a server to another place, and its keys to another server. -/
theorem capital_moves_keys :
    let options : DialOptions := ⟨5000, 0, .system⟩
    Endpoint.Alike (ascii "a") (ascii "a") ∧ Endpoint.Alike (ascii "b") (ascii "B") ∧
      ∃ router other, Router.create [ascii "a", ascii "b"] options 1 = .ok router ∧
        Router.create [ascii "a", ascii "B"] options 1 = .ok other ∧
        router.destination (ascii "a") = .tcp (ascii "a") (ascii "11211") ∧
        other.destination (ascii "a") = .tcp (ascii "b") (ascii "11211") := by
  intro options
  refine ⟨⟨_, rfl, rfl⟩, ⟨_, rfl, rfl⟩, ?_⟩
  have hkept : (Router.create [ascii "a", ascii "b"] options 1).map (·.destination (ascii "a")) =
      .ok (.tcp (ascii "a") (ascii "11211")) := by
    cbv
  have hmoved : (Router.create [ascii "a", ascii "B"] options 1).map (·.destination (ascii "a")) =
      .ok (.tcp (ascii "b") (ascii "11211")) := by
    cbv
  obtain ⟨router, hrouter, hend⟩ := Answer.map_ok hkept
  obtain ⟨other, hother, hend'⟩ := Answer.map_ok hmoved
  exact ⟨router, other, hrouter, hother, hend, hend'⟩

end CacheClient
