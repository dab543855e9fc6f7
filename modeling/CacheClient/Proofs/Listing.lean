import CacheClient.Proofs.Creation
import CacheClient.Proofs.Engine
import CacheClient.Script
import Mathlib

namespace CacheClient

theorem Endpoint.parse_error_kind {failure : Failure} (h : parse address = .error failure) :
    failure.kind = .invalidAddress := by
  unfold parse at h
  split at h
  · cases h
  · cases h
    rfl

theorem mapM_error {f : α → Answer β} {xs : List α} {failure : Failure}
    (h : xs.mapM f = .error failure) :
    ∃ before x after, xs = before ++ x :: after ∧ f x = .error failure ∧
      ∀ y ∈ before, ∃ z, f y = .ok z := by
  induction xs with
  | nil => cases h
  | cons x xs ih =>
    rw [List.mapM_cons] at h
    cases hx : f x with
    | error other =>
      obtain rfl : other = failure := by simpa [hx, bind, Except.bind] using h
      exact ⟨[], x, xs, rfl, hx, by simp⟩
    | ok y =>
      cases hxs : xs.mapM f with
      | ok rest => simp [hx, hxs, bind, Except.bind, pure, Except.pure] at h
      | error other =>
        obtain rfl : other = failure := by simpa [hx, hxs, bind, Except.bind] using h
        obtain ⟨before, first, after, rfl, hfirst, hbefore⟩ := ih hxs
        refine ⟨x :: before, first, after, rfl, hfirst, ?_⟩
        rw [List.forall_mem_cons]
        exact ⟨⟨y, hx⟩, hbefore⟩

namespace Router

theorem create_congr (hp : addresses.Perm listed) (options : DialOptions) (idle : Int) :
    create addresses options idle = create listed options idle := by
  unfold create
  rw [show addresses.mergeSort (fun a b => decide (a ≤ b)) =
    listed.mergeSort (fun a b => decide (a ≤ b)) from Bytes.sort_congr hp]

/-- What is refused is the smallest address that does not parse. -/
theorem create_refuses {failure : Failure} (hne : addresses ≠ [])
    (hc : create addresses options idle = .error failure) :
    ∃ address ∈ addresses, Endpoint.parse address = .error failure ∧
      ∀ other ∈ addresses, (∃ fault, Endpoint.parse other = .error fault) → address ≤ other := by
  have hpools := create_eq hne options idle
  rw [hc] at hpools
  cases hparse : (Bytes.sort addresses).mapM Endpoint.parse with
  | ok endpoints =>
    rw [hparse] at hpools
    cases hpools
  | error fault =>
    rw [hparse] at hpools
    obtain rfl := Except.error.inj hpools
    obtain ⟨before, address, after, hs, haddress, hbefore⟩ := mapM_error hparse
    have hmem (other : Bytes) : other ∈ addresses ↔ other ∈ before ++ address :: after := by
      rw [← hs]
      exact (Bytes.sort_perm addresses).mem_iff.symm
    -- all that stand before the first bad address in the sorted list are good, and the others are larger
    have hsorted := Bytes.sort_sorted addresses
    rw [hs, List.pairwise_append, List.pairwise_cons] at hsorted
    refine ⟨address, (hmem address).mpr (by simp), haddress, ?_⟩
    rintro other hother ⟨fault, hfault⟩
    rcases List.mem_append.mp ((hmem other).mp hother) with hm | hm
    · obtain ⟨endpoint, hok⟩ := hbefore other hm
      rw [hok] at hfault
      cases hfault
    · rcases List.mem_cons.mp hm with rfl | hm
      · exact List.le_refl _
      · exact hsorted.2.1.1 other hm

/-- What can be asked of a router, and what its users do with the network meanwhile. -/
inductive Ask (σ : Type) where
  | get (key : Bytes)
  | release (pool : Nat) (connection : Option Connection)
  | closeAll
  | elsewhere (change : Wire σ → Wire σ)

end Router

namespace Engine

variable [Network σ]

def ask : Router.Ask σ → Engine σ → Option (Answer Loan) × Engine σ
  | .get key, ⟨router, wire⟩ =>
    let (loan, router, wire) := router.borrow key wire
    (some loan, ⟨router, wire⟩)
  | .release pool connection, ⟨router, wire⟩ =>
    let (router, wire) := router.release pool connection wire
    (none, ⟨router, wire⟩)
  | .closeAll, engine => (none, engine.close)
  | .elsewhere change, ⟨router, wire⟩ => (none, ⟨router, change wire⟩)

/-- What was told after each thing asked, and how pools and network stood then. -/
def record : List (Router.Ask σ) → Engine σ → List (Option (Answer Loan) × Engine σ)
  | [], _ => []
  | ask :: asks, engine => engine.ask ask :: record asks (engine.ask ask).2

end Engine

/-- The order in which addresses are listed does not matter. Either both lists are refused for the same
reason, which is that there is no address, or else the smallest address that does not parse; or each of
them makes a router with one pool for every address, and whatever is asked of the two, they tell the same,
their pools stand the same, and the network has been asked the same, after each thing asked. -/
theorem listing_order_irrelevant {addresses listed : List Bytes} (same : listed.Perm addresses)
    (options : DialOptions) (idle : Int) :
    (∃ failure, Router.create addresses options idle = .error failure ∧
      Router.create listed options idle = .error failure ∧ failure.kind = .invalidAddress ∧
      (addresses ≠ [] → ∃ address ∈ addresses, Endpoint.parse address = .error failure ∧
        ∀ other ∈ addresses, (∃ fault, Endpoint.parse other = .error fault) → address ≤ other)) ∨
    ∃ router other, Router.create addresses options idle = .ok router ∧
      Router.create listed options idle = .ok other ∧
      (∃ endpoints : List Endpoint, (addresses.map Endpoint.parse).Perm (endpoints.map .ok) ∧
        router.pools = endpoints.map (Pool.start · options idle)) ∧
      other.size = listed.length ∧
      ∀ (σ : Type) [Network σ] (network : σ) (asks : List (Router.Ask σ)),
        (Engine.mk router (Wire.start network)).record asks =
          (Engine.mk other (Wire.start network)).record asks := by
  have hsame := Router.create_congr same options idle
  rw [hsame]
  cases hc : Router.create addresses options idle with
  | error failure =>
    refine .inl ⟨failure, rfl, rfl, ?_, fun hne => Router.create_refuses hne hc⟩
    by_cases hne : addresses = []
    · subst hne
      rw [Router.create_nil] at hc
      cases hc
      rfl
    · obtain ⟨address, -, hparse, -⟩ := Router.create_refuses hne hc
      exact Endpoint.parse_error_kind hparse
  | ok router =>
    obtain ⟨endpoints, hendpoints, hpools⟩ := Router.create_endpoints hc
    have hparsed : (addresses.map Endpoint.parse).Perm (endpoints.map .ok) := by
      rw [← hendpoints]
      exact (Bytes.sort_perm addresses).symm.map Endpoint.parse
    refine .inr ⟨router, router, rfl, rfl, ⟨endpoints, hparsed, hpools⟩, ?_, fun _ _ _ _ => rfl⟩
    have hlength := hparsed.length_eq
    rw [List.length_map, List.length_map] at hlength
    rw [Router.size, hpools, List.length_map, ← hlength, same.length_eq]

/-- A server listed twice has two pools wherever it is listed; and of two addresses without a meaning the
smaller is refused, though the other is listed first. -/
theorem listings_compared :
    let options : DialOptions := ⟨5000, 0, .system⟩
    (∃ router other, Router.create [ascii "a", ascii "b", ascii "b"] options 1 = .ok router ∧
      Router.create [ascii "b", ascii "a", ascii "b"] options 1 = .ok other ∧ other.size = 3 ∧
      ∀ (asks : List (Router.Ask Script)),
        (Engine.mk router (Wire.start {})).record asks =
          (Engine.mk other (Wire.start {})).record asks) ∧
    Router.create [ascii "a", ascii "b:0", ascii "c:0"] options 1 =
      Router.create [ascii "c:0", ascii "b:0", ascii "a"] options 1 ∧
    Router.create [ascii "c:0", ascii "b:0", ascii "a"] options 1 =
      .error (Endpoint.AddressFault.invalidPort.failure (ascii "b:0")) := by
  intro options
  have hmoved : [ascii "b", ascii "a", ascii "b"].Perm [ascii "a", ascii "b", ascii "b"] := by decide
  have hreversed : [ascii "c:0", ascii "b:0", ascii "a"].Perm
      [ascii "a", ascii "b:0", ascii "c:0"] := by decide
  have hmade : (Router.create [ascii "a", ascii "b", ascii "b"] options 1).toOption.isSome = true := by
    cbv
  have hrefused : Router.create [ascii "c:0", ascii "b:0", ascii "a"] options 1 =
      .error (Endpoint.AddressFault.invalidPort.failure (ascii "b:0")) := by
    cbv
  refine ⟨?_, ?_, hrefused⟩
  · rcases listing_order_irrelevant hmoved options 1 with ⟨failure, hf, -⟩ | ⟨router, other, hr, ho, -,
      hsize, hrecord⟩
    · rw [hf] at hmade
      cases hmade
    · exact ⟨router, other, hr, ho, hsize, hrecord Script {}⟩
  · rcases listing_order_irrelevant hreversed options 1 with ⟨failure, hf, hf', -⟩ | ⟨router, other, -,
      ho, -⟩
    · rw [hf, hf']
    · rw [hrefused] at ho
      cases ho

end CacheClient
