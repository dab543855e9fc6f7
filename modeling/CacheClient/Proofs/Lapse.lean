import CacheClient.Proofs.Refusals
import Mathlib

namespace CacheClient

namespace Expiry

/-- The second in which a server lets an item lapse, `now` being the current one: never for zero, and at
once for a negative number; up to thirty days it counts from now, and a larger number is a point in time. -/
def lapse (now expiry : Int) : WithTop Int :=
  if expiry = 0 then ⊤
  else if expiry ≤ 2592000 then (now + max expiry 0 : Int)
  else expiry

/-- The second in which an item is to lapse that is stored at `now` for `ttl` nanoseconds. -/
def asked (ttl now : Int) : WithTop Int :=
  if ttl = 0 then ⊤ else (now / 1000000000 + ttl / 1000000000 : Int)

/-- How many nanoseconds an item is to live: zero is for ever. -/
def span (ttl : Int64) : WithTop Int :=
  if ttl = 0 then ⊤ else ttl.toInt

/-- The expiry for a time to live, in integers without a bound. -/
def inFull (ttl now : Int) : Int :=
  if 2592000 < ttl / 1000000000 then now / 1000000000 + ttl / 1000000000 else ttl / 1000000000

variable {ttl now : Int64}

theorem toInt_eq_zero : ttl.toInt = 0 ↔ ttl = 0 :=
  Int64.toInt_inj (y := 0)

theorem allowed_iff : Allowed ttl ↔ ttl = 0 ∨ 1000000000 ≤ ttl.toInt :=
  or_congr Iff.rfl Int64.le_iff_toInt_le

theorem toInt_div_second {t : Int64} (ht : 0 ≤ t.toInt) : (t / second).toInt = t.toInt / 1000000000 := by
  rw [Int64.toInt_div_of_ne_right _ _ (by decide), show second.toInt = 1000000000 from rfl,
    Int.tdiv_eq_ediv_of_nonneg ht]

theorem toInt_add_seconds {a b : Int64} (ha : 0 ≤ a.toInt) (hb : 0 ≤ b.toInt) :
    (a / second + b / second).toInt = a.toInt / 1000000000 + b.toInt / 1000000000 := by
  have := a.toInt_lt
  have := b.toInt_lt
  rw [Int64.toInt_add, toInt_div_second ha, toInt_div_second hb]
  exact Int.bmod_eq_of_le (by omega) (by omega)

theorem seconds_exact (allowed : Allowed ttl) (epoch : 0 ≤ now.toInt) :
    ∃ expiry, seconds ttl now = .ok expiry ∧ expiry.toInt = inFull ttl.toInt now.toInt := by
  rcases allowed with rfl | hlong
  · exact ⟨0, rfl, rfl⟩
  · have hsecond : 1000000000 ≤ ttl.toInt := Int64.le_iff_toInt_le.mp hlong
    have hpos : 0 ≤ ttl.toInt := by omega
    have hne : ttl ≠ 0 := by
      rintro rfl
      exact absurd hsecond (by decide)
    have hmonth : longestRelative < ttl / second ↔ 2592000 < ttl.toInt / 1000000000 := by
      rw [Int64.lt_iff_toInt_lt, toInt_div_second hpos]
      rfl
    simp only [seconds, if_neg hne, if_neg (Int64.not_lt.mpr hlong), hmonth, inFull]
    split
    · exact ⟨_, rfl, toInt_add_seconds epoch hpos⟩
    · exact ⟨_, rfl, toInt_div_second hpos⟩

/-- Whichever way the expiry is put, the server lets the item lapse when it is to. -/
theorem lapse_inFull {ttl now : Int} (allowed : ttl = 0 ∨ 1000000000 ≤ ttl) (epoch : 0 ≤ now) :
    lapse (now / 1000000000) (inFull ttl now) = asked ttl now := by
  rcases allowed with rfl | hlong
  · rfl
  · have hwhole : 0 < ttl / 1000000000 := by omega
    rw [asked, if_neg (by omega), inFull]
    split
    -- The clock is not before the epoch, so a point in time is beyond thirty days as well.
    · rw [lapse, if_neg (by omega), if_neg (by omega)]
    · rw [lapse, if_neg (by omega), if_pos (by omega), max_eq_left (by omega)]

theorem asked_eq_top {ttl now : Int} : asked ttl now = ⊤ ↔ ttl = 0 := by
  unfold asked
  split <;> simp [*]

theorem asked_mono {shorter : Int64} (now : Int) (h : span shorter ≤ span ttl) :
    asked shorter.toInt now ≤ asked ttl.toInt now := by
  by_cases hever : ttl = 0
  · rw [asked_eq_top.mpr (toInt_eq_zero.mpr hever)]
    exact le_top
  · rw [span, span, if_neg hever] at h
    have hends : shorter ≠ 0 := by
      rintro rfl
      exact absurd h (by simp)
    rw [if_neg hends, WithTop.coe_le_coe] at h
    rw [asked, asked, if_neg (toInt_eq_zero.not.mpr hever), if_neg (toInt_eq_zero.not.mpr hends),
      WithTop.coe_le_coe]
    omega

theorem allowed_of_ok {expiry : Int64} (h : seconds ttl now = .ok expiry) : Allowed ttl := by
  by_contra hnot
  have hf := seconds_failure ttl now
  rw [h, Failure.unless, if_neg hnot] at hf
  cases hf

theorem seconds_is_invalid (ttl now : Int64) :
    (seconds ttl now).is .invalidExpiration = true ↔ ¬ Allowed ttl := by
  have hf := seconds_failure ttl now
  by_cases ha : Allowed ttl
  · obtain ⟨expiry, hs⟩ := seconds_ok ha now
    simp [hs, ha, Answer.is]
  · rw [Failure.unless, if_neg ha] at hf
    simp [Answer.eq_of_failure hf, ha, Answer.is, refused]

theorem lapse_seconds {expiry : Int64} (h : seconds ttl now = .ok expiry) (epoch : 0 ≤ now.toInt) :
    lapse (now.toInt / 1000000000) expiry.toInt = asked ttl.toInt now.toInt := by
  have ha := allowed_of_ok h
  obtain ⟨exact, hs, he⟩ := seconds_exact ha epoch
  obtain rfl := Except.ok.inj (hs.symm.trans h)
  have hlong : ttl.toInt = 0 ∨ 1000000000 ≤ ttl.toInt :=
    (allowed_iff.mp ha).imp_left toInt_eq_zero.mpr
  rw [he, lapse_inFull hlong epoch]

/-- A time to live is refused exactly if it is not zero and below a second. Else its expiry is the one
that integers without a bound give, and with it a server lets the item lapse in the second that is asked
for; which is never only if the time to live is zero. The server takes the expiry for a point in time
exactly if it is meant for one. An item that is to live longer does not lapse earlier. -/
theorem lapses_as_asked (ttl now : Int64) (epoch : 0 ≤ now) :
    let current := now.toInt / 1000000000
    ((seconds ttl now).is .invalidExpiration = true ↔ ttl ≠ 0 ∧ ttl.toInt < 1000000000) ∧
    (¬ (ttl ≠ 0 ∧ ttl.toInt < 1000000000) → ∃ expiry, seconds ttl now = .ok expiry ∧
      expiry.toInt = inFull ttl.toInt now.toInt ∧
      lapse current expiry.toInt = asked ttl.toInt now.toInt ∧
      (lapse current expiry.toInt = ⊤ ↔ ttl = 0) ∧
      (2592000 < expiry.toInt ↔ 2592000 < ttl.toInt / 1000000000) ∧
      ∀ shorter sooner, span shorter ≤ span ttl → seconds shorter now = .ok sooner →
        lapse current sooner.toInt ≤ lapse current expiry.toInt) := by
  intro current
  have hnow : 0 ≤ now.toInt := Int64.le_iff_toInt_le.mp epoch
  have hallowed : ¬ (ttl ≠ 0 ∧ ttl.toInt < 1000000000) ↔ Allowed ttl := by
    rw [allowed_iff, not_and_or, not_not, Int.not_lt]
  refine ⟨by rw [seconds_is_invalid, ← hallowed, not_not], fun hlong => ?_⟩
  obtain ⟨expiry, hs, hexact⟩ := seconds_exact (hallowed.mp hlong) hnow
  have hlapse : lapse current expiry.toInt = asked ttl.toInt now.toInt := lapse_seconds hs hnow
  refine ⟨expiry, hs, hexact, hlapse, ?_, ?_, ?_⟩
  · rw [hlapse, asked_eq_top, toInt_eq_zero]
  · rw [hexact, inFull]
    split <;> omega
  · intro shorter sooner hshorter hsooner
    have hearly : lapse current sooner.toInt = asked shorter.toInt now.toInt := lapse_seconds hsooner hnow
    rw [hearly, hlapse]
    exact asked_mono _ hshorter

/-- Thirty days and a second and a half make a point in time, thirty days do not, and lapse earlier. -/
theorem month_and_a_second :
    (0 : Int64) ≤ 1700000000250000000 ∧ seconds 2592001500000000 1700000000250000000 = .ok 1702592001 ∧
      lapse 1700000000 1702592001 = (1702592001 : Int) ∧
      lapse 1700000000 2592000 ≤ lapse 1700000000 1702592001 := by
  obtain ⟨-, hkept⟩ := lapses_as_asked 2592001500000000 1700000000250000000 (by decide)
  obtain ⟨expiry, hs, -, hlapse, -, -, hmono⟩ := hkept (by decide)
  obtain rfl : (1702592001 : Int64) = expiry := Except.ok.inj hs
  exact ⟨by decide, hs, hlapse, hmono 2592000000000000 2592000 (by decide) rfl⟩

end Expiry

end CacheClient
