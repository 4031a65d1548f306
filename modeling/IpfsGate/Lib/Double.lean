import Mathlib.Data.Nat.Log
import Mathlib.Order.WithBot
import Mathlib.Algebra.Order.Group.Nat
import Mathlib.Tactic.Linarith

/-!
# Natural numbers as doubles

A double has 53 bits. A natural number that has more is rounded to the nearest one, ties to the
even one, and is infinite once it is past the largest. Below `2 ^ 53` nothing is lost, so a
comparison with a number below that bound is not affected by the rounding.
-/
namespace IpfsGate.Lib.Double

/-- The first natural number whose successor is not a double. -/
def exactBound : Nat := 2 ^ 53

/-- A number of more than 53 bits, cut to its first 53 and rounded by the rest. -/
def rounded (n : Nat) : Nat :=
  let unit := 2 ^ (Nat.log 2 n - 52)
  let rest := 2 * (n % unit)
  if unit < rest ∨ (rest = unit ∧ n / unit % 2 = 1) then (n / unit + 1) * unit
  else n / unit * unit

/-- The double nearest to a natural number. -/
def ofNat (n : Nat) : WithTop Nat :=
  if n < exactBound then n
  else if 2 ^ 1024 ≤ rounded n then ⊤
  else rounded n

theorem ofNat_of_lt {n : Nat} (h : n < exactBound) : ofNat n = n := if_pos h

/-- Rounding does not go below the bound. -/
theorem exactBound_le_rounded {n : Nat} (h : exactBound ≤ n) : exactBound ≤ rounded n := by
  have hn : n ≠ 0 := by
    intro h0
    rw [h0] at h
    exact absurd h (by decide)
  have hlog : 53 ≤ Nat.log 2 n := (Nat.le_log_iff_pow_le (by decide) hn).mpr h
  obtain ⟨e, he⟩ : ∃ e, Nat.log 2 n - 52 = e + 1 := ⟨Nat.log 2 n - 53, by omega⟩
  have hpow : 2 ^ (e + 53) ≤ n := by
    have hle := Nat.pow_log_le_self 2 hn
    have hexp : e + 53 = Nat.log 2 n := by omega
    rw [hexp]
    exact hle
  have hhigh : 2 ^ 52 ≤ n / 2 ^ (e + 1) := by
    rw [Nat.le_div_iff_mul_le (by positivity), ← pow_add]
    have hexp : 52 + (e + 1) = e + 53 := by omega
    rw [hexp]
    exact hpow
  have hunit : 2 ≤ 2 ^ (e + 1) := by
    rw [pow_succ]
    have hone := Nat.one_le_two_pow (n := e)
    omega
  have hcut : exactBound ≤ n / 2 ^ (e + 1) * 2 ^ (e + 1) := by
    calc exactBound = 2 ^ 52 * 2 := by decide
      _ ≤ n / 2 ^ (e + 1) * 2 ^ (e + 1) := Nat.mul_le_mul hhigh hunit
  unfold rounded
  rw [he]
  dsimp only
  split
  · rw [Nat.add_mul]
    omega
  · exact hcut

/-- A comparison with a number that is exact is not affected. -/
theorem le_ofNat_iff {m n : Nat} (hm : m ≤ exactBound) : (m : WithTop Nat) ≤ ofNat n ↔ m ≤ n := by
  unfold ofNat
  by_cases hn : n < exactBound
  · rw [if_pos hn]
    exact WithTop.coe_le_coe
  · rw [if_neg hn]
    have hmn : m ≤ n := hm.trans (not_lt.mp hn)
    refine iff_of_true ?_ hmn
    split
    · exact le_top
    · exact WithTop.coe_le_coe.mpr (hm.trans (exactBound_le_rounded (not_lt.mp hn)))

theorem ofNat_lt_iff {m n : Nat} (hm : m ≤ exactBound) : ofNat n < m ↔ n < m := by
  rw [← not_le, le_ofNat_iff hm, not_le]

/-- A double of a natural number is the number itself, or it is not below the bound. -/
theorem ofNat_cases (n : Nat) :
    ofNat n = n ∨ (exactBound ≤ n ∧ ∀ m : Nat, m ≤ exactBound → (m : WithTop Nat) ≤ ofNat n) := by
  by_cases hn : n < exactBound
  · exact Or.inl (ofNat_of_lt hn)
  · exact Or.inr ⟨not_lt.mp hn, fun m hm => (le_ofNat_iff hm).mpr (hm.trans (not_lt.mp hn))⟩

/-- `Math.min(x, m)`. -/
def minNat : WithTop Nat → Nat → Nat
  | ⊤, m => m
  | (n : Nat), m => min n m

/-- `Math.max(0, m - x)`. -/
def subFrom (m : Nat) : WithTop Nat → Nat
  | ⊤ => 0
  | (n : Nat) => m - n

theorem minNat_of_le {m : Nat} {x : WithTop Nat} (h : (m : WithTop Nat) ≤ x) : minNat x m = m := by
  cases x with
  | top => rfl
  | coe n => exact min_eq_right (WithTop.coe_le_coe.mp h)

theorem subFrom_of_le {m : Nat} {x : WithTop Nat} (h : (m : WithTop Nat) ≤ x) :
    subFrom m x = 0 := by
  cases x with
  | top => rfl
  | coe n => exact Nat.sub_eq_zero_of_le (WithTop.coe_le_coe.mp h)

theorem minNat_ofNat {m n : Nat} (hm : m ≤ exactBound) : minNat (ofNat n) m = min n m := by
  rcases ofNat_cases n with hn | ⟨hn, hbound⟩
  · rw [hn]
    rfl
  · rw [minNat_of_le (hbound m hm), min_eq_right (hm.trans hn)]

theorem subFrom_ofNat {m n : Nat} (hm : m ≤ exactBound) : subFrom m (ofNat n) = m - n := by
  rcases ofNat_cases n with hn | ⟨hn, hbound⟩
  · rw [hn]
    rfl
  · rw [subFrom_of_le (hbound m hm), Nat.sub_eq_zero_of_le (hm.trans hn)]

theorem ofNat_eq_zero_iff {n : Nat} : ofNat n = 0 ↔ n = 0 := by
  rcases ofNat_cases n with hn | ⟨hn, hbound⟩
  · rw [hn]
    exact WithTop.coe_eq_zero
  · have hone : (1 : Nat) ≤ exactBound := by decide
    refine iff_of_false (fun h => ?_) (fun h => ?_)
    · have hle := hbound 1 hone
      rw [h] at hle
      exact absurd (WithTop.coe_le_coe.mp hle) (by decide)
    · omega

end IpfsGate.Lib.Double
