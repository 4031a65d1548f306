import IpfsGate.Lib.Decimal
import Mathlib.Algebra.Order.Field.Power
import Mathlib.Data.Int.Log
import Mathlib.Tactic.FieldSimp
import Mathlib.Tactic.NormNum.Prime

/-!
# The nearest double

A double is a whole number of at most 53 bits times a power of two, and no double is nearer to a
number than the one it is rounded to. That alone tells when two doubles are rounded to the same
amount of a decimal grid.
-/
namespace IpfsGate.Lib

/-- The nearest integer, ties to the even one. -/
def nearestInt (q : ℚ) : Int :=
  let low := ⌊q⌋
  let rest := 2 * (q - low)
  if 1 < rest ∨ (rest = 1 ∧ low % 2 = 1) then low + 1 else low

/-- The nearest double of a number above zero: 53 bits, and none of them below `2 ^ -1074`. -/
def nearestPos (q : ℚ) : Number :=
  let unit : ℚ := 2 ^ max (Int.log 2 q - 52) (-1074)
  Number.ofRat (nearestInt (q / unit) * unit)

def nearest (q : ℚ) : Number :=
  if q = 0 then .fin 0
  else if 0 < q then nearestPos q
  else
    match nearestPos (-q) with
    | .fin r => .fin (-r)
    | _ => .negInf

/-- The product of two doubles. -/
def Number.times : Number → Number → Number
  | fin p, fin q => nearest (p * q)
  | x, y => ofSign (x.sign * y.sign)

/-- No integer is nearer. -/
theorem abs_nearestInt_sub_le (q : ℚ) (j : ℤ) : |(nearestInt q : ℚ) - q| ≤ |j - q| := by
  have hle := Int.floor_le q
  have hlt := Int.lt_floor_add_one q
  -- `j` is at or below the floor, or above it
  have hj : q - ⌊q⌋ ≤ |(j : ℚ) - q| ∨ ⌊q⌋ + 1 - q ≤ |(j : ℚ) - q| := by
    rcases le_or_gt j ⌊q⌋ with h | h
    · left
      have hcast : (j : ℚ) ≤ ⌊q⌋ := by exact_mod_cast h
      rw [abs_sub_comm]
      exact le_trans (by linarith) (le_abs_self _)
    · right
      have hcast : (⌊q⌋ : ℚ) + 1 ≤ j := by exact_mod_cast h
      exact le_trans (by linarith) (le_abs_self _)
  unfold nearestInt
  dsimp only
  split
  · rename_i hup
    have hhalf : 1 ≤ 2 * (q - ⌊q⌋) := by
      rcases hup with h | h
      · exact h.le
      · exact h.1.ge
    push_cast
    rw [abs_of_nonneg (by linarith)]
    rcases hj with h | h
    · linarith
    · exact h
  · rename_i hdown
    have hhalf : 2 * (q - ⌊q⌋) ≤ 1 := not_lt.mp (fun h => hdown (Or.inl h))
    rw [abs_sub_comm, abs_of_nonneg (by linarith)]
    rcases hj with h | h
    · exact h
    · linarith

/-! ## Doubles -/

/-- The places behind the point of the smallest double. -/
def lowBits : Nat := 1074

/-- A finite double, however large its exponent. -/
def IsDouble (z : ℚ) : Prop := ∃ n e : ℤ, -(lowBits : ℤ) ≤ e ∧ |n| ≤ 2 ^ 53 ∧ z = n * 2 ^ e

/-- The distance of the doubles around a number above zero. -/
def unitOf (q : ℚ) : ℚ := 2 ^ max (Int.log 2 q - 52) (-1074)

/-- The double that a number above zero is rounded to, before it is checked for overflow. -/
def rounded (q : ℚ) : ℚ := nearestInt (q / unitOf q) * unitOf q

theorem unitOf_pos (q : ℚ) : 0 < unitOf q := by
  unfold unitOf
  positivity

theorem IsDouble.neg {z : ℚ} (h : IsDouble z) : IsDouble (-z) := by
  obtain ⟨n, e, he, hn, rfl⟩ := h
  exact ⟨-n, e, he, by rwa [abs_neg], by push_cast; ring⟩

theorem isDouble_intCast {n : ℤ} (h : |n| ≤ 2 ^ 53) : IsDouble n :=
  ⟨n, 0, by omega, h, by simp⟩

theorem isDouble_zero : IsDouble 0 := by
  have h := isDouble_intCast (n := 0) (by norm_num)
  rwa [Int.cast_zero] at h

/-- A double is a whole number of the smallest one. -/
theorem IsDouble.whole {z : ℚ} (h : IsDouble z) : ∃ k : ℤ, z * 2 ^ lowBits = k := by
  obtain ⟨n, e, he, _, rfl⟩ := h
  obtain ⟨i, hi⟩ := Int.eq_ofNat_of_zero_le (show 0 ≤ e + lowBits by omega)
  refine ⟨n * 2 ^ i, ?_⟩
  have hpow : (2 : ℚ) ^ e * 2 ^ lowBits = 2 ^ i := by
    rw [← zpow_natCast (2 : ℚ) lowBits, ← zpow_add₀ (by norm_num), ← zpow_natCast (2 : ℚ) i, ← hi]
  rw [mul_assoc, hpow]
  push_cast
  rfl

/-- A double of more than 53 bits is an integer. -/
theorem IsDouble.exists_int {z : ℚ} (h : IsDouble z) (hz : 2 ^ 52 < |z|) : ∃ k : ℤ, z = k := by
  obtain ⟨n, e, _, hn, rfl⟩ := h
  rcases lt_or_ge e 0 with he | he
  · exfalso
    have hn' : |(n : ℚ)| ≤ 2 ^ 53 := by exact_mod_cast hn
    have hpow : (2 : ℚ) ^ e ≤ 2 ^ (-1 : ℤ) := zpow_le_zpow_right₀ (by norm_num) (by omega)
    have hpos : (0 : ℚ) < 2 ^ e := by positivity
    rw [abs_mul, abs_of_pos hpos] at hz
    have hle : |(n : ℚ)| * 2 ^ e ≤ 2 ^ 53 * 2 ^ (-1 : ℤ) :=
      mul_le_mul hn' hpow hpos.le (by positivity)
    norm_num at hle hz
    linarith
  · obtain ⟨i, rfl⟩ := Int.eq_ofNat_of_zero_le he
    exact ⟨n * 2 ^ i, by push_cast; rfl⟩

section Positive

variable {q z : ℚ}

/-- A number has at most 53 bits above its unit. -/
theorem lt_unitOf (q : ℚ) : q < 2 ^ 53 * unitOf q := by
  have hlog : q < 2 ^ (Int.log 2 q + 1) := Int.lt_zpow_succ_log_self (by norm_num) q
  have hexp : (2 : ℚ) ^ (Int.log 2 q + 1) ≤ 2 ^ (53 + max (Int.log 2 q - 52) (-1074)) :=
    zpow_le_zpow_right₀ (by norm_num) (by omega)
  have hsplit : (2 : ℚ) ^ (53 + max (Int.log 2 q - 52) (-1074)) = 2 ^ 53 * unitOf q := by
    rw [zpow_add₀ (by norm_num)]
    rfl
  rw [← hsplit]
  exact lt_of_lt_of_le hlog hexp

/-- A multiple of the unit is not nearer. -/
theorem abs_rounded_sub_le_mul (q : ℚ) (j : ℤ) : |rounded q - q| ≤ |j * unitOf q - q| := by
  have hu := unitOf_pos q
  have hscale : ∀ x : ℚ, |x * unitOf q - q| = |x - q / unitOf q| * unitOf q := by
    intro x
    have hsplit : x * unitOf q - q = (x - q / unitOf q) * unitOf q := by field_simp
    rw [hsplit, abs_mul, abs_of_pos hu]
  unfold rounded
  rw [hscale, hscale]
  exact mul_le_mul_of_nonneg_right (abs_nearestInt_sub_le _ j) hu.le

/-- No double is nearer than the one a number is rounded to. -/
theorem abs_rounded_sub_le (hq : 0 < q) (hz : IsDouble z) : |rounded q - q| ≤ |z - q| := by
  obtain ⟨n, e, he, hn, rfl⟩ := hz
  have hu := unitOf_pos q
  by_cases hlow : max (Int.log 2 q - 52) (-1074) ≤ e
  · -- a double of no smaller unit is a multiple of this one
    obtain ⟨i, hi⟩ := Int.eq_ofNat_of_zero_le (sub_nonneg.mpr hlow)
    have hpow : (2 : ℚ) ^ e = 2 ^ i * unitOf q := by
      unfold unitOf
      rw [← zpow_natCast (2 : ℚ) i, ← hi, ← zpow_add₀ (by norm_num), sub_add_cancel]
    have h := abs_rounded_sub_le_mul q (n * 2 ^ i)
    push_cast at h
    rwa [hpow, ← mul_assoc]
  · -- the others are below the power of two that the number starts with
    have hlowest : (lowBits : ℤ) = 1074 := rfl
    have hexp : max (Int.log 2 q - 52) (-1074) = Int.log 2 q - 52 := by omega
    have hstart : (2 : ℚ) ^ 52 * unitOf q = 2 ^ Int.log 2 q := by
      unfold unitOf
      rw [hexp, ← zpow_natCast (2 : ℚ) 52, ← zpow_add₀ (by norm_num)]
      congr 1
      push_cast
      ring
    have hle : (2 : ℚ) ^ Int.log 2 q ≤ q := Int.zpow_log_le_self (by norm_num) hq
    have hn' : (n : ℚ) ≤ 2 ^ 53 := le_trans (le_abs_self _) (by exact_mod_cast hn)
    have hpos : (0 : ℚ) < 2 ^ e := by positivity
    have hbelow : (n : ℚ) * 2 ^ e ≤ 2 ^ Int.log 2 q := by
      calc (n : ℚ) * 2 ^ e ≤ 2 ^ 53 * 2 ^ e := mul_le_mul_of_nonneg_right hn' hpos.le
        _ = 2 ^ (53 + e) := by rw [zpow_add₀ (by norm_num)]; rfl
        _ ≤ 2 ^ Int.log 2 q := zpow_le_zpow_right₀ (by norm_num) (by omega)
    have h := abs_rounded_sub_le_mul q (2 ^ 52)
    rw [Int.cast_pow, Int.cast_ofNat, hstart, abs_sub_comm _ q, abs_sub_comm _ q,
      abs_of_nonneg (sub_nonneg.mpr hle)] at h
    rw [abs_sub_comm _ q, abs_sub_comm _ q, abs_of_nonneg (sub_nonneg.mpr (hbelow.trans hle))]
    exact h.trans (sub_le_sub_left hbelow q)

theorem rounded_nonneg (hq : 0 < q) : 0 ≤ rounded q := by
  have h := abs_rounded_sub_le hq isDouble_zero
  rw [zero_sub, abs_neg, abs_of_pos hq] at h
  linarith [neg_le_of_abs_le h]

theorem isDouble_rounded (hq : 0 < q) : IsDouble (rounded q) := by
  have hu := unitOf_pos q
  have hr : q / unitOf q < 2 ^ 53 := (div_lt_iff₀ hu).mpr (lt_unitOf q)
  have hr0 : 0 < q / unitOf q := div_pos hq hu
  have htop := abs_nearestInt_sub_le (q / unitOf q) (2 ^ 53)
  have hbot := abs_nearestInt_sub_le (q / unitOf q) 0
  rw [Int.cast_pow, Int.cast_ofNat, abs_of_nonneg (sub_nonneg.mpr hr.le)] at htop
  rw [Int.cast_zero, zero_sub, abs_neg, abs_of_pos hr0] at hbot
  have hupper : (nearestInt (q / unitOf q) : ℚ) ≤ 2 ^ 53 := by
    linarith [le_of_abs_le htop]
  have hlower : (0 : ℚ) ≤ nearestInt (q / unitOf q) := by
    linarith [neg_le_of_abs_le hbot]
  refine ⟨nearestInt (q / unitOf q), _, le_max_right (Int.log 2 q - 52) (-1074), ?_, rfl⟩
  have hupper' : nearestInt (q / unitOf q) ≤ 2 ^ 53 := by exact_mod_cast hupper
  have hlower' : 0 ≤ nearestInt (q / unitOf q) := by exact_mod_cast hlower
  rwa [abs_of_nonneg hlower']

/-- What is rounded up to half of the range is finite. -/
theorem rounded_le (hq : 0 < q) (h : 2 * q ≤ Number.largest) : rounded q ≤ Number.largest := by
  have hzero := abs_rounded_sub_le hq isDouble_zero
  rw [zero_sub, abs_neg, abs_of_pos hq] at hzero
  linarith [le_of_abs_le hzero]

/-- A double is rounded to itself. -/
theorem rounded_eq (hq : 0 < q) (h : IsDouble q) : rounded q = q := by
  have hself := abs_rounded_sub_le hq h
  rw [sub_self, abs_zero] at hself
  exact sub_eq_zero.mp (abs_nonpos_iff.mp hself)

theorem nearestPos_eq (hq : 0 < q) (h : rounded q ≤ Number.largest) :
    nearestPos q = .fin (rounded q) := by
  have hlow : -Number.largest ≤ rounded q :=
    (neg_nonpos.mpr Number.largest_nonneg).trans (rounded_nonneg hq)
  exact Number.ofRat_eq_fin_iff.mpr ⟨rfl, hlow, h⟩

end Positive

/-! ## The nearest double of any number -/

section Nearest

variable {q d x y : ℚ}

theorem nearest_neg (h : nearest q = .fin d) : nearest (-q) = .fin (-d) := by
  unfold nearest at h ⊢
  rcases lt_trichotomy q 0 with hq | hq | hq
  · rw [if_neg hq.ne, if_neg hq.not_gt] at h
    rw [if_neg (neg_ne_zero.mpr hq.ne), if_pos (neg_pos.mpr hq)]
    cases hpos : nearestPos (-q) with
    | fin r =>
      rw [hpos] at h
      cases h
      rw [neg_neg]
    | _ =>
      rw [hpos] at h
      cases h
  · rw [if_pos hq] at h
    cases h
    rw [if_pos (neg_eq_zero.mpr hq), neg_zero]
  · rw [if_neg hq.ne', if_pos hq] at h
    rw [if_neg (neg_ne_zero.mpr hq.ne'), if_neg (neg_neg_iff_pos.mpr hq).not_gt, neg_neg, h]

/-- Above zero the nearest double is the rounded number. -/
theorem nearest_pos (hq : 0 < q) (h : nearest q = .fin d) : d = rounded q := by
  unfold nearest at h
  rw [if_neg hq.ne', if_pos hq] at h
  exact (Number.ofRat_eq_fin h).symm

/-- The nearest double is one, and no other is nearer. -/
theorem nearest_spec (h : nearest q = .fin d) :
    IsDouble d ∧ ∀ z, IsDouble z → |d - q| ≤ |z - q| := by
  rcases lt_trichotomy q 0 with hq | hq | hq
  · have hpos := neg_pos.mpr hq
    have hd := nearest_pos hpos (nearest_neg h)
    refine ⟨?_, fun z hz => ?_⟩
    · rw [← neg_neg d, hd]
      exact (isDouble_rounded hpos).neg
    · have hle := abs_rounded_sub_le hpos hz.neg
      rwa [← hd, neg_sub_neg, neg_sub_neg, abs_sub_comm q, abs_sub_comm q] at hle
  · unfold nearest at h
    rw [if_pos hq] at h
    cases h
    refine ⟨isDouble_zero, fun z _ => ?_⟩
    rw [hq, sub_self, abs_zero]
    exact abs_nonneg _
  · rw [nearest_pos hq h]
    exact ⟨isDouble_rounded hq, fun z hz => abs_rounded_sub_le hq hz⟩

/-- Up to half of the range the nearest double is finite. -/
theorem exists_nearest (h : 2 * |q| ≤ Number.largest) : ∃ d, nearest q = .fin d := by
  have hpos : ∀ p : ℚ, 0 < p → 2 * p ≤ Number.largest → nearest p = .fin (rounded p) := by
    intro p hp hle
    unfold nearest
    rw [if_neg hp.ne', if_pos hp]
    exact nearestPos_eq hp (rounded_le hp hle)
  rcases lt_trichotomy q 0 with hq | hq | hq
  · rw [abs_of_neg hq] at h
    have hd := nearest_neg (hpos (-q) (neg_pos.mpr hq) h)
    rw [neg_neg] at hd
    exact ⟨_, hd⟩
  · exact ⟨0, if_pos hq⟩
  · rw [abs_of_pos hq] at h
    exact ⟨_, hpos q hq h⟩

/-- A double of the range is its own nearest one. -/
theorem nearest_of_isDouble (h : IsDouble q) (hle : |q| ≤ Number.largest) :
    nearest q = .fin q := by
  have hpos : ∀ p : ℚ, 0 < p → IsDouble p → p ≤ Number.largest → nearest p = .fin p := by
    intro p hp hd hl
    unfold nearest
    rw [if_neg hp.ne', if_pos hp, nearestPos_eq hp (by rwa [rounded_eq hp hd]),
      rounded_eq hp hd]
  rcases lt_trichotomy q 0 with hq | hq | hq
  · rw [abs_of_neg hq] at hle
    have hd := nearest_neg (hpos (-q) (neg_pos.mpr hq) h.neg hle)
    rwa [neg_neg] at hd
  · rw [hq]
    exact if_pos rfl
  · rw [abs_of_pos hq] at hle
    exact hpos q hq h hle

/-- The nearest double is within the range. -/
theorem abs_nearest_le (h : nearest q = .fin d) : |d| ≤ Number.largest := by
  have hpos : ∀ p e : ℚ, nearestPos p = .fin e → |e| ≤ Number.largest := by
    intro p e he
    obtain ⟨hval, hlow, hhigh⟩ := Number.ofRat_eq_fin_iff.mp he
    rw [hval] at hlow hhigh
    exact abs_le.mpr ⟨hlow, hhigh⟩
  unfold nearest at h
  split at h
  · cases h
    rw [abs_zero]
    exact Number.largest_nonneg
  split at h
  · exact hpos q d h
  · split at h
    · rename_i r hr
      cases h
      rw [abs_neg]
      exact hpos (-q) r hr
    · cases h

/-- A product is a double of the range, unless it is not finite. -/
theorem isDouble_times {a b : Number} (h : a.times b = .fin d) :
    IsDouble d ∧ |d| ≤ Number.largest := by
  unfold Number.times at h
  split at h
  · exact ⟨(nearest_spec h).1, abs_nearest_le h⟩
  · exact absurd h (Number.ofSign_ne_fin _ d)

end Nearest

/-! ## Doubles on a decimal grid -/

/-- Two doubles are a step of a decimal grid apart only where the step is one. -/
theorem places_eq_zero {places : Nat} {x y : ℚ} (hx : IsDouble x) (hy : IsDouble y)
    (h : x - y = 1 / 10 ^ places) : places = 0 := by
  obtain ⟨j, hj⟩ := hx.whole
  obtain ⟨k, hk⟩ := hy.whole
  by_contra hplaces
  have hsplit : (x - y) * 2 ^ lowBits = j - k := by rw [sub_mul, hj, hk]
  rw [h, one_div, inv_mul_eq_iff_eq_mul₀ (by positivity)] at hsplit
  have hint : (2 : ℤ) ^ lowBits = 10 ^ places * (j - k) := by exact_mod_cast hsplit
  -- five divides the right-hand side only
  have hten : (5 : ℤ) ∣ 10 ^ places := dvd_pow (by norm_num) hplaces
  have hfive : (5 : ℤ) ∣ 2 ^ lowBits := hint ▸ Dvd.dvd.mul_right hten _
  have hnat : 5 ∣ 2 ^ lowBits := by exact_mod_cast hfive
  exact absurd (Nat.Prime.dvd_of_dvd_pow (by norm_num) hnat) (by decide)

/-- Half a step off the grid of the integers no double is the nearest one of an integer. -/
theorem not_half {g d : ℚ} (hg : OnGrid 0 g) (hd : IsDouble d) (h : |d - g| = 1 / 2) :
    IsDouble g := by
  obtain ⟨m, hm⟩ := hg
  rw [pow_zero, div_one] at hm
  -- a double that is no integer has fewer than 53 bits in front of the point
  have hsmall : |d| ≤ 2 ^ 52 := by
    by_contra hbig
    obtain ⟨k, hk⟩ := hd.exists_int (not_le.mp hbig)
    rw [hm, hk, ← Int.cast_sub, ← Int.cast_abs] at h
    have htwo : (2 * |k - m| : ℤ) = 1 := by
      have hcast : (2 : ℚ) * (|k - m| : ℤ) = 1 := by rw [h]; norm_num
      exact_mod_cast hcast
    omega
  have hbound : |g| ≤ 2 ^ 53 := by
    have htri : |g| ≤ |d| + |d - g| := by
      have hsum : g = d - (d - g) := by ring
      rw [hsum]
      exact (abs_sub _ _).trans (by rw [sub_sub_cancel])
    rw [h] at htri
    linarith
  rw [hm] at hbound ⊢
  apply isDouble_intCast
  exact_mod_cast hbound

/-- The nearest doubles of the decimals of two doubles tell the decimals apart. -/
theorem nearest_roundTo_ne {places : Nat} {x y d : ℚ} (hx : IsDouble x) (hy : IsDouble y)
    (hdx : nearest (roundTo places x) = .fin d) (hdy : nearest (roundTo places y) = .fin d) :
    ¬ roundTo places x < roundTo places y := by
  intro hlt
  obtain ⟨hd, hnearx⟩ := nearest_spec hdx
  have hxd := hnearx x hx
  have hyd := (nearest_spec hdy).2 y hy
  have hxg := abs_roundTo_sub_le places x
  have hyg := abs_roundTo_sub_le places y
  have hstep := (onGrid_roundTo places x).step_le (onGrid_roundTo places y) hlt
  have hsame : x = y → False := fun he => hlt.ne (by rw [he])
  rw [abs_sub_comm] at hxg hyg
  generalize hg : roundTo places x = g at *
  generalize hh : roundTo places y = h at *
  have hhalf : (1 : ℚ) / 2 / 10 ^ places = 1 / 10 ^ places / 2 := by ring
  rw [hhalf] at hxg hyg
  generalize hs : (1 : ℚ) / 10 ^ places = s at *
  -- the double is half way between the two decimals, which are a step apart
  have hdg : d - g = s / 2 := by
    have h1 := le_of_abs_le (hxd.trans hxg)
    have h2 := neg_le_of_abs_le (hyd.trans hyg)
    linarith
  have hdh : d - h = -(s / 2) := by
    have h1 := le_of_abs_le (hxd.trans hxg)
    have h2 := neg_le_of_abs_le (hyd.trans hyg)
    linarith
  have hspos : 0 ≤ s := by rw [← hs]; positivity
  have habs : |x - g| = s / 2 ∧ |y - h| = s / 2 := by
    rw [hdg, abs_of_nonneg (by linarith)] at hxd
    rw [hdh, abs_neg, abs_of_nonneg (by linarith)] at hyd
    exact ⟨le_antisymm hxg hxd, le_antisymm hyg hyd⟩
  have hplaces : places = 0 := by
    rcases eq_or_eq_neg_of_abs_eq habs.1 with hxe | hxe
    · rcases eq_or_eq_neg_of_abs_eq habs.2 with hye | hye
      · exact places_eq_zero hy hd (by rw [hs]; linarith)
      · exact (hsame (by linarith)).elim
    · exact places_eq_zero hd hx (by rw [hs]; linarith)
  subst hplaces
  have hone : s = 1 := by rw [← hs]; norm_num
  have hdist : |d - g| = 1 / 2 := by rw [hdg, hone, abs_of_pos (by norm_num)]
  have hself := hnearx g (not_half (hg ▸ onGrid_roundTo 0 x) hd hdist)
  rw [hdist, sub_self, abs_zero] at hself
  norm_num at hself

/-- The nearest doubles of the decimals of two doubles are the same exactly if no tie lies between
the doubles. -/
theorem nearest_roundTo_eq_iff {places : Nat} {x y d e : ℚ} (hx : IsDouble x) (hy : IsDouble y)
    (hdx : nearest (roundTo places x) = .fin d) (hdy : nearest (roundTo places y) = .fin e) :
    d = e ↔ SameStep places x y := by
  rw [← roundTo_eq_iff]
  constructor
  · rintro rfl
    exact le_antisymm (not_lt.mp (nearest_roundTo_ne hy hx hdy hdx))
      (not_lt.mp (nearest_roundTo_ne hx hy hdx hdy))
  · intro h
    rw [h, hdy] at hdx
    exact (Number.fin.inj hdx).symm

end IpfsGate.Lib
