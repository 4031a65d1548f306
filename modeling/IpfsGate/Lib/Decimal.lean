import Mathlib.Data.Rat.Floor
import Mathlib.Tactic.Linarith
import Mathlib.Tactic.Positivity
import Mathlib.Tactic.GCongr
import Mathlib.Algebra.Order.Archimedean.Basic

/-!
# Rounding to a decimal grid, and numbers that overflow

Rounding is to the nearest multiple of a power of ten, halves away from zero. A number is
an exact rational until a product leaves the range of the largest finite value; from then on
it is an infinity or not a number, with the usual sign rules.
-/
namespace IpfsGate.Lib

/-- Round to `places` decimals, halves away from zero. -/
def roundTo (places : Nat) (x : ℚ) : ℚ :=
  if 0 ≤ x then ⌊x * 10 ^ places + 1 / 2⌋ / 10 ^ places
  else -(⌊-x * 10 ^ places + 1 / 2⌋ / 10 ^ places)

private theorem scale_pos (places : Nat) : (0 : ℚ) < 10 ^ places := by positivity

private theorem grid_nonneg (places : Nat) {x : ℚ} (hx : 0 ≤ x) :
    (0 : ℚ) ≤ ⌊x * 10 ^ places + 1 / 2⌋ / 10 ^ places := by
  have hs := scale_pos places
  have hf : 0 ≤ ⌊x * 10 ^ places + 1 / 2⌋ := Int.floor_nonneg.mpr (by positivity)
  have hc : (0 : ℚ) ≤ ⌊x * 10 ^ places + 1 / 2⌋ := by exact_mod_cast hf
  positivity

private theorem grid_mono (places : Nat) {x y : ℚ} (hxy : x ≤ y) :
    (⌊x * 10 ^ places + 1 / 2⌋ : ℚ) / 10 ^ places ≤ ⌊y * 10 ^ places + 1 / 2⌋ / 10 ^ places := by
  have hs := scale_pos places
  have hf : ⌊x * 10 ^ places + 1 / 2⌋ ≤ ⌊y * 10 ^ places + 1 / 2⌋ :=
    Int.floor_le_floor (by gcongr)
  have hc : (⌊x * 10 ^ places + 1 / 2⌋ : ℚ) ≤ ⌊y * 10 ^ places + 1 / 2⌋ := by exact_mod_cast hf
  gcongr

theorem roundTo_nonneg (places : Nat) {x : ℚ} (hx : 0 ≤ x) : 0 ≤ roundTo places x := by
  rw [roundTo, if_pos hx]
  exact grid_nonneg places hx

theorem roundTo_mono (places : Nat) {x y : ℚ} (hxy : x ≤ y) :
    roundTo places x ≤ roundTo places y := by
  unfold roundTo
  by_cases hx : 0 ≤ x
  · rw [if_pos hx, if_pos (hx.trans hxy)]
    exact grid_mono places hxy
  · have hneg : 0 ≤ -x := by linarith
    have hl := grid_nonneg places hneg
    rw [if_neg hx]
    by_cases hy : 0 ≤ y
    · rw [if_pos hy]
      have hr := grid_nonneg places hy
      linarith
    · rw [if_neg hy]
      have h := grid_mono places (neg_le_neg hxy)
      linarith

@[simp] theorem roundTo_zero (places : Nat) : roundTo places 0 = 0 := by
  have hf : ⌊(1 : ℚ) / 2⌋ = 0 := by rw [Int.floor_eq_iff]; norm_num
  rw [roundTo, if_pos le_rfl, zero_mul, zero_add, hf, Int.cast_zero, zero_div]

/-- A multiple of the least amount with so many decimals. -/
def OnGrid (places : Nat) (y : ℚ) : Prop := ∃ m : Int, y = m / 10 ^ places

theorem onGrid_zero (places : Nat) : OnGrid places 0 := ⟨0, by simp⟩

theorem OnGrid.add {places : Nat} {x y : ℚ} (hx : OnGrid places x) (hy : OnGrid places y) :
    OnGrid places (x + y) := by
  obtain ⟨m, rfl⟩ := hx
  obtain ⟨n, rfl⟩ := hy
  exact ⟨m + n, by push_cast; ring⟩

/-- Different amounts of the grid are a step apart. -/
theorem OnGrid.step_le {places : Nat} {x y : ℚ} (hx : OnGrid places x) (hy : OnGrid places y)
    (h : x < y) : x + 1 / 10 ^ places ≤ y := by
  obtain ⟨m, rfl⟩ := hx
  obtain ⟨n, rfl⟩ := hy
  have hs := scale_pos places
  have hmn : (m : ℚ) < n := (div_lt_div_iff_of_pos_right hs).mp h
  have hle : (m : ℚ) + 1 ≤ n := by exact_mod_cast Int.add_one_le_of_lt (by exact_mod_cast hmn)
  rw [← add_div]
  exact (div_le_div_iff_of_pos_right hs).mpr hle

theorem onGrid_roundTo (places : Nat) (x : ℚ) : OnGrid places (roundTo places x) := by
  unfold roundTo
  split
  · exact ⟨⌊x * 10 ^ places + 1 / 2⌋, rfl⟩
  · exact ⟨-⌊-x * 10 ^ places + 1 / 2⌋, by push_cast; ring⟩

/-- Rounding stays below an amount of the grid as long as the number is less than half a step
above it. -/
theorem roundTo_le_iff {places : Nat} {x y : ℚ} (hx : 0 ≤ x) (hy : OnGrid places y) :
    roundTo places x ≤ y ↔ x < y + 1 / 2 / 10 ^ places := by
  obtain ⟨m, rfl⟩ := hy
  have hs := scale_pos places
  have hfloor : ⌊x * 10 ^ places + 1 / 2⌋ ≤ m ↔ x * 10 ^ places + 1 / 2 < m + 1 := by
    rw [← Int.lt_add_one_iff, Int.floor_lt]
    push_cast
    exact Iff.rfl
  have hround : roundTo places x ≤ m / 10 ^ places ↔ ⌊x * 10 ^ places + 1 / 2⌋ ≤ m := by
    rw [roundTo, if_pos hx, div_le_div_iff_of_pos_right hs]
    exact Int.cast_le
  have hscale : x < m / 10 ^ places + 1 / 2 / 10 ^ places ↔ x * 10 ^ places < m + 1 / 2 := by
    rw [← add_div, lt_div_iff₀ hs]
  rw [hround, hfloor, hscale]
  constructor
  · intro h
    linarith
  · intro h
    linarith

/-- Rounding moves a number by half a step at most. -/
theorem abs_roundTo_sub_le (places : Nat) (x : ℚ) :
    |roundTo places x - x| ≤ 1 / 2 / 10 ^ places := by
  have hs := scale_pos places
  -- the nearest multiple of the step to a number that is not negative
  have hnear : ∀ y : ℚ, |(⌊y * 10 ^ places + 1 / 2⌋ : ℚ) / 10 ^ places - y| ≤
      1 / 2 / 10 ^ places := by
    intro y
    have hle := Int.floor_le (y * 10 ^ places + 1 / 2)
    have hlt := Int.lt_floor_add_one (y * 10 ^ places + 1 / 2)
    have hsplit : (⌊y * 10 ^ places + 1 / 2⌋ : ℚ) / 10 ^ places - y =
        (⌊y * 10 ^ places + 1 / 2⌋ - y * 10 ^ places) / 10 ^ places := by
      field_simp
    rw [hsplit, abs_div, abs_of_pos hs, div_le_div_iff_of_pos_right hs, abs_le]
    constructor
    · linarith
    · linarith
  unfold roundTo
  split
  · exact hnear x
  · have h := hnear (-x)
    rw [abs_sub_comm] at h
    have hflip : -((⌊-x * 10 ^ places + 1 / 2⌋ : ℚ) / 10 ^ places) - x =
        -x - (⌊-x * 10 ^ places + 1 / 2⌋ : ℚ) / 10 ^ places := by ring
    rw [hflip]
    exact h

/-- An amount of the grid is rounded to itself. -/
theorem roundTo_of_onGrid {places : Nat} {x : ℚ} (hx : OnGrid places x) :
    roundTo places x = x := by
  have hnear := abs_roundTo_sub_le places x
  have hgrid := onGrid_roundTo places x
  have hs : (0 : ℚ) < 1 / 10 ^ places := by positivity
  have hhalf : (1 : ℚ) / 2 / 10 ^ places = 1 / 10 ^ places / 2 := by ring
  rw [hhalf] at hnear
  rcases lt_trichotomy (roundTo places x) x with h | h | h
  · have hstep := hgrid.step_le hx h
    have hlow := neg_le_of_abs_le hnear
    linarith
  · exact h
  · have hstep := hx.step_le hgrid h
    have hhigh := le_of_abs_le hnear
    linarith

theorem onGrid_intCast (places : Nat) (k : ℤ) : OnGrid places k := by
  have hs := scale_pos places
  exact ⟨k * 10 ^ places, by push_cast; field_simp⟩

theorem roundTo_neg (places : Nat) (x : ℚ) : roundTo places (-x) = -roundTo places x := by
  unfold roundTo
  rcases lt_trichotomy x 0 with hx | hx | hx
  · rw [if_pos (neg_nonneg.mpr hx.le), if_neg hx.not_ge, neg_neg]
  · subst hx
    have hzero := roundTo_zero places
    rw [roundTo, if_pos le_rfl] at hzero
    rw [neg_zero, if_pos le_rfl, if_pos le_rfl, hzero, neg_zero]
  · rw [if_neg (neg_neg_iff_pos.mpr hx).not_ge, if_pos hx.le, neg_neg]

/-- A number is rounded up to a step from the tie below it on. -/
theorem le_roundTo_iff {places : Nat} {x : ℚ} (m : Nat) :
    ((m : ℚ) + 1) / 10 ^ places ≤ roundTo places x ↔ ((m : ℚ) + 1 / 2) / 10 ^ places ≤ x := by
  have hs := scale_pos places
  have hstep : 0 < ((m : ℚ) + 1) / 10 ^ places := by positivity
  have htie : 0 < ((m : ℚ) + 1 / 2) / 10 ^ places := by positivity
  by_cases hx : 0 ≤ x
  · have hcast : ((m : ℚ) + 1) = ((m + 1 : ℤ) : ℚ) := by push_cast; rfl
    rw [roundTo, if_pos hx, div_le_div_iff_of_pos_right hs, div_le_iff₀ hs, hcast, Int.cast_le,
      Int.le_floor, ← hcast]
    constructor
    · intro h
      linarith
    · intro h
      linarith
  · have hneg := roundTo_nonneg places (neg_nonneg.mpr (not_le.mp hx).le)
    rw [roundTo_neg] at hneg
    constructor
    · intro h
      linarith
    · intro h
      linarith

/-- No tie of the grid lies between the two numbers, on either side of zero. -/
def SameStep (places : Nat) (x y : ℚ) : Prop :=
  ∀ m : Nat,
    (((m : ℚ) + 1 / 2) / 10 ^ places ≤ x ↔ ((m : ℚ) + 1 / 2) / 10 ^ places ≤ y) ∧
    (((m : ℚ) + 1 / 2) / 10 ^ places ≤ -x ↔ ((m : ℚ) + 1 / 2) / 10 ^ places ≤ -y)

theorem SameStep.symm {places : Nat} {x y : ℚ} (h : SameStep places x y) :
    SameStep places y x :=
  fun m => ⟨(h m).1.symm, (h m).2.symm⟩

theorem SameStep.refl (places : Nat) (x : ℚ) : SameStep places x x :=
  fun _ => ⟨Iff.rfl, Iff.rfl⟩

/-- What passes every tie that another number passes is not rounded to less. -/
theorem SameStep.roundTo_le {places : Nat} {x y : ℚ} (h : SameStep places x y) :
    roundTo places x ≤ roundTo places y := by
  -- the step that a number above zero is rounded to is past a tie
  have hstep : ∀ z, 0 < roundTo places z →
      ∃ m : Nat, roundTo places z = ((m : ℚ) + 1) / 10 ^ places := by
    intro z hz
    obtain ⟨k, hk⟩ := onGrid_roundTo places z
    rw [hk] at hz ⊢
    have hpos : (0 : ℚ) < k := (div_pos_iff_of_pos_right (scale_pos places)).mp hz
    have hk0 : 0 < k := by exact_mod_cast hpos
    obtain ⟨m, hm⟩ := Int.eq_ofNat_of_zero_le (show 0 ≤ k - 1 by omega)
    have hkm : k = m + 1 := by omega
    exact ⟨m, by rw [hkm]; push_cast; rfl⟩
  by_cases hx : 0 < roundTo places x
  · obtain ⟨m, hm⟩ := hstep x hx
    rw [hm]
    exact (le_roundTo_iff m).mpr ((h m).1.mp ((le_roundTo_iff m).mp hm.ge))
  · by_cases hy : 0 < roundTo places (-y)
    · obtain ⟨m, hm⟩ := hstep (-y) hy
      have hle := (le_roundTo_iff m).mpr ((h m).2.mpr ((le_roundTo_iff m).mp hm.ge))
      rw [← hm, roundTo_neg, roundTo_neg] at hle
      linarith
    · rw [roundTo_neg] at hy
      linarith

/-- Two numbers are rounded alike exactly if no tie lies between them. -/
theorem roundTo_eq_iff {places : Nat} {x y : ℚ} :
    roundTo places x = roundTo places y ↔ SameStep places x y := by
  constructor
  · intro h m
    constructor
    · rw [← le_roundTo_iff, ← le_roundTo_iff, h]
    · rw [← le_roundTo_iff, ← le_roundTo_iff, roundTo_neg, roundTo_neg, h]
  · intro h
    exact le_antisymm h.roundTo_le h.symm.roundTo_le

/-- Moving by whole steps does not change how a number is rounded. -/
theorem roundTo_sub {places : Nat} {x y : ℚ} (hy : OnGrid places y) (h : y ≤ x) (hx : 0 ≤ x) :
    roundTo places (x - y) = roundTo places x - y := by
  obtain ⟨m, rfl⟩ := hy
  have hs := scale_pos places
  have hscale : (x - m / 10 ^ places) * 10 ^ places + 1 / 2 = x * 10 ^ places + 1 / 2 - m := by
    field_simp
    ring
  rw [roundTo, if_pos (sub_nonneg.mpr h), roundTo, if_pos hx, hscale, Int.floor_sub_intCast]
  push_cast
  ring

/-- A rounded number is within a bound exactly if it is less than half a step above the bound's
whole steps. -/
theorem roundTo_le_iff_lt_floor {places : Nat} {x y : ℚ} (hx : 0 ≤ x) :
    roundTo places x ≤ y ↔ x * 10 ^ places < ⌊y * 10 ^ places⌋ + 1 / 2 := by
  have hs := scale_pos places
  have hfloor : roundTo places x ≤ y ↔ ⌊x * 10 ^ places + 1 / 2⌋ ≤ ⌊y * 10 ^ places⌋ := by
    rw [roundTo, if_pos hx, div_le_iff₀ hs, Int.le_floor]
  rw [hfloor, ← Int.lt_add_one_iff, Int.floor_lt]
  push_cast
  constructor
  · intro h
    linarith
  · intro h
    linarith

/-- Rounding does not raise a number exactly if less than half a step is cut off. -/
theorem roundTo_le_self_iff {places : Nat} {x : ℚ} (hx : 0 ≤ x) :
    roundTo places x ≤ x ↔ Int.fract (x * 10 ^ places) < 1 / 2 := by
  have hfract := Int.floor_add_fract (x * 10 ^ places)
  rw [roundTo_le_iff_lt_floor hx]
  constructor
  · intro h
    linarith
  · intro h
    linarith

/-- Otherwise it raises it to the next step. -/
theorem roundTo_eq_ceil {places : Nat} {x : ℚ} (hx : 0 ≤ x)
    (h : 1 / 2 ≤ Int.fract (x * 10 ^ places)) :
    roundTo places x = ⌈x * 10 ^ places⌉ / 10 ^ places := by
  have hfract := Int.floor_add_fract (x * 10 ^ places)
  have hlt := Int.fract_lt_one (x * 10 ^ places)
  have hfloor : ⌊x * 10 ^ places + 1 / 2⌋ = ⌊x * 10 ^ places⌋ + 1 := by
    rw [Int.floor_eq_iff]
    push_cast
    constructor
    · linarith
    · linarith
  have hceil : ⌈x * 10 ^ places⌉ = ⌊x * 10 ^ places⌋ + 1 := by
    rw [Int.ceil_eq_iff]
    push_cast
    constructor
    · linarith
    · linarith
  rw [roundTo, if_pos hx, hfloor, hceil]

/-- Exact rationals with overflow. -/
inductive Number where
  | fin (q : ℚ)
  | posInf
  | negInf
  | nan
deriving DecidableEq

namespace Number

/-- The largest finite double. -/
def largest : ℚ := 2 ^ 1024 - 2 ^ 971

def ofRat (q : ℚ) : Number :=
  if largest < q then posInf else if q < -largest then negInf else fin q

def sign : Number → Int
  | fin q => if 0 < q then 1 else if q < 0 then -1 else 0
  | posInf => 1
  | negInf => -1
  | nan => 0

/-- The result of a product with a factor that is not finite, by the sign of the product. -/
def ofSign (s : Int) : Number := if s = 0 then nan else if 0 < s then posInf else negInf

def mul : Number → Number → Number
  | fin p, fin q => ofRat (p * q)
  | x, y => ofSign (x.sign * y.sign)

def isFinite : Number → Bool
  | fin _ => true
  | _ => false

/-- The finite value, zero for every number that is not finite. -/
def orZero : Number → ℚ
  | fin q => q
  | _ => 0

theorem ofRat_eq_fin {q r : ℚ} (h : ofRat q = fin r) : q = r := by
  unfold ofRat at h
  split at h
  · cases h
  · split at h
    · cases h
    · exact Number.fin.inj h

theorem ofSign_ne_fin (s : Int) (r : ℚ) : ofSign s ≠ fin r := by
  unfold ofSign
  split
  · exact Number.noConfusion
  · split <;> exact Number.noConfusion

/-- A rational is a number as long as it is within the finite range. -/
theorem ofRat_eq_fin_iff {q r : ℚ} : ofRat q = fin r ↔ q = r ∧ -largest ≤ q ∧ q ≤ largest := by
  unfold ofRat
  split
  · rename_i hover
    constructor
    · intro h
      cases h
    · rintro ⟨_, _, hle⟩
      exact absurd hle (not_le.mpr hover)
  · rename_i hover
    split
    · rename_i hunder
      constructor
      · intro h
        cases h
      · rintro ⟨_, hle, _⟩
        exact absurd hle (not_le.mpr hunder)
    · rename_i hunder
      constructor
      · intro h
        exact ⟨Number.fin.inj h, not_lt.mp hunder, not_lt.mp hover⟩
      · rintro ⟨rfl, _, _⟩
        rfl

/-- The range goes far beyond every amount of tokens. -/
theorem two_pow_le_largest {n : Nat} (hn : n ≤ 971) : (2 : ℚ) ^ n ≤ largest := by
  have hn' : (2 : ℚ) ^ n ≤ 2 ^ 971 := pow_le_pow_right₀ (by norm_num) hn
  have hle : (2 : ℚ) ^ (971 + 1) ≤ 2 ^ 1024 := pow_le_pow_right₀ (by norm_num) (by decide)
  rw [pow_succ, mul_two] at hle
  exact hn'.trans (le_sub_iff_add_le.mpr hle)

theorem largest_nonneg : 0 ≤ largest :=
  sub_nonneg.mpr (pow_le_pow_right₀ (by norm_num) (by decide))

/-- A product that is not negative is finite up to the largest number. -/
theorem mul_fin_eq_fin_iff {p q r : ℚ} (h : 0 ≤ p * q) :
    (fin p).mul (fin q) = fin r ↔ p * q = r ∧ p * q ≤ largest := by
  change ofRat (p * q) = fin r ↔ _
  rw [ofRat_eq_fin_iff]
  have hlow : -largest ≤ p * q := (neg_nonpos.mpr largest_nonneg).trans h
  simp [hlow]

/-- A product is finite only when it is the exact product of finite factors. -/
theorem mul_eq_fin {x y : Number} {r : ℚ} (h : x.mul y = fin r) :
    ∃ p q, x = fin p ∧ y = fin q ∧ p * q = r := by
  unfold mul at h
  split at h
  · exact ⟨_, _, rfl, rfl, ofRat_eq_fin h⟩
  · exact absurd h (ofSign_ne_fin _ r)

theorem product_eq {a b c d r : ℚ}
    (h : (((fin a).mul (fin b)).mul (fin c)).mul (fin d) = fin r) : r = a * b * c * d := by
  obtain ⟨abc, d', habc, hd, rfl⟩ := mul_eq_fin h
  obtain ⟨ab, c', hab, hc, rfl⟩ := mul_eq_fin habc
  obtain ⟨a', b', ha, hb, rfl⟩ := mul_eq_fin hab
  cases hd
  cases hc
  cases ha
  cases hb
  rfl

theorem isFinite_iff {x : Number} : x.isFinite = true ↔ ∃ q, x = fin q := by
  cases x with
  | fin q => exact iff_of_true rfl ⟨q, rfl⟩
  | _ => exact iff_of_false Bool.false_ne_true (fun ⟨_, h⟩ => Number.noConfusion h)

/-- Only a number that is not finite is lost where zero takes its place. -/
theorem fin_orZero_iff {x : Number} : fin x.orZero = x ↔ x.isFinite = true := by
  rw [isFinite_iff]
  cases x with
  | fin q => exact iff_of_true rfl ⟨q, rfl⟩
  | _ => exact iff_of_false Number.noConfusion (fun ⟨_, h⟩ => Number.noConfusion h)

/-- A product of finite numbers that is not negative is finite up to the largest number. -/
theorem isFinite_mul_fin {p q : ℚ} (h : 0 ≤ p * q) :
    ((fin p).mul (fin q)).isFinite = true ↔ p * q ≤ largest := by
  rw [isFinite_iff]
  constructor
  · rintro ⟨r, hr⟩
    exact ((mul_fin_eq_fin_iff h).mp hr).2
  · exact fun hle => ⟨p * q, (mul_fin_eq_fin_iff h).mpr ⟨rfl, hle⟩⟩

/-- Factors of a finite product are finite. -/
theorem isFinite_of_mul {x y : Number} (h : (x.mul y).isFinite = true) : x.isFinite = true := by
  obtain ⟨r, hr⟩ := isFinite_iff.mp h
  obtain ⟨p, _, rfl, _⟩ := mul_eq_fin hr
  rfl

theorem mul_fin_of_le {p q : ℚ} (h : 0 ≤ p * q) (hle : p * q ≤ largest) :
    (fin p).mul (fin q) = fin (p * q) :=
  (mul_fin_eq_fin_iff h).mpr ⟨rfl, hle⟩

/-- A product that grows with its last factor is finite if its first step and its last one are. -/
theorem isFinite_product_iff {a b c d : ℚ} (hab : 0 ≤ a * b) (hc : 0 ≤ c) (hd : 1 ≤ d) :
    ((((fin a).mul (fin b)).mul (fin c)).mul (fin d)).isFinite = true ↔
      a * b ≤ largest ∧ a * b * c * d ≤ largest := by
  have habc : 0 ≤ a * b * c := mul_nonneg hab hc
  have habcd : 0 ≤ a * b * c * d := mul_nonneg habc (zero_le_one.trans hd)
  constructor
  · intro h
    have hthree := isFinite_of_mul h
    have hle := (isFinite_mul_fin hab).mp (isFinite_of_mul hthree)
    rw [mul_fin_of_le hab hle] at h hthree
    have hle' := (isFinite_mul_fin habc).mp hthree
    rw [mul_fin_of_le habc hle'] at h
    exact ⟨hle, (isFinite_mul_fin habcd).mp h⟩
  · rintro ⟨hle, hlast⟩
    have hgrows : a * b * c ≤ a * b * c * d := le_mul_of_one_le_right habc hd
    rw [mul_fin_of_le hab hle, mul_fin_of_le habc (hgrows.trans hlast)]
    exact (isFinite_mul_fin habcd).mpr hlast

/-- Above zero, finite or not. -/
def Positive : Number → Prop
  | fin q => 0 < q
  | posInf => True
  | _ => False

theorem Positive.sign {x : Number} (hx : x.Positive) : x.sign = 1 := by
  cases x with
  | fin q => exact if_pos hx
  | posInf => rfl
  | _ => exact hx.elim

theorem Positive.mul {x y : Number} (hx : x.Positive) (hy : y.Positive) : (x.mul y).Positive := by
  have hsign : (ofSign (x.sign * y.sign)).Positive := by
    rw [hx.sign, hy.sign]
    trivial
  cases x with
  | fin p =>
    cases y with
    | fin q =>
      have hpq : 0 < p * q := mul_pos hx hy
      have hlargest := largest_nonneg
      change (ofRat (p * q)).Positive
      unfold ofRat
      split
      · trivial
      · rw [if_neg (by linarith)]
        exact hpq
    | _ => exact hsign
  | _ => exact hsign

end Number

end IpfsGate.Lib
