import IpfsGate.Lib.Binary64
import IpfsGate.Server.Runs

/-!
# Refunds under another configuration

A claim keeps the four numbers it was bought at. A refund takes the hours and the rate from the
row, and computes the megabytes and the copies again, at the divisor and the node count that the
gate runs with now. Here the amounts are the doubles the gate computes with: every product is
rounded, and so is the amount it is cut to.
-/
namespace IpfsGate.Server

open Lib
open Pricing (billableMB cappedCopies hourMs isPermanent)

namespace Doubles

/-- `hoursRefunded * mb * rateLocked * copies`, from left to right. -/
def product (hours mb : Int) (rate : ℚ) (copies : Int) : Number :=
  (((Number.fin hours).times (.fin mb)).times (.fin rate)).times (.fin copies)

/-- `parseFloat(Number(amount).toFixed(places))`; from `1e21` on `toFixed` prints the number
itself. -/
def roundCoins (cfg : Config) : Number → Number
  | .fin x => if |x| < 10 ^ 21 then nearest (roundTo cfg.coinPlaces x) else .fin x
  | x => x

/-- `raw < MIN_REFUND`. -/
def isDust (cfg : Config) : Number → Bool
  | .fin x => x < cfg.minRefund
  | .negInf => true
  | _ => false

structure RefundQuote where
  hoursUsed : Int
  hoursRefunded : Int
  amount : Number
  dust : Bool
deriving DecidableEq

def calculateRefund (cfg : Config) (claim : Claim) (now : Int) : Except Fault RefundQuote :=
  if isPermanent claim.expiryTs then
    .ok { hoursUsed := 0, hoursRefunded := 0, amount := .fin 0, dust := true }
  else do
    let copies := cappedCopies cfg (.fin claim.copiesRequested)
    let mb ← billableMB cfg claim.sizeBytes
    let hoursUsed := max 1 ⌈((now - claim.startTs : Int) : ℚ) / hourMs⌉
    let hoursRefunded := max (claim.paidHours - hoursUsed) 0
    let raw := roundCoins cfg (product hoursRefunded mb claim.rateLocked copies)
    if isDust cfg raw then
      return { hoursUsed, hoursRefunded, amount := .fin 0, dust := true }
    else
      return { hoursUsed, hoursRefunded, amount := raw, dust := false }

end Doubles

open Doubles

/-- The hours of the claim that have been used, an hour at least. -/
def hoursUsed (claim : Claim) (now : Int) : Int :=
  max 1 ⌈((now - claim.startTs : Int) : ℚ) / hourMs⌉

def hoursLeft (claim : Claim) (now : Int) : Int := max (claim.paidHours - hoursUsed claim now) 0

/-- What is paid of an amount: nothing if it is dust once it is rounded. -/
def payable (cfg : Config) (x : Number) : Number :=
  if isDust cfg (roundCoins cfg x) then .fin 0 else roundCoins cfg x

/-- The four numbers of the row. -/
def rowProduct (claim : Claim) (hours : Int) : Number :=
  product hours claim.sizeMB claim.rateLocked claim.copiesRequested

/-- What the hours that are left are worth by the row, unless it is dust. -/
def owedRefund (cfg : Config) (claim : Claim) (now : Int) : Number :=
  payable cfg (rowProduct claim (hoursLeft claim now))

/-- At every time both configurations refund the same, and what the row says. -/
def RefundsAlike (a b : Config) (claim : Claim) : Prop :=
  ∀ now, ∃ x y, calculateRefund a claim now = .ok x ∧ calculateRefund b claim now = .ok y ∧
    x.amount = y.amount ∧ x.amount = owedRefund a claim now

/-- The rounding does not tell the amounts apart: no tie lies between them. -/
def SameCoins (cfg : Config) : Number → Number → Prop
  | .fin x, .fin y => SameStep cfg.coinPlaces x y
  | x, y => x = y

/-- Nothing is paid of the amount: it is dust once it is rounded, or below the first tie. -/
def Unpaid (cfg : Config) (x : Number) : Prop :=
  isDust cfg (roundCoins cfg x) = true ∨ SameCoins cfg x (.fin 0)

/-- The difference of the two amounts is lost. -/
def Hidden (cfg : Config) (x y : Number) : Prop :=
  SameCoins cfg x y ∨ (Unpaid cfg x ∧ Unpaid cfg y)

/-- The configuration bills the claim for the megabytes and the copies it was bought at. -/
def AsBought (cfg : Config) (claim : Claim) (mb : Int) : Prop :=
  mb = claim.sizeMB ∧ cappedCopies cfg (.fin claim.copiesRequested) = claim.copiesRequested

/-- The configuration bills the claim as it was bought, or the difference is lost for every number
of hours that can be left of it. A permanent claim, which is not billed, must owe nothing. -/
structure BillsAlike (cfg : Config) (claim : Claim) : Prop where
  permanent : isPermanent claim.expiryTs = true → ∀ hours, 1 ≤ hours → hours < claim.paidHours →
    Unpaid cfg (rowProduct claim hours)
  timed : isPermanent claim.expiryTs = false → ∃ mb, billableMB cfg claim.sizeBytes = .ok mb ∧
    (AsBought cfg claim mb ∨ ∀ hours, 1 ≤ hours → hours < claim.paidHours →
      Hidden cfg
        (product hours mb claim.rateLocked (cappedCopies cfg (.fin claim.copiesRequested)))
        (rowProduct claim hours))

section Refund

variable {cfg : Config} {claim : Claim}

/-! ### Amounts -/

/-- A number as a product gives it. -/
def Rounded : Number → Prop
  | .fin x => IsDouble x ∧ |x| ≤ Number.largest
  | _ => True

theorem rounded_product (hours mb : Int) (rate : ℚ) (copies : Int) :
    Rounded (product hours mb rate copies) := by
  cases h : product hours mb rate copies with
  | fin x => exact isDouble_times h
  | _ => trivial

theorem rounded_zero : Rounded (.fin 0) := by
  refine ⟨isDouble_zero, ?_⟩
  rw [abs_zero]
  exact Number.largest_nonneg

/-- The amount of a double is the nearest one of its decimals. -/
theorem roundCoins_fin (cfg : Config) {x : ℚ} (hx : Rounded (.fin x)) :
    ∃ d, roundCoins cfg (.fin x) = .fin d ∧ nearest (roundTo cfg.coinPlaces x) = .fin d := by
  by_cases hsmall : |x| < 10 ^ 21
  · -- the decimals are within the range, so their nearest double is finite
    have hnear := abs_roundTo_sub_le cfg.coinPlaces x
    have hhalf : (1 : ℚ) / 2 / 10 ^ cfg.coinPlaces ≤ 1 / 2 :=
      div_le_self (by norm_num) (one_le_pow₀ (by norm_num))
    have htri : |roundTo cfg.coinPlaces x| ≤ |x| + 1 / 2 := by
      have hsum : roundTo cfg.coinPlaces x = x + (roundTo cfg.coinPlaces x - x) := by ring
      rw [hsum]
      exact (abs_add_le _ _).trans (add_le_add_right (hnear.trans hhalf) _)
    have hroom := Number.two_pow_le_largest (n := 71) (by decide)
    have hfinite : 2 * |roundTo cfg.coinPlaces x| ≤ Number.largest := by
      refine le_trans ?_ hroom
      calc 2 * |roundTo cfg.coinPlaces x| ≤ 2 * (10 ^ 21 + 1 / 2) := by linarith
        _ ≤ 2 ^ 71 := by norm_num
    obtain ⟨d, hd⟩ := exists_nearest hfinite
    exact ⟨d, (if_pos hsmall).trans hd, hd⟩
  · -- the others are integers
    have hbig : (2 : ℚ) ^ 52 < |x| := lt_of_lt_of_le (by norm_num) (not_lt.mp hsmall)
    obtain ⟨k, rfl⟩ := hx.1.exists_int hbig
    refine ⟨k, if_neg hsmall, ?_⟩
    rw [roundTo_of_onGrid (onGrid_intCast _ k)]
    exact nearest_of_isDouble hx.1 hx.2

/-- Two amounts are rounded alike exactly if no tie lies between them. -/
theorem roundCoins_eq_iff {x y : Number} (hx : Rounded x) (hy : Rounded y) :
    roundCoins cfg x = roundCoins cfg y ↔ SameCoins cfg x y := by
  cases x with
  | fin x =>
    obtain ⟨d, hroundx, hdx⟩ := roundCoins_fin cfg hx
    rw [hroundx]
    cases y with
    | fin y =>
      obtain ⟨e, hroundy, hdy⟩ := roundCoins_fin cfg hy
      rw [hroundy, Number.fin.injEq]
      exact nearest_roundTo_eq_iff hx.1 hy.1 hdx hdy
    | _ => exact iff_of_false Number.noConfusion Number.noConfusion
  | _ =>
    cases y with
    | fin y =>
      obtain ⟨e, hroundy, _⟩ := roundCoins_fin cfg hy
      rw [hroundy]
      exact iff_of_false Number.noConfusion Number.noConfusion
    | _ => exact Iff.rfl

theorem roundCoins_of_zero : roundCoins cfg (.fin 0) = .fin 0 := by
  have h : nearest (roundTo cfg.coinPlaces 0) = .fin 0 := by
    rw [roundTo_zero]
    exact if_pos rfl
  show (if |(0 : ℚ)| < 10 ^ 21 then nearest (roundTo cfg.coinPlaces 0) else .fin 0) = .fin 0
  rw [if_pos (by norm_num), h]

/-- An amount of which nothing is paid. -/
theorem payable_eq_zero_iff {x : Number} (hx : Rounded x) :
    payable cfg x = .fin 0 ↔ Unpaid cfg x := by
  have hsame : roundCoins cfg x = roundCoins cfg (.fin 0) ↔ _ :=
    roundCoins_eq_iff hx rounded_zero
  rw [roundCoins_of_zero] at hsame
  unfold payable Unpaid
  rw [← hsame]
  by_cases hdust : isDust cfg (roundCoins cfg x) = true
  · rw [if_pos hdust]
    exact iff_of_true rfl (Or.inl hdust)
  · rw [if_neg hdust]
    exact (or_iff_right hdust).symm

/-- The same is paid of two amounts exactly if their difference is lost. -/
theorem payable_eq_iff {x y : Number} (hx : Rounded x) (hy : Rounded y) :
    payable cfg x = payable cfg y ↔ Hidden cfg x y := by
  constructor
  · intro h
    by_cases hzero : payable cfg x = .fin 0
    · right
      exact ⟨(payable_eq_zero_iff hx).mp hzero, (payable_eq_zero_iff hy).mp (h ▸ hzero)⟩
    · left
      have hpaid : ∀ z, payable cfg z ≠ .fin 0 → payable cfg z = roundCoins cfg z :=
        fun z hz => if_neg (fun hdust => hz (if_pos hdust))
      have hy' : payable cfg y ≠ .fin 0 := h ▸ hzero
      rw [hpaid x hzero, hpaid y hy'] at h
      exact (roundCoins_eq_iff hx hy).mp h
  · rintro (h | ⟨h₁, h₂⟩)
    · unfold payable
      rw [(roundCoins_eq_iff hx hy).mpr h]
    · rw [(payable_eq_zero_iff hx).mpr h₁, (payable_eq_zero_iff hy).mpr h₂]

/-! ### Hours -/

/-- Nothing is worth nothing. -/
theorem product_zero (mb : Int) (rate : ℚ) (copies : Int) :
    product 0 mb rate copies = .fin 0 := by
  have hzero : ∀ q : ℚ, (Number.fin 0).times (.fin q) = .fin 0 := by
    intro q
    show nearest (0 * q) = .fin 0
    rw [zero_mul]
    exact if_pos rfl
  unfold product
  rw [Int.cast_zero, hzero, hzero, hzero]

theorem hoursLeft_lt (claim : Claim) (now : Int) (h : 0 < hoursLeft claim now) :
    hoursLeft claim now < claim.paidHours := by
  unfold hoursLeft hoursUsed at h ⊢
  omega

/-- Every number of hours below the paid ones is left at some time. -/
theorem exists_hoursLeft {hours : Int} (h₁ : 1 ≤ hours) (h₂ : hours < claim.paidHours) :
    ∃ now, hoursLeft claim now = hours := by
  refine ⟨claim.startTs + (claim.paidHours - hours) * hourMs, ?_⟩
  have hused : ⌈((claim.startTs + (claim.paidHours - hours) * hourMs - claim.startTs : Int) : ℚ) /
      hourMs⌉ = claim.paidHours - hours := by
    have hms : ((hourMs : Int) : ℚ) ≠ 0 := by decide +kernel
    rw [add_sub_cancel_left, Int.cast_mul, mul_div_assoc, div_self hms, mul_one, Int.ceil_intCast]
  unfold hoursLeft hoursUsed
  rw [hused]
  omega

/-- A fact about the hours that are left is one about the numbers below the paid hours, if it holds
of none. -/
theorem forall_hoursLeft {P : Int → Prop} (hzero : P 0) :
    (∀ now, P (hoursLeft claim now)) ↔ ∀ hours, 1 ≤ hours → hours < claim.paidHours → P hours := by
  constructor
  · intro h hours h₁ h₂
    obtain ⟨now, hnow⟩ := exists_hoursLeft h₁ h₂
    exact hnow ▸ h now
  · intro h now
    by_cases hleft : 0 < hoursLeft claim now
    · exact h _ hleft (hoursLeft_lt claim now hleft)
    · have hnone : hoursLeft claim now = 0 := by
        have hnonneg : 0 ≤ hoursLeft claim now := le_max_right _ _
        omega
      rw [hnone]
      exact hzero

/-! ### Refunds -/

theorem calculateRefund_permanent (hp : isPermanent claim.expiryTs = true) (now : Int) :
    calculateRefund cfg claim now =
      .ok { hoursUsed := 0, hoursRefunded := 0, amount := .fin 0, dust := true } :=
  if_pos hp

/-- The refund of a timed claim, as the gate computes it. -/
theorem calculateRefund_timed {mb : Int} (hp : isPermanent claim.expiryTs = false)
    (hmb : billableMB cfg claim.sizeBytes = .ok mb) (now : Int) :
    ∃ quote, calculateRefund cfg claim now = .ok quote ∧
      quote.amount = payable cfg (product (hoursLeft claim now) mb claim.rateLocked
        (cappedCopies cfg (.fin claim.copiesRequested))) := by
  unfold calculateRefund payable
  rw [hp, hmb]
  by_cases hdust : isDust cfg (roundCoins cfg (product (hoursLeft claim now) mb claim.rateLocked
      (cappedCopies cfg (.fin claim.copiesRequested)))) = true
  · exact ⟨_, if_pos hdust, (if_pos hdust).symm⟩
  · exact ⟨_, if_neg hdust, (if_neg hdust).symm⟩

/-- Where the amount is a double before and after it is cut to its decimals, the refund is that of
exact arithmetic. -/
theorem calculateRefund_exact {now : Int} {quote : Pricing.RefundQuote}
    (h : Pricing.calculateRefund cfg claim now = .ok quote)
    (hexact : ∀ mb, billableMB cfg claim.sizeBytes = .ok mb →
      roundCoins cfg (product (hoursLeft claim now) mb claim.rateLocked
          (cappedCopies cfg (.fin claim.copiesRequested))) =
        .fin (Pricing.roundCoins cfg (hoursLeft claim now * mb * claim.rateLocked *
          cappedCopies cfg (.fin claim.copiesRequested)))) :
    ∃ x, calculateRefund cfg claim now = .ok x ∧ x.amount = .fin quote.amount := by
  cases hp : isPermanent claim.expiryTs with
  | true =>
    refine ⟨_, calculateRefund_permanent hp now, ?_⟩
    unfold Pricing.calculateRefund at h
    rw [if_pos hp] at h
    cases h
    rfl
  | false =>
    unfold Pricing.calculateRefund at h
    rw [hp] at h
    cases hmb : billableMB cfg claim.sizeBytes with
    | error e =>
      rw [hmb] at h
      cases h
    | ok mb =>
      obtain ⟨x, hx, hamount⟩ := calculateRefund_timed hp hmb now
      refine ⟨x, hx, hamount.trans ?_⟩
      rw [hmb] at h
      unfold payable
      rw [hexact mb hmb]
      show (if decide (_ < cfg.minRefund) = true then _ else _) = _
      by_cases hdust : Pricing.roundCoins cfg (hoursLeft claim now * mb * claim.rateLocked *
          cappedCopies cfg (.fin claim.copiesRequested)) < cfg.minRefund
      · rw [if_pos (decide_eq_true hdust)]
        have hquote := (if_pos hdust).symm.trans h
        cases hquote
        rfl
      · rw [if_neg (by simpa using hdust)]
        have hquote := (if_neg hdust).symm.trans h
        cases hquote
        rfl

/-- Refunds pay what the row says. -/
def PaysOwed (cfg : Config) (claim : Claim) : Prop :=
  ∀ now, ∃ quote, calculateRefund cfg claim now = .ok quote ∧
    quote.amount = owedRefund cfg claim now

/-- That is so for a permanent claim exactly if it is owed nothing. -/
theorem paysOwed_permanent (hp : isPermanent claim.expiryTs = true) :
    PaysOwed cfg claim ↔ ∀ hours, 1 ≤ hours → hours < claim.paidHours →
      Unpaid cfg (rowProduct claim hours) := by
  have hnothing : Unpaid cfg (rowProduct claim 0) := by
    right
    unfold rowProduct
    rw [product_zero]
    exact SameStep.refl _ _
  rw [← forall_hoursLeft hnothing]
  refine forall_congr' (fun now => ?_)
  have howed : Rounded (rowProduct claim (hoursLeft claim now)) := rounded_product _ _ _ _
  rw [← payable_eq_zero_iff howed, calculateRefund_permanent hp]
  constructor
  · rintro ⟨quote, hquote, hamount⟩
    cases hquote
    exact hamount.symm
  · intro h
    exact ⟨_, rfl, h.symm⟩

/-- For a timed claim the megabytes and the copies must be the row's, or make no difference. -/
theorem paysOwed_timed {mb : Int} (hp : isPermanent claim.expiryTs = false)
    (hmb : billableMB cfg claim.sizeBytes = .ok mb) :
    PaysOwed cfg claim ↔ ∀ hours, 1 ≤ hours → hours < claim.paidHours →
      Hidden cfg
        (product hours mb claim.rateLocked (cappedCopies cfg (.fin claim.copiesRequested)))
        (rowProduct claim hours) := by
  have hnothing : Hidden cfg
      (product 0 mb claim.rateLocked (cappedCopies cfg (.fin claim.copiesRequested)))
      (rowProduct claim 0) := by
    left
    unfold rowProduct
    rw [product_zero, product_zero]
    exact SameStep.refl _ _
  rw [← forall_hoursLeft hnothing]
  refine forall_congr' (fun now => ?_)
  have howed : Rounded (rowProduct claim (hoursLeft claim now)) := rounded_product _ _ _ _
  rw [← payable_eq_iff (rounded_product _ _ _ _) howed]
  obtain ⟨quote, hquote, hamount⟩ := calculateRefund_timed hp hmb now
  rw [← hamount]
  constructor
  · rintro ⟨quote', hquote', howed⟩
    rw [hquote] at hquote'
    cases hquote'
    exact howed
  · intro h
    exact ⟨quote, hquote, h⟩

/-- Refunds pay what the row says exactly if the claim is billed for what it was bought at. -/
theorem paysOwed_iff : PaysOwed cfg claim ↔ BillsAlike cfg claim := by
  cases hp : isPermanent claim.expiryTs with
  | true =>
    rw [paysOwed_permanent hp]
    constructor
    · intro h
      refine ⟨fun _ => h, fun ht => ?_⟩
      rw [hp] at ht
      cases ht
    · intro h
      exact h.permanent hp
  | false =>
    constructor
    · intro h
      refine ⟨fun ht => ?_, fun _ => ?_⟩
      · rw [hp] at ht
        cases ht
      cases hmb : billableMB cfg claim.sizeBytes with
      | error e =>
        obtain ⟨quote, hquote, _⟩ := h 0
        unfold calculateRefund at hquote
        rw [hp, hmb] at hquote
        cases hquote
      | ok mb => exact ⟨mb, rfl, Or.inr ((paysOwed_timed hp hmb).mp h)⟩
    · intro h
      obtain ⟨mb, hmb, hcase⟩ := h.timed hp
      refine (paysOwed_timed hp hmb).mpr (fun hours h₁ h₂ => ?_)
      rcases hcase with ⟨rfl, hcopies⟩ | hhidden
      · left
        rw [hcopies]
        exact (roundCoins_eq_iff (rounded_product _ _ _ _) (rounded_product _ _ _ _)).mp rfl
      · exact hhidden hours h₁ h₂

/-- What is owed depends on the rounding floor and on `MIN_REFUND` only. -/
theorem owedRefund_congr {a b : Config} (hplaces : a.coinPlaces = b.coinPlaces)
    (hmin : a.minRefund = b.minRefund) (claim : Claim) (now : Int) :
    owedRefund a claim now = owedRefund b claim now := by
  have hround : roundCoins a = roundCoins b := by
    funext x
    unfold roundCoins
    rw [hplaces]
  have hdust : isDust a = isDust b := by
    funext x
    unfold isDust
    rw [hmin]
  unfold owedRefund payable
  rw [hround, hdust]

end Refund

section Sampled

open Sample

/-- Alice's file, for a day from time zero. -/
def hostedRow : Claim where
  claimId := 1
  orderId := 1
  cid := "bafy"
  owner := "alice"
  pinId := some 1
  sizeBytes := 100
  sizeMB := 1
  rateLocked := 1
  paidHours := 24
  copiesRequested := 1
  kind := .original
  state := .active
  amountPaid := 24
  currency := "SWAP.HIVE"
  paymentId := 1
  startTs := 0
  expiryTs := 86400000
  createdTs := 0
  pledgeOrder := none
  pledgeBudget := none

/-- The gate after its operator counts a megabyte for every ten bytes. -/
def smallMB : Config := { config with mbDivisor := 10, mbDivisor_pos := by decide }

/-- The gate after its operator has doubled the rate and added two nodes. -/
def dearer : Config :=
  { config with ratePerMBHour := 2, ratePerMBHour_nonneg := by norm_num, nodeCount := 3 }

end Sampled

end IpfsGate.Server
