import IpfsGate.Server.Runs

/-!
# Refunds of pledges that never ran

The whole escrow goes back, less a fee. Both are rounded to the precision the gate pays out at,
while the escrow is the amount that was transferred, of any precision: rounding to the nearest
step can give back more than came in.
-/
namespace IpfsGate.Server

open Pricing
open Lib

/-- The amount of a transfer that is accepted as the payment of a quote. -/
def Accepted (cfg : Config) (amount : Coins) : Prop :=
  ∃ payload memo quote paid,
    validateTransferPayload cfg payload memo quote = .ok paid ∧ paid.amount.value = amount

/-- The escrow covers what a dormant claim can be refunded, and the fee that is kept. -/
structure WithinEscrow (cfg : Config) (claim : Claim) (feePct : ℚ) : Prop where
  amount : 0 ≤ (calculateDormantRefund cfg claim feePct).amount
  fee : 0 ≤ (calculateDormantRefund cfg claim feePct).fee
  total : (calculateDormantRefund cfg claim feePct).amount +
    (calculateDormantRefund cfg claim feePct).fee ≤ claim.amountPaid
  forced : ∀ policy innocent now, ∃ refund,
    forcedRefundAmount cfg claim policy innocent now = .ok refund ∧ refund ≤ claim.amountPaid

/-- The amount in units of the smallest coin the gate pays out. -/
def steps (cfg : Config) (amount : Coins) : ℚ := amount * 10 ^ cfg.coinPlaces

/-- The escrow is rounded down, or it is rounded up to what is still dust, and the fee is not
rounded up past the escrow. -/
def RoundsWithin (cfg : Config) (escrow : Coins) (feePct : ℚ) : Prop :=
  Int.fract (steps cfg escrow) < 1 / 2 ∨
    (⌈steps cfg escrow⌉ < steps cfg cfg.minRefund ∧
      steps cfg escrow * (feePct / 100) < ⌊steps cfg escrow⌋ + 1 / 2)

section Dormant

variable {cfg : Config} {claim : Claim} {feePct : ℚ}

variable (cfg) in
/-- The refund of an escrow, before and after the dust is filtered. -/
theorem calculateDormantRefund_of_pos (h : 0 < claim.amountPaid) (hpct : 0 ≤ feePct) :
    (calculateDormantRefund cfg claim feePct).fee =
        roundCoins cfg (claim.amountPaid * (feePct / 100)) ∧
      (calculateDormantRefund cfg claim feePct).amount =
        if roundCoins cfg (claim.amountPaid -
            roundCoins cfg (claim.amountPaid * (feePct / 100))) < cfg.minRefund then 0
        else roundCoins cfg (claim.amountPaid -
          roundCoins cfg (claim.amountPaid * (feePct / 100))) := by
  unfold calculateDormantRefund
  rw [if_neg (not_le.mpr h), max_eq_right hpct]
  dsimp only
  split <;> exact ⟨rfl, rfl⟩

/-- Without a fee the whole escrow is rounded and paid back. -/
theorem calculateDormantRefund_zero (h : 0 < claim.amountPaid) :
    (calculateDormantRefund cfg claim 0).amount =
      if roundCoins cfg claim.amountPaid < cfg.minRefund then 0
      else roundCoins cfg claim.amountPaid := by
  have hzero : roundCoins cfg (claim.amountPaid * (0 / 100)) = 0 := by
    rw [zero_div, mul_zero]
    exact roundTo_zero _
  rw [(calculateDormantRefund_of_pos cfg h le_rfl).2, hzero, sub_zero]

/-- A forced end of a dormant claim gives back everything or nothing. -/
theorem forced_dormant_iff (hstate : claim.state = .dormant) (he : 0 ≤ claim.amountPaid) :
    (∀ policy innocent now, ∃ refund,
        forcedRefundAmount cfg claim policy innocent now = .ok refund ∧
          refund ≤ claim.amountPaid) ↔
      (calculateDormantRefund cfg claim 0).amount ≤ claim.amountPaid := by
  constructor
  · intro h
    obtain ⟨refund, hrefund, hle⟩ := h .prorata true 0
    cases hrefund
    exact hle
  · intro hle policy innocent now
    cases innocent with
    | true => exact ⟨_, rfl, hle⟩
    | false =>
      cases policy with
      | none => exact ⟨0, rfl, he⟩
      | prorata =>
        refine ⟨_, ?_, hle⟩
        simp [forcedRefundAmount, hstate]
        rfl

variable (cfg) in
theorem fee_le_rounded (he : 0 ≤ claim.amountPaid) (h100 : feePct ≤ 100) :
    roundCoins cfg (claim.amountPaid * (feePct / 100)) ≤ roundCoins cfg claim.amountPaid := by
  refine roundTo_mono _ ?_
  have hle : feePct / 100 ≤ 1 := by linarith
  exact mul_le_of_le_one_right he hle

/-- What is left after the fee, when the fee is within the escrow. -/
theorem rest_eq (he : 0 ≤ claim.amountPaid)
    (hfee : roundCoins cfg (claim.amountPaid * (feePct / 100)) ≤ claim.amountPaid) :
    roundCoins cfg (claim.amountPaid - roundCoins cfg (claim.amountPaid * (feePct / 100))) =
      roundCoins cfg claim.amountPaid -
        roundCoins cfg (claim.amountPaid * (feePct / 100)) :=
  roundTo_sub (onGrid_roundTo _ _) hfee he

theorem roundCoins_le_iff (he : 0 ≤ claim.amountPaid) :
    roundCoins cfg claim.amountPaid ≤ claim.amountPaid ↔
      Int.fract (steps cfg claim.amountPaid) < 1 / 2 :=
  roundTo_le_self_iff he

theorem fee_le_iff (he : 0 ≤ claim.amountPaid) (hpct : 0 ≤ feePct) :
    roundCoins cfg (claim.amountPaid * (feePct / 100)) ≤ claim.amountPaid ↔
      steps cfg claim.amountPaid * (feePct / 100) <
        ⌊steps cfg claim.amountPaid⌋ + 1 / 2 := by
  have hnonneg : 0 ≤ claim.amountPaid * (feePct / 100) := by positivity
  refine (roundTo_le_iff_lt_floor hnonneg).trans ?_
  rw [mul_right_comm]
  exact Iff.rfl

/-- An escrow that is rounded up is dust if the next step is. -/
theorem dust_iff (he : 0 ≤ claim.amountPaid)
    (hup : ¬ Int.fract (steps cfg claim.amountPaid) < 1 / 2) :
    roundCoins cfg claim.amountPaid < cfg.minRefund ↔
      ⌈steps cfg claim.amountPaid⌉ < steps cfg cfg.minRefund := by
  have hs : (0 : ℚ) < 10 ^ cfg.coinPlaces := by positivity
  have hceil : roundCoins cfg claim.amountPaid =
      ⌈steps cfg claim.amountPaid⌉ / 10 ^ cfg.coinPlaces := roundTo_eq_ceil he (not_lt.mp hup)
  rw [hceil, div_lt_iff₀ hs]
  exact Iff.rfl

/-- Nothing was paid, and nothing is given back. -/
theorem within_escrow_of_zero (hstate : claim.state = .dormant) (hzero : claim.amountPaid = 0) :
    WithinEscrow cfg claim feePct := by
  have hnone : ∀ pct, calculateDormantRefund cfg claim pct =
      { amount := 0, fee := 0, dust := true } := fun _ => if_pos hzero.le
  refine ⟨?_, ?_, ?_, (forced_dormant_iff hstate hzero.ge).mpr ?_⟩
  · rw [hnone]
  · rw [hnone]
  · rw [hnone, hzero, add_zero]
  · rw [hnone]
    exact hzero.ge

/-- What is rounded down gives back no more than it is. -/
theorem within_escrow_of_down (hstate : claim.state = .dormant) (hpos : 0 < claim.amountPaid)
    (hpct : 0 ≤ feePct) (h100 : feePct ≤ 100)
    (hdown : Int.fract (steps cfg claim.amountPaid) < 1 / 2) : WithinEscrow cfg claim feePct := by
  obtain ⟨hfee, hrefund⟩ := calculateDormantRefund_of_pos cfg hpos hpct
  have he : 0 ≤ claim.amountPaid := hpos.le
  have hfeeNonneg : 0 ≤ roundCoins cfg (claim.amountPaid * (feePct / 100)) :=
    roundTo_nonneg _ (by positivity)
  have hfeeRounded := fee_le_rounded cfg he h100
  have hround := (roundCoins_le_iff he).mpr hdown
  have hrest := rest_eq he (hfeeRounded.trans hround)
  refine ⟨?_, ?_, ?_, (forced_dormant_iff hstate he).mpr ?_⟩
  · rw [hrefund, hrest]
    split
    · exact le_rfl
    · linarith
  · rw [hfee]
    exact hfeeNonneg
  · rw [hrefund, hrest, hfee]
    split
    · linarith
    · linarith
  · rw [calculateDormantRefund_zero hpos]
    split
    · exact he
    · exact hround

/-- What is rounded up must be dust, and its fee within the escrow. -/
theorem within_escrow_of_up (hstate : claim.state = .dormant) (hpos : 0 < claim.amountPaid)
    (hpct : 0 ≤ feePct) (hup : ¬ Int.fract (steps cfg claim.amountPaid) < 1 / 2) :
    WithinEscrow cfg claim feePct ↔ roundCoins cfg claim.amountPaid < cfg.minRefund ∧
      roundCoins cfg (claim.amountPaid * (feePct / 100)) ≤ claim.amountPaid := by
  obtain ⟨hfee, hrefund⟩ := calculateDormantRefund_of_pos cfg hpos hpct
  have he : 0 ≤ claim.amountPaid := hpos.le
  have hover : ¬ roundCoins cfg claim.amountPaid ≤ claim.amountPaid :=
    fun h => hup ((roundCoins_le_iff he).mp h)
  constructor
  · intro h
    constructor
    · -- the whole escrow is given back unless it is dust
      have hforced := (forced_dormant_iff hstate he).mp h.forced
      rw [calculateDormantRefund_zero hpos] at hforced
      by_contra hnot
      rw [if_neg hnot] at hforced
      exact hover hforced
    · have htotal := h.total
      have hamount := h.amount
      rw [hfee] at htotal
      linarith
  · rintro ⟨hdust, hfeeLe⟩
    have hrest := rest_eq he hfeeLe
    have hfeeNonneg : 0 ≤ roundCoins cfg (claim.amountPaid * (feePct / 100)) :=
      roundTo_nonneg _ (by positivity)
    have hamount : (calculateDormantRefund cfg claim feePct).amount = 0 := by
      rw [hrefund, hrest, if_pos (by linarith)]
    refine ⟨hamount.ge, ?_, ?_, (forced_dormant_iff hstate he).mpr ?_⟩
    · rw [hfee]
      exact hfeeNonneg
    · rw [hamount, hfee, zero_add]
      exact hfeeLe
    · rw [calculateDormantRefund_zero hpos, if_pos hdust]
      exact he

end Dormant

/-- The escrow of an accepted pledge covers its refunds exactly if its rounding does. -/
theorem within_escrow_iff (cfg : Config) (claim : Claim) (hstate : claim.state = .dormant)
    (hpaid : Accepted cfg claim.amountPaid) (feePct : ℚ) (hpct : 0 ≤ feePct)
    (h100 : feePct ≤ 100) :
    WithinEscrow cfg claim feePct ↔ RoundsWithin cfg claim.amountPaid feePct := by
  obtain ⟨_, _, _, paid, _, hamount⟩ := hpaid
  have he : 0 ≤ claim.amountPaid := hamount ▸ paid.amount.nonneg
  rcases he.eq_or_lt with hzero | hpos
  · refine iff_of_true (within_escrow_of_zero hstate hzero.symm) (Or.inl ?_)
    rw [← hzero, steps, zero_mul, Int.fract_zero]
    norm_num
  by_cases hdown : Int.fract (steps cfg claim.amountPaid) < 1 / 2
  · exact iff_of_true (within_escrow_of_down hstate hpos hpct h100 hdown) (Or.inl hdown)
  · rw [within_escrow_of_up hstate hpos hpct hdown, dust_iff he hdown, fee_le_iff he hpct]
    exact (or_iff_right hdown).symm

section Sampled

open Sample

/-- Bob's pledge of a day on a file of Alice, and what he transferred for it. -/
def pledgedByBob (escrow : Coins) : Claim where
  claimId := 2
  orderId := 2
  cid := "bafy"
  owner := "bob"
  pinId := none
  sizeBytes := 100
  sizeMB := 1
  rateLocked := 1
  paidHours := 24
  copiesRequested := 1
  kind := .guardian
  state := .dormant
  amountPaid := escrow
  currency := "SWAP.HIVE"
  paymentId := 2
  startTs := 0
  expiryTs := 0
  createdTs := 0
  pledgeOrder := some 1
  pledgeBudget := some escrow

/-- Everything from the quote of 24 tokens on is accepted. -/
theorem accepted_of_le {amount : Coins} (h : 24 ≤ amount) : Accepted config amount := by
  have hnonneg : 0 ≤ amount := by linarith
  let payload : TransferPayload :=
    { toAccount := "gate", symbol := "SWAP.HIVE", quantity := some ⟨amount, hnonneg⟩,
      memo := "ipfs-gate:guardian:bafy" }
  refine ⟨some payload, "ipfs-gate:guardian:bafy", .fin 24, ⟨⟨amount, hnonneg⟩, "SWAP.HIVE"⟩, ?_,
    rfl⟩
  simp [validateTransferPayload, payload, config, covers, h]

theorem within_escrow_day : WithinEscrow config (pledgedByBob 24) 0 := by
  refine (within_escrow_iff config (pledgedByBob 24) rfl (accepted_of_le le_rfl) 0 le_rfl
    (by norm_num)).mpr (Or.inl ?_)
  have hwhole : steps config (pledgedByBob 24).amountPaid = (24000 : ℤ) := by
    norm_num [steps, config, pledgedByBob]
  rw [hwhole, Int.fract_intCast]
  norm_num

/-- More than half a step above the quote: 24.0006 tokens come in, and 24.001 go back. -/
theorem escrow_exceeded : Accepted config (120003 / 5000) ∧
    (calculateDormantRefund config (pledgedByBob (120003 / 5000)) 0).amount = 24001 / 1000 ∧
    ¬ WithinEscrow config (pledgedByBob (120003 / 5000)) 0 := by
  have hamount : (calculateDormantRefund config (pledgedByBob (120003 / 5000)) 0).amount =
      24001 / 1000 := by decide +kernel
  have hfee : (calculateDormantRefund config (pledgedByBob (120003 / 5000)) 0).fee = 0 := by
    decide +kernel
  refine ⟨accepted_of_le (by norm_num), hamount, fun h => ?_⟩
  have htotal := h.total
  rw [hamount, hfee] at htotal
  norm_num [pledgedByBob] at htotal

end Sampled

end IpfsGate.Server
