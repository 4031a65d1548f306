import IpfsGate.Server.Backing

/-!
# Refunds against what the top-ups paid

The first total and every extension charge are rounded one by one; a refund is rounded once,
over all the hours that are left. What rounding takes off the charges is therefore hosted for
free and can come back as a refund. It stays harmless while it is less than the price of the
one hour that no refund returns.
-/
namespace IpfsGate.TopUps

open Quota Pricing Server
open Lib (Number OnGrid onGrid_zero onGrid_roundTo roundTo_mono roundTo_nonneg roundTo_le_iff)

/-- `roundCoins(size_mb * extra_hrs * rate_locked * copies_requested)`, in exact arithmetic. -/
def extensionCharge (cfg : Config) (claim : Claim) (extraHours : Int) : Coins :=
  roundCoins cfg (claim.sizeMB * extraHours * claim.rateLocked * claim.copiesRequested)

/-- The total of a quote, in exact arithmetic. -/
def quotedTotal (cfg : Config) (q : Quote) : Coins :=
  roundCoins cfg (q.billableMB * q.billableHrs * q.rate * q.copies)

/-- The row that an extension writes. -/
def extended (claim : Claim) (extraHours : Int) : Claim :=
  extendedClaim claim.claimId (claim.paidHours + extraHours)
    (claim.expiryTs + extraHours * hourMs) claim

def toppedUp (claim : Claim) (hours : List Int) : Claim := hours.foldl extended claim

/-- What the extensions cost, each on the row that the ones before it left. -/
def charges (cfg : Config) : Claim → List Int → Coins
  | _, [] => 0
  | claim, extraHours :: rest =>
    extensionCharge cfg claim extraHours + charges cfg (extended claim extraHours) rest

/-- All the payments of a claim: the quote's total and the extension charges. -/
def totalPaid (cfg : Config) (q : Quote) (claim : Claim) (hours : List Int) : Coins :=
  quotedTotal cfg q + charges cfg claim hours

/-- The row of a timed claim that was bought at a quote. -/
structure Bought (cfg : Config) (sizeBytes : Nat) (hours copies : Number) (rate : ℚ) (q : Quote)
    (c : Claim) : Prop where
  quoted : calculateCost cfg sizeBytes hours copies rate = .ok q
  rate_nonneg : 0 ≤ rate
  sizeBytes : c.sizeBytes = sizeBytes
  sizeMB : c.sizeMB = q.billableMB
  rateLocked : c.rateLocked = q.rate
  paidHours : c.paidHours = q.billableHrs
  copies : c.copiesRequested = q.copies
  timed : c.expiryTs = c.startTs + c.paidHours * hourMs

/-- At any time the refund is at most what was paid. -/
def RefundCovered (cfg : Config) (q : Quote) (c : Claim) (hours : List Int) : Prop :=
  ∀ now, ∃ r, calculateRefund cfg (toppedUp c hours) now = .ok r ∧
    r.amount ≤ totalPaid cfg q c hours

def hourPrice (c : Claim) : ℚ := c.sizeMB * c.rateLocked * c.copiesRequested

/-- What rounding has taken off the charges so far; negative when it has added to them. -/
def roundingLoss (cfg : Config) (q : Quote) (c : Claim) (hours : List Int) : ℚ :=
  hourPrice c * (toppedUp c hours).paidHours - totalPaid cfg q c hours

def halfStep (cfg : Config) : ℚ := 1 / 2 / 10 ^ cfg.coinPlaces

/-- Rounding has lost less than one hour's price and half a rounding step, or the claim has
become permanent, or all its hours but one are too little to refund. -/
def LossCovered (cfg : Config) (q : Quote) (c : Claim) (hours : List Int) : Prop :=
  isPermanent (toppedUp c hours).expiryTs = true ∨
    roundCoins cfg (hourPrice c * ((toppedUp c hours).paidHours - 1)) < cfg.minRefund ∨
    roundingLoss cfg q c hours < hourPrice c + halfStep cfg

/-! ## Exact and overflowing amounts -/

theorem roundCoinsNum_product {cfg : Config} {a b c d x : ℚ}
    (h : roundCoinsNum cfg ((((Number.fin a).mul (.fin b)).mul (.fin c)).mul (.fin d)) = .fin x) :
    x = roundCoins cfg (a * b * c * d) := by
  cases hp : (((Number.fin a).mul (.fin b)).mul (.fin c)).mul (.fin d) with
  | fin y =>
    rw [hp] at h
    rw [← Number.product_eq hp]
    exact (Number.fin.inj h).symm
  | _ =>
    rw [hp] at h
    cases h

/-- The total that the gate asks for, where it is finite. -/
theorem total_eq_quotedTotal {cfg : Config} {sizeBytes : Nat} {hours copies : Number} {rate x : ℚ}
    {q : Quote} (h : calculateCost cfg sizeBytes hours copies rate = .ok q)
    (hx : q.total = .fin x) : x = quotedTotal cfg q := by
  unfold calculateCost at h
  obtain ⟨mb, _, h⟩ := ok_of_bind h
  obtain ⟨hrs, _, h⟩ := ok_of_bind h
  cases h
  exact roundCoinsNum_product hx

/-- The charge of the route, where it is finite. -/
theorem extensionCost_eq {cfg : Config} {claim : Claim} {extraHours : Int} {x : ℚ}
    (h : extensionCost cfg claim extraHours = .fin x) :
    x = extensionCharge cfg claim extraHours :=
  roundCoinsNum_product h

/-! ## The row after extensions -/

section Rows

variable {cfg : Config} {c : Claim}

theorem extended_eq (c : Claim) (extraHours : Int) :
    extended c extraHours = { c with
      paidHours := c.paidHours + extraHours, expiryTs := c.expiryTs + extraHours * hourMs } :=
  if_pos rfl

/-- Extensions change the hours of a row and its expiry. -/
theorem toppedUp_eq (c : Claim) (hours : List Int) :
    toppedUp c hours = { c with
      paidHours := c.paidHours + hours.sum, expiryTs := c.expiryTs + hours.sum * hourMs } := by
  induction hours generalizing c with
  | nil => simp [toppedUp]
  | cons e rest ih =>
    change toppedUp (extended c e) rest = _
    rw [ih, extended_eq, List.sum_cons, Int.add_mul]
    simp only [Int.add_assoc]

theorem extensionCharge_nonneg {extraHours : Int} (hprice : 0 ≤ hourPrice c)
    (he : 0 ≤ extraHours) : 0 ≤ extensionCharge cfg c extraHours := by
  refine roundTo_nonneg _ ?_
  have hcast : (0 : ℚ) ≤ extraHours := by exact_mod_cast he
  have hmul : 0 ≤ hourPrice c * extraHours := mul_nonneg hprice hcast
  unfold hourPrice at hmul
  linarith

theorem charges_grid (hours : List Int) : OnGrid cfg.coinPlaces (charges cfg c hours) := by
  induction hours generalizing c with
  | nil => exact onGrid_zero _
  | cons e rest ih => exact (onGrid_roundTo _ _).add ih

theorem charges_nonneg {hours : List Int} (hprice : 0 ≤ hourPrice c) (he : ∀ e ∈ hours, 0 ≤ e) :
    0 ≤ charges cfg c hours := by
  induction hours generalizing c with
  | nil => exact le_refl 0
  | cons e rest ih =>
    have hfirst : 0 ≤ extensionCharge cfg c e :=
      extensionCharge_nonneg hprice (he e List.mem_cons_self)
    have hsame : hourPrice (extended c e) = hourPrice c := by
      rw [extended_eq]
      rfl
    have hrest : 0 ≤ charges cfg (extended c e) rest :=
      ih (hsame ▸ hprice) (fun x hx => he x (List.mem_cons_of_mem _ hx))
    change 0 ≤ _ + _
    linarith

end Rows

/-! ## The refund -/

section Refund

variable {cfg : Config} {sizeBytes : Nat} {hours copies : Number} {rate : ℚ} {q : Quote} {c : Claim}

theorem Bought.billable (h : Bought cfg sizeBytes hours copies rate q c) :
    billableMB cfg c.sizeBytes = .ok c.sizeMB ∧ 1 ≤ c.sizeMB ∧ 1 ≤ c.paidHours ∧
      q.rate = rate ∧ cappedCopies cfg (.fin c.copiesRequested) = c.copiesRequested ∧
      1 ≤ c.copiesRequested := by
  have hq := h.quoted
  unfold calculateCost at hq
  obtain ⟨mb, hmb, hq⟩ := ok_of_bind hq
  obtain ⟨hrs, hhrs, hq⟩ := ok_of_bind hq
  cases hq
  have hcopies := cappedCopies_range cfg copies
  rw [h.sizeBytes, h.sizeMB, h.paidHours, h.copies]
  exact ⟨hmb, (billableMB_ok hmb).2, billableHours_ok hhrs, rfl,
    cappedCopies_of_range cfg hcopies.1 hcopies.2, hcopies.1⟩

theorem Bought.hourPrice_nonneg (h : Bought cfg sizeBytes hours copies rate q c) :
    0 ≤ hourPrice c := by
  obtain ⟨_, hmb, _, hrate, _, hcps⟩ := h.billable
  have hmb' : (0 : ℚ) ≤ c.sizeMB := by exact_mod_cast (by omega : (0 : Int) ≤ c.sizeMB)
  have hcps' : (0 : ℚ) ≤ c.copiesRequested := by
    exact_mod_cast (by omega : (0 : Int) ≤ c.copiesRequested)
  have hrate' : 0 ≤ c.rateLocked := by
    rw [h.rateLocked, hrate]
    exact h.rate_nonneg
  unfold hourPrice
  positivity

theorem Bought.total_nonneg (h : Bought cfg sizeBytes hours copies rate q c) :
    0 ≤ quotedTotal cfg q := by
  refine roundTo_nonneg _ ?_
  have hprice := h.hourPrice_nonneg
  have hhours : (0 : ℚ) ≤ c.paidHours := by
    exact_mod_cast (by have := h.billable.2.2.1; omega : (0 : Int) ≤ c.paidHours)
  have hmul := mul_nonneg hprice hhours
  unfold hourPrice at hmul
  rw [h.sizeMB, h.rateLocked, h.copies, h.paidHours] at hmul
  linarith

/-- The hours an active claim has used by a time. -/
def hoursUsed (c : Claim) (now : Int) : Int := max 1 ⌈((now - c.startTs : Int) : ℚ) / hourMs⌉

/-- What the hours left at a time are worth, before the dust is dropped. -/
def rawRefund (cfg : Config) (c : Claim) (now : Int) : ℚ :=
  roundCoins cfg ((max (c.paidHours - hoursUsed c now) 0 : Int) * c.sizeMB * c.rateLocked *
    c.copiesRequested)

/-- The most a refund can come to: every hour but one. -/
def firstRefund (cfg : Config) (c : Claim) : ℚ :=
  roundCoins cfg (hourPrice c * (c.paidHours - 1))

/-- A row that is billed by its own size and copies. -/
structure Billed (cfg : Config) (c : Claim) : Prop where
  sizeMB : billableMB cfg c.sizeBytes = .ok c.sizeMB
  copies : cappedCopies cfg (.fin c.copiesRequested) = c.copiesRequested
  paidHours : 1 ≤ c.paidHours
  price_nonneg : 0 ≤ hourPrice c

theorem Bought.billed (h : Bought cfg sizeBytes hours copies rate q c) {extra : List Int}
    (he : ∀ e ∈ extra, 1 ≤ e) : Billed cfg (toppedUp c extra) := by
  obtain ⟨hmb, _, hhours, _, hcps, _⟩ := h.billable
  have hsum : 0 ≤ extra.sum := List.sum_nonneg (fun e hm => by have := he e hm; omega)
  rw [toppedUp_eq]
  refine ⟨hmb, hcps, ?_, h.hourPrice_nonneg⟩
  change 1 ≤ c.paidHours + extra.sum
  omega

theorem Billed.refund (h : Billed cfg c) (now : Int) :
    ∃ r, calculateRefund cfg c now = .ok r ∧
      r.amount = if isPermanent c.expiryTs = true ∨ rawRefund cfg c now < cfg.minRefund then 0
        else rawRefund cfg c now := by
  unfold calculateRefund
  by_cases hperm : isPermanent c.expiryTs = true
  · rw [if_pos hperm, if_pos (Or.inl hperm)]
    exact ⟨_, rfl, rfl⟩
  rw [if_neg hperm, h.sizeMB, h.copies]
  by_cases hdust : rawRefund cfg c now < cfg.minRefund
  · rw [if_pos (Or.inr hdust)]
    exact ⟨_, if_pos hdust, rfl⟩
  · rw [if_neg (not_or.mpr ⟨hperm, hdust⟩)]
    exact ⟨_, if_neg hdust, rfl⟩

/-- No time refunds more than the first hour does. -/
theorem Billed.rawRefund_le (h : Billed cfg c) (now : Int) :
    rawRefund cfg c now ≤ firstRefund cfg c := by
  refine roundTo_mono _ ?_
  have hused : 1 ≤ hoursUsed c now := le_max_left _ _
  have hhours := h.paidHours
  have hleft : max (c.paidHours - hoursUsed c now) 0 ≤ c.paidHours - 1 := by omega
  have hcast : ((max (c.paidHours - hoursUsed c now) 0 : Int) : ℚ) ≤ c.paidHours - 1 := by
    exact_mod_cast hleft
  have hmul := mul_le_mul_of_nonneg_left hcast h.price_nonneg
  unfold hourPrice at hmul ⊢
  linarith

theorem Billed.rawRefund_start (h : Billed cfg c) : rawRefund cfg c c.startTs = firstRefund cfg c := by
  have hused : hoursUsed c c.startTs = 1 := by simp [hoursUsed]
  have hhours := h.paidHours
  have hleft : max (c.paidHours - 1) 0 = c.paidHours - 1 := by omega
  unfold rawRefund firstRefund hourPrice
  rw [hused, hleft]
  push_cast
  congr 1
  ring

/-- The refunds of a row stay within an amount when the first one does. -/
theorem Billed.refund_le_iff (h : Billed cfg c) {paid : ℚ} (hpaid : 0 ≤ paid) :
    (∀ now, ∃ r, calculateRefund cfg c now = .ok r ∧ r.amount ≤ paid) ↔
      isPermanent c.expiryTs = true ∨ firstRefund cfg c < cfg.minRefund ∨
        firstRefund cfg c ≤ paid := by
  constructor
  · intro hall
    obtain ⟨r, hr, hle⟩ := hall c.startTs
    obtain ⟨r', hr', hamount⟩ := h.refund c.startTs
    rw [hr] at hr'
    cases hr'
    rw [hamount, h.rawRefund_start] at hle
    by_cases hzero : isPermanent c.expiryTs = true ∨ firstRefund cfg c < cfg.minRefund
    · rw [← or_assoc]
      exact Or.inl hzero
    · rw [if_neg hzero] at hle
      exact Or.inr (Or.inr hle)
  · intro hcov now
    obtain ⟨r, hr, hamount⟩ := h.refund now
    refine ⟨r, hr, ?_⟩
    have hle := h.rawRefund_le now
    rw [hamount]
    split
    · exact hpaid
    · rename_i hnot
      obtain ⟨hperm, hdust⟩ := not_or.mp hnot
      rcases hcov with hc | hc | hc
      · exact absurd hc hperm
      · exact absurd (lt_of_le_of_lt hle hc) hdust
      · exact hle.trans hc

theorem refundCovered_iff (h : Bought cfg sizeBytes hours copies rate q c) {extra : List Int}
    (he : ∀ e ∈ extra, 1 ≤ e) : RefundCovered cfg q c extra ↔ LossCovered cfg q c extra := by
  have hbilled := h.billed he
  have hcharges : 0 ≤ charges cfg c extra :=
    charges_nonneg h.hourPrice_nonneg (fun e hm => by have := he e hm; omega)
  have hpaid : 0 ≤ totalPaid cfg q c extra := add_nonneg h.total_nonneg hcharges
  have hgrid : OnGrid cfg.coinPlaces (totalPaid cfg q c extra) :=
    (onGrid_roundTo _ _).add (charges_grid extra)
  have hprice : hourPrice (toppedUp c extra) = hourPrice c := by
    rw [toppedUp_eq]
    rfl
  have hhours : (0 : ℚ) ≤ (toppedUp c extra).paidHours - 1 := by
    have hone : (1 : ℚ) ≤ (toppedUp c extra).paidHours := by exact_mod_cast hbilled.paidHours
    linarith
  have hexact : 0 ≤ hourPrice c * ((toppedUp c extra).paidHours - 1) :=
    mul_nonneg h.hourPrice_nonneg hhours
  have hfirst : firstRefund cfg (toppedUp c extra) ≤ totalPaid cfg q c extra ↔
      roundingLoss cfg q c extra < hourPrice c + halfStep cfg := by
    unfold firstRefund roundingLoss halfStep
    rw [hprice]
    refine (roundTo_le_iff hexact hgrid).trans ?_
    constructor
    · intro hlt
      linarith
    · intro hlt
      linarith
  unfold RefundCovered LossCovered
  rw [hbilled.refund_le_iff hpaid, hfirst]
  unfold firstRefund
  rw [hprice]

end Refund

/-- After every prefix of the extensions no refund exceeds what was paid, exactly when after
every prefix the loss by rounding is covered. -/
theorem refunds_within_payments (cfg : Config) (sizeBytes : Nat) (hours copies : Number) (rate : ℚ)
    (q : Quote) (c : Claim) (h : Bought cfg sizeBytes hours copies rate q c) (extra : List Int)
    (he : ∀ e ∈ extra, 1 ≤ e) :
    (∀ first, first <+: extra → RefundCovered cfg q c first) ↔
      ∀ first, first <+: extra → LossCovered cfg q c first := by
  have hiff : ∀ first, first <+: extra →
      (RefundCovered cfg q c first ↔ LossCovered cfg q c first) :=
    fun first hfirst => refundCovered_iff h (fun e hm => he e (hfirst.subset hm))
  constructor
  · exact fun hall first hfirst => (hiff first hfirst).mp (hall first hfirst)
  · exact fun hall first hfirst => (hiff first hfirst).mpr (hall first hfirst)

section Sampled

open Sample

/-- Less than half a thousandth of a token for each megabyte hour, paid out in thousandths. -/
def cheap : Config :=
  { config with ratePerMBHour := 49 / 100000, ratePerMBHour_nonneg := by decide +kernel, minRefund := 1 / 20 }

/-- A hundred bytes at a quote. -/
def claimAt (q : Quote) : Claim :=
  { claimId := 1, orderId := 1, cid := "bafy", owner := "alice", pinId := some 1, sizeBytes := 100,
    sizeMB := q.billableMB, rateLocked := q.rate, paidHours := q.billableHrs,
    copiesRequested := q.copies, kind := .original, state := .active, amountPaid := 0,
    currency := "SWAP.HIVE", paymentId := 1, startTs := 0, expiryTs := q.billableHrs * hourMs,
    createdTs := 0, pledgeOrder := none, pledgeBudget := none }

def hourQuote (rate : ℚ) (total : ℚ) : Quote :=
  { billableMB := 1, billableHrs := 1, copies := 1, rate, total := .fin total }

theorem bought_config : Bought config 100 (.fin 1) (.fin 1) 1 (hourQuote 1 1) (claimAt (hourQuote 1 1)) :=
  ⟨by decide +kernel, by decide, rfl, rfl, rfl, rfl, rfl, by decide⟩

theorem refunds_within_payments_config :
    Bought config 100 (.fin 1) (.fin 1) 1 (hourQuote 1 1) (claimAt (hourQuote 1 1)) ∧
    ((∀ first, first <+: [5, 1] →
      RefundCovered config (hourQuote 1 1) (claimAt (hourQuote 1 1)) first) ↔
      ∀ first, first <+: [5, 1] →
        LossCovered config (hourQuote 1 1) (claimAt (hourQuote 1 1)) first) :=
  ⟨bought_config, refunds_within_payments config 100 (.fin 1) (.fin 1) 1 _ _ bought_config [5, 1]
    (by decide)⟩

/-- One hour and a hundred and twenty extensions by an hour, none of which costs anything. -/
theorem refund_of_nothing :
    ¬ ∀ (cfg : Config) (sizeBytes : Nat) (hours copies : Number) (rate : ℚ) (q : Quote) (c : Claim)
      (extra : List Int), Bought cfg sizeBytes hours copies rate q c → (∀ e ∈ extra, 1 ≤ e) →
      ∀ first, first <+: extra → RefundCovered cfg q c first := by
  intro hall
  have hbought : Bought cheap 100 (.fin 1) (.fin 1) (49 / 100000) (hourQuote (49 / 100000) 0)
      (claimAt (hourQuote (49 / 100000) 0)) :=
    ⟨by decide +kernel, by decide +kernel, rfl, rfl, rfl, rfl, rfl, by decide⟩
  obtain ⟨r, hr, hle⟩ := hall cheap 100 (.fin 1) (.fin 1) (49 / 100000) _ _
    (List.replicate 120 1) hbought (by decide) _ (List.prefix_refl _) 0
  have hpaid : totalPaid cheap (hourQuote (49 / 100000) 0)
      (claimAt (hourQuote (49 / 100000) 0)) (List.replicate 120 1) = 0 := by decide +kernel
  have hrefund : calculateRefund cheap (toppedUp (claimAt (hourQuote (49 / 100000) 0))
      (List.replicate 120 1)) 0 = .ok { hoursUsed := 1, hoursRefunded := 120, amount := 59 / 1000, dust := false } := by
    decide +kernel
  rw [hrefund] at hr
  cases hr
  rw [hpaid] at hle
  exact absurd hle (by norm_num)

end Sampled

end IpfsGate.TopUps
