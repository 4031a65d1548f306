import IpfsGate.QuotaFacts
import IpfsGate.Server.Runs

/-!
# The refund of a claim over time

The refund of a running claim is a composition of monotone steps: the hours used grow with the
clock, the hours left shrink with them, their price is rounded, and an amount under the dust
threshold is dropped.
-/
namespace IpfsGate.RefundCurve

open Quota Pricing
open Lib (roundTo_mono roundTo_nonneg roundTo_zero)

/-- The claim row of a running claim of a gate with timed hosting. -/
structure Metered (c : Claim) : Prop where
  size_pos : 0 < c.sizeBytes
  rate_nonneg : 0 ≤ c.rateLocked
  paidHours : 1 ≤ c.paidHours
  timed : isPermanent c.expiryTs = false

/-- What cancelling the claim at a time refunds. -/
def Refunds (cfg : Config) (c : Claim) (now : Int) (amount : Coins) : Prop :=
  ∃ r, calculateRefund cfg c now = .ok r ∧ r.amount = amount

/-- The hours that cancelling at a time gives back. -/
def hoursLeft (c : Claim) (now : Int) : Int :=
  max (c.paidHours - max 1 ⌈((now - c.startTs : Int) : ℚ) / hourMs⌉) 0

/-- The rounded price of so many hours of a claim. -/
def worth (cfg : Config) (mb : Int) (c : Claim) (hours : Int) : Coins :=
  roundCoins cfg (hours * mb * c.rateLocked * cappedCopies cfg (.fin c.copiesRequested))

/-- Dust is not refunded. -/
def settled (cfg : Config) (amount : Coins) : Coins := if amount < cfg.minRefund then 0 else amount

/-! ## The steps -/

section Steps

variable {cfg : Config} {c : Claim} {mb : Int} {now now' : Int}

theorem settled_mono {x y : Coins} (hx : 0 ≤ x) (hxy : x ≤ y) : settled cfg x ≤ settled cfg y := by
  unfold settled
  split
  · split
    · exact le_refl 0
    · exact hx.trans hxy
  · rename_i hdust
    have hdust' : ¬ y < cfg.minRefund := fun h => hdust (lt_of_le_of_lt hxy h)
    rw [if_neg hdust']
    exact hxy

theorem settled_zero : settled cfg 0 = 0 := by simp [settled]

theorem hourMs_pos : (0 : ℚ) < hourMs := by norm_num [hourMs]

theorem hoursLeft_nonneg : 0 ≤ hoursLeft c now := le_max_right _ _

theorem hoursLeft_anti (h : now ≤ now') : hoursLeft c now' ≤ hoursLeft c now := by
  have hcast : ((now - c.startTs : Int) : ℚ) ≤ (now' - c.startTs : Int) := by
    exact_mod_cast (by omega : now - c.startTs ≤ now' - c.startTs)
  have hceil := Int.ceil_mono (div_le_div_of_nonneg_right hcast hourMs_pos.le)
  unfold hoursLeft
  omega

/-- The last paid hour is never given back. -/
theorem hoursLeft_late (h : c.startTs + (c.paidHours - 1) * hourMs < now) : hoursLeft c now = 0 := by
  have hcast : ((c.paidHours - 1 : Int) : ℚ) * hourMs < (now - c.startTs : Int) := by
    exact_mod_cast (by omega : (c.paidHours - 1) * hourMs < now - c.startTs)
  have hlt := (lt_div_iff₀ hourMs_pos).mpr hcast
  have hceil : c.paidHours - 1 < ⌈((now - c.startTs : Int) : ℚ) / hourMs⌉ := Int.lt_ceil.mpr hlt
  unfold hoursLeft
  omega

theorem hoursLeft_paid (c : Claim) (now : Int) {hours : Int} (h : c.paidHours ≤ hours) :
    hoursLeft c now ≤ hoursLeft { c with paidHours := hours } now := by
  unfold hoursLeft
  dsimp only
  omega

theorem copies_nonneg (cfg : Config) (c : Claim) :
    (0 : ℚ) ≤ cappedCopies cfg (.fin c.copiesRequested) := by
  have hone := (cappedCopies_range cfg (.fin c.copiesRequested)).1
  exact_mod_cast (by omega : 0 ≤ cappedCopies cfg (.fin c.copiesRequested))

theorem worth_mono (hmb : 1 ≤ mb) (hrate : 0 ≤ c.rateLocked) {hours hours' : Int}
    (h : hours ≤ hours') : worth cfg mb c hours ≤ worth cfg mb c hours' := by
  have hmb' : (0 : ℚ) ≤ mb := by exact_mod_cast (by omega : 0 ≤ mb)
  have hcast : (hours : ℚ) ≤ hours' := by exact_mod_cast h
  have hcopies := copies_nonneg cfg c
  apply roundTo_mono
  gcongr

theorem worth_zero : worth cfg mb c 0 = 0 := by simp [worth, roundCoins]

theorem worth_nonneg (hmb : 1 ≤ mb) (hrate : 0 ≤ c.rateLocked) :
    0 ≤ worth cfg mb c (hoursLeft c now) := by
  calc 0 = worth cfg mb c 0 := worth_zero.symm
    _ ≤ worth cfg mb c (hoursLeft c now) := worth_mono hmb hrate hoursLeft_nonneg

end Steps

/-! ## The composition -/

section Curve

variable {cfg : Config} {c c' : Claim}

/-- The refund of a metered claim is the settled worth of the hours left. -/
theorem Metered.refunds_iff (h : Metered c) {mb : Int} (hmb : billableMB cfg c.sizeBytes = .ok mb)
    {now : Int} {amount : Coins} :
    Refunds cfg c now amount ↔ amount = settled cfg (worth cfg mb c (hoursLeft c now)) := by
  have hrun : ∃ r, calculateRefund cfg c now = .ok r ∧
      r.amount = settled cfg (worth cfg mb c (hoursLeft c now)) := by
    unfold calculateRefund
    rw [h.timed, hmb, if_neg Bool.false_ne_true]
    unfold settled
    by_cases hdust : worth cfg mb c (hoursLeft c now) < cfg.minRefund
    · rw [if_pos hdust]
      exact ⟨_, if_pos hdust, rfl⟩
    · rw [if_neg hdust]
      exact ⟨_, if_neg hdust, rfl⟩
  obtain ⟨r, hr, hamount⟩ := hrun
  constructor
  · rintro ⟨r', hr', rfl⟩
    rw [hr] at hr'
    cases hr'
    exact hamount
  · rintro rfl
    exact ⟨r, hr, hamount⟩

/-- Between two rows of one size, rate and number of copies, the one with more hours left refunds
more. -/
theorem refunds_of_hoursLeft (h : Metered c) (h' : Metered c') (hsize : c'.sizeBytes = c.sizeBytes)
    (hrate : c'.rateLocked = c.rateLocked) (hcopies : c'.copiesRequested = c.copiesRequested)
    {now now' : Int} (hleft : hoursLeft c now ≤ hoursLeft c' now') :
    ∃ a b, Refunds cfg c now a ∧ Refunds cfg c' now' b ∧ a ≤ b := by
  obtain ⟨mb, hmb⟩ := billableMB_of_pos cfg h.size_pos
  have hone := (billableMB_ok hmb).2
  have hworth : worth cfg mb c' (hoursLeft c' now') = worth cfg mb c (hoursLeft c' now') := by
    unfold worth
    rw [hrate, hcopies]
  refine ⟨_, _, (h.refunds_iff hmb).mpr rfl, (h'.refunds_iff (hsize ▸ hmb)).mpr rfl, ?_⟩
  rw [hworth]
  apply settled_mono (worth_nonneg hone h.rate_nonneg)
  exact worth_mono hone h.rate_nonneg hleft

/-- The row that an extension of a claim returns. -/
theorem extendClaim_row {db : Db} {owner : Account} {extraHours : Int} {out : Claim × Db}
    (hget : getClaim db c.claimId = some c)
    (hrun : extendClaim db c.claimId owner extraHours = .ok out) :
    out.1 = { c with
      paidHours := c.paidHours + extraHours, expiryTs := c.expiryTs + extraHours * hourMs } := by
  unfold extendClaim at hrun
  rw [hget] at hrun
  dsimp only at hrun
  split at hrun
  · cases hrun
  · split at hrun
    · cases hrun
    · cases hrun
      rfl

/-- Refunds do not grow with time, do not shrink with the paid hours, are zero once the last paid
hour has begun, and do not shrink when the claim is extended. -/
theorem refund_curve (cfg : Config) (h : Metered c) :
    (∀ now now', now ≤ now' → ∃ a b, Refunds cfg c now' a ∧ Refunds cfg c now b ∧ a ≤ b) ∧
    (∀ now hours, c.paidHours ≤ hours →
      ∃ a b, Refunds cfg c now a ∧ Refunds cfg { c with paidHours := hours } now b ∧ a ≤ b) ∧
    (∀ now, c.startTs + (c.paidHours - 1) * hourMs < now → Refunds cfg c now 0) ∧
    (∀ db owner extraHours out now, getClaim db c.claimId = some c → 0 ≤ extraHours →
      extendClaim db c.claimId owner extraHours = .ok out → isPermanent out.1.expiryTs = false →
      ∃ a b, Refunds cfg c now a ∧ Refunds cfg out.1 now b ∧ a ≤ b) := by
  refine ⟨fun now now' hnow => ?_, fun now hours hhours => ?_, fun now hlate => ?_,
    fun db owner extraHours out now hget hextra hrun htimed => ?_⟩
  · exact refunds_of_hoursLeft h h rfl rfl rfl (hoursLeft_anti hnow)
  · have hmore : Metered { c with paidHours := hours } :=
      ⟨h.size_pos, h.rate_nonneg, h.paidHours.trans hhours, h.timed⟩
    exact refunds_of_hoursLeft h hmore rfl rfl rfl (hoursLeft_paid c now hhours)
  · obtain ⟨mb, hmb⟩ := billableMB_of_pos cfg h.size_pos
    rw [h.refunds_iff hmb, hoursLeft_late hlate, worth_zero, settled_zero]
  · have hrow := extendClaim_row hget hrun
    have hpaid := h.paidHours
    have hmore : Metered out.1 := by
      refine ⟨?_, ?_, ?_, htimed⟩
      · rw [hrow]; exact h.size_pos
      · rw [hrow]; exact h.rate_nonneg
      · rw [hrow]; change 1 ≤ c.paidHours + extraHours; omega
    have hleft : hoursLeft c now ≤ hoursLeft out.1 now := by
      rw [hrow]
      exact hoursLeft_paid c now (by omega)
    exact refunds_of_hoursLeft h hmore (by rw [hrow]) (by rw [hrow]) (by rw [hrow]) hleft

end Curve

section Sampled

open Server.Sample

/-- Ten hours of one megabyte at one token each. -/
def tenHours : Claim where
  claimId := 1
  orderId := 1
  cid := "bafy"
  owner := "alice"
  pinId := none
  sizeBytes := 100
  sizeMB := 1
  rateLocked := 1
  paidHours := 10
  copiesRequested := 1
  kind := .original
  state := .active
  amountPaid := 10
  currency := "SWAP.HIVE"
  paymentId := 1
  startTs := 0
  expiryTs := 10 * hourMs
  createdTs := 0
  pledgeOrder := none
  pledgeBudget := none

theorem metered_tenHours : Metered tenHours :=
  ⟨by decide, by decide, by decide, by decide⟩

theorem refund_curve_tenHours :
    (∃ a b, Refunds config tenHours (3 * hourMs) a ∧ Refunds config tenHours 0 b ∧ a ≤ b) ∧
      Refunds config tenHours (9 * hourMs + 1) 0 := by
  obtain ⟨htime, _, hlate, _⟩ := refund_curve config metered_tenHours
  exact ⟨htime 0 (3 * hourMs) (by decide), hlate _ (by decide)⟩

end Sampled

end IpfsGate.RefundCurve
