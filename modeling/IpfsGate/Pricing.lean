import IpfsGate.Schema

/-!
# The pricing engine

`total = billable MB × billable hours × rate × copies`, rounded to the precision the gate
can pay out. Quotes follow JavaScript numbers as far as overflow: a product past the largest
double is `Infinity`. Refunds are exact, since they never exceed a finite payment.
-/
namespace IpfsGate

open Lib (Number roundTo)

/-- The operator's knobs (environment variables, fixed while the process runs) and the
functions the gate calls but does not define: letter case, key signatures and file hashes.
A file is named by its CID, so `byteCount` is the size of the file behind a CID. -/
structure Config where
  ratePerMBHour : ℚ
  ratePerMBHour_nonneg : 0 ≤ ratePerMBHour
  minHours : Int
  mbDivisor : Nat
  mbDivisor_pos : 0 < mbDivisor
  nodeCount : Int
  minRefund : ℚ
  /-- `Math.round(-Math.log10(RATE_FLOOR))`, at least zero. -/
  coinPlaces : Nat
  guardianCancelFeePct : ℚ
  /-- `Math.round(DEFAULT_TTL_DAYS * 24)`. -/
  defaultTtlHours : Int
  hostingPermanent : Bool
  maxFileSizeMB : Nat
  diskLimitBytes : Nat
  reservationTtlMin : Int
  reservationPerAccountMax : Nat
  whitelistMode : Bool
  paymentCurrency : String
  gateAccount : Account
  signedRequestMaxSkewSec : Int
  adminKey : String
  serverAdminHiveAccounts : List Account
  defaultRefundPolicy : RefundPolicy
  escrowBoxMode : Bool
  hasActiveKey : Bool
  toLowerCase : String → String
  verifyHiveSig : String → String → String → Bool
  sha256Hex : Cid → String
  byteCount : Cid → Nat
  /-- Whether the receipt is signed by the box. -/
  verifyReceiptFromBox : BoxReceipt → Bool
  /-- Whether the facts of a settle report can be built from a claim, its payments, the trigger
  and the time. -/
  buildsReport : Claim → List Payment → String → Int → Bool

namespace Config

def maxFileSizeBytes (cfg : Config) : Nat := cfg.maxFileSizeMB * 1024 * 1024

/-- `DEFAULT_HOURS`. -/
def defaultHours (cfg : Config) : Int := max cfg.minHours cfg.defaultTtlHours

end Config

namespace Pricing

def hourMs : Int := 60 * 60 * 1000

/-- `PERMANENT_EXPIRY_TS`, 9999-12-31T23:59:59Z. -/
def permanentExpiryTs : Int := 253402300799000

def isPermanent (ts : Int) : Bool := permanentExpiryTs ≤ ts

def billableMB (cfg : Config) (sizeBytes : Nat) : Except Fault Int :=
  if sizeBytes = 0 then .error ⟨"bad_request", "size_bytes must be a positive number"⟩
  else .ok (max 1 ⌈(sizeBytes : ℚ) / cfg.mbDivisor⌉)

def billableHours (cfg : Config) (hoursRequested : Number) : Except Fault Int :=
  match hoursRequested with
  | .fin h =>
    if h ≤ 0 then .error ⟨"bad_request", "hours_requested must be a positive number"⟩
    else .ok (max cfg.minHours ⌈h⌉)
  | _ => .error ⟨"bad_request", "hours_requested must be a positive number"⟩

def getNodeCount (cfg : Config) : Int := max 1 cfg.nodeCount

/-- `Math.min(Math.max(1, Math.floor(Number(c) || 1)), nodes)`. -/
def cappedCopies (cfg : Config) (copiesRequested : Number) : Int :=
  match copiesRequested with
  | .fin c => if c = 0 then min 1 (getNodeCount cfg) else min (max 1 ⌊c⌋) (getNodeCount cfg)
  | .posInf => getNodeCount cfg
  | .negInf => min 1 (getNodeCount cfg)
  | .nan => min 1 (getNodeCount cfg)

/-- `parseFloat(Number(amount).toFixed(places))`; from `1e21` on `toFixed` prints the number
itself, and doubles of that size are integers, which rounding fixes. -/
def roundCoins (cfg : Config) (amount : ℚ) : ℚ := roundTo cfg.coinPlaces amount

def roundCoinsNum (cfg : Config) : Number → Number
  | .fin q => .fin (roundCoins cfg q)
  | x => x

structure Quote where
  billableMB : Int
  billableHrs : Int
  copies : Int
  rate : ℚ
  total : Number
deriving DecidableEq

def calculateCost (cfg : Config) (sizeBytes : Nat) (hoursRequested copies : Number) (rate : ℚ) :
    Except Fault Quote := do
  let mb ← billableMB cfg sizeBytes
  let hrs ← billableHours cfg hoursRequested
  let cps := cappedCopies cfg copies
  let product := (((Number.fin mb).mul (.fin hrs)).mul (.fin rate)).mul (.fin cps)
  return { billableMB := mb, billableHrs := hrs, copies := cps, rate := rate,
           total := roundCoinsNum cfg product }

structure RefundQuote where
  hoursUsed : Int
  hoursRefunded : Int
  amount : Coins
  dust : Bool
deriving DecidableEq

/-- Pro-rata refund of an active claim; a permanent claim has nothing to pro-rate. -/
def calculateRefund (cfg : Config) (claim : Claim) (now : Int) : Except Fault RefundQuote :=
  if isPermanent claim.expiryTs then
    .ok { hoursUsed := 0, hoursRefunded := 0, amount := 0, dust := true }
  else do
    let copies := cappedCopies cfg (.fin claim.copiesRequested)
    let mb ← billableMB cfg claim.sizeBytes
    let hoursUsed := max 1 ⌈((now - claim.startTs : Int) : ℚ) / hourMs⌉
    let hoursRefunded := max (claim.paidHours - hoursUsed) 0
    let raw := roundCoins cfg (hoursRefunded * mb * claim.rateLocked * copies)
    if raw < cfg.minRefund then
      return { hoursUsed, hoursRefunded, amount := 0, dust := true }
    else
      return { hoursUsed, hoursRefunded, amount := raw, dust := false }

structure DormantRefund where
  amount : Coins
  fee : Coins
  dust : Bool
deriving DecidableEq

def calculateDormantRefund (cfg : Config) (claim : Claim) (feePct : ℚ) : DormantRefund :=
  let escrow := claim.amountPaid
  if escrow ≤ 0 then { amount := 0, fee := 0, dust := true }
  else
    let fee := roundCoins cfg (escrow * (max 0 feePct / 100))
    let amount := roundCoins cfg (escrow - fee)
    if amount < cfg.minRefund then { amount := 0, fee, dust := true }
    else { amount, fee, dust := false }

/-- `claim.state` is the state before the void. -/
def forcedRefundAmount (cfg : Config) (claim : Claim) (policy : RefundPolicy) (innocent : Bool)
    (now : Int) : Except Fault Coins := do
  if innocent then return (calculateDormantRefund cfg claim 0).amount
  if policy = .none then return 0
  if claim.state = .dormant then return (calculateDormantRefund cfg claim 0).amount
  return (← calculateRefund cfg claim now).amount

theorem billableMB_ok {cfg : Config} {sizeBytes : Nat} {mb : Int}
    (h : billableMB cfg sizeBytes = .ok mb) : 0 < sizeBytes ∧ 1 ≤ mb := by
  unfold billableMB at h
  split at h
  · cases h
  · cases h
    exact ⟨by omega, le_max_left _ _⟩

theorem billableMB_of_pos (cfg : Config) {sizeBytes : Nat} (h : 0 < sizeBytes) :
    ∃ mb, billableMB cfg sizeBytes = .ok mb := by
  unfold billableMB
  rw [if_neg (by omega)]
  exact ⟨_, rfl⟩

theorem billableHours_ok {cfg : Config} {hours : Number} {hrs : Int}
    (h : billableHours cfg hours = .ok hrs) : 1 ≤ hrs := by
  unfold billableHours at h
  split at h
  · rename_i q
    split at h
    · cases h
    · rename_i hq
      cases h
      have hc : 0 < ⌈q⌉ := Int.ceil_pos.mpr (not_le.mp hq)
      exact le_trans (by omega) (le_max_right _ _)
  · cases h

theorem getNodeCount_pos (cfg : Config) : 1 ≤ getNodeCount cfg := le_max_left _ _

/-- Granted copies lie between one and the node count. -/
theorem cappedCopies_range (cfg : Config) (copies : Number) :
    1 ≤ cappedCopies cfg copies ∧ cappedCopies cfg copies ≤ getNodeCount cfg := by
  have hn := getNodeCount_pos cfg
  unfold cappedCopies
  split
  · split
    · omega
    · omega
  · omega
  · omega
  · omega

/-- A copies count that was already capped is granted unchanged. -/
theorem cappedCopies_of_range (cfg : Config) {copies : Int} (h₁ : 1 ≤ copies)
    (h₂ : copies ≤ getNodeCount cfg) : cappedCopies cfg (.fin copies) = copies := by
  have hne : (copies : ℚ) ≠ 0 := by
    have hpos : (0 : ℚ) < copies := by exact_mod_cast h₁
    exact ne_of_gt hpos
  unfold cappedCopies
  simp only [hne, ↓reduceIte, Int.floor_intCast]
  omega

end Pricing

namespace Server.Sample

/-- One token for each megabyte hour; every file is a hundred bytes. -/
def config : Config where
  ratePerMBHour := 1
  ratePerMBHour_nonneg := by decide
  minHours := 1
  mbDivisor := 1000000
  mbDivisor_pos := by decide
  nodeCount := 1
  minRefund := 1 / 1000
  coinPlaces := 3
  guardianCancelFeePct := 0
  defaultTtlHours := 24
  hostingPermanent := false
  maxFileSizeMB := 100
  diskLimitBytes := 1000000000
  reservationTtlMin := 30
  reservationPerAccountMax := 3
  whitelistMode := false
  paymentCurrency := "SWAP.HIVE"
  gateAccount := "gate"
  signedRequestMaxSkewSec := 300
  adminKey := "operator-key"
  serverAdminHiveAccounts := []
  defaultRefundPolicy := .prorata
  escrowBoxMode := false
  hasActiveKey := false
  toLowerCase := id
  verifyHiveSig := fun _ _ _ => true
  sha256Hex := id
  byteCount := fun _ => 100
  verifyReceiptFromBox := fun r => r.sig = "box-signature"
  buildsReport := fun _ _ _ _ => true

end Server.Sample

end IpfsGate
