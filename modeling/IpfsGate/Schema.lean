import IpfsGate.Lib.Table
import IpfsGate.Lib.Decimal

/-!
# The database of the gate

One structure per SQL table, one field per column that some modelled function reads or
writes. Random text ids (claims, orders, reservations, refunds) are the serial keys of their
tables: the source draws them fresh, and a key also gives the row's insertion order, which is
SQLite's rowid. Coin amounts are exact rationals and times are unix milliseconds.
-/
namespace IpfsGate

open Lib (Keyed Named Table Register)

abbrev Cid := String
abbrev Account := String
abbrev Coins := ℚ

/-- The `code` and the message of a thrown error, which are also those of the response. -/
structure Fault where
  code : String
  message : String
deriving DecidableEq, Repr

theorem ok_of_bind {α β : Type} {x : Except Fault α} {f : α → Except Fault β} {b : β}
    (h : (x >>= f) = .ok b) : ∃ a, x = .ok a ∧ f a = .ok b := by
  cases x with
  | error e => cases h
  | ok a => exact ⟨a, rfl, h⟩

/-- What a caller passes for a column of text. A number stands as the text that the column keeps
of it, and a list of one element, `only`, is bound as that element; what is not one value to the
driver (a boolean, an object, another list) is refused. -/
inductive Arg where
  | undefined
  | null
  | text (s : String)
  | only (s : Option String)
  | refused
deriving DecidableEq

instance : Coe String Arg := ⟨Arg.text⟩

namespace Arg

/-- `!x`; where an argument is tested, a falsy value that is no text counts as `null`. -/
def isFalsy : Arg → Bool
  | undefined | null => true
  | text s => s = ""
  | only _ | refused => false

/-- A parameter with a default. -/
def withDefault (d : String) : Arg → Arg
  | undefined => text d
  | a => a

/-- `x || null`. -/
def orNull (a : Arg) : Arg := if a.isFalsy then null else a

/-- The value a statement binds. -/
def bound : Arg → Except Fault (Option String)
  | undefined | null => .ok none
  | text s => .ok (some s)
  | only s => .ok s
  | refused => .error
      ⟨"internal_error", "SQLite3 can only bind numbers, strings, bigints, buffers, and null"⟩

end Arg

inductive Mode where
  | encrypted
  | «public»
deriving DecidableEq, Repr

inductive ReservationStatus where
  | pending
  | paid
  | uploaded
  | expired
  | cancelled
deriving DecidableEq, Repr

def ReservationStatus.text : ReservationStatus → String
  | pending => "pending"
  | paid => "paid"
  | uploaded => "uploaded"
  | expired => "expired"
  | cancelled => "cancelled"

inductive PaymentStatus where
  | confirmed
  | paidUnconfirmed
  | orphan
  | refunded
deriving DecidableEq

inductive PinStatus where
  | active
  | expired
  | banned
  | takedown
deriving DecidableEq, Repr

inductive ClaimKind where
  | original
  | ownCopy
  | guardian
deriving DecidableEq, Repr

inductive ClaimState where
  | active
  | dormant
  | cancelled
  | expired
deriving DecidableEq, Repr

def ClaimState.text : ClaimState → String
  | active => "active"
  | dormant => "dormant"
  | cancelled => "cancelled"
  | expired => "expired"

inductive RefundStatus where
  | pending
  | sent
  | failed
  | skipped
deriving DecidableEq, Repr

inductive RefundPolicy where
  | none
  | prorata
deriving DecidableEq, Repr

def RefundPolicy.text : RefundPolicy → String
  | none => "none"
  | prorata => "prorata"

inductive ReleaseType where
  | ownerOnly
  | anyOf
  | allOf
deriving DecidableEq, Repr

def ReleaseType.text : ReleaseType → String
  | ownerOnly => "owner_only"
  | anyOf => "any_of"
  | allOf => "all_of"

structure ReleasePolicy where
  type : ReleaseType
  addresses : List String
deriving DecidableEq, Repr

/-- The status text of a receipt; the box may send others than its three. -/
inductive ReceiptStatus where
  | settled
  | failed
  | pending
  | other (text : String)
deriving DecidableEq, Repr

inductive ReportStatus where
  | pending
  | settled
  | failed
deriving DecidableEq, Repr

structure Reservation where
  id : Nat
  uploader : Account
  sizeBytes : Nat
  createdAt : Int
  expiresAt : Int
  status : ReservationStatus
  paymentTxId : Option String
  pinId : Option Nat
  mode : Mode
  hoursRequested : Int
  copies : Int
  quotedAmount : Coins
deriving DecidableEq

structure Payment where
  id : Nat
  txId : String
  reservationId : Option Nat
  uploader : Account
  currency : String
  amount : Coins
  memo : String
  verifiedAt : Int
deriving DecidableEq

structure Pin where
  id : Nat
  cid : Cid
  uploader : Account
  sizeBytes : Nat
  paymentId : Nat
  createdAt : Int
  expiresAt : Int
  status : PinStatus
  statusChangedAt : Option Int
  statusReason : Option String
  mode : Mode
  mime : Option String
deriving DecidableEq

structure Order where
  orderId : Nat
  cid : Cid
  owner : Account
  releasePolicy : ReleasePolicy
  receiptHash : Option String
  createdTs : Int
deriving DecidableEq

/-- Every writer passes the id of a payments row, so `paymentId` is never null here. -/
structure Claim where
  claimId : Nat
  orderId : Nat
  cid : Cid
  owner : Account
  pinId : Option Nat
  sizeBytes : Nat
  sizeMB : Int
  rateLocked : Coins
  paidHours : Int
  copiesRequested : Int
  kind : ClaimKind
  state : ClaimState
  amountPaid : Coins
  currency : String
  paymentId : Nat
  startTs : Int
  expiryTs : Int
  createdTs : Int
  pledgeOrder : Option Nat
  pledgeBudget : Option Coins
deriving DecidableEq

structure Refund where
  refundId : Nat
  claimId : Nat
  toAccount : Account
  amount : Coins
  currency : String
  memo : String
  status : RefundStatus
  reason : String
  txId : Option String
  createdTs : Int
  settledTs : Option Int
deriving DecidableEq

structure BannedAccount where
  hiveAccount : Account
  bannedAt : Int
  bannedBy : String
  reason : String
  refundPolicy : RefundPolicy
  unbannedAt : Option Int
  unbannedBy : Option String
deriving DecidableEq

structure BlockedCid where
  cid : Cid
  blockedAt : Int
  blockedBy : String
  reason : String
  unblockedAt : Option Int
  unblockedBy : Option String
deriving DecidableEq

structure WhitelistedAccount where
  hiveAccount : Account
  addedAt : Int
  addedBy : String
  quotaBytes : Option Nat
  feeExempt : Bool
  note : Option String
  removedAt : Option Int
  removedBy : Option String
deriving DecidableEq

/-- The JSON `metadata` column, one constructor per action that writes it. -/
inductive LogMetadata where
  | ban (refundPolicy : RefundPolicy) (pinsAffected claimsVoided guardiansActivated : Nat)
  | takedown (pinsAffected claimsVoided : Nat) (refundPolicy : RefundPolicy)
  | whitelistAdd (quotaBytes : Option Nat) (feeExempt : Bool)
  | pinDelete (targetAccount : Account) (claimsCancelled : Nat) (refundPolicy : RefundPolicy)
  | refundIssued (refundTxId : Arg)
deriving DecidableEq

structure LogRow where
  id : Nat
  action : String
  targetType : String
  target : String
  reason : Option String
  adminId : String
  timestamp : Int
  metadata : Option LogMetadata
deriving DecidableEq

structure ReleaseConsent where
  orderId : Nat
  releaser : Account
  consentedAt : Int
  sig : String
deriving DecidableEq

structure Receipt where
  orderId : Nat
  recipient : Account
  proofHash : String
  receivedAt : Int
  sig : String
deriving DecidableEq

/-- A settlement receipt of the escrow box. `ref` is absent when it is empty, `refund` is the
number the field converts to, and `rest` stands for the fields that only the signature covers. -/
structure BoxReceipt where
  ref : Option Nat
  status : ReceiptStatus
  refund : Lib.Number
  disburseTx : Option String
  rest : String
  sig : String
deriving DecidableEq

/-- A report to the escrow box; its `ref` is the id of a claim. -/
structure PendingReport where
  ref : Nat
  refundId : Option Nat
  status : ReportStatus
  createdAt : Int
  receipt : Option BoxReceipt
deriving DecidableEq

instance : Keyed Reservation := ⟨Reservation.id⟩
instance : Keyed Payment := ⟨Payment.id⟩
instance : Keyed Pin := ⟨Pin.id⟩
instance : Keyed Order := ⟨Order.orderId⟩
instance : Keyed Claim := ⟨Claim.claimId⟩
instance : Keyed Refund := ⟨Refund.refundId⟩
instance : Keyed LogRow := ⟨LogRow.id⟩
instance : Named BannedAccount String := ⟨BannedAccount.hiveAccount⟩
instance : Named BlockedCid String := ⟨BlockedCid.cid⟩
instance : Named WhitelistedAccount String := ⟨WhitelistedAccount.hiveAccount⟩
instance : Named PendingReport Nat := ⟨PendingReport.ref⟩

structure Db where
  reservations : Table Reservation
  payments : Table Payment
  pins : Table Pin
  orders : Table Order
  claims : Table Claim
  refunds : Table Refund
  bannedAccounts : Register BannedAccount
  blockedCids : Register BlockedCid
  whitelistedAccounts : Register WhitelistedAccount
  moderationLog : Table LogRow
  releaseConsents : List ReleaseConsent
  receipts : List Receipt
  pendingReports : Register PendingReport

def Db.empty : Db where
  reservations := Table.empty
  payments := Table.empty
  pins := Table.empty
  orders := Table.empty
  claims := Table.empty
  refunds := Table.empty
  bannedAccounts := Register.empty
  blockedCids := Register.empty
  whitelistedAccounts := Register.empty
  moderationLog := Table.empty
  releaseConsents := []
  receipts := []
  pendingReports := Register.empty

@[simp] theorem key_reservation (r : Reservation) : Keyed.key r = r.id := rfl
@[simp] theorem key_payment (p : Payment) : Keyed.key p = p.id := rfl
@[simp] theorem key_pin (p : Pin) : Keyed.key p = p.id := rfl
@[simp] theorem key_order (o : Order) : Keyed.key o = o.orderId := rfl
@[simp] theorem key_claim (c : Claim) : Keyed.key c = c.claimId := rfl
@[simp] theorem key_refund (r : Refund) : Keyed.key r = r.refundId := rfl
@[simp] theorem name_bannedAccount (b : BannedAccount) : Named.name b = b.hiveAccount := rfl
@[simp] theorem name_blockedCid (b : BlockedCid) : Named.name b = b.cid := rfl
@[simp] theorem name_whitelistedAccount (w : WhitelistedAccount) :
    Named.name w = w.hiveAccount := rfl
@[simp] theorem name_pendingReport (r : PendingReport) : Named.name r = r.ref := rfl

end IpfsGate
