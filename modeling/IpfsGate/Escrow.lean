import IpfsGate.Quota

/-!
# The escrow box

In box mode the gate holds no key. A refund is a report in a durable queue; the box answers
with signed receipts, which finalise the refunds row. The queue has one row per claim.
-/
namespace IpfsGate.Escrow

open Quota
open Lib (Number)

/-! ## The queue of reports -/

def get (db : Db) (ref : Nat) : Option PendingReport :=
  db.pendingReports.find? (fun r => r.ref = ref)

/-- A report that is already queued is left alone. -/
def enqueue (db : Db) (t : Int) (ref : Nat) (refundId : Option Nat) : Bool × Db :=
  (!db.pendingReports.any (fun r => r.ref = ref),
    { db with
      pendingReports := db.pendingReports.insertNew
        { ref, refundId, status := .pending, createdAt := t, receipt := none } })

/-- Move a pending report to the status and store the receipt; whether a row was moved. -/
def mark (db : Db) (status : ReportStatus) (ref : Nat) (receipt : BoxReceipt) : Bool × Db :=
  let pending : PendingReport → Bool := fun r => r.ref = ref && r.status = .pending
  (db.pendingReports.any pending,
    { db with
      pendingReports := db.pendingReports.update pending
        (fun r => { r with status, receipt := some receipt }) (fun _ => rfl) })

def markSettled (db : Db) (ref : Nat) (receipt : BoxReceipt) : Bool × Db :=
  mark db .settled ref receipt

def markFailed (db : Db) (ref : Nat) (receipt : BoxReceipt) : Bool × Db :=
  mark db .failed ref receipt

/-- Replace the stored receipt; the status stays. -/
def updateReceipt (db : Db) (ref : Nat) (receipt : BoxReceipt) : Db :=
  { db with
    pendingReports := db.pendingReports.update (fun r => r.ref = ref)
      (fun r => { r with receipt := some receipt }) (fun _ => rfl) }

/-! ## Receipts -/

def isPositive : Number → Bool
  | .fin x => 0 < x
  | .posInf => true
  | .negInf => false
  | .nan => false

/-- The refund's final status and transaction, by a receipt that is final. -/
def refundOutcome (receipt : BoxReceipt) : Option (RefundStatus × Option String) :=
  match receipt.status with
  | .failed => some (.failed, none)
  | .settled =>
    some (if isPositive receipt.refund then .sent else .skipped, receipt.disburseTx)
  | _ => none

theorem refundOutcome_ne_pending {receipt : BoxReceipt} {status : RefundStatus}
    {txId : Option String} (h : refundOutcome receipt = some (status, txId)) :
    status ≠ .pending := by
  unfold refundOutcome at h
  split at h
  · cases h
    decide
  · cases h
    split <;> decide
  · cases h

/-- What both handlers of the gate do with a receipt. -/
def finalizeRefund (db : Db) (t : Int) (refundId : Option Nat) (receipt : BoxReceipt) : Db :=
  match refundId, refundOutcome receipt with
  | some refundId, some (status, txId) => markRefundSettled db t refundId status txId
  | _, _ => db

def isDefinitive (receipt : BoxReceipt) : Bool :=
  receipt.status = .settled || receipt.status = .failed

/-- The report was finalised as pending, and this receipt completes it. -/
def completes (row : PendingReport) (receipt : BoxReceipt) : Bool :=
  row.receipt.any (fun stored => stored.status = .pending) && isDefinitive receipt

/-- The status a first receipt moves its report to: anything but a rejection settles it. -/
def markedStatus (receipt : BoxReceipt) : ReportStatus :=
  if receipt.status = .failed then .failed else .settled

theorem mark_markedStatus (db : Db) (ref : Nat) (receipt : BoxReceipt) :
    (if receipt.status = .failed then markFailed db ref receipt
      else markSettled db ref receipt) = mark db (markedStatus receipt) ref receipt := by
  unfold markedStatus
  split <;> rfl

/-- The database, and the reports for which `onSettled` and `onCompleted` fired, in order. -/
structure Box where
  db : Db
  settled : List Nat
  completed : List Nat

/-- An inbound receipt. Both handlers run up to their end before anything else does. -/
def handleReceipt (verify : BoxReceipt → Bool) (t : Int) (s : Box) (receipt : BoxReceipt) : Box :=
  match receipt.ref with
  | none => s
  | some ref =>
    if !verify receipt then s
    else
      match get s.db ref with
      | none => s
      | some row =>
        let (marked, after) :=
          if receipt.status = .failed then markFailed s.db ref receipt
          else markSettled s.db ref receipt
        if marked then
          { s with
            db := finalizeRefund after t row.refundId receipt, settled := s.settled ++ [ref] }
        else if completes row receipt then
          { s with
            db := finalizeRefund (updateReceipt after ref receipt) t row.refundId receipt
            completed := s.completed ++ [ref] }
        else { s with db := after }

end IpfsGate.Escrow
