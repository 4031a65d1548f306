import IpfsGate.Server.Refunds

/-!
# Receipts of the escrow box

The handler that a relay delivers the box's receipts to. It exists in box mode only, and runs
as one turn: mark the report, finalise the refund.
-/
namespace IpfsGate.Server

open Quota
open Lib (Prog)

def finalizeRefund {cfg : Config} (refundId : Option Nat) (receipt : BoxReceipt) :
    Handler cfg Unit :=
  match refundId, Escrow.refundOutcome receipt with
  | some refundId, some (status, txId) => transact (.markRefundSettled refundId status txId)
  | _, _ => return ()

/-- The report's first receipt settles it; a final receipt after a pending one completes it. -/
def settleReport {cfg : Config} (ref : Nat) (row : PendingReport) (receipt : BoxReceipt) :
    Handler cfg Unit := do
  let marked ← transact (.markReport (Escrow.markedStatus receipt) ref receipt)
  if marked then
    finalizeRefund row.refundId receipt
    let _ ← perform .returned
  else if Escrow.completes row receipt then
    let _ ← transact (.updateReceipt ref receipt)
    finalizeRefund row.refundId receipt
    let _ ← perform .returned

def handleReceipt {cfg : Config} (receipt : BoxReceipt) : Handler cfg Unit := do
  match receipt.ref with
  | none => return ()
  | some ref =>
    if !cfg.escrowBoxMode || !cfg.verifyReceiptFromBox receipt then return ()
    else
      match ← ask (fun db => Escrow.get db ref) with
      | none => return ()
      | some row => settleReport ref row receipt

section Turn

variable {cfg : Config} {receipt : BoxReceipt} {past : Prog.Trace (machine cfg)} {w : World}

theorem finalizeRefund_turn {refundId : Option Nat} :
    ((do
      finalizeRefund refundId receipt
      let _ ← perform .returned : Handler cfg Unit).turn past w).2.2 =
      { w with db := Escrow.finalizeRefund w.db w.now refundId receipt } := by
  cases refundId with
  | none => rfl
  | some id =>
    unfold finalizeRefund Escrow.finalizeRefund
    cases Escrow.refundOutcome receipt with
    | none => rfl
    | some out => rfl

theorem settleReport_turn (ref : Nat) (row : PendingReport) :
    ((settleReport ref row receipt : Handler cfg Unit).turn past w).2.2 =
      { w with db :=
        let after := (Escrow.mark w.db (Escrow.markedStatus receipt) ref receipt).2
        if (Escrow.mark w.db (Escrow.markedStatus receipt) ref receipt).1 then
          Escrow.finalizeRefund after w.now row.refundId receipt
        else if Escrow.completes row receipt then
          Escrow.finalizeRefund (Escrow.updateReceipt after ref receipt) w.now row.refundId receipt
        else after } := by
  unfold settleReport
  change (Prog.turn (if (Escrow.mark w.db (Escrow.markedStatus receipt) ref receipt).1 = true
    then _ else _) _ _).2.2 = _
  by_cases hm : (Escrow.mark w.db (Escrow.markedStatus receipt) ref receipt).1 = true
  · rw [if_pos hm, if_pos hm]
    exact finalizeRefund_turn
  rw [if_neg hm, if_neg hm]
  by_cases hc : Escrow.completes row receipt = true
  · rw [if_pos hc, if_pos hc]
    exact finalizeRefund_turn
  · rw [if_neg hc, if_neg hc]
    rfl

/-- In box mode the handler does in one turn what the box mode's own handler does. -/
theorem handleReceipt_turn (hbox : cfg.escrowBoxMode = true) (settled completed : List Nat) :
    ((handleReceipt receipt : Handler cfg Unit).turn past w).2.2 =
      { w with db := (Escrow.handleReceipt cfg.verifyReceiptFromBox w.now
          { db := w.db, settled, completed } receipt).db } := by
  unfold handleReceipt Escrow.handleReceipt
  cases receipt.ref with
  | none => rfl
  | some ref =>
    dsimp only
    rw [hbox, Bool.not_true, Bool.false_or]
    split
    · rfl
    · change (Prog.turn (match Escrow.get w.db ref with
        | none => _
        | some row => settleReport ref row receipt) past w).2.2 = _
      cases Escrow.get w.db ref with
      | none => rfl
      | some row =>
        dsimp only
        rw [settleReport_turn, Escrow.mark_markedStatus]
        split
        · rfl
        · split <;> rfl

end Turn

end IpfsGate.Server
