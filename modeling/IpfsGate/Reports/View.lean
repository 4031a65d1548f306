import IpfsGate.Escrow
import IpfsGate.Reports.Delivery
import Mathlib.Logic.Equiv.List

/-!
# What the gate's database shows of the queue

Of a queued report the routes read the claim, the refunds row in its context, the status and the
receipt. Whatever is run on the queue shows in the database as the operation of the same name.
-/
namespace IpfsGate.Reports

open Lib (Leads Register)
open Lib.Prog (Trace)

/-- How texts and receipts of the queue are named in the database. -/
structure View where
  claim : String → Nat
  refundId : Option String → Option Nat
  receipt : Receipt → BoxReceipt
  injective : Function.Injective claim

namespace View

variable (V : View)

def report (r : Row) : PendingReport where
  ref := V.claim r.ref
  refundId := V.refundId r.metaJson
  status := r.status
  createdAt := r.createdAt
  receipt := r.receipt.map V.receipt

def Shows (queue : Queue) (db : Db) : Prop := db.pendingReports.rows = queue.rows.map V.report

/-- What a statement does to the database. -/
def replay (db : Db) : Stmt → Db
  | .enqueue c =>
    (Escrow.enqueue db c.now (V.claim c.ref)
      (V.refundId ((c.metaData.filter Json.truthy).map Json.stringify))).2
  | .markSettled ref receipt => (Escrow.markSettled db (V.claim ref) (V.receipt receipt)).2
  | .markFailed ref receipt => (Escrow.markFailed db (V.claim ref) (V.receipt receipt)).2
  | .updateReceipt ref receipt => Escrow.updateReceipt db (V.claim ref) (V.receipt receipt)
  | _ => db

variable {V} {queue : Queue} {db : Db}

theorem report_ref (r : Row) (ref : String) : (V.report r).ref = V.claim ref ↔ r.ref = ref :=
  V.injective.eq_iff

theorem shows_get (h : V.Shows queue db) (ref : String) :
    Escrow.get db (V.claim ref) = (get queue ref).map V.report := by
  have hselect : (fun r => decide ((V.report r).ref = V.claim ref)) =
      fun r => decide (r.ref = ref) := by
    funext r
    rw [decide_eq_decide, report_ref]
  rw [Escrow.get, get, Register.find?, Register.find?, h, List.find?_map]
  exact congrArg (fun p => (queue.rows.find? p).map V.report) hselect

theorem any_shown (h : V.Shows queue db) (p : Row → Bool) (q : PendingReport → Bool)
    (hpq : ∀ r, q (V.report r) = p r) : db.pendingReports.any q = queue.any p := by
  rw [Register.any, Register.any, h, List.any_map]
  exact congrArg queue.rows.any (funext hpq)

/-- A rewriting of rows shows when it selects the same rows and rewrites them alike. -/
theorem shows_update (h : V.Shows queue db) {p : Row → Bool} {q : PendingReport → Bool}
    (hpq : ∀ r, q (V.report r) = p r) {f : Row → Row} {g : PendingReport → PendingReport}
    (hfg : ∀ r, g (V.report r) = V.report (f r)) (hf : ∀ r, (f r).ref = r.ref)
    (hg : ∀ r, (g r).ref = r.ref) :
    (db.pendingReports.update q g hg).rows = (queue.update p f hf).rows.map V.report := by
  show db.pendingReports.rows.map _ = (queue.rows.map _).map V.report
  rw [h, List.map_map, List.map_map]
  refine List.map_congr_left (fun r _ => ?_)
  show (if q (V.report r) = true then g (V.report r) else V.report r) =
    V.report (if p r = true then f r else r)
  rw [hpq, hfg]
  split <;> rfl

theorem shows_enqueue (h : V.Shows queue db) (c : Settle) :
    (Escrow.enqueue db c.now (V.claim c.ref)
      (V.refundId ((c.metaData.filter Json.truthy).map Json.stringify))).1 =
        (enqueue queue c).1 ∧ V.Shows (enqueue queue c).2 (V.replay db (.enqueue c)) := by
  have hany : ∀ r, decide ((V.report r).ref = V.claim c.ref) = decide (r.ref = c.ref) :=
    fun r => by rw [decide_eq_decide, report_ref]
  constructor
  · show (!db.pendingReports.any _) = !queue.any _
    rw [any_shown h (fun r => decide (r.ref = c.ref)) _ hany]
  · have htaken := any_shown h (fun r => decide (r.ref = c.ref))
      (fun r => decide (r.ref = V.claim c.ref)) hany
    show (if db.pendingReports.any (fun r => decide (r.ref = V.claim c.ref)) = true then _ else _) =
      (if queue.any (fun r => decide (r.ref = c.ref)) = true then _ else _ : List Row).map V.report
    rw [htaken, h]
    split
    · rfl
    · rw [List.map_append]
      rfl

theorem shows_markAttempt (h : V.Shows queue db) (ref : String) (now : Int) :
    V.Shows (markAttempt queue ref now) db := by
  show db.pendingReports.rows = (queue.rows.map _).map V.report
  rw [h, List.map_map]
  refine List.map_congr_left (fun r _ => ?_)
  show V.report r = V.report (if decide (r.ref = ref) = true then _ else r)
  split <;> rfl

theorem shows_mark (h : V.Shows queue db) (status : ReportStatus) (ref : String)
    (receipt : Receipt) :
    (Escrow.mark db status (V.claim ref) (V.receipt receipt)).1 = (mark queue status ref receipt).1 ∧
      V.Shows (mark queue status ref receipt).2
        (Escrow.mark db status (V.claim ref) (V.receipt receipt)).2 := by
  have hselect : ∀ r, (decide ((V.report r).ref = V.claim ref) &&
      decide ((V.report r).status = .pending)) =
      (decide (r.ref = ref) && decide (r.status = .pending)) := by
    intro r
    rw [decide_eq_decide.mpr (report_ref r ref)]
    rfl
  constructor
  · exact any_shown h _ _ hselect
  · exact shows_update h (p := fun r => decide (r.ref = ref) && decide (r.status = .pending))
      (q := fun r => decide (r.ref = V.claim ref) && decide (r.status = .pending)) hselect
      (f := fun r => { r with status, receipt := some receipt })
      (g := fun r => { r with status, receipt := some (V.receipt receipt) }) (fun _ => rfl)
      (fun _ => rfl) (fun _ => rfl)

theorem shows_updateReceipt (h : V.Shows queue db) (ref : String) (receipt : Receipt) :
    V.Shows (updateReceipt queue ref receipt)
      (Escrow.updateReceipt db (V.claim ref) (V.receipt receipt)) :=
  shows_update h (p := fun r => decide (r.ref = ref)) (q := fun r => decide (r.ref = V.claim ref))
    (fun r => decide_eq_decide.mpr (report_ref r ref))
    (f := fun r => { r with receipt := some receipt })
    (g := fun r => { r with receipt := some (V.receipt receipt) }) (fun _ => rfl)
    (fun _ => rfl) (fun _ => rfl)

variable {cfg : Config} {w w' : World} {t : Trace (machine cfg)}

theorem shows_step (h : V.Shows w.queue db) (s : Stmt) :
    V.Shows (s.sem cfg w).2.queue (V.replay db s) := by
  cases s with
  | enqueue c => exact (shows_enqueue h c).2
  | markAttempt ref => exact shows_markAttempt h ref w.env.now
  | markSettled ref receipt => exact (shows_mark h .settled ref receipt).2
  | markFailed ref receipt => exact (shows_mark h .failed ref receipt).2
  | updateReceipt ref receipt => exact shows_updateReceipt h ref receipt
  | connect =>
    show V.Shows (connect w).2.queue db
    unfold connect
    split <;> exact h
  | _ => exact h

/-- The database that a run leaves shows the queue that it leaves. -/
theorem shows_leads (h : V.Shows w.queue db) (hrun : Leads (machine cfg) w t w') :
    V.Shows w'.queue (t.foldl (fun db a => V.replay db a.1) db) := by
  induction hrun with
  | nil => exact h
  | drift env _ ih => exact ih
  | exec s _ ih =>
    rw [List.foldl_append]
    exact shows_step ih s

theorem shows_lives (h : V.Shows queue db) (lives : List (Life cfg)) :
    V.Shows (queueAfter queue lives)
      ((traceOf queue lives).foldl (fun db a => V.replay db a.1) db) := by
  induction lives generalizing queue db with
  | nil => exact h
  | cons l rest ih =>
    rw [traceOf, List.foldl_append]
    exact ih (shows_leads (w := l.boot queue) h (l.leads queue))

end View

namespace Sample

def view : View where
  claim := fun ref => Encodable.encode (ref.toList.map Char.toNat)
  refundId := fun _ => none
  receipt := fun r =>
    { ref := none, status := r.status, refund := .nan, disburseTx := none, rest := "", sig := "" }
  injective := by
    intro a b h
    have htoNat : Function.Injective Char.toNat := fun c d h => Char.toNat_inj.mp h
    exact String.toList_inj.mp (htoNat.list_map (Encodable.encode_injective h))

end Sample

end IpfsGate.Reports
