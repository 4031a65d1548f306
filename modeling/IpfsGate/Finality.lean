import IpfsGate.Escrow
import IpfsGate.Lib.Latch

/-!
# Receipts finalise a refund once

Relays deliver the receipts of the box in any order, any number of times, mixed with forged
ones. Seen from one report, its verified receipts go through a latch: the first is stored, a
pending one gives way to the first definitive one, and everything later is dropped.
-/
namespace IpfsGate.Finality

open Escrow Quota
open Lib (Latch Number Register Table)

/-! ## What one receipt does -/

section Receive

variable {db : Db} {t : Int} {ref : Nat} {receipt : BoxReceipt} {row : PendingReport}

theorem get_eq_some : get db ref = some row ↔ row ∈ db.pendingReports ∧ row.ref = ref := by
  constructor
  · intro h
    have hp := List.find?_some h
    exact ⟨List.mem_of_find?_eq_some h, of_decide_eq_true hp⟩
  · rintro ⟨hrow, href⟩
    cases hget : get db ref with
    | none =>
      have hno := List.find?_eq_none.mp hget row hrow
      simp [href] at hno
    | some found =>
      have hp := List.find?_some hget
      have hname : found.ref = row.ref := (of_decide_eq_true hp).trans href.symm
      rw [Register.eq_of_name (List.mem_of_find?_eq_some hget) hrow hname]

/-- A report that has left pending cannot be marked. -/
theorem mark_of_settled {status : ReportStatus} (hget : get db ref = some row)
    (hs : row.status ≠ .pending) : mark db status ref receipt = (false, db) := by
  obtain ⟨hrow, href⟩ := get_eq_some.mp hget
  have hno : ∀ r ∈ db.pendingReports.rows, (r.ref = ref && r.status = .pending) = false := by
    intro r hr
    by_cases hrr : r.ref = ref
    · have heq : r = row := Register.eq_of_name hr hrow (hrr.trans href.symm)
      simp [heq, hs]
    · simp [hrr]
  have hany : db.pendingReports.any (fun r => r.ref = ref && r.status = .pending) = false := by
    rw [Register.any, List.any_eq_false]
    exact fun r hr => by rw [hno r hr]; exact Bool.false_ne_true
  have hsame : ∀ f hf, db.pendingReports.update
      (fun r => r.ref = ref && r.status = .pending) f hf = db.pendingReports := by
    intro f hf
    have hrows : (db.pendingReports.rows.map
        (fun r => if (r.ref = ref && r.status = .pending) = true then f r else r)) =
        db.pendingReports.rows := by
      rw [List.map_congr_left (g := id), List.map_id]
      intro r hr
      rw [hno r hr]
      rfl
    unfold Register.update
    congr
  unfold mark
  dsimp only
  rw [hany, hsame]

/-- The row of a pending report can be marked. -/
theorem mark_of_pending {status : ReportStatus} (hget : get db ref = some row)
    (hs : row.status = .pending) : (mark db status ref receipt).1 = true := by
  obtain ⟨hrow, href⟩ := get_eq_some.mp hget
  exact Register.any_iff.mpr ⟨row, hrow, by simp [href, hs]⟩

end Receive

section Cases

variable {verify : BoxReceipt → Bool} {t : Int} {s : Box} {receipt : BoxReceipt} {ref : Nat}
  {row : PendingReport}

/-- The receipt has no reference, does not verify, or is of no report in the queue. -/
def Ignored (verify : BoxReceipt → Bool) (db : Db) (receipt : BoxReceipt) : Prop :=
  ∀ ref, receipt.ref = some ref → verify receipt = true → get db ref = none

theorem handleReceipt_ignored (h : Ignored verify s.db receipt) :
    handleReceipt verify t s receipt = s := by
  unfold handleReceipt
  split
  · rfl
  · rename_i ref href
    split
    · rfl
    · rename_i hv
      rw [h ref href (by simpa using hv)]

theorem handleReceipt_known (href : receipt.ref = some ref) (hv : verify receipt = true)
    (hget : get s.db ref = some row) :
    handleReceipt verify t s receipt =
      if (mark s.db (markedStatus receipt) ref receipt).1 then
        { s with
          db := finalizeRefund (mark s.db (markedStatus receipt) ref receipt).2 t row.refundId
            receipt
          settled := s.settled ++ [ref] }
      else if completes row receipt then
        { s with
          db := finalizeRefund (updateReceipt (mark s.db (markedStatus receipt) ref receipt).2 ref
            receipt) t row.refundId receipt
          completed := s.completed ++ [ref] }
      else { s with db := (mark s.db (markedStatus receipt) ref receipt).2 } := by
  unfold handleReceipt
  simp only [href, hv, Bool.not_true, Bool.false_eq_true, if_false, hget, mark_markedStatus]

theorem handleReceipt_first (href : receipt.ref = some ref) (hv : verify receipt = true)
    (hget : get s.db ref = some row) (hs : row.status = .pending) :
    handleReceipt verify t s receipt =
      { s with
        db := finalizeRefund (mark s.db (markedStatus receipt) ref receipt).2 t row.refundId
          receipt
        settled := s.settled ++ [ref] } := by
  rw [handleReceipt_known href hv hget, if_pos (mark_of_pending hget hs)]

theorem handleReceipt_completing (href : receipt.ref = some ref) (hv : verify receipt = true)
    (hget : get s.db ref = some row) (hs : row.status ≠ .pending)
    (hc : completes row receipt = true) :
    handleReceipt verify t s receipt =
      { s with
        db := finalizeRefund (updateReceipt s.db ref receipt) t row.refundId receipt
        completed := s.completed ++ [ref] } := by
  rw [handleReceipt_known href hv hget, mark_of_settled hget hs, if_neg Bool.false_ne_true,
    if_pos hc]

theorem handleReceipt_duplicate (href : receipt.ref = some ref) (hv : verify receipt = true)
    (hget : get s.db ref = some row) (hs : row.status ≠ .pending)
    (hc : completes row receipt = false) : handleReceipt verify t s receipt = s := by
  rw [handleReceipt_known href hv hget, mark_of_settled hget hs, if_neg Bool.false_ne_true,
    if_neg (by rw [hc]; exact Bool.false_ne_true)]

end Cases

/-! ## The rows a receipt can reach -/

section Reach

variable {db : Db} {t : Int} {ref : Nat} {refundId : Option Nat} {receipt : BoxReceipt}
  {row r : PendingReport}

theorem finalizeRefund_reports :
    (finalizeRefund db t refundId receipt).pendingReports = db.pendingReports := by
  unfold finalizeRefund
  split <;> rfl

/-- The status of a refund by the receipt that finalises it, if it is final. -/
def finalStatus (receipt : BoxReceipt) : Option RefundStatus :=
  (refundOutcome receipt).map Prod.fst

theorem finalStatus_of_open (h : isDefinitive receipt = false) : finalStatus receipt = none := by
  unfold finalStatus refundOutcome
  unfold isDefinitive at h
  split <;> simp_all

/-- Finalising gives the refund its status and leaves every other refund alone. -/
theorem finalizeRefund_refunds {x : Refund}
    (hx : x ∈ (finalizeRefund db t refundId receipt).refunds) :
    ∃ y ∈ db.refunds, x.refundId = y.refundId ∧
      (refundId = some y.refundId → x.status = (finalStatus receipt).getD y.status) ∧
      (refundId ≠ some y.refundId ∨ finalStatus receipt = none → x = y) := by
  unfold finalizeRefund at hx
  unfold finalStatus
  split at hx
  · rename_i id status txId hout
    rw [hout]
    unfold markRefundSettled at hx
    rw [Table.mem_update] at hx
    obtain ⟨y, hy, rfl⟩ := hx
    by_cases hid : y.refundId = id
    · refine ⟨y, hy, ?_, ?_, ?_⟩
      · simp only [hid, decide_true, if_true]
      · intro _
        simp only [hid, decide_true, if_true]
        rfl
      · rintro (hne | hnone)
        · exact absurd (congrArg some hid.symm) hne
        · cases hnone
    · refine ⟨y, hy, ?_, fun h => absurd (Option.some.inj h).symm hid, fun _ => ?_⟩ <;>
        simp only [hid, decide_false, Bool.false_eq_true, if_false]
  · rename_i hno
    refine ⟨x, hx, rfl, fun h => ?_, fun _ => rfl⟩
    cases hout : refundOutcome receipt with
    | none => rfl
    | some o => exact absurd hout (hno _ o.1 o.2 h)

/-- A refund that the receipt does not finalise is the same row as before. -/
theorem mem_finalizeRefund_of_skip {x : Refund} (hx : x ∈ db.refunds)
    (h : refundId ≠ some x.refundId ∨ finalStatus receipt = none) :
    x ∈ (finalizeRefund db t refundId receipt).refunds := by
  unfold finalizeRefund
  split
  · rename_i id status txId hout
    have hid : x.refundId ≠ id := by
      rintro rfl
      rcases h with hne | hnone
      · exact hne rfl
      · rw [finalStatus, hout] at hnone
        cases hnone
    unfold markRefundSettled
    rw [Table.mem_update]
    exact ⟨x, hx, by rw [if_neg (by simpa using hid)]⟩
  · exact hx

theorem mem_mark {status : ReportStatus} :
    r ∈ (mark db status ref receipt).2.pendingReports ↔ ∃ x ∈ db.pendingReports,
      r = if x.ref = ref && x.status = .pending then { x with status, receipt := some receipt }
        else x := by
  unfold mark
  rw [Register.mem_update]

theorem mem_updateReceipt : r ∈ (updateReceipt db ref receipt).pendingReports ↔
    ∃ x ∈ db.pendingReports, r = if x.ref = ref then { x with receipt := some receipt } else x := by
  unfold updateReceipt
  rw [Register.mem_update]
  simp only [decide_eq_true_eq]

end Reach

/-! ## One report through its receipts -/

/-- A pending receipt leaves the refund open, a settled or failed one closes it. -/
def receipts : Latch BoxReceipt where
  provisional := fun receipt => receipt.status = .pending
  definitive := isDefinitive
  exclusive := by
    intro receipt h
    unfold isDefinitive at h
    cases hs : receipt.status <;> simp_all

abbrev Received := Option (Latch.Held BoxReceipt)

/-- The queue's row once these receipts are in. -/
def shown (row : PendingReport) : Received → PendingReport
  | none => row
  | some h => { row with status := markedStatus h.first, receipt := some h.kept }

def refundStatus (received : Received) : RefundStatus :=
  (received.bind (fun h => finalStatus h.kept)).getD .pending

/-- The report was finalised as pending and completed since. -/
def isCompleted (received : Received) : Bool :=
  received.any (fun h => receipts.provisional h.first && receipts.definitive h.kept)

/-- No other report in the queue is for the refund of this one. -/
def Sole (db : Db) (row : PendingReport) : Prop :=
  ∀ other ∈ db.pendingReports, ∀ id, row.refundId = some id → other.refundId = some id →
    other.ref = row.ref

/-- A report that no receipt has reached. -/
structure Awaits (db : Db) (row : PendingReport) : Prop where
  queued : row ∈ db.pendingReports
  status : row.status = .pending
  owed : ∀ r ∈ db.refunds, row.refundId = some r.refundId → r.status = .pending
  sole : Sole db row

/-- The box is what the receipts of the report make of it, as far as the report goes. -/
structure Shows (start : Box) (row : PendingReport) (received : Received) (s : Box) : Prop where
  opened : ∀ h, received = some h → receipts.provisional h.kept = true → h.kept = h.first
  queued : shown row received ∈ s.db.pendingReports
  sole : Sole s.db row
  refund : ∀ r ∈ s.db.refunds, row.refundId = some r.refundId → r.status = refundStatus received
  settled : s.settled.count row.ref = start.settled.count row.ref + received.isSome.toNat
  completed : s.completed.count row.ref =
    start.completed.count row.ref + (isCompleted received).toNat

section Steps

variable {verify : BoxReceipt → Bool} {t : Int} {start s : Box} {receipt : BoxReceipt}
  {row : PendingReport} {received : Received}

theorem shown_ref (row : PendingReport) (received : Received) :
    (shown row received).ref = row.ref := by
  cases received <;> rfl

theorem Awaits.shows (h : Awaits s.db row) : Shows s row none s where
  opened := fun _ hnone => nomatch hnone
  queued := h.queued
  sole := h.sole
  refund := h.owed
  settled := rfl
  completed := rfl

theorem Shows.found (h : Shows start row received s) :
    get s.db row.ref = some (shown row received) :=
  get_eq_some.mpr ⟨h.queued, shown_ref row received⟩

/-- Reports keep their names and refunds. -/
theorem Sole.mono {a b : Db} (h : Sole a row) (hkeep : ∀ r ∈ b.pendingReports,
    ∃ x ∈ a.pendingReports, r.ref = x.ref ∧ r.refundId = x.refundId) : Sole b row := by
  intro other hother id hid hoid
  obtain ⟨x, hx, href, hrid⟩ := hkeep other hother
  rw [href]
  exact h x hx id hid (hrid ▸ hoid)

/-- Other reports, their refunds and their calls are as before. -/
structure Confined (ref : Nat) (refundId : Option Nat) (s s' : Box) : Prop where
  reports : ∀ r ∈ s.db.pendingReports, r.ref ≠ ref → r ∈ s'.db.pendingReports
  kept : ∀ r ∈ s'.db.pendingReports, ∃ x ∈ s.db.pendingReports,
    r.ref = x.ref ∧ r.refundId = x.refundId
  refunds : ∀ r, refundId ≠ some r.refundId → (r ∈ s'.db.refunds ↔ r ∈ s.db.refunds)
  settled : ∀ other, other ≠ ref → s'.settled.count other = s.settled.count other
  completed : ∀ other, other ≠ ref → s'.completed.count other = s.completed.count other

theorem mem_finalizeRefund_other {db : Db} {refundId : Option Nat} {r : Refund}
    (hne : refundId ≠ some r.refundId) :
    r ∈ (finalizeRefund db t refundId receipt).refunds ↔ r ∈ db.refunds := by
  constructor
  · intro hr
    obtain ⟨y, hy, hid, _, hsame⟩ := finalizeRefund_refunds hr
    rw [hsame (Or.inl (hid ▸ hne))]
    exact hy
  · exact fun hr => mem_finalizeRefund_of_skip hr (Or.inl hne)

theorem count_concat_other {log : List Nat} {ref other : Nat} (hne : other ≠ ref) :
    (log ++ [ref]).count other = log.count other := by
  rw [List.count_append, List.count_singleton, if_neg (by simpa using hne.symm), Nat.add_zero]

theorem handleReceipt_confined {ref : Nat} {found : PendingReport} (href : receipt.ref = some ref)
    (hv : verify receipt = true) (hget : get s.db ref = some found) :
    Confined ref found.refundId s (handleReceipt verify t s receipt) := by
  by_cases hs : found.status = .pending
  · rw [handleReceipt_first href hv hget hs]
    refine ⟨fun r hr hne => ?_, fun r hr => ?_, fun r hne => mem_finalizeRefund_other hne,
      fun other hne => count_concat_other hne, fun _ _ => rfl⟩
    · dsimp only
      rw [finalizeRefund_reports, mem_mark]
      exact ⟨r, hr, by simp [hne]⟩
    · dsimp only at hr
      rw [finalizeRefund_reports, mem_mark] at hr
      obtain ⟨x, hx, rfl⟩ := hr
      exact ⟨x, hx, by split <;> rfl, by split <;> rfl⟩
  by_cases hc : completes found receipt = true
  · rw [handleReceipt_completing href hv hget hs hc]
    refine ⟨fun r hr hne => ?_, fun r hr => ?_, fun r hne => mem_finalizeRefund_other hne,
      fun _ _ => rfl, fun other hne => count_concat_other hne⟩
    · dsimp only
      rw [finalizeRefund_reports, mem_updateReceipt]
      exact ⟨r, hr, by simp [hne]⟩
    · dsimp only at hr
      rw [finalizeRefund_reports, mem_updateReceipt] at hr
      obtain ⟨x, hx, rfl⟩ := hr
      exact ⟨x, hx, by split <;> rfl, by split <;> rfl⟩
  · rw [handleReceipt_duplicate href hv hget hs (Bool.not_eq_true _ ▸ hc)]
    exact ⟨fun _ hr _ => hr, fun r hr => ⟨r, hr, rfl, rfl⟩, fun _ _ => Iff.rfl, fun _ _ => rfl,
      fun _ _ => rfl⟩

/-- A receipt that is not taken for this report leaves it alone. -/
theorem handleReceipt_passes (hsole : Sole s.db row)
    (hother : ¬ (receipt.ref = some row.ref ∧ verify receipt = true)) :
    ∃ ref refundId, ref ≠ row.ref ∧ (∀ id, row.refundId = some id → refundId ≠ some id) ∧
      Confined ref refundId s (handleReceipt verify t s receipt) := by
  by_cases hign : Ignored verify s.db receipt
  · rw [handleReceipt_ignored hign]
    refine ⟨row.ref + 1, none, Nat.succ_ne_self _, fun _ _ => (Option.some_ne_none _).symm, ?_⟩
    exact ⟨fun _ hr _ => hr, fun r hr => ⟨r, hr, rfl, rfl⟩, fun _ _ => Iff.rfl, fun _ _ => rfl,
      fun _ _ => rfl⟩
  · obtain ⟨ref, href, hv, found, hget⟩ : ∃ ref, receipt.ref = some ref ∧ verify receipt = true ∧
        ∃ found, get s.db ref = some found := by
      simp only [Ignored, not_forall] at hign
      obtain ⟨ref, href, hv, hget⟩ := hign
      exact ⟨ref, href, hv, Option.ne_none_iff_exists'.mp hget⟩
    have hne : ref ≠ row.ref := by
      rintro rfl
      exact hother ⟨href, hv⟩
    obtain ⟨hfound, hname⟩ := get_eq_some.mp hget
    refine ⟨ref, found.refundId, hne, fun id hid hfid => ?_, handleReceipt_confined href hv hget⟩
    exact hne (hname ▸ hsole found hfound id hid hfid)

theorem Shows.other (h : Shows start row received s)
    (hother : ¬ (receipt.ref = some row.ref ∧ verify receipt = true)) :
    Shows start row received (handleReceipt verify t s receipt) := by
  obtain ⟨ref, refundId, hne, hrefund, hconf⟩ := handleReceipt_passes (t := t) h.sole hother
  refine ⟨h.opened, ?_, h.sole.mono hconf.kept, ?_, ?_, ?_⟩
  · exact hconf.reports _ h.queued ((shown_ref row received).symm ▸ hne.symm)
  · exact fun r hr hid => h.refund r ((hconf.refunds r (hrefund _ hid)).mp hr) hid
  · rw [hconf.settled _ hne.symm]
    exact h.settled
  · rw [hconf.completed _ hne.symm]
    exact h.completed

theorem finalStatus_of_provisional (hp : receipts.provisional receipt = true) :
    finalStatus receipt = none := by
  refine finalStatus_of_open ?_
  by_contra hd
  rw [receipts.exclusive receipt (Bool.not_eq_false _ ▸ hd)] at hp
  cases hp

theorem count_concat_self {log : List Nat} {ref : Nat} :
    (log ++ [ref]).count ref = log.count ref + 1 := by
  rw [List.count_append, List.count_singleton_self]

/-- The refund of the report once a receipt has closed it or left it open. -/
theorem refund_of_finalize {db : Db} {before : RefundStatus} {r : Refund}
    (hbefore : ∀ y ∈ db.refunds, row.refundId = some y.refundId → y.status = before)
    (hr : r ∈ (finalizeRefund db t row.refundId receipt).refunds)
    (hid : row.refundId = some r.refundId) : r.status = (finalStatus receipt).getD before := by
  obtain ⟨y, hy, hyid, hstatus, _⟩ := finalizeRefund_refunds hr
  rw [hyid] at hid
  rw [hstatus hid, hbefore y hy hid]

theorem Shows.first (h : Shows start row none s) (hrow : row.status = .pending)
    (href : receipt.ref = some row.ref) (hv : verify receipt = true) :
    Shows start row (receipts.offer none receipt) (handleReceipt verify t s receipt) := by
  have hconf := handleReceipt_confined (t := t) href hv h.found
  rw [handleReceipt_first href hv h.found hrow] at hconf ⊢
  refine ⟨?_, ?_, h.sole.mono hconf.kept, ?_, ?_, ?_⟩
  · rintro _ ⟨⟩ _
    rfl
  · dsimp only
    rw [finalizeRefund_reports, mem_mark]
    exact ⟨row, h.queued, by simp [hrow, shown, Latch.offer]⟩
  · intro r hr hid
    have hbefore : ∀ y ∈ (mark s.db (markedStatus receipt) row.ref receipt).2.refunds,
        row.refundId = some y.refundId → y.status = refundStatus none := h.refund
    exact refund_of_finalize hbefore hr hid
  · dsimp only
    rw [count_concat_self, h.settled]
    rfl
  · have hopen : isCompleted (receipts.offer none receipt) = false := by
      by_contra hboth
      rw [Bool.not_eq_false] at hboth
      obtain ⟨hp, hd⟩ := Bool.and_eq_true_iff.mp hboth
      rw [receipts.exclusive receipt hd] at hp
      cases hp
    rw [hopen]
    exact h.completed

theorem markedStatus_ne_pending (receipt : BoxReceipt) : markedStatus receipt ≠ .pending := by
  unfold markedStatus
  split <;> exact ReportStatus.noConfusion

theorem Shows.completing {held : Latch.Held BoxReceipt} (h : Shows start row (some held) s)
    (href : receipt.ref = some row.ref) (hv : verify receipt = true)
    (hr : receipts.replaces held receipt = true) :
    Shows start row (some { held with kept := receipt }) (handleReceipt verify t s receipt) := by
  have hs : (shown row (some held)).status ≠ .pending := markedStatus_ne_pending held.first
  obtain ⟨hp, hd⟩ := Bool.and_eq_true_iff.mp hr
  have hconf := handleReceipt_confined (t := t) href hv h.found
  rw [handleReceipt_completing href hv h.found hs hr] at hconf ⊢
  have hfirst := h.opened held rfl hp
  have hopen : refundStatus (some held) = .pending :=
    congrArg (Option.getD · RefundStatus.pending) (finalStatus_of_provisional hp)
  refine ⟨?_, ?_, h.sole.mono hconf.kept, ?_, h.settled, ?_⟩
  · rintro _ ⟨⟩ hprov
    rw [receipts.exclusive receipt hd] at hprov
    cases hprov
  · dsimp only
    rw [finalizeRefund_reports, mem_updateReceipt]
    exact ⟨_, h.queued, by simp [shown]⟩
  · intro r hr' hid
    have hbefore : ∀ y ∈ (updateReceipt s.db row.ref receipt).refunds,
        row.refundId = some y.refundId → y.status = .pending :=
      fun y hy hyid => (h.refund y hy hyid).trans hopen
    exact refund_of_finalize hbefore hr' hid
  · have hold : isCompleted (some held) = false := by
      change (receipts.provisional held.first && receipts.definitive held.kept) = false
      by_contra hboth
      rw [Bool.not_eq_false] at hboth
      rw [receipts.exclusive _ (Bool.and_eq_true_iff.mp hboth).2] at hp
      cases hp
    have hnew : isCompleted (some { held with kept := receipt }) = true := by
      change (receipts.provisional held.first && receipts.definitive receipt) = true
      rw [← hfirst, hp, hd]
      rfl
    dsimp only
    rw [count_concat_self, h.completed, hold, hnew]
    rfl

/-- A verified receipt of the report goes through its latch. -/
theorem Shows.own (h : Shows start row received s) (hrow : row.status = .pending)
    (href : receipt.ref = some row.ref) (hv : verify receipt = true) :
    Shows start row (receipts.offer received receipt) (handleReceipt verify t s receipt) := by
  cases received with
  | none => exact h.first hrow href hv
  | some held =>
    by_cases hr : receipts.replaces held receipt = true
    · rw [Latch.offer, if_pos hr]
      exact h.completing href hv hr
    · have hs : (shown row (some held)).status ≠ .pending := markedStatus_ne_pending held.first
      rw [Latch.offer, if_neg hr, handleReceipt_duplicate href hv h.found hs
        (Bool.not_eq_true _ ▸ hr)]
      exact h

/-- A refund that has left pending stays the row it is. -/
theorem Shows.lasting (h : Shows start row received s) {r : Refund} (hr : r ∈ s.db.refunds)
    (hid : row.refundId = some r.refundId) (hs : r.status ≠ .pending) :
    r ∈ (handleReceipt verify t s receipt).db.refunds := by
  by_cases hown : receipt.ref = some row.ref ∧ verify receipt = true
  · have hstatus := h.refund r hr hid
    cases received with
    | none => exact absurd hstatus hs
    | some held =>
      have hd : receipts.definitive held.kept = true := by
        by_contra hopen
        rw [refundStatus, Option.bind_some,
          finalStatus_of_open (Bool.not_eq_true _ ▸ hopen)] at hstatus
        exact hs hstatus
      rw [handleReceipt_duplicate hown.1 hown.2 h.found (markedStatus_ne_pending _)
        (Latch.replaces_of_definitive hd)]
      exact hr
  · obtain ⟨ref, refundId, hne, hrefund, hconf⟩ := handleReceipt_passes (t := t) h.sole hown
    exact (hconf.refunds r (hrefund _ hid)).mpr hr

end Steps

/-! ## Every delivery -/

/-- The box after the receipts, each with the clock reading it arrives at, in order. -/
def deliver (verify : BoxReceipt → Bool) (s : Box) (l : List (Int × BoxReceipt)) : Box :=
  l.foldl (fun s d => handleReceipt verify d.1 s d.2) s

/-- The verified receipts of a report, in the order in which they arrive. -/
def verifiedFor (verify : BoxReceipt → Bool) (ref : Nat) (l : List (Int × BoxReceipt)) :
    List BoxReceipt :=
  (l.map Prod.snd).filter (fun receipt => receipt.ref = some ref && verify receipt)

/-- The same verified receipts of the report, however often and in whatever order. The box sends
pending, settled and failed ones. -/
structure Reordered (verify : BoxReceipt → Bool) (ref : Nat) (l l' : List (Int × BoxReceipt)) :
    Prop where
  same : ∀ receipt, receipt ∈ verifiedFor verify ref l ↔ receipt ∈ verifiedFor verify ref l'
  opens : ∀ receipt, (verifiedFor verify ref l).head? = some receipt → receipts.Known receipt
  opens' : ∀ receipt, (verifiedFor verify ref l').head? = some receipt → receipts.Known receipt

/-- The definitive receipts of the report say the same of it. -/
def Agree {γ : Type} (verify : BoxReceipt → Bool) (ref : Nat) (l : List (Int × BoxReceipt))
    (content : BoxReceipt → γ) : Prop :=
  ∀ a ∈ verifiedFor verify ref l, ∀ b ∈ verifiedFor verify ref l,
    isDefinitive a = true → isDefinitive b = true → content a = content b

section Deliveries

variable {verify : BoxReceipt → Bool} {s : Box} {row : PendingReport}
  {l l' : List (Int × BoxReceipt)}

theorem deliver_append : deliver verify s (l ++ l') = deliver verify (deliver verify s l) l' :=
  List.foldl_append

theorem deliver_shows (h : Awaits s.db row) (l : List (Int × BoxReceipt)) :
    Shows s row (receipts.offerAll (verifiedFor verify row.ref l)) (deliver verify s l) := by
  induction l using List.reverseRecOn with
  | nil => exact h.shows
  | append_singleton l d ih =>
    rw [deliver_append]
    change Shows s row _ (handleReceipt verify d.1 (deliver verify s l) d.2)
    unfold verifiedFor at ih ⊢
    rw [List.map_append, List.filter_append]
    by_cases hown : d.2.ref = some row.ref ∧ verify d.2 = true
    · rw [show (List.map Prod.snd [d]).filter
          (fun receipt => receipt.ref = some row.ref && verify receipt) = [d.2] by simp [hown],
        Latch.offerAll_concat]
      exact ih.own h.status hown.1 hown.2
    · rw [show (List.map Prod.snd [d]).filter
          (fun receipt => receipt.ref = some row.ref && verify receipt) = [] by simpa using hown,
        List.append_nil]
      exact ih.other hown

theorem deliver_lasting (h : Awaits s.db row) (l l' : List (Int × BoxReceipt)) {r : Refund}
    (hr : r ∈ (deliver verify s l).db.refunds) (hid : row.refundId = some r.refundId)
    (hs : r.status ≠ .pending) : r ∈ (deliver verify s (l ++ l')).db.refunds := by
  induction l' using List.reverseRecOn with
  | nil =>
    rw [List.append_nil]
    exact hr
  | append_singleton l' d ih =>
    rw [← List.append_assoc, deliver_append]
    exact (deliver_shows h (l ++ l')).lasting ih hid hs

/-- What the queue shows of the report. -/
theorem deliver_get (h : Awaits s.db row) (l : List (Int × BoxReceipt)) :
    get (deliver verify s l).db row.ref =
      some (shown row (receipts.offerAll (verifiedFor verify row.ref l))) :=
  (deliver_shows h l).found

/-- A reordering of definitive receipts that agree makes the same known. -/
theorem kept_reordered {γ : Type} {out : BoxReceipt → Option γ}
    (hout : ∀ receipt, isDefinitive receipt = false → out receipt = none)
    (hre : Reordered verify row.ref l l') (hagree : Agree verify row.ref l out) :
    (receipts.offerAll (verifiedFor verify row.ref l)).bind (fun h => out h.kept) =
      (receipts.offerAll (verifiedFor verify row.ref l')).bind (fun h => out h.kept) :=
  Latch.known_eq hout hre.same hre.opens hre.opens' hagree

theorem refund_reordered (h : Awaits s.db row) (hre : Reordered verify row.ref l l')
    (hagree : Agree verify row.ref l finalStatus) {r r' : Refund}
    (hr : r ∈ (deliver verify s l).db.refunds) (hr' : r' ∈ (deliver verify s l').db.refunds)
    (hid : row.refundId = some r.refundId) (hid' : row.refundId = some r'.refundId) :
    r.status = r'.status := by
  rw [(deliver_shows h l).refund r hr hid, (deliver_shows h l').refund r' hr' hid']
  unfold refundStatus
  rw [kept_reordered (fun _ => finalStatus_of_open) hre hagree]

/-- The definitive receipt that the report has come to hold. -/
theorem offerAll_definitive {receipt : BoxReceipt}
    (hopens : ∀ r, (verifiedFor verify row.ref l).head? = some r → receipts.Known r)
    (hmem : receipt ∈ verifiedFor verify row.ref l) (hd : isDefinitive receipt = true) :
    ∃ held, receipts.offerAll (verifiedFor verify row.ref l) = some held ∧
      (verifiedFor verify row.ref l).head? = some held.first ∧
      held.kept ∈ verifiedFor verify row.ref l ∧ isDefinitive held.kept = true := by
  obtain ⟨held, hheld, hreads⟩ := Latch.offerAll_reads (L := receipts) (List.ne_nil_of_mem hmem)
  refine ⟨held, hheld, hreads.first, hreads.kept, ?_⟩
  rcases hreads.settled (hopens _ hreads.first) with hkept | ⟨_, hno⟩
  · exact hkept
  · have hopen := hno receipt hmem
    rw [show receipts.definitive receipt = true from hd] at hopen
    cases hopen

/-- With one definitive receipt, sent any number of times, the report stores it. -/
theorem stored_reordered {receipt : BoxReceipt} (h : Awaits s.db row)
    (hre : Reordered verify row.ref l l') (hagree : Agree verify row.ref l id)
    (hmem : receipt ∈ verifiedFor verify row.ref l) (hd : isDefinitive receipt = true) :
    ∃ first first', (verifiedFor verify row.ref l).head? = some first ∧
      (verifiedFor verify row.ref l').head? = some first' ∧
      get (deliver verify s l).db row.ref = some (shown row (some ⟨first, receipt⟩)) ∧
      get (deliver verify s l').db row.ref = some (shown row (some ⟨first', receipt⟩)) := by
  obtain ⟨held, hheld, hfirst, hkept, hdef⟩ := offerAll_definitive hre.opens hmem hd
  obtain ⟨held', hheld', hfirst', hkept', hdef'⟩ :=
    offerAll_definitive hre.opens' ((hre.same _).mp hmem) hd
  have heq : held.kept = receipt := hagree _ hkept _ hmem hdef hd
  have heq' : held'.kept = receipt := hagree _ ((hre.same _).mpr hkept') _ hmem hdef' hd
  refine ⟨held.first, held'.first, hfirst, hfirst', ?_, ?_⟩
  · rw [deliver_get h, hheld, ← heq]
  · rw [deliver_get h, hheld', ← heq']

end Deliveries

/-- What the receipts of a waiting report come to, in whatever order and however often they are
delivered. The status column of the queue is left out of what reordering keeps: a completion
replaces the stored receipt and makes no status transition. -/
structure FinalisedOnce (verify : BoxReceipt → Bool) (s : Box) (row : PendingReport) : Prop where
  settled : ∀ l, (deliver verify s l).settled.count row.ref =
    s.settled.count row.ref + if verifiedFor verify row.ref l = [] then 0 else 1
  completed : ∀ l, (deliver verify s l).completed.count row.ref ≤ s.completed.count row.ref + 1
  lasting : ∀ l l', ∀ r ∈ (deliver verify s l).db.refunds, row.refundId = some r.refundId →
    r.status ≠ .pending → r ∈ (deliver verify s (l ++ l')).db.refunds
  refund : ∀ l l', Reordered verify row.ref l l' → Agree verify row.ref l finalStatus →
    ∀ r ∈ (deliver verify s l).db.refunds, ∀ r' ∈ (deliver verify s l').db.refunds,
      row.refundId = some r.refundId → row.refundId = some r'.refundId → r.status = r'.status
  stored : ∀ l l', Reordered verify row.ref l l' → Agree verify row.ref l id →
    (∃ receipt ∈ verifiedFor verify row.ref l, isDefinitive receipt = true) →
    (get (deliver verify s l).db row.ref).map (fun r => { r with status := .pending }) =
      (get (deliver verify s l').db row.ref).map (fun r => { r with status := .pending })
  queue : ∀ l l', Reordered verify row.ref l l' → Agree verify row.ref l id →
    (∃ receipt ∈ verifiedFor verify row.ref l, isDefinitive receipt = true) →
    (∀ receipt ∈ verifiedFor verify row.ref l, receipt.status ≠ .failed) →
    get (deliver verify s l).db row.ref = get (deliver verify s l').db row.ref

/-- Receipts that do not verify or are of no queued report change nothing, and those of a
waiting report finalise it once. -/
theorem finalised_once (verify : BoxReceipt → Bool) :
    (∀ t s receipt, Ignored verify s.db receipt → handleReceipt verify t s receipt = s) ∧
      ∀ s row, Awaits s.db row → FinalisedOnce verify s row := by
  refine ⟨fun t s receipt => handleReceipt_ignored, fun s row h => ⟨fun l => ?_, fun l => ?_,
    fun l l' r => deliver_lasting h l l', fun l l' hre hagree r hr r' hr' =>
      refund_reordered h hre hagree hr hr', ?_, ?_⟩⟩
  · rw [(deliver_shows h l).settled]
    by_cases hnil : verifiedFor verify row.ref l = []
    · rw [if_pos hnil, hnil]
      rfl
    · obtain ⟨held, hheld, _⟩ := Latch.offerAll_reads (L := receipts) hnil
      rw [if_neg hnil, hheld]
      rfl
  · rw [(deliver_shows h l).completed]
    exact Nat.add_le_add_left (Bool.toNat_le _) _
  · rintro l l' hre hagree ⟨receipt, hmem, hd⟩
    obtain ⟨first, first', _, _, hget, hget'⟩ := stored_reordered h hre hagree hmem hd
    rw [hget, hget']
    rfl
  · rintro l l' hre hagree ⟨receipt, hmem, hd⟩ hnone
    obtain ⟨first, first', hfirst, hfirst', hget, hget'⟩ :=
      stored_reordered h hre hagree hmem hd
    have hsettled : markedStatus first = .settled :=
      if_neg (hnone first (List.mem_of_mem_head? hfirst))
    have hsettled' : markedStatus first' = .settled :=
      if_neg (hnone first' ((hre.same _).mpr (List.mem_of_mem_head? hfirst')))
    rw [hget, hget']
    simp only [shown, hsettled, hsettled']

section Sampled

/-- One refund, reported to the box. -/
def oneReport : Box where
  db := (enqueue (recordRefund Db.empty 0
    { claimId := 1, toAccount := "alice", amount := 5, currency := "SWAP.HIVE",
      memo := "ipfs-gate:refund:1", status := .pending, reason := "cancel" }).2 0 1 (some 1)).2
  settled := []
  completed := []

def waiting : PendingReport :=
  { ref := 1, refundId := some 1, status := .pending, createdAt := 0, receipt := none }

def receiptOf (status : ReceiptStatus) : BoxReceipt :=
  { ref := some 1, status, refund := .fin 5, disburseTx := some "box-tx", rest := "", sig := "" }

theorem waiting_awaits : Awaits oneReport.db waiting where
  queued := List.mem_singleton_self waiting
  status := rfl
  owed := by decide +kernel
  sole := by
    intro other hother id _ _
    rw [List.mem_singleton.mp hother]
    rfl

theorem finalised_once_waiting : FinalisedOnce (fun _ => true) oneReport waiting :=
  (finalised_once (fun _ => true)).2 oneReport waiting waiting_awaits

/-- What the queue holds of the report does not depend on the order of its receipts. -/
def OrderFree (verify : BoxReceipt → Bool) (s : Box) (row : PendingReport) : Prop :=
  ∀ l l', Reordered verify row.ref l l' → Agree verify row.ref l id →
    get (deliver verify s l).db row.ref = get (deliver verify s l').db row.ref

/-- A rejection that comes after a pending receipt leaves the report settled, and one that comes
first leaves it failed. -/
theorem rejection_shows_order :
    ¬ ∀ row, Awaits oneReport.db row → OrderFree (fun _ => true) oneReport row := by
  intro h
  have hknown : ∀ {first second : BoxReceipt}, receipts.Known first →
      ∀ r, [first, second].head? = some r → receipts.Known r := by
    rintro first second hfirst r ⟨⟩
    exact hfirst
  have hsame := h waiting waiting_awaits
    [(1, receiptOf .pending), (2, receiptOf .failed)]
    [(1, receiptOf .failed), (2, receiptOf .pending)]
    ⟨fun r => ?_, hknown (Or.inl rfl), hknown (Or.inr rfl)⟩ ?_
  · exact absurd (congrArg (Option.map PendingReport.status) hsame) (by decide +kernel)
  · change r ∈ [receiptOf .pending, receiptOf .failed] ↔ r ∈ [receiptOf .failed, receiptOf .pending]
    simp only [List.mem_cons, List.not_mem_nil, or_false]
    exact or_comm
  · intro a ha b hb hda hdb
    change a ∈ [receiptOf .pending, receiptOf .failed] at ha
    change b ∈ [receiptOf .pending, receiptOf .failed] at hb
    simp only [List.mem_cons, List.not_mem_nil, or_false] at ha hb
    rcases ha with rfl | rfl
    · cases hda
    · rcases hb with rfl | rfl
      · cases hdb
      · rfl

end Sampled

end IpfsGate.Finality
