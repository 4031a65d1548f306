import IpfsGate.Reports.BoxClient
import IpfsGate.Reports.Lives

/-!
# What a receipt does to its report

A verified receipt that arrives ends the report it is for, whatever else the process is doing, and
neither what follows nor a restart opens it again.
-/
namespace IpfsGate.Reports

open Lib (Event Leads Pool Register)
open Lib.Prog (Trace)

variable {cfg : Config} {ref : String} {receipt : Receipt} {w w' : World} {t : Trace (machine cfg)}

/-- The report is no longer pending. -/
def Ended (ref : String) (queue : Queue) : Prop :=
  ∃ r ∈ queue, r.ref = ref ∧ r.status ≠ .pending

/-- No statement opens a report again. -/
theorem Ended.sem (h : Ended ref w.queue) (s : Stmt) : Ended ref (s.sem cfg w).2.queue := by
  obtain ⟨old, hold, href, hstatus⟩ := h
  have hmark : ∀ status other receipt, Ended ref (mark w.queue status other receipt).2 := by
    intro status other receipt
    refine ⟨old, mem_mark.mpr ⟨old, hold, ?_⟩, href, hstatus⟩
    rw [if_neg (fun hp => hstatus hp.2)]
  cases s with
  | connect =>
    have hsame : (connect w).2.queue = w.queue := by
      unfold connect
      split <;> rfl
    show Ended ref (connect w).2.queue
    rw [hsame]
    exact ⟨old, hold, href, hstatus⟩
  | enqueue c => exact ⟨old, Register.mem_insertNew.mpr (Or.inl hold), href, hstatus⟩
  | markAttempt other =>
    refine ⟨_, mem_markAttempt.mpr ⟨old, hold, rfl⟩, ?_, ?_⟩
    · split <;> exact href
    · split <;> exact hstatus
  | markSettled other receipt => exact hmark .settled other receipt
  | markFailed other receipt => exact hmark .failed other receipt
  | updateReceipt other receipt =>
    refine ⟨_, mem_updateReceipt.mpr ⟨old, hold, rfl⟩, ?_, ?_⟩
    · split <;> exact href
    · split <;> exact hstatus
  | _ => exact ⟨old, hold, href, hstatus⟩

theorem Ended.leads (h : Ended ref w.queue) (hrun : Leads (machine cfg) w t w') :
    Ended ref w'.queue :=
  (hrun.invariant (P := fun w : World => Ended ref w.queue) (fun _ _ hw => hw)
    (fun a _ hw => hw.sem a.1) h).1

/-- A row that is marked is no longer pending, whether it was or not. -/
theorem ended_mark {queue : Queue} {status : ReportStatus} (hstatus : status ≠ .pending)
    (hrow : ∃ r ∈ queue, r.ref = ref) (receipt : Receipt) :
    Ended ref (mark queue status ref receipt).2 := by
  obtain ⟨r, hr, href⟩ := hrow
  refine ⟨_, mem_mark.mpr ⟨r, hr, rfl⟩, ?_, ?_⟩
  · split <;> exact href
  · split
    · exact hstatus
    · next hp => exact fun hpending => hp ⟨href, hpending⟩

theorem get_of_row {queue : Queue} (hrow : ∃ r ∈ queue, r.ref = ref) :
    ∃ row, get queue ref = some row := by
  obtain ⟨r, hr, href⟩ := hrow
  exact Option.isSome_iff_exists.mp (List.find?_isSome.mpr ⟨r, hr, decide_eq_true href⟩)

/-- Whatever a turn does after the mark, the report has ended. -/
theorem ended_finalize {α : Type} {row : Row} {k : Unit → Handler cfg α}
    (hrow : ∃ r ∈ w.queue, r.ref = ref) (receipt : Receipt) (past : Trace (machine cfg)) :
    Ended ref (((finalize ref receipt (some row)).bind k).turn past w).2.2.queue := by
  have hrest : ∀ {w : World}, Ended ref w.queue → ∀ (p : Handler cfg α) past,
      Ended ref (p.turn past w).2.2.queue :=
    fun h p past => h.leads (Lib.Prog.leads_turn p past _)
  unfold finalize markRow transact
  by_cases hfailed : receipt.status = .failed
  · rw [if_pos hfailed]
    exact hrest (w := (Stmt.sem cfg (.markFailed ref receipt) w).2)
      (ended_mark (by decide) hrow receipt) _ _
  · rw [if_neg hfailed]
    exact hrest (w := (Stmt.sem cfg (.markSettled ref receipt) w).2)
      (ended_mark (by decide) hrow receipt) _ _

/-- The turn in which a verified receipt arrives ends its report. -/
theorem ended_spawn (S : Pool (machine cfg) Request Answer) (hv : Verified cfg ref receipt)
    (hne : ref ≠ "") (hrow : ∃ r ∈ S.world.queue, r.ref = ref) :
    Ended ref (S.step (handler cfg) (.spawn (.handleReceipt receipt))).world.queue := by
  obtain ⟨row, hget⟩ := get_of_row hrow
  have hopen : (decide (ref = "") || !cfg.verifyReceiptFromBox receipt) = false := by
    simp [hne, hv.2]
  rw [Pool.step, Pool.advance_world]
  show Ended ref (((handleReceipt receipt).bind _).turn [] S.world).2.2.queue
  unfold handleReceipt
  rw [hv.1]
  dsimp only
  rw [hopen, if_neg Bool.false_ne_true]
  show Ended ref (((finalize ref receipt (get S.world.queue ref)).bind _).turn _ S.world).2.2.queue
  rw [hget]
  exact ended_finalize hrow receipt _

/-- The queue that the lives leave. -/
def queueAfter : Queue → List (Life cfg) → Queue
  | queue, [] => queue
  | queue, l :: rest => queueAfter (l.left queue).queue rest

theorem Ended.lives {queue : Queue} (h : Ended ref queue) (lives : List (Life cfg)) :
    Ended ref (queueAfter queue lives) := by
  induction lives generalizing queue with
  | nil => exact h
  | cons l rest ih => exact ih (Ended.leads (w := l.boot queue) h (l.leads queue))

/-- A verified receipt that arrives in a life for a report that is queued by then ends it: at the
end of this life and of any that follow, its row is settled or failed. -/
theorem receipt_ends_report (cfg : Config) (queue : Queue) (l : Life cfg) (rest : List (Life cfg))
    (before after : List (Event (machine cfg) Request)) (ref : String) (receipt : Receipt)
    (hevents : l.events = before ++ .spawn (.handleReceipt receipt) :: after)
    (hv : Verified cfg ref receipt) (hne : ref ≠ "")
    (hrow : ∃ r ∈ ((Pool.start (l.boot queue)).run (handler cfg) before).world.queue,
      r.ref = ref) :
    ∃ r ∈ queueAfter queue (l :: rest), r.ref = ref ∧ r.status ≠ .pending := by
  have hspawn := ended_spawn ((Pool.start (l.boot queue)).run (handler cfg) before) hv hne hrow
  have hpool : Ended ref (l.pool queue).world.queue := by
    rw [Life.pool, hevents, Pool.run, List.foldl_append, List.foldl_cons]
    exact hspawn.leads (Pool.leads_run _ after)
  have hleft : Ended ref (l.left queue).queue :=
    hpool.leads (Pool.crash_rest (handler cfg) (l.pool queue) l.statements l.last).1
  exact hleft.lives rest

namespace Sample

def config : Config where
  service := "ipfs-gate"
  reporter := "gate"
  buildClaimSettleReportFacts := fun _ => none
  buildSinglePaymentReportFacts := fun a => some (.str a.ref)
  sign := fun _ _ => none
  verifyReceiptFromBox := fun _ => true
  parse := fun _ => .error "no facts"

def payment : SettlePayment where
  ref := "ref"
  txId := "tx"
  sender := "alice"
  amount := .fin 1
  currency := "SWAP.HIVE"
  memo := "memo"
  payoutTo := "alice"
  platformFee := .fin 0
  now := 0
  metaData := none

def rejection : Receipt where
  ref := some "ref"
  status := .failed
  rest := .null

def env : Env where
  selfSk := none
  sk := none
  transport := .down
  now := 0

/-- A payment is queued, the box rejects it, and the process stops when it starts to drain. -/
def life : Life config where
  env := env
  events := [.spawn (.settlePayment payment)] ++ .spawn (.handleReceipt rejection) :: []
  last := .spawn .drainOnce
  statements := 1

end Sample

theorem receipt_ends_report_rejected :
    ∃ r ∈ queueAfter Register.empty [Sample.life], r.ref = "ref" ∧ r.status ≠ .pending :=
  receipt_ends_report Sample.config Register.empty Sample.life []
    [.spawn (.settlePayment Sample.payment)] [] "ref" Sample.rejection rfl ⟨rfl, rfl⟩ (by decide)
    (by
      have hany : (((Pool.start (Sample.life.boot Register.empty)).run (handler Sample.config)
          [.spawn (.settlePayment Sample.payment)]).world.queue).any
            (fun r => decide (r.ref = "ref")) = true := by decide
      obtain ⟨r, hr, href⟩ := Register.any_iff.mp hany
      exact ⟨r, hr, of_decide_eq_true href⟩)

end IpfsGate.Reports
