import IpfsGate.Lib.Crash
import IpfsGate.Server.Commits
import IpfsGate.Server.Funding
import IpfsGate.Server.Settlement

/-!
# Refunds across a crash

Ending a claim, recording its refund, queueing the report, marking it by a receipt and settling
the refund are separate commits. A crash loses none of them as long as no handler stands between
one commit and the next that it owes, in this life of the gate or in an earlier one.
-/
namespace IpfsGate.Server

open Quota Moderation
open Lib Lib.Prog
open Prog (Trace)

/-- Every cancelled claim has a refunds row, and in box mode a pending one waits for a receipt
that can still come. -/
structure Recoverable (cfg : Config) (db : Db) : Prop where
  recorded : ∀ c ∈ db.claims, c.state = .cancelled → ∃ f ∈ db.refunds, f.claimId = c.claimId
  queued : cfg.escrowBoxMode = true → ∀ f ∈ db.refunds, f.status = .pending → 0 < f.amount →
    ∃ r ∈ db.pendingReports, r.ref = f.claimId ∧ (r.status = .pending ∨
      ∃ receipt, r.receipt = some receipt ∧ Escrow.isDefinitive receipt = false)

/-- The claim whose refund is recorded. -/
def Stmt.refundOf : Stmt → Option Nat
  | .recordRefund n => some n.claimId
  | _ => none

/-- The process has recorded the refund of every claim it cancelled, and owes no commit. -/
structure AtRest (cfg : Config) (past : Trace (machine cfg)) : Prop where
  recorded : ∀ x ∈ past, ∀ c, Cancels cfg x.1 x.2 c → ∃ y ∈ past, y.1.refundOf = some c.claimId
  complete : Complete cfg past

/-- Bulk imports are idle, and reports can be built. -/
abbrev Stmt.Survives (cfg : Config) (s : Stmt) (w : World) : Prop :=
  s.ImportsIdle w ∧ s.Reportable cfg w

section Rows

variable {cfg : Config} {s : Stmt} {w : World}

/-- The same row, and settled if it was. -/
structure SameRefund (f f' : Refund) : Prop where
  refundId : f'.refundId = f.refundId
  claimId : f'.claimId = f.claimId
  settled : f.status ≠ .pending → f'.status ≠ .pending

theorem SameRefund.refl (f : Refund) : SameRefund f f := ⟨rfl, rfl, id⟩

theorem SameRefund.trans {f g h : Refund} (hfg : SameRefund f g) (hgh : SameRefund g h) :
    SameRefund f h :=
  ⟨hgh.refundId.trans hfg.refundId, hgh.claimId.trans hfg.claimId,
    fun hs => hgh.settled (hfg.settled hs)⟩

/-- Refunds rows stay, and a settled one stays settled. -/
theorem refunds_sem (cfg : Config) (hs : s.Checked w) :
    ∀ f ∈ w.db.refunds, ∃ f' ∈ (s.sem cfg w).2.db.refunds, SameRefund f f' := by
  intro f hf
  by_cases hw : s.writesTo .refunds = true
  · cases s with
    | recordRefund n => exact ⟨f, Table.mem_insert.mpr (Or.inl hf), .refl f⟩
    | markRefundSettled id status txId =>
      refine ⟨_, (Table.mem_update (h := by exact fun _ => rfl)).mpr ⟨f, hf, rfl⟩, ?_⟩
      split
      · exact ⟨rfl, rfl, fun _ => hs⟩
      · exact .refl f
    | _ => cases hw
  · have hsame : (s.sem cfg w).2.db.refunds = w.db.refunds :=
      same_of_not_writesTo cfg .refunds (Bool.eq_false_iff.mpr hw) w
    rw [hsame]
    exact ⟨f, hf, .refl f⟩

/-- Every refunds row is still there, and settled if it was. -/
def KeepsRefunds (a b : World) : Prop :=
  ∀ f ∈ a.db.refunds, ∃ f' ∈ b.db.refunds, SameRefund f f'

/-- Over any stretch of statements refunds rows stay, also across restarts that keep the rows. -/
theorem keepsRefunds_led {restart : World → World → Prop} (hsame : ∀ a b, restart a b → b.db = a.db)
    {t : Trace (machine cfg)} {w w' : World} (h : Led (machine cfg) restart w t w')
    (hchecked : ∀ a ∈ t, a.1.Checked a.2) :
    KeepsRefunds w w' ∧ ∀ a ∈ t, KeepsRefunds (a.1.sem cfg a.2).2 w' := by
  refine h.later (R := KeepsRefunds) (fun _ f hf => ⟨f, hf, .refl f⟩) ?_
    (fun _ _ f hf => ⟨f, hf, .refl f⟩)
    (fun a b hr f hf => ⟨f, (congrArg Db.refunds (hsame a b hr)).symm ▸ hf, .refl f⟩)
    (fun a ha => refunds_sem cfg (hchecked a ha))
  intro _ _ _ h₁ h₂ f hf
  obtain ⟨g, hg, hfg⟩ := h₁ f hf
  obtain ⟨k, hk, hgk⟩ := h₂ g hg
  exact ⟨k, hk, hfg.trans hgk⟩

/-- Over a stretch of one life in particular. -/
theorem keepsRefunds_leads {t : Trace (machine cfg)} {w w' : World}
    (h : Leads (machine cfg) w t w') (hchecked : ∀ a ∈ t, a.1.Checked a.2) :
    KeepsRefunds w w' ∧ ∀ a ∈ t, KeepsRefunds (a.1.sem cfg a.2).2 w' :=
  keepsRefunds_led (fun _ _ hr => congrArg World.db hr.symm) (.of_leads h) hchecked

/-- The claim of the id has a refunds row. -/
def RefundRecorded (id : Nat) (w : World) : Prop := ∃ f ∈ w.db.refunds, f.claimId = id

/-- A recorded refund stays recorded, whatever the statement. -/
theorem refundRecorded_sem (cfg : Config) (s : Stmt) (w : World) (id : Nat)
    (h : RefundRecorded id w) : RefundRecorded id (s.sem cfg w).2 := by
  obtain ⟨f, hf, hid⟩ := h
  by_cases hw : s.writesTo .refunds = true
  · cases s with
    | recordRefund n => exact ⟨f, Table.mem_insert.mpr (Or.inl hf), hid⟩
    | markRefundSettled refundId status txId =>
      refine ⟨_, (Table.mem_update (h := by exact fun _ => rfl)).mpr ⟨f, hf, rfl⟩, ?_⟩
      split <;> exact hid
    | _ => cases hw
  · have hsame : (s.sem cfg w).2.db.refunds = w.db.refunds :=
      same_of_not_writesTo cfg .refunds (Bool.eq_false_iff.mpr hw) w
    exact ⟨f, by rw [hsame]; exact hf, hid⟩

/-- Every refunds row is that of a cancelled claim, for its owner. -/
def RefundsCancelled (w : World) : Prop :=
  ∀ f ∈ w.db.refunds, CancelledFor w.db f.claimId f.toAccount

theorem refundsCancelled_sem (hs : s.Checked w) (hj : s.Justified w) (h : RefundsCancelled w) :
    RefundsCancelled (s.sem cfg w).2 := by
  have hkeep : ∀ {n : Nat} {owner : Account}, CancelledFor w.db n owner →
      CancelledFor (s.sem cfg w).2.db n owner := fun hc => hc.mono (retains_sem cfg hs)
  intro f hf
  by_cases hw : s.writesTo .refunds = true
  · cases s with
    | recordRefund n =>
      rcases Table.mem_insert.mp hf with hold | rfl
      · exact hkeep (h f hold)
      · obtain ⟨c, hc, hid, hown⟩ := hj
        have hcancelled := hc.cancelledFor
        rw [hid, hown] at hcancelled
        exact hkeep hcancelled
    | markRefundSettled id status txId =>
      obtain ⟨x, hx, rfl⟩ := (Table.mem_update (h := by exact fun _ => rfl)).mp hf
      split <;> exact hkeep (h x hx)
    | _ => cases hw
  · have hsame : (s.sem cfg w).2.db.refunds = w.db.refunds :=
      same_of_not_writesTo cfg .refunds (Bool.eq_false_iff.mpr hw) w
    rw [hsame] at hf
    exact hkeep (h f hf)

/-- The books of a gate in which nothing is under way. -/
theorem books_of_refunds {db : Db} (hsized : Sized db)
    (hunique : ∀ f ∈ db.refunds, ∀ g ∈ db.refunds, g.claimId = f.claimId → g = f)
    (hcancelled : ∀ f ∈ db.refunds, CancelledFor db f.claimId f.toAccount) : Books 0 db where
  sized := hsized
  once := by
    have hids : paidIds db = ((db.refunds.rows.map Refund.claimId : List Nat) : Multiset Nat) := by
      unfold paidIds payouts
      rw [List.map_map]
      rfl
    rw [hids, owedIds, Multiset.zero_bind, add_zero, Multiset.coe_nodup]
    exact db.refunds.nodup.map_on (fun f hf g hg hid => (hunique f hf g hg hid.symm).symm)
  recorded := by
    intro p hp
    obtain ⟨f, hf, rfl⟩ := mem_payouts.mp hp
    exact hcancelled f hf
  owed := fun d hd => absurd hd (Multiset.notMem_zero d)
  paid := fun d hd => absurd hd (Multiset.notMem_zero d)

/-- The row of a report keeps its claim and its refunds row. -/
theorem reports_sem (cfg : Config) (s : Stmt) (w : World) :
    ∀ r ∈ w.db.pendingReports, ∃ r' ∈ (s.sem cfg w).2.db.pendingReports,
      r'.ref = r.ref ∧ r'.refundId = r.refundId := by
  intro r hr
  by_cases hw : s.writesTo .reports = true
  · cases s with
    | enqueueReport ref refundId =>
      exact ⟨r, Register.mem_insertNew.mpr (Or.inl hr), rfl, rfl⟩
    | markReport status ref receipt =>
      refine ⟨_, Finality.mem_mark.mpr ⟨r, hr, rfl⟩, ?_⟩
      split <;> exact ⟨rfl, rfl⟩
    | updateReceipt ref receipt =>
      refine ⟨_, Finality.mem_updateReceipt.mpr ⟨r, hr, rfl⟩, ?_⟩
      split <;> exact ⟨rfl, rfl⟩
    | _ => cases hw
  · have hsame : (s.sem cfg w).2.db.pendingReports = w.db.pendingReports :=
      same_of_not_writesTo cfg .reports (Bool.eq_false_iff.mpr hw) w
    exact ⟨r, by rw [hsame]; exact hr, rfl, rfl⟩

/-- A report names the refunds row of its claim, and has a receipt once it is not pending. -/
structure Founded (db : Db) (r : PendingReport) : Prop where
  refund : ∃ f ∈ db.refunds, r.refundId = some f.refundId ∧ f.claimId = r.ref
  receipt : r.status ≠ .pending → r.receipt ≠ none

def ReportsFounded (w : World) : Prop := ∀ r ∈ w.db.pendingReports, Founded w.db r

theorem Founded.later {r : PendingReport} (hs : s.Checked w) (h : Founded w.db r) :
    Founded (s.sem cfg w).2.db r where
  refund := by
    obtain ⟨f, hf, hid, hclaim⟩ := h.refund
    obtain ⟨f', hf', hsame⟩ := refunds_sem cfg hs f hf
    exact ⟨f', hf', hid.trans (congrArg some hsame.refundId.symm), hsame.claimId.trans hclaim⟩
  receipt := h.receipt

theorem reportsFounded_sem (hs : s.Checked w) (hj : s.Justified w) (h : ReportsFounded w) :
    ReportsFounded (s.sem cfg w).2 := by
  intro r hr
  by_cases hw : s.writesTo .reports = true
  · cases s with
    | enqueueReport ref refundId =>
      rcases Register.mem_insertNew.mp hr with hr | ⟨rfl, _⟩
      · exact (h r hr).later hs
      · obtain ⟨f, hf, hid, hclaim⟩ := hj
        exact ⟨⟨f, hf, congrArg some hid.symm, hclaim⟩, fun hne => absurd rfl hne⟩
    | markReport status ref receipt =>
      obtain ⟨x, hx, rfl⟩ := Finality.mem_mark.mp hr
      split
      · exact ⟨(h x hx).refund, fun _ => Option.some_ne_none _⟩
      · exact (h x hx).later hs
    | updateReceipt ref receipt =>
      obtain ⟨x, hx, rfl⟩ := Finality.mem_updateReceipt.mp hr
      split
      · exact ⟨(h x hx).refund, fun _ => Option.some_ne_none _⟩
      · exact (h x hx).later hs
    | _ => cases hw
  · have hsame : (s.sem cfg w).2.db.pendingReports = w.db.pendingReports :=
      same_of_not_writesTo cfg .reports (Bool.eq_false_iff.mpr hw) w
    rw [hsame] at hr
    exact (h r hr).later hs

/-- Claims are created open. -/
theorem created_open {c : Claim} (h : created (s, w) = some c) : c.state ≠ .cancelled := by
  cases s with
  | finaliseUpload id u =>
    cases h
    exact ClaimState.noConfusion
  | pledge g =>
    cases h
    exact ClaimState.noConfusion
  | createOwnCopyClaim n =>
    simp only [created] at h
    split at h
    · obtain ⟨info, _, rfl⟩ := Option.map_eq_some_iff.mp h
      exact ClaimState.noConfusion
    · cases h
  | _ => cases h

/-- A claim of the id is cancelled. -/
def CancelledId (id : Nat) (w : World) : Prop :=
  ∃ d ∈ w.db.claims, d.claimId = id ∧ d.state = .cancelled

theorem cancels_of_new {id : Nat} (hold : ¬ CancelledId id w)
    (hnew : CancelledId id (s.sem cfg w).2) : ∃ c, Cancels cfg s w c ∧ c.claimId = id := by
  obtain ⟨d, hd, hid, hstate⟩ := hnew
  by_cases hc : ∃ c ∈ w.db.claims, c.claimId = id
  · obtain ⟨c, hc, hcid⟩ := hc
    refine ⟨c, ⟨hc, fun hs => hold ⟨c, hc, hcid, hs⟩, d, hd, hid.trans hcid.symm, hstate⟩, hcid⟩
  · have hcreated := created_of_new cfg hd (fun c hm heq => hc ⟨c, hm, heq.trans hid⟩)
    exact absurd hstate (created_open hcreated)

end Rows

/-! ## The statements up to a crash -/

/-- The gate starts again some time later: the rows and what Kubo has pinned are still there. -/
def World.reboot (w : World) (down : Nat) : World := { w with now := w.now + down, sweeping := false }

def Restarts (a b : World) : Prop := ∃ down, b = a.reboot down

theorem Restarts.db_eq {a b : World} (h : Restarts a b) : b.db = a.db := by
  obtain ⟨down, rfl⟩ := h
  rfl

/-- Each statement that takes another was completed. -/
structure Tidy (cfg : Config) (t : Trace (machine cfg)) : Prop where
  checked : ∀ a ∈ t, a.1.Checked a.2
  justified : ∀ a ∈ t, a.1.Justified a.2
  completed : ∀ a ∈ t, ∀ s, completion cfg a = some s → (s, (a.1.sem cfg a.2).2) ∈ t

theorem Tidy.append {cfg : Config} {t u : Trace (machine cfg)} (ht : Tidy cfg t) (hu : Tidy cfg u) :
    Tidy cfg (t ++ u) where
  checked := fun a ha => (List.mem_append.mp ha).elim (ht.checked a) (hu.checked a)
  justified := fun a ha => (List.mem_append.mp ha).elim (ht.justified a) (hu.justified a)
  completed := fun a ha s hs => (List.mem_append.mp ha).elim
    (fun ha => List.mem_append_left _ (ht.completed a ha s hs))
    (fun ha => List.mem_append_right _ (hu.completed a ha s hs))

/-- The statements lead from the first start of the gate to the world, and are tidy. -/
structure Orderly (cfg : Config) (t₀ : Int) (t : Trace (machine cfg)) (w : World) : Prop
    extends Tidy cfg t where
  led : Led (machine cfg) Restarts (World.boot t₀) t w

namespace Orderly

variable {cfg : Config} {t₀ : Int} {t : Trace (machine cfg)} {w : World}

theorem refunds_later (h : Orderly cfg t₀ t w) {a : Stmt × World} (ha : a ∈ t) {f : Refund}
    (hf : f ∈ (a.1.sem cfg a.2).2.db.refunds) : ∃ f' ∈ w.db.refunds, SameRefund f f' :=
  (keepsRefunds_led (fun _ _ hr => hr.db_eq) h.led h.checked).2 a ha f hf

theorem reports_later (h : Orderly cfg t₀ t w) {a : Stmt × World} (ha : a ∈ t)
    {r : PendingReport} (hr : r ∈ (a.1.sem cfg a.2).2.db.pendingReports) :
    ∃ r' ∈ w.db.pendingReports, r'.ref = r.ref := by
  refine (h.led.later (R := fun w w' : World => ∀ r ∈ w.db.pendingReports,
    ∃ r' ∈ w'.db.pendingReports, r'.ref = r.ref) (fun _ r hr => ⟨r, hr, rfl⟩) ?_
    (fun _ _ r hr => ⟨r, hr, rfl⟩) ?_ (fun a _ => ?_)).2 a ha r hr
  · intro _ _ _ h₁ h₂ r hr
    obtain ⟨x, hx, hrx⟩ := h₁ r hr
    obtain ⟨y, hy, hxy⟩ := h₂ x hx
    exact ⟨y, hy, hxy.trans hrx⟩
  · rintro a _ ⟨down, rfl⟩ r hr
    exact ⟨r, hr, rfl⟩
  · intro r hr
    obtain ⟨r', hr', href, _⟩ := reports_sem cfg a.1 a.2 r hr
    exact ⟨r', hr', href⟩

/-- Reports are founded in every world on the way. -/
theorem founded (h : Orderly cfg t₀ t w) : ReportsFounded w ∧ ∀ a ∈ t, ReportsFounded a.2 :=
  h.led.invariant (P := ReportsFounded) (fun _ _ hw => hw)
    (by rintro a _ ⟨down, rfl⟩ hw; exact hw)
    (fun a ha => reportsFounded_sem (h.checked a ha) (h.justified a ha))
    (fun r hr => absurd hr (Register.not_mem_empty r))

/-- A pending refunds row was recorded as pending. -/
theorem recorded_pending (h : Orderly cfg t₀ t w) {f : Refund} (hf : f ∈ w.db.refunds)
    (hs : f.status = .pending) : ∃ n w', (.recordRefund n, w') ∈ t ∧ n.status = .pending ∧
      n.claimId = f.claimId ∧ w'.db.refunds.next = f.refundId := by
  obtain ⟨⟨s, w'⟩, ha, hold, g, hg, hid⟩ := h.led.origin
    (F := fun w : World => ∃ g ∈ w.db.refunds, g.refundId = f.refundId) (fun _ _ h => h)
    (by rintro a _ ⟨down, rfl⟩ h; exact h) (fun ⟨g, hg, _⟩ => Table.not_mem_empty g hg) ⟨f, hf, rfl⟩
  dsimp only at hold hg
  by_cases hw : s.writesTo .refunds = true
  · cases s with
    | recordRefund n =>
      rcases Table.mem_insert.mp hg with hg' | hnew
      · exact absurd ⟨g, hg', hid⟩ hold
      · obtain ⟨f', hf', hsame⟩ := h.refunds_later ha hg
        have hff' : f' = f := Table.eq_of_key hf' hf (hsame.refundId.trans hid)
        rw [hff', hnew] at hsame
        refine ⟨n, w', ha, ?_, hsame.claimId.symm, hsame.refundId.symm⟩
        by_contra hn
        exact hsame.settled hn hs
    | markRefundSettled id status txId =>
      obtain ⟨x, hx, rfl⟩ := (Table.mem_update (h := by exact fun _ => rfl)).mp hg
      refine absurd ⟨x, hx, ?_⟩ hold
      rw [← hid]
      split <;> rfl
    | _ => cases hw
  · have hsame : (s.sem cfg w').2.db.refunds = w'.db.refunds :=
      same_of_not_writesTo cfg .refunds (Bool.eq_false_iff.mpr hw) w'
    rw [hsame] at hg
    exact absurd ⟨g, hg, hid⟩ hold

/-- In box mode the claim of a pending refunds row has a report. -/
theorem reported (h : Orderly cfg t₀ t w) (hbox : cfg.escrowBoxMode = true) {f : Refund}
    (hf : f ∈ w.db.refunds) (hs : f.status = .pending) :
    ∃ r ∈ w.db.pendingReports, r.ref = f.claimId := by
  obtain ⟨n, w', ha, hn, hclaim, _⟩ := h.recorded_pending hf hs
  have hnext : completion cfg (.recordRefund n, w') =
      some (.enqueueReport n.claimId w'.db.refunds.next) := by
    rw [completion_recordRefund, hbox, hn]
    rfl
  have hb := h.completed _ ha _ hnext
  have hqueued : ∃ r ∈ ((Stmt.enqueueReport n.claimId w'.db.refunds.next).sem cfg
      ((Stmt.recordRefund n).sem cfg w').2).2.db.pendingReports, r.ref = n.claimId := by
    by_cases hold : ∃ r ∈ w'.db.pendingReports, r.ref = n.claimId
    · obtain ⟨r, hr, href⟩ := hold
      exact ⟨r, Register.mem_insertNew.mpr (Or.inl hr), href⟩
    · exact ⟨_, Register.mem_insertNew.mpr (Or.inr ⟨rfl, fun r hr heq => hold ⟨r, hr, heq⟩⟩), rfl⟩
  obtain ⟨r, hr, href⟩ := hqueued
  obtain ⟨r', hr', href'⟩ := h.reports_later hb hr
  exact ⟨r', hr', href'.trans (href.trans hclaim)⟩

/-- A definitive receipt has an outcome. -/
theorem outcome_of_definitive {receipt : BoxReceipt} (h : Escrow.isDefinitive receipt = true) :
    ∃ out, Escrow.refundOutcome receipt = some out := by
  unfold Escrow.isDefinitive at h
  unfold Escrow.refundOutcome
  simp only [Bool.or_eq_true, decide_eq_true_eq] at h
  rcases h with h | h <;> rw [h] <;> exact ⟨_, rfl⟩

/-- A report stores a definitive receipt of the claim. -/
def Decided (ref : Nat) (w : World) : Prop :=
  ∃ r ∈ w.db.pendingReports, r.ref = ref ∧
    ∃ receipt, r.receipt = some receipt ∧ Escrow.isDefinitive receipt = true

/-- A definitive receipt of a report settles the refunds row that the report names. -/
theorem settlement_definitive {db : Db} {x : PendingReport} {receipt : BoxReceipt}
    (hx : x ∈ db.pendingReports) (hdef : Escrow.isDefinitive receipt = true) {id : Nat}
    (hid : x.refundId = some id) :
    ∃ status txId, settlement db x.ref receipt = some (.markRefundSettled id status txId) := by
  obtain ⟨out, hout⟩ := outcome_of_definitive hdef
  refine ⟨out.1, out.2, ?_⟩
  rw [settlement_of_get (Finality.get_eq_some.mpr ⟨hx, rfl⟩), hid, hout]
  rfl

/-- The commit that stores a definitive receipt takes the settlement of the refunds row. -/
theorem settlement_of_decided {s : Stmt} {w' : World} {ref : Nat} (hold : ¬ Decided ref w')
    (hnew : Decided ref (s.sem cfg w').2) :
    ∃ row ∈ w'.db.pendingReports, row.ref = ref ∧ ∀ id, row.refundId = some id →
      ∃ status txId, completion cfg (s, w') = some (.markRefundSettled id status txId) := by
  obtain ⟨r, hr, href, receipt, hreceipt, hdef⟩ := hnew
  by_cases hw : s.writesTo .reports = true
  · cases s with
    | enqueueReport ref' refundId =>
      rcases Register.mem_insertNew.mp hr with hr | ⟨rfl, _⟩
      · exact absurd ⟨r, hr, href, receipt, hreceipt, hdef⟩ hold
      · cases hreceipt
    | markReport status ref' receipt' =>
      obtain ⟨x, hx, rfl⟩ := Finality.mem_mark.mp hr
      split at hreceipt
      · rename_i hsel
        cases hreceipt
        rw [if_pos hsel] at href
        obtain ⟨rfl, hpending⟩ : x.ref = ref' ∧ x.status = .pending := by simpa using hsel
        refine ⟨x, hx, href, fun id hid => ?_⟩
        have hmark : completion cfg (.markReport status x.ref receipt, w') =
            if (Escrow.mark w'.db status x.ref receipt).1 then settlement w'.db x.ref receipt
            else none := rfl
        rw [hmark, if_pos (Finality.mark_of_pending (Finality.get_eq_some.mpr ⟨hx, rfl⟩) hpending)]
        exact settlement_definitive hx hdef hid
      · rename_i hsel
        rw [if_neg hsel] at href
        exact absurd ⟨x, hx, href, receipt, hreceipt, hdef⟩ hold
    | updateReceipt ref' receipt' =>
      obtain ⟨x, hx, rfl⟩ := Finality.mem_updateReceipt.mp hr
      split at hreceipt
      · rename_i hsel
        cases hreceipt
        rw [if_pos hsel] at href
        subst hsel
        exact ⟨x, hx, href, fun id hid => settlement_definitive hx hdef hid⟩
      · rename_i hsel
        rw [if_neg hsel] at href
        exact absurd ⟨x, hx, href, receipt, hreceipt, hdef⟩ hold
    | _ => cases hw
  · have hsame : (s.sem cfg w').2.db.pendingReports = w'.db.pendingReports :=
      same_of_not_writesTo cfg .reports (Bool.eq_false_iff.mpr hw) w'
    rw [hsame] at hr
    exact absurd ⟨r, hr, href, receipt, hreceipt, hdef⟩ hold

/-- Once a definitive receipt of a claim is stored, a refunds row of the claim is settled. -/
theorem settled_of_decided (h : Orderly cfg t₀ t w) {ref : Nat} (hdecided : Decided ref w) :
    ∃ g ∈ w.db.refunds, g.claimId = ref ∧ g.status ≠ .pending := by
  obtain ⟨⟨s, w'⟩, ha, hold, hnew⟩ := h.led.origin (F := Decided ref) (fun _ _ h => h)
    (by rintro a _ ⟨down, rfl⟩ h; exact h) (fun ⟨r, hr, _⟩ => Register.not_mem_empty r hr) hdecided
  obtain ⟨row, hrow, href, hset⟩ := settlement_of_decided hold hnew
  obtain ⟨f, hf, hid, hclaim⟩ := (h.founded.2 _ ha row hrow).refund
  obtain ⟨status, txId, hnext⟩ := hset _ hid
  have hb := h.completed _ ha _ hnext
  obtain ⟨f', hf', hsame⟩ := refunds_sem cfg (h.checked _ ha) f hf
  have hmem : ∃ g ∈ ((Stmt.markRefundSettled f.refundId status txId).sem cfg
      (s.sem cfg w').2).2.db.refunds, g.claimId = ref ∧ g.status ≠ .pending := by
    refine ⟨_, (Table.mem_update (h := by exact fun _ => rfl)).mpr ⟨f', hf', rfl⟩, ?_⟩
    rw [if_pos (decide_eq_true hsame.refundId)]
    exact ⟨hsame.claimId.trans (hclaim.trans href), h.checked _ hb⟩
  obtain ⟨g, hg, hgclaim, hgs⟩ := hmem
  obtain ⟨g', hg', hgg'⟩ := h.refunds_later hb hg
  exact ⟨g', hg', hgg'.claimId.trans hgclaim, hgg'.settled hgs⟩

/-- In box mode a pending refund still waits for a receipt, if no claim has two refunds. -/
theorem queued (h : Orderly cfg t₀ t w) (hbox : cfg.escrowBoxMode = true)
    (hunique : ∀ f ∈ w.db.refunds, ∀ g ∈ w.db.refunds, g.claimId = f.claimId → g = f)
    {f : Refund} (hf : f ∈ w.db.refunds) (hs : f.status = .pending) :
    ∃ r ∈ w.db.pendingReports, r.ref = f.claimId ∧ (r.status = .pending ∨
      ∃ receipt, r.receipt = some receipt ∧ Escrow.isDefinitive receipt = false) := by
  obtain ⟨r, hr, href⟩ := h.reported hbox hf hs
  refine ⟨r, hr, href, ?_⟩
  by_cases hr' : r.status = .pending
  · exact Or.inl hr'
  · right
    obtain ⟨receipt, hreceipt⟩ := Option.ne_none_iff_exists'.mp ((h.founded.1 r hr).receipt hr')
    refine ⟨receipt, hreceipt, ?_⟩
    by_contra hdef
    obtain ⟨g, hg, hclaim, hsettled⟩ := h.settled_of_decided
      ⟨r, hr, href, receipt, hreceipt, Bool.not_eq_false _ ▸ hdef⟩
    rw [hunique f hf g hg hclaim] at hsettled
    exact hsettled hs

end Orderly

/-! ## Lives -/

/-- A life of the gate, which starts after it has been down for some time. -/
abbrev Life (cfg : Config) := Lib.Life (machine cfg) Request Nat

section Lives

variable {cfg : Config} {t₀ : Int} {w : World}

namespace Life

variable (l : Life cfg) (w : World)

def gate : Gate cfg := (Pool.start (w.reboot l.start)).run (handle cfg) l.events

def crash : Crash (machine cfg) := (l.gate w).crash (handle cfg) l.statements l.last

/-- What the life leaves. -/
def left : World := (l.crash w).world

/-- The statements of the life meet the condition, those of the turn it stops in too. -/
abbrev Guarded (Ok : Stmt → World → Prop) : Prop :=
  Pool.Admissible (handle cfg) (fun _ _ => True) (fun _ => Ok) (Pool.start (w.reboot l.start))
    (l.events ++ [l.last])

/-- In the life bulk imports are idle and reports can be built, and it leaves every process at
rest. -/
structure Calm : Prop where
  survives : l.Guarded w (Stmt.Survives cfg)
  atRest : ∀ past ∈ (l.crash w).inFlight, AtRest cfg past

variable {l w}

theorem gate_step : (l.gate w).step (handle cfg) l.last =
    (Pool.start (w.reboot l.start)).run (handle cfg) (l.events ++ [l.last]) := by
  unfold gate Pool.run
  rw [List.foldl_append]
  rfl

theorem prompt_of_guarded {events : List (GateEvent cfg)} (h : Pool.Admissible (handle cfg)
      (fun _ _ => True) (fun _ => Stmt.Reportable cfg) (Pool.start w) events) :
    (reporting cfg).Stands (Prompt cfg) (fun _ _ past _ => Complete cfg past)
      ((Pool.start w).run (handle cfg) events) := by
  refine Rely.run_stands (reporting_valid cfg) trivial
    (fun q w _ _ => handle_careful q [] Complete.nil) h ?_
  intro e _
  cases e with
  | resume i answer => exact fun _ => trivial
  | _ => trivial

/-- In a life in which reports can be built, every process completes what it commits. -/
theorem prompt (h : l.Guarded w (Stmt.Reportable cfg)) :
    (reporting cfg).Stands (Prompt cfg) (fun _ _ past _ => Complete cfg past) (l.gate w) ∧
      (reporting cfg).Stands (Prompt cfg) (fun _ _ past _ => Complete cfg past)
        ((l.gate w).step (handle cfg) l.last) := by
  rw [gate_step]
  exact ⟨prompt_of_guarded (Pool.admissible_append.mp h).1, prompt_of_guarded h⟩

theorem completed_of_kept {q : Request} {past : Trace (machine cfg)}
    (hk : Guarantee.Kept (Prompt cfg q) past) (hc : Complete cfg past) {a : Stmt × World}
    (ha : a ∈ past) {s : Stmt} (hs : completion cfg a = some s) :
    (s, (a.1.sem cfg a.2).2) ∈ past := by
  obtain ⟨init, rest, rfl⟩ := List.append_of_mem ha
  cases rest with
  | nil => exact absurd (hc a List.getLast?_concat) (by rw [hs]; exact Option.some_ne_none s)
  | cons b rest =>
    obtain ⟨s', w'⟩ := b
    have hb := hk (init ++ [a]) s' w' rest (by rw [List.append_assoc]; rfl)
    obtain ⟨rfl, rfl⟩ := hb.completes a List.getLast?_concat s hs
    exact List.mem_append_right _ (List.mem_cons_of_mem _ List.mem_cons_self)

/-- The traces that a life leaves, ended or at rest, were run promptly and are complete. -/
theorem left_prompt (h : l.Guarded w (Stmt.Reportable cfg))
    (hrest : ∀ past ∈ (l.crash w).inFlight, Complete cfg past) {past : Trace (machine cfg)}
    (hpast : past ∈ (l.gate w).left (handle cfg) l.statements l.last) :
    (∃ q, Guarantee.Kept (Prompt cfg q) past) ∧ Complete cfg past := by
  obtain ⟨hbefore, hafter⟩ := prompt h
  rcases List.mem_append.mp hpast with hended | hflight
  · obtain ⟨f, hf, rfl⟩ := List.mem_map.mp hended
    obtain ⟨hkept, hcomplete⟩ := hbefore.finished f hf
    exact ⟨⟨_, hkept⟩, hcomplete⟩
  · obtain ⟨q, full, hran, hprefix⟩ := Pool.inFlight_ran hflight
    exact ⟨⟨q, (hafter.kept_of_ran hran).of_initial hprefix⟩, hrest past hflight⟩

/-- The statements of a life that leaves every process at rest are tidy. -/
theorem history (h : l.Guarded w (Stmt.Reportable cfg))
    (hrest : ∀ past ∈ (l.crash w).inFlight, Complete cfg past) :
    ∃ ran, Leads (machine cfg) (w.reboot l.start) ran (l.left w) ∧ Tidy cfg ran ∧
      ∀ a, a ∈ ran ↔ ∃ past ∈ (l.gate w).left (handle cfg) l.statements l.last, a ∈ past := by
  obtain ⟨ran, hleads, hmem⟩ :=
    Pool.crash_history (handle cfg) (w.reboot l.start) l.events l.statements l.last
  have hprompt : ∀ a ∈ ran, ∃ q past, Prompt cfg q past a.1 a.2 := by
    intro a ha
    obtain ⟨past, hpast, hin⟩ := (hmem a).mp ha
    obtain ⟨⟨q, hkept⟩, _⟩ := left_prompt h hrest hpast
    obtain ⟨init, rest, _, hg⟩ := hkept.of_mem hin
    exact ⟨q, init, hg⟩
  refine ⟨ran, hleads, ⟨fun a ha => ?_, fun a ha => ?_, fun a ha s hs => ?_⟩, hmem⟩
  · obtain ⟨_, _, hg⟩ := hprompt a ha
    exact hg.tabled.2
  · obtain ⟨_, _, hg⟩ := hprompt a ha
    exact hg.justified
  · obtain ⟨past, hpast, hin⟩ := (hmem a).mp ha
    obtain ⟨⟨q, hkept⟩, hcomplete⟩ := left_prompt h hrest hpast
    exact (hmem _).mpr ⟨past, hpast, completed_of_kept hkept hcomplete hin hs⟩

/-- A refund that is recorded in a world is recorded in every later one. -/
theorem recorded_later {a b : World} {u : Trace (machine cfg)} (h : Leads (machine cfg) a u b)
    {id : Nat} (hid : RefundRecorded id a) : RefundRecorded id b :=
  (h.later (R := fun a b : World => ∀ id, RefundRecorded id a → RefundRecorded id b)
    (fun _ _ h => h) (fun _ _ _ h₁ h₂ id h => h₂ id (h₁ id h)) (fun _ _ _ h => h)
    (fun a _ => refundRecorded_sem cfg a.1 a.2)).1 id hid

/-- A refund recorded where a request ended is recorded at the crash. -/
theorem recorded_of_finished {f : Finished (machine cfg) Request Body}
    (hf : f ∈ (l.gate w).finished) {id : Nat} (h : RefundRecorded id f.final) :
    RefundRecorded id (l.left w) := by
  have hlater := Pool.finished_later (handle cfg)
    (R := fun w w' : World => ∀ id, RefundRecorded id w → RefundRecorded id w') (fun _ _ h => h)
    (fun _ _ _ h₁ h₂ id h => h₂ id (h₁ id h)) (fun _ _ _ h => h)
    (fun s w => refundRecorded_sem cfg s w) (S := Pool.start (w.reboot l.start))
    (fun _ hf => absurd hf List.not_mem_nil) l.events f hf
  exact recorded_later (Pool.crash_rest (handle cfg) (l.gate w) l.statements l.last).1
    (hlater id h)

/-- No claim has two refunds where the gate crashed, since none has two where it would have gone
on to. -/
theorem unique (hbooks : Books 0 w.db) (h : l.Guarded w (Stmt.Reportable cfg)) :
    ∀ f ∈ (l.left w).db.refunds, ∀ g ∈ (l.left w).db.refunds, g.claimId = f.claimId → g = f := by
  obtain ⟨_, rest, hdid, hleads⟩ :=
    Pool.crash_rest (handle cfg) (l.gate w) l.statements l.last
  have hchecked : ∀ a ∈ rest, a.1.Checked a.2 := by
    intro a ha
    have hin := (Pool.traces_step (l.gate w) l.last).symm.subset
      (List.mem_append_right _ (hdid ▸ List.mem_append_right _ ha))
    obtain ⟨past, hpast, hin⟩ := List.mem_flatten.mp hin
    obtain ⟨q, hran⟩ := Pool.mem_traces_iff.mp hpast
    obtain ⟨init, tail, _, hg⟩ := ((prompt h).2.kept_of_ran hran).of_mem hin
    exact hg.tabled.2
  have hlater := (keepsRefunds_leads hleads hchecked).1
  obtain ⟨held, hholds⟩ := books_of_start cfg (w := w.reboot l.start) hbooks h
  have hinv : Books _ _ := hholds.inv
  rw [← gate_step] at hinv
  intro f hf g hg hclaim
  obtain ⟨f', hf', hff'⟩ := hlater f hf
  obtain ⟨g', hg', hgg'⟩ := hlater g hg
  have heq := hinv.unique hf' hg' (hgg'.claimId.trans (hclaim.trans hff'.claimId.symm))
  exact Table.eq_of_key hg hf (hgg'.refundId.symm.trans ((congrArg Refund.refundId heq).trans
    hff'.refundId))

end Life

theorem Life.Calm.reportable {l : Life cfg} (h : l.Calm w) : l.Guarded w (Stmt.Reportable cfg) :=
  h.survives.mono_runs (fun _ _ _ hs => hs.2)

/-- The statements of a calm life are tidy. -/
theorem Life.Calm.tidy {l : Life cfg} (h : l.Calm w) :
    ∃ ran, Leads (machine cfg) (w.reboot l.start) ran (l.left w) ∧ Tidy cfg ran ∧
      ∀ a, a ∈ ran ↔ ∃ past ∈ (l.gate w).left (handle cfg) l.statements l.last, a ∈ past :=
  Life.history h.reportable (fun past hp => (h.atRest past hp).complete)

/-- What a gate that starts, for the first time or again, finds in its rows. -/
structure Sound (cfg : Config) (t₀ : Int) (w : World) : Prop where
  orderly : ∃ ran, Orderly cfg t₀ ran w
  books : Books 0 w.db
  recorded : ∀ c ∈ w.db.claims, c.state = .cancelled → RefundRecorded c.claimId w

theorem sound_boot : Sound cfg t₀ (World.boot t₀) where
  orderly := ⟨[], ⟨fun _ ha => absurd ha List.not_mem_nil, fun _ ha => absurd ha List.not_mem_nil,
    fun _ ha => absurd ha List.not_mem_nil⟩, .nil⟩
  books := .empty
  recorded := fun c hc => absurd hc (Table.not_mem_empty c)

/-- After a calm life every cancelled claim has its refund recorded. -/
theorem recorded_of_calm {l : Life cfg} (h : Sound cfg t₀ w) (hl : l.Calm w) :
    ∀ c ∈ (l.left w).db.claims, c.state = .cancelled → RefundRecorded c.claimId (l.left w) := by
  have hidle : Pool.Admissible (handle cfg) (fun _ _ => True) (fun _ => Stmt.ImportsIdle)
      (Pool.start (w.reboot l.start)) l.events :=
    (Pool.admissible_append.mp hl.survives).1.mono_runs (fun _ _ _ hs => hs.1)
  obtain ⟨ran, hleads, htidy, hmem⟩ := hl.tidy
  intro c hc hcancelled
  by_cases hold : CancelledId c.claimId (w.reboot l.start)
  · obtain ⟨d, hd, hid, hstate⟩ := hold
    have hfirst : RefundRecorded c.claimId (w.reboot l.start) := hid ▸ h.recorded d hd hstate
    exact Life.recorded_later hleads hfirst
  · obtain ⟨a, ha, hold, hnew⟩ := hleads.origin (F := CancelledId c.claimId)
      (fun _ _ h => h) hold ⟨c, hc, rfl, hcancelled⟩
    obtain ⟨d, hcancels, hid⟩ := cancels_of_new hold hnew
    obtain ⟨past, hpast, hin⟩ := (hmem a).mp ha
    rcases List.mem_append.mp hpast with hended | hflight
    · obtain ⟨f, hf, rfl⟩ := List.mem_map.mp hended
      obtain ⟨held, hholds⟩ := books_of_start cfg (w := w.reboot l.start) h.books hidle
      obtain ⟨r, hr, hsettles, _⟩ := hholds.finished f hf (fun _ _ hs => hs) a hin d hcancels
      exact Life.recorded_of_finished hf ⟨r, hr, hsettles.claimId.trans hid⟩
    · obtain ⟨⟨s, w'⟩, hy, hrefund⟩ := (hl.atRest past hflight).recorded a hin d hcancels
      have hyran := (hmem _).mpr ⟨past, hpast, hy⟩
      cases s with
      | recordRefund n =>
        obtain ⟨f, hf, hsame⟩ := (keepsRefunds_leads hleads htidy.checked).2 _ hyran _
          (Table.mem_insert.mpr (Or.inr rfl))
        exact ⟨f, hf, hsame.claimId.trans ((Option.some.inj hrefund).trans hid)⟩
      | _ => cases hrefund

/-- A calm life leaves what it found: sound rows. -/
theorem Sound.life {l : Life cfg} (h : Sound cfg t₀ w) (hl : l.Calm w) :
    Sound cfg t₀ (l.left w) := by
  obtain ⟨ran, hleads, htidy, _⟩ := hl.tidy
  refine ⟨?_, ?_, recorded_of_calm h hl⟩
  · obtain ⟨past, hpast⟩ := h.orderly
    exact ⟨past ++ ran, hpast.toTidy.append htidy, hpast.led.life ⟨l.start, rfl⟩ hleads⟩
  · have hsized := (hleads.invariant (P := fun w : World => Sized w.db) (fun _ _ hw => hw)
      (fun a ha => (retains_sem cfg (htidy.checked a ha)).sized) h.books.sized).1
    have hcancelled := (hleads.invariant (P := RefundsCancelled) (fun _ _ hw => hw)
      (fun a ha => refundsCancelled_sem (htidy.checked a ha) (htidy.justified a ha))
      (fun f hf => h.books.recorded _ (mem_payouts.mpr ⟨f, hf, rfl⟩))).1
    exact books_of_refunds hsized (Life.unique h.books hl.reportable) hcancelled

/-- The world that the lives leave, one after the other. -/
def lived (w : World) (lives : List (Life cfg)) : World := lives.foldl (fun w l => l.left w) w

/-- Every life is calm in the world it starts from. -/
def AllCalm : World → List (Life cfg) → Prop
  | _, [] => True
  | w, l :: rest => l.Calm w ∧ AllCalm (l.left w) rest

theorem sound_lived {lives : List (Life cfg)} (h : Sound cfg t₀ w) (hcalm : AllCalm w lives) :
    Sound cfg t₀ (lived w lives) := by
  unfold lived
  induction lives generalizing w with
  | nil => exact h
  | cons l rest ih => exact ih (h.life hcalm.1) hcalm.2

/-- Wherever the last of any number of lives stops, every refund is recoverable, if in each of them
bulk imports are idle, reports can be built and the stop leaves every process at rest. -/
theorem refunds_survive (cfg : Config) (t : Int) (lives : List (Life cfg))
    (h : AllCalm (World.boot t) lives) : Recoverable cfg (lived (World.boot t) lives).db := by
  have hsound : Sound cfg t (lived (World.boot t) lives) := sound_lived sound_boot h
  obtain ⟨ran, horderly⟩ := hsound.orderly
  constructor
  · exact hsound.recorded
  · intro hbox f hf hs _
    exact horderly.queued hbox (fun f hf g hg hid => hsound.books.unique hf hg hid) hf hs

end Lives

section Sampled

open Sample

instance (cfg : Config) (past : Trace (machine cfg)) : Decidable (Complete cfg past) :=
  match h : past.getLast? with
  | none => isTrue (fun a ha => by rw [h] at ha; cases ha)
  | some b => decidable_of_iff (completion cfg b = none)
      ⟨fun hb a ha => by rw [h] at ha; cases ha; exact hb, fun hall => hall b h⟩

instance (cfg : Config) (past : Trace (machine cfg)) : Decidable (AtRest cfg past) :=
  decidable_of_iff ((∀ x ∈ past, ∀ c ∈ x.2.db.claims, Cancels cfg x.1 x.2 c →
      ∃ y ∈ past, y.1.refundOf = some c.claimId) ∧ Complete cfg past)
    ⟨fun h => ⟨fun x hx c hc => h.1 x hx c hc.1 hc, h.2⟩,
      fun h => ⟨fun x hx c _ => h.recorded x hx c, h.complete⟩⟩

/-- The sample gate behind an escrow box. -/
def boxGate : Config := { config with escrowBoxMode := true }

/-- Alice asks to cancel her claim, and the gate stops in the turn that ends it, after so many of
its statements. -/
def cancelling (statements : Nat) : Life boxGate where
  start := 0
  events := hostedByAlice ++ [.spawn (cancelBy "alice" 1)]
  last := .resume 0 answer
  statements := statements

/-- The box has paid the refund of the claim. -/
def paidReceipt : BoxReceipt where
  ref := some 1
  status := .settled
  refund := .fin (1 / 2)
  disburseTx := some "disburse-tx"
  rest := ""
  sig := "box-signature"

/-- The gate is back after a minute, and stops once it has settled the refund. -/
def settling : Life boxGate where
  start := 60000
  events := []
  last := .spawn (.boxReceipt paidReceipt)
  statements := 2

/-- The sample gate can report every claim. -/
theorem survives_of_idle {l : Life boxGate} {w : World} (h : l.Guarded w Stmt.ImportsIdle) :
    l.Guarded w (Stmt.Survives boxGate) := by
  refine h.mono_runs (fun _ s w hs => ⟨hs, ?_⟩)
  cases s with
  | recordRefund n => exact fun _ _ _ _ _ => rfl
  | _ => trivial

/-- The gate stops once it has queued the report, and again once it has settled the refund. -/
theorem refunds_survive_settled :
    Recoverable boxGate (lived (World.boot 0) [cancelling 3, settling]).db :=
  refunds_survive boxGate 0 [cancelling 3, settling]
    ⟨⟨survives_of_idle (by decide +kernel), by decide +kernel⟩,
      ⟨survives_of_idle (by decide +kernel), by decide +kernel⟩, trivial⟩

/-- The gate stops once it has cancelled the claim. -/
theorem refund_lost :
    ¬ ∀ l : Life boxGate, l.Guarded (World.boot 0) (Stmt.Survives boxGate) →
      Recoverable boxGate (l.left (World.boot 0)).db := by
  intro h
  have hsurvives : (cancelling 1).Guarded (World.boot 0) (Stmt.Survives boxGate) :=
    survives_of_idle (by decide +kernel)
  exact absurd (h (cancelling 1) hsurvives).recorded (by decide +kernel)

end Sampled

end IpfsGate.Server
