import IpfsGate.Server.Runs
import IpfsGate.Server.Books

/-!
# What a statement leaves alone

Reservations, payments, refunds and reports are written by few statements each. Every other
statement leaves the table as it is, also when it is a transaction over claims and pins.
-/
namespace IpfsGate.Server

open Quota Moderation LedgerRun
open Lib (Table Register)

/-- The tables beside the ledger of claims and pins. -/
inductive Part where
  | reservations
  | payments
  | refunds
  | reports
deriving DecidableEq

def Part.Same : Part → Db → Db → Prop
  | reservations, a, b => b.reservations = a.reservations
  | payments, a, b => b.payments = a.payments
  | refunds, a, b => b.refunds = a.refunds
  | reports, a, b => b.pendingReports = a.pendingReports

namespace Part.Same

variable {part : Part} {a b c : Db}

theorem refl (part : Part) (a : Db) : part.Same a a := by
  cases part <;> rfl

theorem trans (h₁ : part.Same a b) (h₂ : part.Same b c) : part.Same a c := by
  cases part <;> exact Eq.trans h₂ h₁

end Part.Same

/-- Who writes to a table. -/
def Stmt.writesTo : Stmt → Part → Bool
  | .createReservation .., .reservations => true
  | .markReservationPaid .., .reservations => true
  | .markReservationCancelled _, .reservations => true
  | .finaliseUpload .., .reservations => true
  | .sweep, .reservations => true
  | .recordPayment _, .payments => true
  | .recordRefund _, .refunds => true
  | .markRefundSettled .., .refunds => true
  | .enqueueReport .., .reports => true
  | .markReport .., .reports => true
  | .updateReceipt .., .reports => true
  | _, _ => false

/-- Claims, pins and the registers of the operator are all that differs. -/
structure SameBeside (a b : Db) : Prop where
  same : ∀ part : Part, part.Same a b

namespace SameBeside

theorem of_eq {a b : Db} (hr : b.reservations = a.reservations) (hp : b.payments = a.payments)
    (hf : b.refunds = a.refunds) (hq : b.pendingReports = a.pendingReports) : SameBeside a b :=
  ⟨fun part => by cases part <;> assumption⟩

theorem refl (db : Db) : SameBeside db db := ⟨fun part => .refl part db⟩

theorem trans {a b c : Db} (h₁ : SameBeside a b) (h₂ : SameBeside b c) : SameBeside a c :=
  ⟨fun part => (h₁.same part).trans (h₂.same part)⟩

theorem reconcileAll (db : Db) (t : Int) (cids : List Cid) :
    SameBeside db (Quota.reconcileAll db t cids).2 :=
  reconcileAll_preserves (SameBeside db) t
    (fun mid _ g h _ _ _ => h.trans (.of_eq (b := promote mid t g) rfl rfl rfl rfl))
    cids db (.refl db)

theorem retire (db : Db) (t : Int) (claim : Claim) (reason : String) :
    SameBeside db (Quota.retire db t claim reason).2 := by
  rw [retire_eq]
  have hend : SameBeside db (endClaim db t claim reason) := .of_eq rfl rfl rfl rfl
  exact hend.trans (.reconcileAll _ t _)

theorem banTransaction (db : Db) (t : Int) (account : Account) (reason : String)
    (policy : RefundPolicy) (admin : String) :
    SameBeside db (Moderation.banTransaction db t account reason policy admin).2 := by
  have hvoid : SameBeside db (voidAccount db t account reason policy admin) :=
    .of_eq rfl rfl rfl rfl
  refine (hvoid.trans (.reconcileAll _ t ((((db.claims.filter (isOwnedBy account)).filter
    (fun c => c.state = .active)).map Claim.cid).eraseDups))).trans ?_
  exact .of_eq rfl rfl rfl rfl

/-- The operations other than the sweep write beside the ledger nothing but registers. -/
theorem apply (cfg : Config) (db : Db) (t : Int) {op : LedgerOp} (hop : op ≠ .sweep) :
    SameBeside db (op.apply cfg db t) := by
  cases op with
  | upload u => exact .of_eq rfl rfl rfl rfl
  | ownCopy n =>
    refine committed_ind (.refl db) (fun _ _ hrun => ?_)
    obtain ⟨info, _, _, rfl⟩ := createOwnCopyClaim_ok hrun
    exact .of_eq rfl rfl rfl rfl
  | pledge g => exact .of_eq rfl rfl rfl rfl
  | extend claimId owner extraHours =>
    refine committed_ind (.refl db) (fun _ _ hrun => ?_)
    unfold extendClaim at hrun
    split at hrun
    · cases hrun
    · split at hrun
      · cases hrun
      · split at hrun
        · cases hrun
        · cases hrun
          exact .of_eq rfl rfl rfl rfl
  | cancel claimId owner asAdmin =>
    refine committed_ind (.refl db) (fun _ _ hrun => ?_)
    obtain ⟨_, hcases⟩ := cancelClaim_ok hrun
    rcases hcases with ⟨_, _, rfl⟩ | ⟨_, _, rfl⟩
    · exact .of_eq rfl rfl rfl rfl
    · exact .retire _ _ _ _
  | release claimId =>
    refine committed_ind (.refl db) (fun _ _ hrun => ?_)
    obtain ⟨_, _, _, rfl⟩ := endActiveClaimForRelease_ok hrun
    exact .retire _ _ _ _
  | removePin cid uploader => exact .of_eq rfl rfl rfl rfl
  | ban hiveAccount reason policy admin =>
    refine committed_ind (.refl db) (fun _ _ hok => ?_)
    obtain ⟨p, rfl⟩ := banAccount_ok hok
    exact .banTransaction _ _ _ _ _ _
  | takedown cid reason policy admin =>
    refine committed_ind (.refl db) (fun _ _ hok => ?_)
    obtain ⟨p, rfl⟩ := takedownCid_ok hok
    exact .of_eq rfl rfl rfl rfl
  | sweep => exact absurd rfl hop

/-- The sweep expires reservations first. -/
theorem sweep (db : Db) (t : Int) :
    SameBeside (expireReservations db t) (Quota.sweep db t).2 := by
  have hend : SameBeside (expireReservations db t) (expireOverdue (expireReservations db t) t) :=
    .of_eq rfl rfl rfl rfl
  exact hend.trans (.reconcileAll _ t _)

end SameBeside

section Statements

variable {cfg : Config} {w : World}

/-- A ledger statement that fails is rolled back, one that succeeds is its operation. -/
theorem sameBeside_op (cfg : Config) (op : LedgerOp) {α : Type} {r : Except Fault (α × Db)}
    (hop : op ≠ .sweep) (h : op.apply cfg w.db w.now = committed w.db r) :
    SameBeside w.db (Stmt.fallible w r).2.db := by
  rw [fallible_committed, ← h]
  exact .apply cfg w.db w.now hop

theorem sameBeside_import (list : List ImportEntry) :
    SameBeside w.db ((Stmt.importTakedowns list).sem cfg w).2.db :=
  importTakedowns_keeps (P := SameBeside w.db)
    (fun db _ _ _ _ h => h.trans (.apply cfg db w.now LedgerOp.noConfusion)) (.refl w.db) list

/-- Frame: a table is as it was after every statement that does not write to it. -/
theorem same_of_not_writesTo (cfg : Config) (part : Part) {s : Stmt}
    (h : s.writesTo part = false) (w : World) : part.Same w.db (s.sem cfg w).2.db := by
  cases s with
  | createReservation uploader sizeBytes mode quote =>
    refine fallible_ind (P := part.Same w.db) (.refl part _) (fun _ _ hok => ?_)
    obtain ⟨_, rfl⟩ := createReservation_writes hok
    cases part <;> first | rfl | cases h
  | recordPayment p =>
    refine fallible_ind (P := part.Same w.db) (.refl part _) (fun _ _ hok => ?_)
    obtain ⟨_, rfl⟩ := recordPayment_writes hok
    cases part <;> first | rfl | cases h
  | finaliseUpload reservationId u => cases part <;> first | rfl | cases h
  | createOwnCopyClaim n => exact (sameBeside_op cfg (.ownCopy n) LedgerOp.noConfusion rfl).same part
  | pledge g => cases part <;> rfl
  | extendClaim claimId owner extraHours =>
    exact (sameBeside_op cfg (.extend claimId owner extraHours) LedgerOp.noConfusion rfl).same part
  | cancelClaim claimId owner asAdmin =>
    exact (sameBeside_op cfg (.cancel claimId owner asAdmin) LedgerOp.noConfusion rfl).same part
  | endActiveClaimForRelease claimId =>
    exact (sameBeside_op cfg (.release claimId) LedgerOp.noConfusion rfl).same part
  | removePinForUploader cid uploader => cases part <;> rfl
  | banAccount hiveAccount reason policy admin =>
    exact (sameBeside_op cfg (.ban hiveAccount reason policy admin) LedgerOp.noConfusion
      rfl).same part
  | takedownCid cid reason policy admin =>
    exact (sameBeside_op cfg (.takedown cid reason policy admin) LedgerOp.noConfusion rfl).same
      part
  | importTakedowns list => exact (sameBeside_import list).same part
  | unbanAccount hiveAccount admin =>
    obtain ⟨_, _, heq, _⟩ := unbanAccount_writes cfg w.db w.now hiveAccount admin
    show part.Same w.db (Moderation.unbanAccount cfg w.db w.now hiveAccount admin).2
    rw [heq]
    cases part <;> rfl
  | untakedownCid cid admin =>
    obtain ⟨_, _, heq, _⟩ := untakedownCid_writes w.db w.now cid admin
    show part.Same w.db (Moderation.untakedownCid w.db w.now cid admin).2
    rw [heq]
    cases part <;> rfl
  | addToWhitelist r =>
    obtain ⟨_, _, heq⟩ := addToWhitelist_writes cfg w.db w.now r
    show part.Same w.db (Moderation.addToWhitelist cfg w.db w.now r).2
    rw [heq]
    cases part <;> rfl
  | removeFromWhitelist hiveAccount removedBy =>
    obtain ⟨_, _, heq⟩ := removeFromWhitelist_writes cfg w.db w.now hiveAccount removedBy
    show part.Same w.db (Moderation.removeFromWhitelist cfg w.db w.now hiveAccount removedBy).2
    rw [heq]
    cases part <;> rfl
  | recordReleaseConsent orderId releaser sig =>
    simp only [Stmt.sem, Stmt.silent, recordReleaseConsent]
    split <;> cases part <;> rfl
  | recordReceipt orderId recipient proofHash sig =>
    simp only [Stmt.sem, Stmt.silent, recordReceipt]
    split <;> cases part <;> rfl
  | sweep =>
    have hexpire : part.Same w.db (expireReservations w.db w.now) := by
      cases part <;> first | rfl | cases h
    exact hexpire.trans ((SameBeside.sweep w.db w.now).same part)
  | _ => cases part <;> first | rfl | cases h

end Statements

end IpfsGate.Server
