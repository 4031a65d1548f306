import IpfsGate.Server.Site

/-!
# Statements on another whitelist

With whitelist mode off a transaction that is not of the whitelist itself returns the same on two
databases that differ in the whitelisted accounts only, and leaves them differing in nothing else.
-/
namespace IpfsGate.Server

open Quota Moderation
open Lib (Register)
open Lib.Prog (Commutes)

/-- The database with another whitelist. -/
def relist (X : Register WhitelistedAccount) (db : Db) : Db := { db with whitelistedAccounts := X }

def World.relist (X : Register WhitelistedAccount) (w : World) : World :=
  { w with db := Server.relist X w.db }

def Site.relist (X : Register WhitelistedAccount) (w : Site) : Site :=
  { w with world := w.world.relist X }

/-- Everything but the whitelist. -/
def Site.unlisted (w : Site) : Site := w.relist Register.empty

/-- The statements of the whitelist's own routes. -/
def Stmt.isListing : Stmt → Bool
  | .addToWhitelist _ | .removeFromWhitelist .. => true
  | _ => false

section Statements

variable {X : Register WhitelistedAccount} {cfg : Config} {db : Db} {t : Int}

/-- The same transaction on a database with another whitelist. -/
def relisted {α : Type} (X : Register WhitelistedAccount) (r : α × Db) : α × Db :=
  (r.1, relist X r.2)

theorem reconcileCidAfterEnd_relist (cid : Cid) :
    reconcileCidAfterEnd (relist X db) t cid = relisted X (reconcileCidAfterEnd db t cid) := by
  have hactive : hasActivePinForCid (relist X db) cid = hasActivePinForCid db cid := rfl
  have hqueue : getDormantGuardiansForCid (relist X db) cid =
      getDormantGuardiansForCid db cid := rfl
  unfold reconcileCidAfterEnd
  rw [hactive, hqueue]
  split
  · rfl
  · cases getDormantGuardiansForCid db cid <;> rfl

theorem reconcileAll_relist (cids : List Cid) :
    reconcileAll (relist X db) t cids = relisted X (reconcileAll db t cids) := by
  induction cids generalizing db with
  | nil => rfl
  | cons cid rest ih =>
    simp only [reconcileAll, reconcileCidAfterEnd_relist]
    generalize reconcileCidAfterEnd db t cid = r
    obtain ⟨rec, mid⟩ := r
    simp only [relisted, ih]
    generalize reconcileAll mid t rest = out
    obtain ⟨all, after⟩ := out
    dsimp only
    split
    · rfl
    · split <;> rfl

theorem retire_relist (claim : Claim) (reason : String) :
    retire (relist X db) t claim reason = relisted X (retire db t claim reason) := by
  have hended : endClaim (relist X db) t claim reason =
      relist X (endClaim db t claim reason) := rfl
  unfold retire
  rw [hended, reconcileCidAfterEnd_relist]
  rfl

theorem sweep_relist : sweep (relist X db) t = relisted X (sweep db t) := by
  have hended : expireOverdue (expireReservations (relist X db) t) t =
      relist X (expireOverdue (expireReservations db t) t) := rfl
  unfold sweep
  dsimp only
  rw [hended, reconcileAll_relist]
  rfl

theorem banTransaction_relist (account reason : String) (policy : RefundPolicy) (admin : String) :
    banTransaction (relist X db) t account reason policy admin =
      relisted X (banTransaction db t account reason policy admin) := by
  have hvoid : voidAccount (relist X db) t account reason policy admin =
      relist X (voidAccount db t account reason policy admin) := rfl
  unfold banTransaction
  dsimp only
  rw [hvoid, reconcileAll_relist]
  rfl

/-- A transaction that throws on the one database throws the same on the other. -/
def relistedResult {α : Type} (X : Register WhitelistedAccount) :
    Except Fault (α × Db) → Except Fault (α × Db) := Except.map (relisted X)

theorem createReservation_relist (hoff : cfg.whitelistMode = false) (uploader : Account)
    (sizeBytes : Nat) (mode : Mode) (quote : ReservationQuote) :
    createReservation cfg (relist X db) t uploader sizeBytes mode quote =
      relistedResult X (createReservation cfg db t uploader sizeBytes mode quote) := by
  unfold createReservation assertWhitelistAllows
  simp only [hoff, Bool.false_and, Bool.false_eq_true, if_false, apply_ite (relistedResult X)]
  rfl

theorem recordPayment_relist (p : NewPayment) :
    recordPayment (relist X db) t p = relistedResult X (recordPayment db t p) := by
  unfold recordPayment
  simp only [apply_ite (relistedResult X)]
  rfl

theorem createOwnCopyClaim_relist (n : OwnCopyRequest) :
    createOwnCopyClaim (relist X db) t n = relistedResult X (createOwnCopyClaim db t n) := by
  have hinfo : getLatestPinInfoForCid (relist X db) n.cid = getLatestPinInfoForCid db n.cid := rfl
  unfold createOwnCopyClaim
  rw [hinfo]
  cases getLatestPinInfoForCid db n.cid with
  | none => rfl
  | some info =>
    simp only [apply_ite (relistedResult X)]
    rfl

theorem extendClaim_relist (claimId : Nat) (owner : Account) (extraHours : Int) :
    extendClaim (relist X db) claimId owner extraHours =
      relistedResult X (extendClaim db claimId owner extraHours) := by
  have hclaim : getClaim (relist X db) claimId = getClaim db claimId := rfl
  unfold extendClaim
  rw [hclaim]
  cases getClaim db claimId with
  | none => rfl
  | some claim =>
    simp only [apply_ite (relistedResult X)]
    rfl

theorem cancelClaim_relist (claimId : Nat) (owner : Option Account) (asAdmin : Bool) :
    cancelClaim (relist X db) t claimId owner asAdmin =
      relistedResult X (cancelClaim db t claimId owner asAdmin) := by
  have hclaim : getClaim (relist X db) claimId = getClaim db claimId := rfl
  unfold cancelClaim
  rw [hclaim]
  cases getClaim db claimId with
  | none => rfl
  | some claim =>
    simp only [apply_ite (relistedResult X), retire_relist]
    rfl

theorem endActiveClaimForRelease_relist (claimId : Nat) :
    endActiveClaimForRelease (relist X db) t claimId =
      relistedResult X (endActiveClaimForRelease db t claimId) := by
  have hclaim : getClaim (relist X db) claimId = getClaim db claimId := rfl
  unfold endActiveClaimForRelease
  rw [hclaim]
  cases getClaim db claimId with
  | none => rfl
  | some claim =>
    simp only [apply_ite (relistedResult X), retire_relist]
    rfl

theorem banAccount_relist (hiveAccount reason : String) (policy : Option RefundPolicy)
    (admin : String) :
    banAccount cfg (relist X db) t hiveAccount reason policy admin =
      relistedResult X (banAccount cfg db t hiveAccount reason policy admin) := by
  unfold banAccount
  cases policy with
  | none => simp only [apply_ite (relistedResult X)]; rfl
  | some policy => simp only [apply_ite (relistedResult X), banTransaction_relist]; rfl

theorem takedownCid_relist (cid reason : String) (policy : Option RefundPolicy) (admin : String) :
    takedownCid cfg (relist X db) t cid reason policy admin =
      relistedResult X (takedownCid cfg db t cid reason policy admin) := by
  unfold takedownCid
  simp only [apply_ite (relistedResult X)]
  rfl

theorem unbanAccount_relist (hiveAccount admin : String) :
    unbanAccount cfg (relist X db) t hiveAccount admin =
      relisted X (unbanAccount cfg db t hiveAccount admin) := by
  unfold unbanAccount
  simp only [Arg.withDefault, Arg.bound, apply_ite (relisted X)]
  rfl

theorem untakedownCid_relist (cid admin : String) :
    untakedownCid (relist X db) t cid admin =
      relisted X (untakedownCid db t cid admin) := by
  unfold untakedownCid
  simp only [Arg.withDefault, Arg.bound, apply_ite (relisted X)]
  rfl

theorem importEntry_relist (out : Imported) (entry : ImportEntry) :
    importEntry cfg (relist X db) t out entry = relisted X (importEntry cfg db t out entry) := by
  unfold importEntry
  rw [takedownCid_relist]
  cases takedownCid cfg db t entry.cid entry.reason none adminId with
  | ok r => simp only [apply_ite (relisted X)]; rfl
  | error e => simp only [apply_ite (relisted X)]; rfl

theorem importLoop_relist (list : List ImportEntry) (out : Imported) :
    importLoop cfg t list out (relist X db) = relisted X (importLoop cfg t list out db) := by
  induction list generalizing out db with
  | nil => rfl
  | cons entry rest ih =>
    simp only [importLoop, importEntry_relist]
    exact ih _

theorem recordReleaseConsent_relist (orderId : Nat) (releaser : Account) (sig : String) :
    recordReleaseConsent cfg (relist X db) t orderId releaser sig =
      relist X (recordReleaseConsent cfg db t orderId releaser sig) := by
  unfold recordReleaseConsent
  simp only [apply_ite (relist X)]
  rfl

theorem recordReceipt_relist (orderId : Nat) (recipient : Account) (proofHash sig : String) :
    recordReceipt cfg (relist X db) t orderId recipient proofHash sig =
      relist X (recordReceipt cfg db t orderId recipient proofHash sig) := by
  unfold recordReceipt
  simp only [apply_ite (relist X)]
  rfl

/-! ## The statements -/

/-- A statement that a throw rolls back. -/
theorem fallible_relist {α : Type} {w : World} {r r' : Except Fault (α × Db)}
    (h : r' = relistedResult X r) :
    Stmt.fallible (w.relist X) r' = ((Stmt.fallible w r).1, (Stmt.fallible w r).2.relist X) := by
  rw [h]
  cases r <;> rfl

theorem total_relist {α : Type} {w : World} {r r' : α × Db} (h : r' = relisted X r) :
    Stmt.total (w.relist X) r' = ((Stmt.total w r).1, (Stmt.total w r).2.relist X) := by
  rw [h]
  rfl

theorem silent_relist {w : World} {db db' : Db} (h : db' = relist X db) :
    Stmt.silent (w.relist X) db' = ((Stmt.silent w db).1, (Stmt.silent w db).2.relist X) := by
  rw [h]
  rfl

/-- Every statement but those of the whitelist commutes with a change of it. -/
theorem commutes_relist (hoff : cfg.whitelistMode = false) {s : Stmt} (hs : s.isListing = false) :
    Commutes (M := machine cfg) (World.relist X) s := by
  intro w
  change s.sem cfg (w.relist X) = ((s.sem cfg w).1, (s.sem cfg w).2.relist X)
  cases s with
  | createReservation uploader sizeBytes mode quote =>
    exact fallible_relist (createReservation_relist hoff uploader sizeBytes mode quote)
  | recordPayment p => exact fallible_relist (recordPayment_relist p)
  | markReservationPaid reservationId txId => exact silent_relist rfl
  | markReservationCancelled reservationId => exact silent_relist rfl
  | finaliseUpload reservationId u => exact total_relist rfl
  | createOwnCopyClaim n => exact fallible_relist (createOwnCopyClaim_relist n)
  | pledge g => exact total_relist rfl
  | extendClaim claimId owner extraHours =>
    exact fallible_relist (extendClaim_relist claimId owner extraHours)
  | cancelClaim claimId owner asAdmin =>
    exact fallible_relist (cancelClaim_relist claimId owner asAdmin)
  | endActiveClaimForRelease claimId =>
    exact fallible_relist (endActiveClaimForRelease_relist claimId)
  | removePinForUploader cid uploader => exact total_relist rfl
  | banAccount hiveAccount reason policy admin =>
    exact fallible_relist (banAccount_relist hiveAccount reason policy admin)
  | unbanAccount hiveAccount admin => exact total_relist (unbanAccount_relist hiveAccount admin)
  | takedownCid cid reason policy admin =>
    exact fallible_relist (takedownCid_relist cid reason policy admin)
  | untakedownCid cid admin => exact total_relist (untakedownCid_relist cid admin)
  | importTakedowns list => exact total_relist (importLoop_relist list _)
  | addToWhitelist r => cases hs
  | removeFromWhitelist hiveAccount removedBy => cases hs
  | audit e => exact total_relist rfl
  | recordRefund n => exact total_relist rfl
  | markRefundSettled refundId status txId => exact silent_relist rfl
  | enqueueReport ref refundId => exact total_relist rfl
  | markReport status ref receipt => exact total_relist rfl
  | updateReceipt ref receipt => exact silent_relist rfl
  | recordReleaseConsent orderId releaser sig =>
    exact silent_relist (recordReleaseConsent_relist orderId releaser sig)
  | recordReceipt orderId recipient proofHash sig =>
    exact silent_relist (recordReceipt_relist orderId recipient proofHash sig)
  | sweep => exact total_relist sweep_relist
  | setSweeping b => rfl
  | pinInKubo cid => rfl
  | unpinFromKubo cid => rfl

end Statements

end IpfsGate.Server
