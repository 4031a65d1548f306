import IpfsGate.Server.Writes

/-!
# Statements as ledger operations

The statements that touch claims and pins are the operations of the ledger; the others leave
both tables alone and at most lift a ban or a block. A property of the database that the
operations keep is therefore kept by every handler.
-/
namespace IpfsGate.Server

open Quota Moderation LedgerRun
open Lib (Table Register)

/-- Claims and pins are the same, and nobody is newly banned and nothing newly blocked. -/
structure Relaxes (before after : Db) : Prop where
  pins : after.pins = before.pins
  claims : after.claims = before.claims
  banned : ∀ a, isAccountBanned after a = true → isAccountBanned before a = true
  blocked : ∀ c, isCidBlocked after c = true → isCidBlocked before c = true

namespace Relaxes

theorem refl (db : Db) : Relaxes db db := ⟨rfl, rfl, fun _ h => h, fun _ h => h⟩

/-- Writes to the other tables. -/
theorem of_eq {a b : Db} (hp : b.pins = a.pins) (hc : b.claims = a.claims)
    (hban : b.bannedAccounts = a.bannedAccounts) (hblock : b.blockedCids = a.blockedCids) :
    Relaxes a b where
  pins := hp
  claims := hc
  banned := by
    intro x h
    rw [isAccountBanned, hban] at h
    exact h
  blocked := by
    intro x h
    rw [isCidBlocked, hblock] at h
    exact h

end Relaxes

section Statements

variable {cfg : Config} {db after : Db} {t : Int}

theorem createReservation_writes {uploader : Account} {sizeBytes : Nat} {mode : Mode}
    {quote : ReservationQuote} {r : Reserved}
    (h : createReservation cfg db t uploader sizeBytes mode quote = .ok (r, after)) :
    ∃ reservations, after = { db with reservations } := by
  unfold createReservation at h
  iterate 7 (split at h; · cases h)
  split at h
  · cases h
  · cases h
    exact ⟨_, rfl⟩

theorem recordPayment_writes {p : NewPayment} {n : Nat}
    (h : recordPayment db t p = .ok (n, after)) : ∃ payments, after = { db with payments } := by
  unfold recordPayment at h
  split at h
  · cases h
  · cases h
    exact ⟨_, rfl⟩

/-- Lifting a ban bans nobody. -/
theorem unbanAccount_writes (cfg : Config) (db : Db) (t : Int) (hiveAccount : String)
    (admin : Arg) :
    ∃ bannedAccounts moderationLog,
      (unbanAccount cfg db t hiveAccount admin).2 = { db with bannedAccounts, moderationLog } ∧
      ∀ a, isAccountBanned { db with bannedAccounts, moderationLog } a = true →
        isAccountBanned db a = true := by
  rcases unbanAccount_cases cfg db t hiveAccount admin with ⟨_, heq⟩ | ⟨unbannedBy, _, _, _, heq⟩
  · rw [heq]
    exact ⟨_, _, rfl, fun _ h => h⟩
  · rw [heq]
    obtain ⟨moderationLog, hlog⟩ := auditBy_writes
      (unbanned db t (cfg.toLowerCase hiveAccount) unbannedBy) t unbannedBy _
    exact ⟨_, moderationLog, hlog, fun a ha =>
      Register.any_of_any_update (by exact fun _ => rfl) (by simp) ha⟩

/-- Lifting a takedown blocks nothing. -/
theorem untakedownCid_writes (db : Db) (t : Int) (cid admin : Arg) :
    ∃ blockedCids moderationLog,
      (untakedownCid db t cid admin).2 = { db with blockedCids, moderationLog } ∧
      ∀ c, isCidBlocked { db with blockedCids, moderationLog } c = true →
        isCidBlocked db c = true := by
  rcases untakedownCid_cases db t cid admin with ⟨_, heq⟩ | ⟨unblockedBy, c, _, _, _, _, heq⟩
  · rw [heq]
    exact ⟨_, _, rfl, fun _ h => h⟩
  · rw [heq]
    obtain ⟨moderationLog, hlog⟩ := auditBy_writes (unblocked db t c unblockedBy) t unblockedBy _
    exact ⟨_, moderationLog, hlog, fun a ha =>
      Register.any_of_any_update (by exact fun _ => rfl) (by simp) ha⟩

theorem addToWhitelist_writes (cfg : Config) (db : Db) (t : Int) (r : WhitelistRequest) :
    ∃ whitelistedAccounts moderationLog,
      (addToWhitelist cfg db t r).2 = { db with whitelistedAccounts, moderationLog } := by
  rcases addToWhitelist_cases cfg db t r with ⟨_, heq⟩ | ⟨_, _, heq⟩
  · rw [heq]
    exact ⟨_, _, rfl⟩
  · rw [heq]
    exact ⟨_, _, rfl⟩

theorem removeFromWhitelist_writes (cfg : Config) (db : Db) (t : Int) (hiveAccount : String)
    (removedBy : Arg) :
    ∃ whitelistedAccounts moderationLog,
      (removeFromWhitelist cfg db t hiveAccount removedBy).2 =
        { db with whitelistedAccounts, moderationLog } := by
  rcases removeFromWhitelist_cases cfg db t hiveAccount removedBy with
    ⟨_, heq⟩ | ⟨by', _, _, _, heq⟩
  · rw [heq]
    exact ⟨_, _, rfl⟩
  · rw [heq]
    obtain ⟨moderationLog, hlog⟩ := auditBy_writes
      (unlisted db t (cfg.toLowerCase hiveAccount) by') t by' _
    exact ⟨_, moderationLog, hlog⟩

end Statements

/-! ## What the operations leave alone -/

/-- The payments, the refunds and the registers of the operator are the same. -/
structure SameAside (a b : Db) : Prop where
  payments : b.payments = a.payments
  refunds : b.refunds = a.refunds
  banned : b.bannedAccounts = a.bannedAccounts
  blocked : b.blockedCids = a.blockedCids
  whitelisted : b.whitelistedAccounts = a.whitelistedAccounts

namespace SameAside

theorem refl (db : Db) : SameAside db db := ⟨rfl, rfl, rfl, rfl, rfl⟩

theorem reconcileAll {a b : Db} (h : SameAside a b) (t : Int) (cids : List Cid) :
    SameAside a (Quota.reconcileAll b t cids).2 :=
  reconcileAll_preserves (SameAside a) t
    (fun _ _ _ hdb _ _ _ => ⟨hdb.payments, hdb.refunds, hdb.banned, hdb.blocked, hdb.whitelisted⟩)
    cids b h

theorem retire (db : Db) (t : Int) (claim : Claim) (reason : String) :
    SameAside db (Quota.retire db t claim reason).2 := by
  have hend : SameAside db (endClaim db t claim reason) := ⟨rfl, rfl, rfl, rfl, rfl⟩
  rw [retire_eq]
  exact hend.reconcileAll t _

/-- A ban writes to the bans only. -/
theorem banTransaction (db : Db) (t : Int) (account : Account) (reason : String)
    (policy : RefundPolicy) (admin : String) :
    SameAside (voidAccount db t account reason policy admin)
      (Moderation.banTransaction db t account reason policy admin).2 := by
  have hloop := (refl (voidAccount db t account reason policy admin)).reconcileAll t
    ((((db.claims.filter (isOwnedBy account)).filter (fun c => c.state = .active)).map
      Claim.cid).eraseDups)
  exact ⟨hloop.payments, hloop.refunds, hloop.banned, hloop.blocked, hloop.whitelisted⟩

/-- Only bans and takedowns write to the registers. -/
theorem apply (cfg : Config) (db : Db) (t : Int) (op : LedgerOp)
    (hban : ¬ ∃ account reason policy admin, op = .ban account reason policy admin)
    (htakedown : ¬ ∃ cid reason policy admin, op = .takedown cid reason policy admin) :
    SameAside db (op.apply cfg db t) := by
  cases op with
  | upload u => exact ⟨rfl, rfl, rfl, rfl, rfl⟩
  | ownCopy n =>
    refine committed_ind (refl db) (fun _ _ hrun => ?_)
    obtain ⟨info, _, _, rfl⟩ := createOwnCopyClaim_ok hrun
    exact ⟨rfl, rfl, rfl, rfl, rfl⟩
  | pledge g => exact ⟨rfl, rfl, rfl, rfl, rfl⟩
  | extend claimId owner extraHours =>
    refine committed_ind (refl db) (fun _ _ hrun => ?_)
    unfold extendClaim at hrun
    split at hrun
    · cases hrun
    · split at hrun
      · cases hrun
      · split at hrun
        · cases hrun
        · cases hrun
          exact ⟨rfl, rfl, rfl, rfl, rfl⟩
  | cancel claimId owner asAdmin =>
    refine committed_ind (refl db) (fun _ _ hrun => ?_)
    obtain ⟨_, hcases⟩ := cancelClaim_ok hrun
    rcases hcases with ⟨_, _, rfl⟩ | ⟨_, _, rfl⟩
    · exact ⟨rfl, rfl, rfl, rfl, rfl⟩
    · exact retire _ _ _ _
  | release claimId =>
    refine committed_ind (refl db) (fun _ _ hrun => ?_)
    obtain ⟨_, _, _, rfl⟩ := endActiveClaimForRelease_ok hrun
    exact retire _ _ _ _
  | removePin cid uploader => exact ⟨rfl, rfl, rfl, rfl, rfl⟩
  | ban hiveAccount reason policy admin => exact absurd ⟨_, _, _, _, rfl⟩ hban
  | takedown cid reason policy admin => exact absurd ⟨_, _, _, _, rfl⟩ htakedown
  | sweep =>
    have hend : SameAside db (expireOverdue (expireReservations db t) t) :=
      ⟨rfl, rfl, rfl, rfl, rfl⟩
    exact hend.reconcileAll t _

end SameAside

/-- No operation writes to the refunds. -/
theorem refunds_apply (cfg : Config) (db : Db) (t : Int) (op : LedgerOp) :
    (op.apply cfg db t).refunds = db.refunds := by
  by_cases hban : ∃ account reason policy admin, op = .ban account reason policy admin
  · obtain ⟨account, reason, policy, admin, rfl⟩ := hban
    refine committed_ind (P := fun after => after.refunds = db.refunds) rfl (fun b after hok => ?_)
    obtain ⟨p, rfl⟩ := banAccount_ok hok
    exact (SameAside.banTransaction db t _ reason p admin).refunds
  · by_cases htakedown : ∃ cid reason policy admin, op = .takedown cid reason policy admin
    · obtain ⟨cid, reason, policy, admin, rfl⟩ := htakedown
      refine committed_ind (P := fun after => after.refunds = db.refunds) rfl
        (fun d after hok => ?_)
      obtain ⟨p, rfl⟩ := takedownCid_ok hok
      rfl
    · exact (SameAside.apply cfg db t op hban htakedown).refunds

/-- The ledger operation a statement runs. -/
def Stmt.op : Stmt → Option LedgerOp
  | .finaliseUpload _ u => some (.upload u)
  | .createOwnCopyClaim n => some (.ownCopy n)
  | .pledge g => some (.pledge g)
  | .extendClaim claimId owner extraHours => some (.extend claimId owner extraHours)
  | .cancelClaim claimId owner asAdmin => some (.cancel claimId owner asAdmin)
  | .endActiveClaimForRelease claimId => some (.release claimId)
  | .removePinForUploader cid uploader => some (.removePin cid uploader)
  | .banAccount hiveAccount reason policy admin => some (.ban hiveAccount reason policy admin)
  | .takedownCid cid reason policy admin => some (.takedown cid reason policy admin)
  | .sweep => some .sweep
  | _ => none

theorem fallible_committed {α : Type} (w : World) (r : Except Fault (α × Db)) :
    (Stmt.fallible w r).2.db = committed w.db r := by
  cases r with
  | ok a => rfl
  | error e => rfl

/-- A ledger statement runs its operation; an upload's also marks the reservation. -/
theorem sem_op (cfg : Config) {s : Stmt} {op : LedgerOp} (h : s.op = some op) (w : World) :
    ∃ reservations, (s.sem cfg w).2 =
      { w with db := { op.apply cfg w.db w.now with reservations } } := by
  have hfallible : ∀ {α : Type} (r : Except Fault (α × Db)),
      (Stmt.fallible w r).2 = { w with db := committed w.db r } := by
    intro α r
    cases r <;> rfl
  cases s <;> cases h
  all_goals first
    | exact ⟨_, rfl⟩
    | exact ⟨_, hfallible _⟩

/-- A transaction that returned was committed. -/
theorem fallible_ok {α : Type} {w : World} {r : Except Fault (α × Db)} {a : α}
    (h : (Stmt.fallible w r).1 = .ok a) : r = .ok (a, (Stmt.fallible w r).2.db) := by
  cases r with
  | error e => cases h
  | ok out =>
    obtain ⟨a', after⟩ := out
    cases h
    rfl

/-- What every result of a fallible transaction has in common with the database before. -/
theorem fallible_ind {α : Type} {P : Db → Prop} {w : World} {r : Except Fault (α × Db)}
    (h : P w.db) (hok : ∀ a after, r = .ok (a, after) → P after) :
    P (Stmt.fallible w r).2.db := by
  rw [fallible_committed]
  exact committed_ind h hok

/-- Apart from the ledger statements and the bulk import, no statement touches claims or
pins. -/
theorem sem_relaxes (cfg : Config) {s : Stmt} (h : s.op = none)
    (himport : ∀ list, s ≠ .importTakedowns list) (w : World) :
    Relaxes w.db (s.sem cfg w).2.db := by
  cases s with
  | createReservation uploader sizeBytes mode quote =>
    refine fallible_ind (.refl _) (fun _ _ hok => ?_)
    obtain ⟨_, rfl⟩ := createReservation_writes hok
    exact .of_eq rfl rfl rfl rfl
  | recordPayment p =>
    refine fallible_ind (.refl _) (fun _ _ hok => ?_)
    obtain ⟨_, rfl⟩ := recordPayment_writes hok
    exact .of_eq rfl rfl rfl rfl
  | unbanAccount hiveAccount admin =>
    obtain ⟨_, _, heq, hban⟩ := unbanAccount_writes cfg w.db w.now hiveAccount admin
    show Relaxes w.db (Moderation.unbanAccount cfg w.db w.now hiveAccount admin).2
    rw [heq]
    exact ⟨rfl, rfl, hban, fun _ hc => hc⟩
  | untakedownCid cid admin =>
    obtain ⟨_, _, heq, hblock⟩ := untakedownCid_writes w.db w.now cid admin
    show Relaxes w.db (Moderation.untakedownCid w.db w.now cid admin).2
    rw [heq]
    exact ⟨rfl, rfl, fun _ ha => ha, hblock⟩
  | addToWhitelist r =>
    obtain ⟨_, _, heq⟩ := addToWhitelist_writes cfg w.db w.now r
    show Relaxes w.db (Moderation.addToWhitelist cfg w.db w.now r).2
    rw [heq]
    exact .of_eq rfl rfl rfl rfl
  | removeFromWhitelist hiveAccount removedBy =>
    obtain ⟨_, _, heq⟩ := removeFromWhitelist_writes cfg w.db w.now hiveAccount removedBy
    show Relaxes w.db (Moderation.removeFromWhitelist cfg w.db w.now hiveAccount removedBy).2
    rw [heq]
    exact .of_eq rfl rfl rfl rfl
  | importTakedowns list => exact absurd rfl (himport list)
  | recordReleaseConsent orderId releaser sig =>
    simp only [Stmt.sem, Stmt.silent, recordReleaseConsent]
    split <;> exact .of_eq rfl rfl rfl rfl
  | recordReceipt orderId recipient proofHash sig =>
    simp only [Stmt.sem, Stmt.silent, recordReceipt]
    split <;> exact .of_eq rfl rfl rfl rfl
  | finaliseUpload _ _ => cases h
  | createOwnCopyClaim _ => cases h
  | pledge _ => cases h
  | extendClaim _ _ _ => cases h
  | cancelClaim _ _ _ => cases h
  | endActiveClaimForRelease _ => cases h
  | removePinForUploader _ _ => cases h
  | banAccount _ _ _ _ => cases h
  | takedownCid _ _ _ _ => cases h
  | sweep => cases h
  | _ => exact .of_eq rfl rfl rfl rfl

/-- A statement that leaves claims and pins alone. -/
def Stmt.Spares (s : Stmt) : Prop := s.op = none ∧ ∀ list, s ≠ .importTakedowns list

theorem Stmt.Spares.relaxes {s : Stmt} (h : s.Spares) (cfg : Config) (w : World) :
    Relaxes w.db (s.sem cfg w).2.db := sem_relaxes cfg h.1 h.2 w

/-- An imported entry is at most a takedown. -/
theorem importEntry_keeps {cfg : Config} {db : Db} {t : Int} (out : Imported)
    {entry : ImportEntry} {P : Db → Prop} (h : P db)
    (htakedown : P ((LedgerOp.takedown entry.cid entry.reason none adminId).apply cfg db t)) :
    P (importEntry cfg db t out entry).2 := by
  change P (committed db (takedownCid cfg db t entry.cid entry.reason none adminId)) at htakedown
  unfold importEntry
  split
  · exact h
  · split
    · exact h
    · split
      · rename_i hok
        rw [hok] at htakedown
        exact htakedown
      · exact h

/-- A bulk import is a run of takedowns. -/
theorem importTakedowns_keeps {cfg : Config} {t : Int} {P : Db → Prop}
    (htakedown : ∀ db cid reason policy admin, P db →
      P ((LedgerOp.takedown cid reason policy admin).apply cfg db t))
    {db : Db} (h : P db) (list : List ImportEntry) : P (importTakedowns cfg db t list).2 := by
  unfold importTakedowns
  generalize ({ imported := 0, skippedExisting := 0, errors := [] } : Imported) = out
  induction list generalizing out db with
  | nil => exact h
  | cons entry rest ih =>
    have hentry := importEntry_keeps out h
      (htakedown db entry.cid entry.reason none adminId h)
    exact ih hentry _

/-- What the operations keep, every statement keeps. -/
theorem sem_keeps (cfg : Config) {P : Db → Prop}
    (hrelax : ∀ a b, Relaxes a b → P a → P b) {s : Stmt} {w : World}
    (hop : ∀ op, s.op = some op → P w.db → P (op.apply cfg w.db w.now))
    (htakedown : ∀ db cid reason policy admin, P db →
      P ((LedgerOp.takedown cid reason policy admin).apply cfg db w.now))
    (h : P w.db) : P (s.sem cfg w).2.db := by
  cases hs : s.op with
  | some op =>
    obtain ⟨reservations, hsem⟩ := sem_op cfg hs w
    rw [hsem]
    exact hrelax (op.apply cfg w.db w.now) _ (.of_eq rfl rfl rfl rfl) (hop op hs h)
  | none =>
    by_cases himport : ∃ list, s = .importTakedowns list
    · obtain ⟨list, rfl⟩ := himport
      exact importTakedowns_keeps htakedown h list
    · exact hrelax _ _ (sem_relaxes cfg hs (fun list he => himport ⟨list, he⟩) w) h

end IpfsGate.Server
