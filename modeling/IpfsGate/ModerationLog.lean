import IpfsGate.Moderation
import IpfsGate.Reconcile

/-!
# The moderation log replays to the moderation state

The state is kept in rows that are replaced, retired and revived, the log only grows. Folding
the log gives the same standings: who is banned, what is blocked, and who is whitelisted on
which terms. The calls that lift something write the row and the line in two commits, and a call
that names no admin gets no further than the first.
-/
namespace IpfsGate.ModerationLog

open Quota Moderation
open Lib (Named)

/-- What a whitelist entry grants. -/
structure Terms where
  quotaBytes : Option Nat
  feeExempt : Bool
deriving DecidableEq

/-- What moderation has decided, by name. -/
@[ext] structure Standings where
  banned : Account → Bool
  blocked : Cid → Bool
  whitelisted : Account → Option Terms

def Standings.empty : Standings where
  banned _ := false
  blocked _ := false
  whitelisted _ := none

namespace Standings

def ban (s : Standings) (account : Account) (b : Bool) : Standings :=
  { s with banned := fun a => if a = account then b else s.banned a }

def block (s : Standings) (cid : Cid) (b : Bool) : Standings :=
  { s with blocked := fun c => if c = cid then b else s.blocked c }

def whitelist (s : Standings) (account : Account) (terms : Option Terms) : Standings :=
  { s with whitelisted := fun a => if a = account then terms else s.whitelisted a }

end Standings

def WhitelistedAccount.terms (w : WhitelistedAccount) : Terms :=
  { quotaBytes := w.quotaBytes, feeExempt := w.feeExempt }

/-- The standings the tables hold. -/
def standings (db : Db) : Standings where
  banned := isAccountBanned db
  blocked := isCidBlocked db
  whitelisted account := (getWhitelistEntry db account).map WhitelistedAccount.terms

/-- What one line of the log says. -/
def replayRow (s : Standings) (row : LogRow) : Standings :=
  if row.action = "ban" then s.ban row.target true
  else if row.action = "unban" then s.ban row.target false
  else if row.action = "takedown" then s.block row.target true
  else if row.action = "untakedown" then s.block row.target false
  else if row.action = "whitelist_add" then
    match row.metadata with
    | some (.whitelistAdd quotaBytes feeExempt) =>
      s.whitelist row.target (some { quotaBytes, feeExempt })
    | _ => s
  else if row.action = "whitelist_remove" then s.whitelist row.target none
  else s

/-- The fold over the log, oldest line first. -/
def replay (log : List LogRow) : Standings := log.foldl replayRow .empty

/-! ## Calls -/

/-- A call of a moderation function. An account is the text of its argument and empty when the
argument is falsy, a refund policy is absent when the argument is none of the policies, a list
when the argument is no array, and a quota that is not an integer is refused as a negative one
is. -/
inductive Call where
  | banAccount (hiveAccount : String) (reason : Arg) (refundPolicy : Option RefundPolicy)
      (admin : Arg)
  | unbanAccount (hiveAccount : String) (admin : Arg)
  | takedownCid (cid reason : Arg) (refundPolicy : Option RefundPolicy) (admin : Arg)
  | untakedownCid (cid admin : Arg)
  | importTakedowns (list : Option (List ImportEntry))
  | addToWhitelist (r : WhitelistRequest)
  | removeFromWhitelist (hiveAccount : String) (removedBy : Arg)

/-- A transaction that throws is rolled back. -/
def transaction {α : Type} (db : Db) : Except Fault (α × Db) → Except Fault Unit × Db
  | .ok (_, after) => (.ok (), after)
  | .error fault => (.error fault, db)

/-- Whether a call returns, and the database it leaves. -/
def Call.run (cfg : Config) (db : Db) (t : Int) : Call → Except Fault Unit × Db
  | .banAccount hiveAccount reason refundPolicy admin =>
    transaction db (Moderation.banAccount cfg db t hiveAccount reason refundPolicy admin)
  | .unbanAccount hiveAccount admin =>
    (Moderation.unbanAccount cfg db t hiveAccount admin).map (·.map (fun _ => ())) id
  | .takedownCid cid reason refundPolicy admin =>
    transaction db (Moderation.takedownCid cfg db t cid reason refundPolicy admin)
  | .untakedownCid cid admin =>
    (Moderation.untakedownCid db t cid admin).map (·.map (fun _ => ())) id
  | .importTakedowns none => (.error ⟨"bad_request", "list must be an array"⟩, db)
  | .importTakedowns (some list) => (.ok (), (Moderation.importTakedowns cfg db t list).2)
  | .addToWhitelist r => (Moderation.addToWhitelist cfg db t r).map (·.map (fun _ => ())) id
  | .removeFromWhitelist hiveAccount removedBy =>
    (Moderation.removeFromWhitelist cfg db t hiveAccount removedBy).map (·.map (fun _ => ())) id

/-- Calls one after another, each with the clock reading it takes. -/
def history (cfg : Config) (db : Db) (calls : List (Int × Call)) : Db :=
  calls.foldl (fun db tc => (tc.2.run cfg db tc.1).2) db

/-- The call lifts something that stands, and its admin is null. -/
def Call.Anonymous (cfg : Config) (db : Db) : Call → Prop
  | .unbanAccount hiveAccount admin =>
    (admin.withDefault adminId).bound = .ok none ∧ hiveAccount ≠ "" ∧
      isAccountBanned db (cfg.toLowerCase hiveAccount) = true
  | .untakedownCid cid admin =>
    (admin.withDefault adminId).bound = .ok none ∧
      ∃ c, cid.isFalsy = false ∧ cid.bound = .ok (some c) ∧ isCidBlocked db c = true
  | .removeFromWhitelist hiveAccount removedBy =>
    (removedBy.withDefault adminId).bound = .ok none ∧ hiveAccount ≠ "" ∧
      (getWhitelistEntry db (cfg.toLowerCase hiveAccount)).isSome = true
  | _ => False

/-- No call of the history is anonymous where it is made. -/
def Attributed (cfg : Config) : Db → List (Int × Call) → Prop
  | _, [] => True
  | db, (t, c) :: rest => ¬ c.Anonymous cfg db ∧ Attributed cfg (c.run cfg db t).2 rest

/-! ## What a call does to the standings -/

/-- The log of the database tells its standings. -/
def Replays (db : Db) : Prop := replay db.moderationLog.rows = standings db

theorem replays_empty : Replays Db.empty := rfl

section Steps

variable {cfg : Config} {db after : Db} {t : Int}

/-- The row `audit` appends. -/
def AuditEntry.row (e : AuditEntry) (t : Int) (id : Nat) : LogRow :=
  { id, action := e.action, targetType := e.targetType, target := e.target, reason := e.reason,
    adminId := e.adminId, timestamp := t, metadata := e.metadata }

/-- A change of the tables and the line that tells it keep the log in step. -/
theorem replays_audit (after : Db) (h : Replays db) (hlog : after.moderationLog = db.moderationLog)
    (e : AuditEntry)
    (htold : replayRow (standings db) (AuditEntry.row e t db.moderationLog.next) =
      standings after) : Replays (audit after t e).2 := by
  show List.foldl replayRow .empty (after.moderationLog.rows ++ [_]) = standings after
  rw [hlog, List.foldl_append]
  show replayRow (replay db.moderationLog.rows) _ = standings after
  rw [h, ← htold]
  rfl

/-- A line whose admin is named is written. -/
theorem auditBy_some (after : Db) (admin : String) (e : String → AuditEntry) :
    auditBy after t (some admin) e =
      (.ok (audit after t (e admin)).1, (audit after t (e admin)).2) := rfl

/-- A line whose admin is null is refused, after everything that was written before it. -/
theorem auditBy_none (after : Db) (e : String → AuditEntry) :
    (auditBy after t none e).2 = after := rfl

/-- Nothing else but the moderation tables and the log is told. -/
structure SameModeration (db after : Db) : Prop where
  log : after.moderationLog = db.moderationLog
  banned : after.bannedAccounts = db.bannedAccounts
  blocked : after.blockedCids = db.blockedCids
  whitelisted : after.whitelistedAccounts = db.whitelistedAccounts

theorem SameModeration.standings (h : SameModeration db after) :
    standings after = ModerationLog.standings db := by
  unfold ModerationLog.standings isAccountBanned isCidBlocked getWhitelistEntry
  rw [h.banned, h.blocked, h.whitelisted]

theorem sameModeration_reconcileAll (t : Int) (cids : List Cid) (db : Db) :
    SameModeration db (reconcileAll db t cids).2 := by
  apply reconcileAll_preserves (SameModeration db) t
  · intro _ _ _ h _ _ _
    exact ⟨h.log, h.banned, h.blocked, h.whitelisted⟩
  · exact ⟨rfl, rfl, rfl, rfl⟩

/-! ### Bans -/

theorem isAccountBanned_eq (db : Db) (account : Account) :
    isAccountBanned db account =
      (db.bannedAccounts.find?
        (fun b => b.hiveAccount = account && b.unbannedAt.isNone)).isSome :=
  db.bannedAccounts.any_eq_isSome_find? _

theorem standings_voidAccount (account : Account) (reason : String) (policy : RefundPolicy)
    (admin : String) : standings (voidAccount db t account reason policy admin) =
      (standings db).ban account true := by
  ext a
  · show isAccountBanned _ a = if a = account then true else isAccountBanned db a
    rw [isAccountBanned_eq, isAccountBanned_eq]
    have hrow := db.bannedAccounts.find?_replace
      ({ hiveAccount := account, bannedAt := t, bannedBy := admin, reason,
                refundPolicy := policy, unbannedAt := none, unbannedBy := none } : BannedAccount)
      (fun b => b.unbannedAt.isNone) rfl a
    refine (congrArg Option.isSome hrow).trans ?_
    show Option.isSome (if a = account then _ else _) = _
    split <;> rfl
  · rfl
  · rfl

theorem standings_unbanned (account : Account) (unbannedBy : Option String) :
    standings (unbanned db t account unbannedBy) = (standings db).ban account false := by
  ext a
  · show isAccountBanned _ a = if a = account then false else isAccountBanned db a
    rw [isAccountBanned_eq, isAccountBanned_eq]
    have hrow := db.bannedAccounts.find?_retire account
      (fun b => b.unbannedAt.isNone)
      (fun b => { b with unbannedAt := some t, unbannedBy })
      (fun _ => rfl) (fun _ => rfl) a
    refine (congrArg Option.isSome hrow).trans ?_
    split <;> rfl
  · rfl
  · rfl

theorem replays_banTransaction (h : Replays db) (account : Account) (reason : String)
    (policy : RefundPolicy) (admin : String) :
    Replays (banTransaction db t account reason policy admin).2 := by
  have hsame := sameModeration_reconcileAll t
    (((db.claims.filter (isOwnedBy account)).filter (fun c => c.state = .active)).map
      Claim.cid).eraseDups (voidAccount db t account reason policy admin)
  apply replays_audit _ h hsame.log
  rw [hsame.standings, standings_voidAccount]
  rfl

theorem replays_banAccount (h : Replays db) {hiveAccount : String} {reason admin : Arg}
    {refundPolicy : Option RefundPolicy} {out : Banned}
    (hok : banAccount cfg db t hiveAccount reason refundPolicy admin = .ok (out, after)) :
    Replays after := by
  obtain ⟨bannedBy, boundReason, policy, heq⟩ := banAccount_transaction hok
  obtain rfl : (banTransaction db t _ boundReason policy bannedBy).2 = after :=
    congrArg Prod.snd heq
  exact replays_banTransaction h _ boundReason policy bannedBy

/-- An unban is told unless it lifts a ban and its admin is null. -/
theorem replays_unbanAccount (h : Replays db) {hiveAccount : String} {admin : Arg}
    (hnamed : ¬ (Call.unbanAccount hiveAccount admin).Anonymous cfg db) :
    Replays (unbanAccount cfg db t hiveAccount admin).2 := by
  rcases unbanAccount_cases cfg db t hiveAccount admin with
    ⟨fault, heq⟩ | ⟨unbannedBy, hname, hbound, hbanned, heq⟩
  · rw [heq]
    exact h
  · rw [heq]
    cases unbannedBy with
    | none => exact absurd ⟨hbound, hname, hbanned⟩ hnamed
    | some admin =>
      rw [auditBy_some]
      apply replays_audit (unbanned db t (cfg.toLowerCase hiveAccount) admin) h rfl
      exact (standings_unbanned _ _).symm

/-! ### Takedowns -/

theorem isCidBlocked_eq (db : Db) (cid : Cid) :
    isCidBlocked db cid =
      (db.blockedCids.find? (fun b => b.cid = cid && b.unblockedAt.isNone)).isSome :=
  db.blockedCids.any_eq_isSome_find? _

theorem standings_voidCid (cid : Cid) (reason admin : String) :
    standings (voidCid db t cid reason admin) = (standings db).block cid true := by
  ext c
  · rfl
  · show isCidBlocked _ c = if c = cid then true else isCidBlocked db c
    rw [isCidBlocked_eq, isCidBlocked_eq]
    have hrow := db.blockedCids.find?_replace
      ({ cid, blockedAt := t, blockedBy := admin, reason, unblockedAt := none,
                unblockedBy := none } : BlockedCid)
      (fun b => b.unblockedAt.isNone) rfl c
    refine (congrArg Option.isSome hrow).trans ?_
    show Option.isSome (if c = cid then _ else _) = _
    split <;> rfl
  · rfl

theorem standings_unblocked (cid : Cid) (unblockedBy : Option String) :
    standings (unblocked db t cid unblockedBy) = (standings db).block cid false := by
  ext c
  · rfl
  · show isCidBlocked _ c = if c = cid then false else isCidBlocked db c
    rw [isCidBlocked_eq, isCidBlocked_eq]
    have hrow := db.blockedCids.find?_retire cid (fun b => b.unblockedAt.isNone)
      (fun b => { b with unblockedAt := some t, unblockedBy })
      (fun _ => rfl) (fun _ => rfl) c
    refine (congrArg Option.isSome hrow).trans ?_
    split <;> rfl
  · rfl

theorem replays_takedownCid (h : Replays db) {cid reason admin : Arg}
    {refundPolicy : Option RefundPolicy} {out : TakenDown}
    (hok : takedownCid cfg db t cid reason refundPolicy admin = .ok (out, after)) :
    Replays after := by
  obtain ⟨boundCid, boundReason, blockedBy, policy, heq⟩ := takedownCid_transaction hok
  obtain rfl : (takedownTransaction db t boundCid boundReason policy blockedBy).2 = after :=
    congrArg Prod.snd heq
  apply replays_audit (voidCid db t boundCid boundReason blockedBy) h rfl
  exact (standings_voidCid boundCid boundReason blockedBy).symm

theorem replays_untakedownCid (h : Replays db) {cid admin : Arg}
    (hnamed : ¬ ((admin.withDefault adminId).bound = .ok none ∧
      ∃ c, cid.isFalsy = false ∧ cid.bound = .ok (some c) ∧ isCidBlocked db c = true)) :
    Replays (untakedownCid db t cid admin).2 := by
  rcases untakedownCid_cases db t cid admin with
    ⟨fault, heq⟩ | ⟨unblockedBy, c, htrue, hcid, hbound, hblocked, heq⟩
  · rw [heq]
    exact h
  · rw [heq]
    cases unblockedBy with
    | none => exact absurd ⟨hbound, c, htrue, hcid, hblocked⟩ hnamed
    | some admin =>
      rw [auditBy_some]
      apply replays_audit (unblocked db t c admin) h rfl
      exact (standings_unblocked c _).symm

theorem replays_importLoop (list : List ImportEntry) (h : Replays db) (out : Imported) :
    Replays (importLoop cfg t list out db).2 := by
  induction list generalizing db out with
  | nil => exact h
  | cons entry rest ih =>
    apply ih
    show Replays (importEntry cfg db t out entry).2
    unfold importEntry
    split
    · exact h
    split
    · exact h
    split
    · rename_i hok
      exact replays_takedownCid h hok
    · exact h

/-! ### The whitelist -/

theorem standings_addToWhitelist (row : WhitelistedAccount) (hlive : row.removedAt = none) :
    standings { db with whitelistedAccounts := db.whitelistedAccounts.replace row } =
      (standings db).whitelist row.hiveAccount (some (WhitelistedAccount.terms row)) := by
  ext1
  · rfl
  · rfl
  · funext a
    have hrow := db.whitelistedAccounts.find?_replace row
      (fun w => w.removedAt.isNone) (by simp [hlive]) a
    refine (congrArg (Option.map WhitelistedAccount.terms) hrow).trans ?_
    show Option.map _ (if a = row.hiveAccount then _ else _) = if a = row.hiveAccount then _ else _
    split <;> rfl

theorem replays_addToWhitelist (h : Replays db) (r : WhitelistRequest) :
    Replays (addToWhitelist cfg db t r).2 := by
  rcases addToWhitelist_cases cfg db t r with ⟨fault, heq⟩ | ⟨addedBy, note, heq⟩
  · rw [heq]
    exact h
  · rw [heq, auditBy_some]
    refine replays_audit _ h ?_ _ ?_
    · rfl
    · rw [standings_addToWhitelist _ rfl]
      rfl

theorem standings_unlisted (account : Account) (removedBy : Option String) :
    standings (unlisted db t account removedBy) = (standings db).whitelist account none := by
  ext1
  · rfl
  · rfl
  · funext a
    have hrow := db.whitelistedAccounts.find?_retire account
      (fun w => w.removedAt.isNone)
      (fun w => { w with removedAt := some t, removedBy })
      (fun _ => rfl) (fun _ => rfl) a
    refine (congrArg (Option.map WhitelistedAccount.terms) hrow).trans ?_
    show Option.map _ (if a = account then _ else _) = if a = account then _ else _
    split <;> rfl

theorem replays_removeFromWhitelist (h : Replays db) {hiveAccount : String} {removedBy : Arg}
    (hnamed : ¬ (Call.removeFromWhitelist hiveAccount removedBy).Anonymous cfg db) :
    Replays (removeFromWhitelist cfg db t hiveAccount removedBy).2 := by
  rcases removeFromWhitelist_cases cfg db t hiveAccount removedBy with
    ⟨fault, heq⟩ | ⟨by', hname, hbound, hlisted, heq⟩
  · rw [heq]
    exact h
  · rw [heq]
    cases by' with
    | none => exact absurd ⟨hbound, hname, hlisted⟩ hnamed
    | some admin =>
      rw [auditBy_some]
      apply replays_audit (unlisted db t (cfg.toLowerCase hiveAccount) admin) h rfl
      exact (standings_unlisted _ _).symm

/-! ## Every history -/

theorem replays_transaction {α : Type} (h : Replays db) {r : Except Fault (α × Db)}
    (hok : ∀ a after, r = .ok (a, after) → Replays after) : Replays (transaction db r).2 := by
  cases r with
  | error fault => exact h
  | ok p => exact hok p.1 p.2 rfl

/-- One call keeps the log in step, whether it returns or throws, unless it is anonymous. -/
theorem replays_run (h : Replays db) {c : Call} (hnamed : ¬ c.Anonymous cfg db) :
    Replays (c.run cfg db t).2 := by
  cases c with
  | banAccount => exact replays_transaction h (fun _ _ hok => replays_banAccount h hok)
  | unbanAccount => exact replays_unbanAccount h hnamed
  | takedownCid => exact replays_transaction h (fun _ _ hok => replays_takedownCid h hok)
  | untakedownCid => exact replays_untakedownCid h hnamed
  | importTakedowns list =>
    cases list with
    | none => exact h
    | some list => exact replays_importLoop list h _
  | addToWhitelist r => exact replays_addToWhitelist h r
  | removeFromWhitelist => exact replays_removeFromWhitelist h hnamed

/-- An anonymous call writes its row, and no line. -/
theorem run_anonymous {c : Call} (ha : c.Anonymous cfg db) (t : Int) :
    (c.run cfg db t).2.moderationLog = db.moderationLog ∧
      standings (c.run cfg db t).2 ≠ standings db := by
  cases c with
  | unbanAccount hiveAccount admin =>
    obtain ⟨hnull, hname, hbanned⟩ := ha
    have heq : (Moderation.unbanAccount cfg db t hiveAccount admin).2 =
        unbanned db t (cfg.toLowerCase hiveAccount) none := by
      simp [Moderation.unbanAccount, hnull, hname, hbanned, auditBy, notNull]
    show (Moderation.unbanAccount cfg db t hiveAccount admin).2.moderationLog = _ ∧
      standings (Moderation.unbanAccount cfg db t hiveAccount admin).2 ≠ _
    rw [heq, standings_unbanned]
    refine ⟨rfl, fun h => ?_⟩
    have hlifted := congrFun (congrArg Standings.banned h) (cfg.toLowerCase hiveAccount)
    exact absurd ((if_pos rfl).symm.trans (hlifted.trans hbanned)) Bool.false_ne_true
  | untakedownCid cid admin =>
    obtain ⟨hnull, c, htrue, hcid, hblocked⟩ := ha
    have heq : (Moderation.untakedownCid db t cid admin).2 = unblocked db t c none := by
      simp [Moderation.untakedownCid, hnull, htrue, hcid, hblocked, auditBy, notNull]
    show (Moderation.untakedownCid db t cid admin).2.moderationLog = _ ∧
      standings (Moderation.untakedownCid db t cid admin).2 ≠ _
    rw [heq, standings_unblocked]
    refine ⟨rfl, fun h => ?_⟩
    have hlifted := congrFun (congrArg Standings.blocked h) c
    exact absurd ((if_pos rfl).symm.trans (hlifted.trans hblocked)) Bool.false_ne_true
  | removeFromWhitelist hiveAccount removedBy =>
    obtain ⟨hnull, hname, hlisted⟩ := ha
    have heq : (Moderation.removeFromWhitelist cfg db t hiveAccount removedBy).2 =
        unlisted db t (cfg.toLowerCase hiveAccount) none := by
      simp [Moderation.removeFromWhitelist, hnull, hname, Option.isNone_iff_eq_none,
        Option.isSome_iff_ne_none.mp hlisted, auditBy, notNull]
    show (Moderation.removeFromWhitelist cfg db t hiveAccount removedBy).2.moderationLog = _ ∧
      standings (Moderation.removeFromWhitelist cfg db t hiveAccount removedBy).2 ≠ _
    rw [heq, standings_unlisted]
    refine ⟨rfl, fun h => ?_⟩
    have hlifted := congrFun (congrArg Standings.whitelisted h) (cfg.toLowerCase hiveAccount)
    have hnone : (getWhitelistEntry db (cfg.toLowerCase hiveAccount)).map
        WhitelistedAccount.terms = none := hlifted.symm.trans (if_pos rfl)
    rw [Option.map_eq_none_iff.mp hnone] at hlisted
    cases hlisted
  | banAccount => exact ha.elim
  | takedownCid => exact ha.elim
  | importTakedowns => exact ha.elim
  | addToWhitelist => exact ha.elim

/-- The log tells of a call exactly if it is not anonymous. -/
theorem replays_run_iff (h : Replays db) (c : Call) :
    Replays (c.run cfg db t).2 ↔ ¬ c.Anonymous cfg db := by
  refine ⟨fun hafter ha => ?_, replays_run h⟩
  obtain ⟨hlog, hlifted⟩ := run_anonymous ha t
  unfold Replays at h hafter
  rw [hlog, h] at hafter
  exact hlifted hafter.symm

theorem transaction_error {α : Type} {r : Except Fault (α × Db)} {fault : Fault}
    (h : (transaction db r).1 = .error fault) : (transaction db r).2 = db := by
  cases r with
  | error _ => rfl
  | ok _ => cases h

/-- A call that throws changes nothing, unless it is anonymous. -/
theorem run_error {c : Call} (hnamed : ¬ c.Anonymous cfg db) {fault : Fault}
    (h : (c.run cfg db t).1 = .error fault) : (c.run cfg db t).2 = db := by
  cases c with
  | banAccount => exact transaction_error h
  | takedownCid => exact transaction_error h
  | unbanAccount hiveAccount admin =>
    simp only [Call.run, Prod.map_snd, Prod.map_fst, id_eq] at h ⊢
    rcases unbanAccount_cases cfg db t hiveAccount admin with
      ⟨_, heq⟩ | ⟨unbannedBy, hname, hbound, hbanned, heq⟩
    · rw [heq]
    · cases unbannedBy with
      | none => exact absurd ⟨hbound, hname, hbanned⟩ hnamed
      | some admin =>
        rw [heq] at h
        cases h
  | untakedownCid cid admin =>
    simp only [Call.run, Prod.map_snd, Prod.map_fst, id_eq] at h ⊢
    rcases untakedownCid_cases db t cid admin with
      ⟨_, heq⟩ | ⟨unblockedBy, c, htrue, hcid, hbound, hblocked, heq⟩
    · rw [heq]
    · cases unblockedBy with
      | none => exact absurd ⟨hbound, c, htrue, hcid, hblocked⟩ hnamed
      | some admin =>
        rw [heq] at h
        cases h
  | importTakedowns list =>
    cases list with
    | none => rfl
    | some list => cases h
  | addToWhitelist r =>
    simp only [Call.run, Prod.map_snd, Prod.map_fst, id_eq] at h ⊢
    rcases addToWhitelist_cases cfg db t r with ⟨_, heq⟩ | ⟨addedBy, note, heq⟩
    · rw [heq]
    · rw [heq] at h
      cases h
  | removeFromWhitelist hiveAccount removedBy =>
    simp only [Call.run, Prod.map_snd, Prod.map_fst, id_eq] at h ⊢
    rcases removeFromWhitelist_cases cfg db t hiveAccount removedBy with
      ⟨_, heq⟩ | ⟨by', hname, hbound, hlisted, heq⟩
    · rw [heq]
    · cases by' with
      | none => exact absurd ⟨hbound, hname, hlisted⟩ hnamed
      | some admin =>
        rw [heq] at h
        cases h

theorem replays_history {calls : List (Int × Call)} (h : Replays db)
    (hnamed : Attributed cfg db calls) : Replays (history cfg db calls) := by
  induction calls generalizing db with
  | nil => exact h
  | cons tc rest ih => exact ih (replays_run h hnamed.1) hnamed.2

theorem Attributed.upTo {calls done : List (Int × Call)} (h : Attributed cfg db calls)
    (hdone : done <+: calls) : Attributed cfg db done := by
  induction done generalizing db calls with
  | nil => trivial
  | cons tc rest ih =>
    obtain ⟨more, rfl⟩ := hdone
    exact ⟨h.1, ih h.2 (List.prefix_append rest more)⟩

end Steps

section Sampled

open Server.Sample (config)

/-- Alice is banned and unbanned, and Bob is whitelisted. -/
def attributedCalls : List (Int × Call) :=
  [(0, .banAccount "alice" "abuse" (some .prorata) .undefined),
    (1, .unbanAccount "alice" "operator"),
    (2, .addToWhitelist { hiveAccount := "bob", addedBy := "operator", quotaBytes := none,
                          feeExempt := true, note := .null })]

/-- Alice is banned, and the call that lifts the ban has a null admin. -/
def anonymousCalls : List (Int × Call) :=
  [(0, .banAccount "alice" "abuse" (some .prorata) .undefined), (1, .unbanAccount "alice" .null)]

end Sampled

end IpfsGate.ModerationLog
