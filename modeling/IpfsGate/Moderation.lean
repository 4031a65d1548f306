import IpfsGate.Quota

/-!
# Moderation

The admin transactions of `moderation.js`. Bans and takedowns void claims and return the rows
as they were before the void; refunding them is left to the caller.
-/
namespace IpfsGate.Moderation

open Quota

/-- `ADMIN_ID`. -/
def adminId : String := "operator"

/-! ## The log -/

/-- A column that may not be null. -/
def notNull (column : String) : Option String → Except Fault String
  | some s => .ok s
  | none => .error ⟨"SQLITE_CONSTRAINT_NOTNULL", s!"NOT NULL constraint failed: {column}"⟩

structure AuditEntry where
  action : String
  targetType : String
  target : String
  reason : Option String
  metadata : Option LogMetadata
  adminId : String
deriving DecidableEq

def audit (db : Db) (t : Int) (e : AuditEntry) : Nat × Db :=
  let moderationLog := db.moderationLog.insert (fun id =>
    { id, action := e.action, targetType := e.targetType, target := e.target,
      reason := e.reason, adminId := e.adminId, timestamp := t, metadata := e.metadata })
    (fun _ => rfl)
  (db.moderationLog.next, { db with moderationLog })

/-- `audit` for an admin that may be null, in a commit of its own. -/
def auditBy (db : Db) (t : Int) (admin : Option String) (e : String → AuditEntry) :
    Except Fault Nat × Db :=
  match notNull "moderation_log.admin_id" admin with
  | .error fault => (.error fault, db)
  | .ok adminId =>
    let (moderationLogId, after) := audit db t (e adminId)
    (.ok moderationLogId, after)

/-! ## Bans -/

/-- Rows a void collects: everything of the target that is still active or dormant. -/
def isOpen (c : Claim) : Bool := c.state = .active || c.state = .dormant

structure Banned where
  voidedClaims : List Claim
  pinsAffected : Nat
  cidsToUnpin : List Cid
  activated : List Nat
  refundPolicy : RefundPolicy
  moderationLogId : Nat
deriving DecidableEq

def isOwnedBy (account : Account) (c : Claim) : Bool := c.owner = account && isOpen c

/-- The ban's own writes: the ban row, the account's claims voided and its pins banned. -/
def voidAccount (db : Db) (t : Int) (account : Account) (reason : String)
    (policy : RefundPolicy) (admin : String) : Db :=
  let bannedAccounts := db.bannedAccounts.replace
    { hiveAccount := account, bannedAt := t, bannedBy := admin, reason,
      refundPolicy := policy, unbannedAt := none, unbannedBy := none }
  endPins (closeClaims { db with bannedAccounts } .cancelled (isOwnedBy account)) t .banned
    (fun _ => some reason) (fun p => p.uploader = account)

/-- A ban of an account name that is already lower-case: void, pass the baton on every CID the
account actively hosted, and log. -/
def banTransaction (db : Db) (t : Int) (account : Account) (reason : String)
    (policy : RefundPolicy) (admin : String) : Banned × Db :=
  let voidedClaims := db.claims.filter (isOwnedBy account)
  let pinsAffected := db.pins.count (fun p => p.uploader = account && p.status = .active)
  let activeCids :=
    ((voidedClaims.filter (fun c => c.state = .active)).map Claim.cid).eraseDups
  let (all, reconciled) :=
    reconcileAll (voidAccount db t account reason policy admin) t activeCids
  let (moderationLogId, after) := audit reconciled t
    { action := "ban", targetType := "account", target := account, reason := some reason,
      metadata := some (.ban policy pinsAffected voidedClaims.length all.activated.length),
      adminId := admin }
  ({ voidedClaims, pinsAffected, cidsToUnpin := all.cidsToUnpin, activated := all.activated,
     refundPolicy := policy, moderationLogId }, after)

/-- Identity kill. `refundPolicy` is absent when the request's value is not a policy. What throws
inside the transaction rolls it back. -/
def banAccount (cfg : Config) (db : Db) (t : Int) (hiveAccount : String) (reason : Arg)
    (refundPolicy : Option RefundPolicy) (admin : Arg) : Except Fault (Banned × Db) :=
  if hiveAccount = "" then .error ⟨"bad_request", "hive_account required"⟩
  else if reason.isFalsy then .error ⟨"bad_request", "reason required"⟩
  else
    match refundPolicy with
    | none => .error ⟨"bad_request", "refund_policy must be none|prorata"⟩
    | some policy => do
      let bannedBy ← (admin.withDefault adminId).bound
      let boundReason ← reason.bound
      let bannedBy ← notNull "banned_accounts.banned_by" bannedBy
      let boundReason ← notNull "banned_accounts.reason" boundReason
      return banTransaction db t (cfg.toLowerCase hiveAccount) boundReason policy bannedBy

/-- The rows an unban writes. -/
def unbanned (db : Db) (t : Int) (account : Account) (unbannedBy : Option String) : Db :=
  let bannedAccounts := db.bannedAccounts.update
    (fun b => b.hiveAccount = account && b.unbannedAt.isNone)
    (fun b => { b with unbannedAt := some t, unbannedBy }) (fun _ => rfl)
  { db with bannedAccounts }

/-- The update of the ban and the line of the log are two commits: a null admin is written to the
one and refused by the other. -/
def unbanAccount (cfg : Config) (db : Db) (t : Int) (hiveAccount : String) (admin : Arg) :
    Except Fault Nat × Db :=
  if hiveAccount = "" then (.error ⟨"bad_request", "hive_account required"⟩, db)
  else
    match (admin.withDefault adminId).bound with
    | .error fault => (.error fault, db)
    | .ok unbannedBy =>
      let account := cfg.toLowerCase hiveAccount
      if !isAccountBanned db account then
        (.error ⟨"not_found", "account is not currently banned"⟩, db)
      else
        auditBy (unbanned db t account unbannedBy) t unbannedBy (fun adminId =>
          { action := "unban", targetType := "account", target := account, reason := none,
            metadata := none, adminId })

/-! ## Takedowns -/

structure TakenDown where
  voidedClaims : List Claim
  pinsAffected : Nat
  refundPolicy : RefundPolicy
  moderationLogId : Nat
deriving DecidableEq

def isHostedOn (cid : Cid) (c : Claim) : Bool := c.cid = cid && isOpen c

/-- The takedown's own writes: the block row, the CID's claims voided and its pins ended. -/
def voidCid (db : Db) (t : Int) (cid : Cid) (reason admin : String) : Db :=
  let blockedCids := db.blockedCids.replace
    { cid, blockedAt := t, blockedBy := admin, reason, unblockedAt := none, unblockedBy := none }
  endPins (closeClaims { db with blockedCids } .cancelled (isHostedOn cid)) t .takedown
    (fun _ => some reason) (fun p => p.cid = cid)

def takedownTransaction (db : Db) (t : Int) (cid : Cid) (reason : String)
    (policy : RefundPolicy) (admin : String) : TakenDown × Db :=
  let voidedClaims := db.claims.filter (isHostedOn cid)
  let pinsAffected := db.pins.count (fun p => p.cid = cid && p.status = .active)
  let (moderationLogId, after) := audit (voidCid db t cid reason admin) t
    { action := "takedown", targetType := "cid", target := cid, reason := some reason,
      metadata := some (.takedown pinsAffected voidedClaims.length policy), adminId := admin }
  ({ voidedClaims, pinsAffected, refundPolicy := policy, moderationLogId }, after)

/-- Content kill: the CID is blocked and its whole guardian queue is voided with it. -/
def takedownCid (cfg : Config) (db : Db) (t : Int) (cid reason : Arg)
    (refundPolicy : Option RefundPolicy) (admin : Arg) : Except Fault (TakenDown × Db) :=
  if cid.isFalsy then .error ⟨"bad_request", "cid required"⟩
  else if reason.isFalsy then .error ⟨"bad_request", "reason required"⟩
  else do
    let boundCid ← cid.bound
    let blockedBy ← (admin.withDefault adminId).bound
    let boundReason ← reason.bound
    let blockedBy ← notNull "blocked_cids.blocked_by" blockedBy
    let boundReason ← notNull "blocked_cids.reason" boundReason
    let boundCid ← notNull "moderation_log.target" boundCid
    return takedownTransaction db t boundCid boundReason
      (refundPolicy.getD cfg.defaultRefundPolicy) blockedBy

/-- The rows an untakedown writes. -/
def unblocked (db : Db) (t : Int) (cid : Cid) (unblockedBy : Option String) : Db :=
  let blockedCids := db.blockedCids.update (fun b => b.cid = cid && b.unblockedAt.isNone)
    (fun b => { b with unblockedAt := some t, unblockedBy }) (fun _ => rfl)
  { db with blockedCids }

/-- No row has the CID null. -/
def untakedownCid (db : Db) (t : Int) (cid admin : Arg) : Except Fault Nat × Db :=
  let notBlocked : Fault := ⟨"not_found", "cid is not currently in takedown"⟩
  if cid.isFalsy then (.error ⟨"bad_request", "cid required"⟩, db)
  else
    match (admin.withDefault adminId).bound, cid.bound with
    | .error fault, _ => (.error fault, db)
    | .ok _, .error fault => (.error fault, db)
    | .ok _, .ok none => (.error notBlocked, db)
    | .ok unblockedBy, .ok (some cid) =>
      if !isCidBlocked db cid then (.error notBlocked, db)
      else
        auditBy (unblocked db t cid unblockedBy) t unblockedBy (fun adminId =>
          { action := "untakedown", targetType := "cid", target := cid, reason := none,
            metadata := none, adminId })

/-- An imported entry; a field that is missing, or cannot be bound, is the empty text. -/
structure ImportEntry where
  cid : Cid
  reason : String
deriving DecidableEq

structure ImportError where
  entry : ImportEntry
  error : String
deriving DecidableEq

structure Imported where
  imported : Nat
  skippedExisting : Nat
  errors : List ImportError
deriving DecidableEq

/-- One entry of the list: any row of the CID counts as existing, blocked or not. The voided
claims that `takedownCid` returns are dropped. -/
def importEntry (cfg : Config) (db : Db) (t : Int) (out : Imported) (entry : ImportEntry) :
    Imported × Db :=
  if entry.cid = "" || entry.reason = "" then
    ({ out with errors := out.errors ++ [⟨entry, "missing cid or reason"⟩] }, db)
  else if db.blockedCids.any (fun b => b.cid = entry.cid) then
    ({ out with skippedExisting := out.skippedExisting + 1 }, db)
  else
    match takedownCid cfg db t entry.cid entry.reason none adminId with
    | .ok (_, after) => ({ out with imported := out.imported + 1 }, after)
    | .error e => ({ out with errors := out.errors ++ [⟨entry, e.message⟩] }, db)

def importLoop (cfg : Config) (t : Int) : List ImportEntry → Imported → Db → Imported × Db
  | [], out, db => (out, db)
  | entry :: rest, out, db =>
    let (out', db') := importEntry cfg db t out entry
    importLoop cfg t rest out' db'

/-- Bulk import, each takedown its own transaction, with no suspension in between. -/
def importTakedowns (cfg : Config) (db : Db) (t : Int) (list : List ImportEntry) :
    Imported × Db :=
  importLoop cfg t list { imported := 0, skippedExisting := 0, errors := [] } db

/-! ## The whitelist -/

structure WhitelistRequest where
  hiveAccount : String
  addedBy : Arg
  quotaBytes : Option Int
  feeExempt : Bool
  note : Arg
deriving DecidableEq

/-- The texts of a whitelist row, as the insert takes them. -/
def WhitelistRequest.bound (r : WhitelistRequest) : Except Fault (String × Option String) := do
  let addedBy ← (r.addedBy.withDefault adminId).bound
  let note ← r.note.bound
  let addedBy ← notNull "whitelisted_accounts.added_by" addedBy
  return (addedBy, note)

/-- Adding doubles as editing an entry and as re-adding a removed account. -/
def addToWhitelist (cfg : Config) (db : Db) (t : Int) (r : WhitelistRequest) :
    Except Fault Nat × Db :=
  if r.hiveAccount = "" then (.error ⟨"bad_request", "hive_account required"⟩, db)
  else if r.quotaBytes.any (· < 0) then
    (.error ⟨"bad_request", "quota_bytes must be a non-negative integer or null"⟩, db)
  else
    match r.bound with
    | .error fault => (.error fault, db)
    | .ok (addedBy, note) =>
      let account := cfg.toLowerCase r.hiveAccount
      let quotaBytes := r.quotaBytes.map Int.toNat
      let whitelistedAccounts := db.whitelistedAccounts.replace
        { hiveAccount := account, addedAt := t, addedBy, quotaBytes, feeExempt := r.feeExempt,
          note, removedAt := none, removedBy := none }
      auditBy { db with whitelistedAccounts } t (some addedBy) (fun adminId =>
        { action := "whitelist_add", targetType := "account", target := account,
          reason := none, metadata := some (.whitelistAdd quotaBytes r.feeExempt), adminId })

/-- The rows a removal writes. -/
def unlisted (db : Db) (t : Int) (account : Account) (removedBy : Option String) : Db :=
  let whitelistedAccounts := db.whitelistedAccounts.update
    (fun w => w.hiveAccount = account && w.removedAt.isNone)
    (fun w => { w with removedAt := some t, removedBy }) (fun _ => rfl)
  { db with whitelistedAccounts }

def removeFromWhitelist (cfg : Config) (db : Db) (t : Int) (hiveAccount : String)
    (removedBy : Arg) : Except Fault Nat × Db :=
  if hiveAccount = "" then (.error ⟨"bad_request", "hive_account required"⟩, db)
  else
    match (removedBy.withDefault adminId).bound with
    | .error fault => (.error fault, db)
    | .ok removedBy =>
      let account := cfg.toLowerCase hiveAccount
      if (getWhitelistEntry db account).isNone then
        (.error ⟨"not_found", "account is not currently whitelisted"⟩, db)
      else
        auditBy (unlisted db t account removedBy) t removedBy (fun adminId =>
          { action := "whitelist_remove", targetType := "account", target := account,
            reason := none, metadata := none, adminId })

/-! ## What the calls do -/

/-- A ban that returns is the ban transaction of what was bound. -/
theorem banAccount_transaction {cfg : Config} {db after : Db} {t : Int} {hiveAccount : String}
    {reason admin : Arg} {refundPolicy : Option RefundPolicy} {out : Banned}
    (h : banAccount cfg db t hiveAccount reason refundPolicy admin = .ok (out, after)) :
    ∃ bannedBy boundReason policy,
      banTransaction db t (cfg.toLowerCase hiveAccount) boundReason policy bannedBy =
        (out, after) := by
  unfold banAccount at h
  split at h
  · cases h
  split at h
  · cases h
  cases refundPolicy with
  | none => cases h
  | some policy =>
    obtain ⟨_, _, h⟩ := ok_of_bind h
    obtain ⟨_, _, h⟩ := ok_of_bind h
    obtain ⟨bannedBy, _, h⟩ := ok_of_bind h
    obtain ⟨boundReason, _, h⟩ := ok_of_bind h
    exact ⟨bannedBy, boundReason, policy, Except.ok.inj h⟩

/-- A takedown that returns is the takedown transaction of what was bound. -/
theorem takedownCid_transaction {cfg : Config} {db after : Db} {t : Int} {cid reason admin : Arg}
    {refundPolicy : Option RefundPolicy} {out : TakenDown}
    (h : takedownCid cfg db t cid reason refundPolicy admin = .ok (out, after)) :
    ∃ boundCid boundReason blockedBy policy,
      takedownTransaction db t boundCid boundReason policy blockedBy = (out, after) := by
  unfold takedownCid at h
  split at h
  · cases h
  split at h
  · cases h
  obtain ⟨_, _, h⟩ := ok_of_bind h
  obtain ⟨_, _, h⟩ := ok_of_bind h
  obtain ⟨_, _, h⟩ := ok_of_bind h
  obtain ⟨blockedBy, _, h⟩ := ok_of_bind h
  obtain ⟨boundReason, _, h⟩ := ok_of_bind h
  obtain ⟨boundCid, _, h⟩ := ok_of_bind h
  exact ⟨boundCid, boundReason, blockedBy, _, Except.ok.inj h⟩

section Cases

variable (cfg : Config) (db : Db) (t : Int)

/-- A line touches the log at most. -/
theorem auditBy_writes (admin : Option String) (e : String → AuditEntry) :
    ∃ moderationLog, (auditBy db t admin e).2 = { db with moderationLog } := by
  cases admin with
  | none => exact ⟨db.moderationLog, rfl⟩
  | some admin => exact ⟨_, rfl⟩

/-- An unban throws before its first write, or writes the row and then the line. -/
theorem unbanAccount_cases (hiveAccount : String) (admin : Arg) :
    (∃ fault, unbanAccount cfg db t hiveAccount admin = (.error fault, db)) ∨
    ∃ unbannedBy, hiveAccount ≠ "" ∧ (admin.withDefault adminId).bound = .ok unbannedBy ∧
      isAccountBanned db (cfg.toLowerCase hiveAccount) = true ∧
      unbanAccount cfg db t hiveAccount admin =
        auditBy (unbanned db t (cfg.toLowerCase hiveAccount) unbannedBy) t unbannedBy
          (fun adminId => { action := "unban", targetType := "account",
                            target := cfg.toLowerCase hiveAccount, reason := none,
                            metadata := none, adminId }) := by
  unfold unbanAccount
  split
  · exact Or.inl ⟨_, rfl⟩
  rename_i hname
  cases hbound : (admin.withDefault adminId).bound with
  | error fault => exact Or.inl ⟨_, rfl⟩
  | ok unbannedBy =>
    cases hbanned : isAccountBanned db (cfg.toLowerCase hiveAccount) with
    | false => exact Or.inl ⟨_, if_pos (by simp [hbanned])⟩
    | true => exact Or.inr ⟨unbannedBy, hname, rfl, rfl, by simp [hbanned]⟩

/-- The same for an untakedown. -/
theorem untakedownCid_cases (cid admin : Arg) :
    (∃ fault, untakedownCid db t cid admin = (.error fault, db)) ∨
    ∃ unblockedBy c, cid.isFalsy = false ∧ cid.bound = .ok (some c) ∧
      (admin.withDefault adminId).bound = .ok unblockedBy ∧ isCidBlocked db c = true ∧
      untakedownCid db t cid admin = auditBy (unblocked db t c unblockedBy) t unblockedBy
        (fun adminId => { action := "untakedown", targetType := "cid", target := c,
                          reason := none, metadata := none, adminId }) := by
  unfold untakedownCid
  dsimp only
  cases hfalsy : cid.isFalsy with
  | true => exact Or.inl ⟨_, rfl⟩
  | false =>
    cases hbound : (admin.withDefault adminId).bound with
    | error fault => exact Or.inl ⟨_, rfl⟩
    | ok unblockedBy =>
      cases hcid : cid.bound with
      | error fault => exact Or.inl ⟨_, rfl⟩
      | ok named =>
        cases named with
        | none => exact Or.inl ⟨_, rfl⟩
        | some c =>
          cases hblocked : isCidBlocked db c with
          | false =>
            exact Or.inl ⟨⟨"not_found", "cid is not currently in takedown"⟩, by simp [hblocked]⟩
          | true => exact Or.inr ⟨unblockedBy, c, rfl, rfl, rfl, hblocked, by simp [hblocked]⟩

/-- The same for a removal from the whitelist. -/
theorem removeFromWhitelist_cases (hiveAccount : String) (removedBy : Arg) :
    (∃ fault, removeFromWhitelist cfg db t hiveAccount removedBy = (.error fault, db)) ∨
    ∃ by', hiveAccount ≠ "" ∧ (removedBy.withDefault adminId).bound = .ok by' ∧
      (getWhitelistEntry db (cfg.toLowerCase hiveAccount)).isSome = true ∧
      removeFromWhitelist cfg db t hiveAccount removedBy =
        auditBy (unlisted db t (cfg.toLowerCase hiveAccount) by') t by'
          (fun adminId => { action := "whitelist_remove", targetType := "account",
                            target := cfg.toLowerCase hiveAccount, reason := none,
                            metadata := none, adminId }) := by
  unfold removeFromWhitelist
  split
  · exact Or.inl ⟨_, rfl⟩
  rename_i hname
  cases hbound : (removedBy.withDefault adminId).bound with
  | error fault => exact Or.inl ⟨_, rfl⟩
  | ok by' =>
    cases hlisted : getWhitelistEntry db (cfg.toLowerCase hiveAccount) with
    | none => exact Or.inl ⟨_, if_pos (by simp [hlisted])⟩
    | some entry => exact Or.inr ⟨by', hname, rfl, rfl, by simp [hlisted]⟩

/-- An addition throws before its one row, which is logged under the name it was added by. -/
theorem addToWhitelist_cases (r : WhitelistRequest) :
    (∃ fault, addToWhitelist cfg db t r = (.error fault, db)) ∨
    ∃ addedBy note,
      addToWhitelist cfg db t r =
        auditBy { db with
          whitelistedAccounts := db.whitelistedAccounts.replace
            { hiveAccount := cfg.toLowerCase r.hiveAccount, addedAt := t, addedBy,
              quotaBytes := r.quotaBytes.map Int.toNat, feeExempt := r.feeExempt, note,
              removedAt := none, removedBy := none } } t (some addedBy)
          (fun adminId =>
            { action := "whitelist_add", targetType := "account",
              target := cfg.toLowerCase r.hiveAccount, reason := none,
              metadata := some (.whitelistAdd (r.quotaBytes.map Int.toNat) r.feeExempt),
              adminId }) := by
  unfold addToWhitelist
  split
  · exact Or.inl ⟨_, rfl⟩
  split
  · exact Or.inl ⟨_, rfl⟩
  split
  · exact Or.inl ⟨_, rfl⟩
  · exact Or.inr ⟨_, _, rfl⟩

end Cases

end IpfsGate.Moderation
