import IpfsGate.Server.Ending

/-!
# Moderation routes and the sweeper
-/
namespace IpfsGate.Server

open Quota Moderation
open Lib (Prog)
open Lib.Prog (require liftExcept)

/-- How many refunds ended in each status. -/
structure RefundTally where
  sent : Nat
  pending : Nat
  failed : Nat
  skipped : Nat
deriving DecidableEq

namespace RefundTally

def zero : RefundTally := { sent := 0, pending := 0, failed := 0, skipped := 0 }

def count (r : RefundTally) : RefundStatus → RefundTally
  | .sent => { r with sent := r.sent + 1 }
  | .pending => { r with pending := r.pending + 1 }
  | .failed => { r with failed := r.failed + 1 }
  | .skipped => { r with skipped := r.skipped + 1 }

end RefundTally

/-- Refund every voided claim, the innocent ones in full. -/
def settleVoided {cfg : Config} (policy : RefundPolicy) (innocent : Claim → Bool)
    (voided : List Claim) : Handler cfg RefundTally :=
  Prog.fold (fun refunds claim => do
    let r ← settleForcedRefund claim policy (innocent claim)
    return refunds.count r.status) voided RefundTally.zero

/-! ## POST /admin/ban, POST /admin/unban -/

structure BanRequest where
  hiveAccount : String
  reason : String
  refundPolicy : Option RefundPolicy
  auth : AdminAuth

structure BanReply where
  banned : Account
  pinsAffected : Nat
  claimsVoided : Nat
  guardiansActivated : Nat
  cidsUnpinned : Nat
  refunds : RefundTally
  moderationLogId : Nat

/-- The banned account is not innocent, so its refunds follow the policy. -/
def ban {cfg : Config} (b : BanRequest) : Handler cfg BanReply := do
  let account := cfg.toLowerCase b.hiveAccount
  let adminId ← verifyAdminAuth b.auth "ban" account
  let result ← liftExcept
    (← transact (.banAccount b.hiveAccount b.reason b.refundPolicy adminId))
  let refunds ← settleVoided result.refundPolicy (fun _ => false) result.voidedClaims
  let unpinned ← unpinAll result.cidsToUnpin
  return { banned := account, pinsAffected := result.pinsAffected,
           claimsVoided := result.voidedClaims.length,
           guardiansActivated := result.activated.length, cidsUnpinned := unpinned, refunds,
           moderationLogId := result.moderationLogId }

structure NameRequest where
  name : String
  auth : AdminAuth

structure LoggedReply where
  name : String
  moderationLogId : Nat

def unban {cfg : Config} (b : NameRequest) : Handler cfg LoggedReply := do
  let adminId ← verifyAdminAuth b.auth "unban" (cfg.toLowerCase b.name)
  let moderationLogId ← liftExcept (← transact (.unbanAccount b.name adminId))
  return { name := cfg.toLowerCase b.name, moderationLogId }

/-! ## POST /admin/takedown, POST /admin/untakedown, POST /admin/takedowns/import -/

structure TakedownRequest where
  cid : Cid
  reason : String
  refundPolicy : Option RefundPolicy
  auth : AdminAuth

structure TakedownReply where
  cid : Cid
  pinsAffected : Nat
  claimsVoided : Nat
  guardiansRefunded : Nat
  refundPolicy : RefundPolicy
  refunds : RefundTally
  unpinnedFromKubo : Bool
  moderationLogId : Nat

def isInnocent (claim : Claim) : Bool := claim.state = .dormant

/-- Dormant guardians of a taken-down CID are innocent; its hosts follow the policy. -/
def takedown {cfg : Config} (b : TakedownRequest) : Handler cfg TakedownReply := do
  let adminId ← verifyAdminAuth b.auth "takedown" b.cid
  let result ← liftExcept (← transact (.takedownCid b.cid b.reason b.refundPolicy adminId))
  let refunds ← settleVoided result.refundPolicy isInnocent result.voidedClaims
  let unpinned ← unpinAndGc b.cid
  return { cid := b.cid, pinsAffected := result.pinsAffected,
           claimsVoided := result.voidedClaims.length,
           guardiansRefunded := result.voidedClaims.countP isInnocent,
           refundPolicy := result.refundPolicy, refunds, unpinnedFromKubo := unpinned,
           moderationLogId := result.moderationLogId }

def untakedown {cfg : Config} (b : NameRequest) : Handler cfg LoggedReply := do
  let adminId ← verifyAdminAuth b.auth "untakedown" b.name
  let moderationLogId ← liftExcept (← transact (.untakedownCid b.name adminId))
  return { name := b.name, moderationLogId }

structure ImportRequest where
  takedowns : List ImportEntry
  auth : AdminAuth

/-- The one moderation route that settles no refunds. -/
def takedownsImport {cfg : Config} (b : ImportRequest) : Handler cfg Imported := do
  requireAdmin b.auth
  transact (.importTakedowns b.takedowns)

/-! ## The whitelist -/

structure WhitelistAddRequest where
  targetAccount : String
  quotaBytes : Option Int
  feeExempt : Bool
  note : Option String
  auth : AdminAuth

def whitelistAdd {cfg : Config} (b : WhitelistAddRequest) : Handler cfg LoggedReply := do
  let adminId ← verifyAdminAuth b.auth "whitelist-add" (cfg.toLowerCase b.targetAccount)
  let moderationLogId ← liftExcept (← transact (.addToWhitelist
    { hiveAccount := b.targetAccount, addedBy := adminId, quotaBytes := b.quotaBytes,
      feeExempt := b.feeExempt, note := b.note.elim .null .text }))
  return { name := cfg.toLowerCase b.targetAccount, moderationLogId }

def whitelistRemove {cfg : Config} (b : NameRequest) : Handler cfg LoggedReply := do
  let adminId ← verifyAdminAuth b.auth "whitelist-remove" (cfg.toLowerCase b.name)
  let moderationLogId ← liftExcept (← transact (.removeFromWhitelist b.name adminId))
  return { name := cfg.toLowerCase b.name, moderationLogId }

/-! ## POST /admin/pins/delete -/

structure PinsDeleteRequest where
  targetAccount : String
  cid : Cid
  reason : Option String
  refundPolicy : Option RefundPolicy
  auth : AdminAuth

structure PinsDeleteReply where
  cid : Cid
  targetAccount : Account
  claimsCancelled : Nat
  guardiansActivated : Nat
  fullyUnpinned : Bool
  refundPolicy : RefundPolicy
  refunds : RefundTally
  moderationLogId : Nat

structure PinsDeleted where
  fullyUnpinned : Bool
  activated : Nat
  refunds : RefundTally

/-- Cancel and refund one claim of a list that was read before. -/
def voidClaim {cfg : Config} (policy : RefundPolicy) (out : PinsDeleted) (c : Claim) :
    Handler cfg PinsDeleted := do
  let e ← liftExcept (← transact (.cancelClaim c.claimId none true))
  let settled ← settleForcedRefund e.claim policy false
  return { fullyUnpinned := out.fullyUnpinned || e.fullyUnpinned,
           activated := out.activated + (if e.activated.isSome then 1 else 0),
           refunds := out.refunds.count settled.status }

def pinsDelete {cfg : Config} (b : PinsDeleteRequest) : Handler cfg PinsDeleteReply := do
  let account := cfg.toLowerCase b.targetAccount
  require (account ≠ "" && b.cid ≠ "") ⟨"bad_request", "target_account, cid required"⟩
  let adminId ← verifyAdminAuth b.auth "pin-delete" s!"{b.cid}:{account}"
  let policy := b.refundPolicy.getD .prorata
  let targetClaims ← ask (fun db => activeClaimsOf db b.cid account)
  require (!targetClaims.isEmpty) ⟨"not_found", "no active claim for this account + cid"⟩
  let out ← Prog.fold (voidClaim policy) targetClaims
    { fullyUnpinned := false, activated := 0, refunds := RefundTally.zero }
  unpinIfLast out.fullyUnpinned b.cid
  let moderationLogId ← transact (.audit
    { action := "pin_delete", targetType := "cid", target := b.cid, reason := b.reason,
      metadata := some (.pinDelete account targetClaims.length policy), adminId })
  return { cid := b.cid, targetAccount := account, claimsCancelled := targetClaims.length,
           guardiansActivated := out.activated, fullyUnpinned := out.fullyUnpinned,
           refundPolicy := policy, refunds := out.refunds, moderationLogId }

/-! ## The sweeper -/

/-- A run that finds another one in progress does nothing. -/
def runOnce {cfg : Config} : Handler cfg Unit := do
  if ← Prog.query (M := machine cfg) World.sweeping then return ()
  else
    let _ ← transact (.setSweeping true)
    let result ← transact .sweep
    let _ ← unpinAll result.cidsToUnpin
    let _ ← transact (.setSweeping false)
    return ()

end IpfsGate.Server
