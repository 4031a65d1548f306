import IpfsGate.Server.Hosting

/-!
# Requests that end hosting

Cancelling a claim, deleting an upload, releasing an order and proving receipt. Each is a
signed request: it is verified, then the claim is closed, refunded, and unpinned if it was the
last.
-/
namespace IpfsGate.Server

open Quota
open Lib (Prog)
open Lib.Prog (require liftExcept)

/-! ## POST /claims/cancel -/

/-- An absent id is one that is not a non-empty text. -/
structure CancelRequest where
  claimId : Option Nat
  signed : Signed

structure CancelReply where
  claimId : Nat
  cid : Cid
  wasDormant : Bool
  fullyUnpinned : Bool
  activatedGuardian : Option Nat
  refund : RefundSummary

def cancel {cfg : Config} (b : CancelRequest) : Handler cfg CancelReply := do
  let account := cfg.toLowerCase b.signed.hiveAccount
  match b.claimId with
  | none => .fail ⟨"bad_request", "claim_id required"⟩
  | some claimId =>
    verifySignedUserRequest account b.signed.ts b.signed.pubkey b.signed.sig
      s!"ipfs-gate:cancel-claim:v1:{claimId}:{account}:{tsText b.signed.ts}"
    let e ← liftExcept (← transact (.cancelClaim claimId (some account) false))
    let refund ← settleClaimRefund e.claim "cancel"
    unpinIfLast e.fullyUnpinned e.claim.cid
    return { claimId, cid := e.claim.cid, wasDormant := e.wasDormant,
             fullyUnpinned := e.fullyUnpinned, activatedGuardian := e.activated, refund }

/-! ## POST /uploads/delete -/

structure DeleteRequest where
  cid : Cid
  signed : Signed

structure DeletedClaim where
  claimId : Nat
  activatedGuardian : Option Nat
  refund : RefundSummary

structure DeleteReply where
  cid : Cid
  removed : Nat
  fullyUnpinned : Bool
  refunds : List DeletedClaim

def activeClaimsOf (db : Db) (cid : Cid) (owner : Account) : List Claim :=
  (getActiveClaimsForCid db cid).filter (fun c => c.owner = owner)

/-- Cancel and refund one claim of a list that was read before. -/
def deleteClaim {cfg : Config} (account : Account) (out : DeleteReply) (c : Claim) :
    Handler cfg DeleteReply := do
  let e ← liftExcept (← transact (.cancelClaim c.claimId (some account) false))
  let refund ← settleClaimRefund e.claim "user_deleted"
  return { out with
    removed := out.removed + 1, fullyUnpinned := out.fullyUnpinned || e.fullyUnpinned
    refunds := out.refunds ++ [{ claimId := c.claimId, activatedGuardian := e.activated,
                                 refund }] }

/-- Cancel the account's claims on the CID; without any, remove its legacy pin rows. -/
def removeUploads {cfg : Config} (cid : Cid) (account : Account) : Handler cfg DeleteReply := do
  let mine ← ask (fun db => activeClaimsOf db cid account)
  if mine = [] then
    let r ← transact (.removePinForUploader cid account)
    return { cid, removed := r.removed, fullyUnpinned := r.fullyUnpinned, refunds := [] }
  else
    Prog.fold (deleteClaim account) mine
      { cid, removed := 0, fullyUnpinned := false, refunds := [] }

def uploadsDelete {cfg : Config} (b : DeleteRequest) : Handler cfg DeleteReply := do
  let account := cfg.toLowerCase b.signed.hiveAccount
  require (b.cid ≠ "") ⟨"bad_request", "cid required"⟩
  verifySignedUserRequest account b.signed.ts b.signed.pubkey b.signed.sig
    s!"ipfs-gate:delete-pin:v1:{b.cid}:{account}:{tsText b.signed.ts}"
  let out ← removeUploads b.cid account
  require (out.removed ≠ 0) ⟨"not_found", "no active upload for this account + cid"⟩
  unpinIfLast out.fullyUnpinned b.cid
  return out

/-! ## POST /claims/release, POST /claims/receipt -/

structure Decision where
  authorized : Bool
  ends : Bool
  recordsConsent : Bool
deriving DecidableEq

/-- Decide a release attempt, given who has already consented. The policy is normalised again,
although it was when the order was created, and an invalid one is an error. -/
def evaluateRelease (cfg : Config) (policy : ReleasePolicy) (owner releaser : Account)
    (consented : List Account) : Except Fault Decision := do
  let policy ← normalizeReleasePolicy cfg policy.type.text policy.addresses
  let who := dropAt (cfg.toLowerCase releaser)
  if who ≠ "" && who = cfg.toLowerCase owner then
    return { authorized := true, ends := true, recordsConsent := false }
  else
    match policy.type with
    | .ownerOnly => return { authorized := false, ends := false, recordsConsent := false }
    | .anyOf =>
      if policy.addresses.contains who then
        return { authorized := true, ends := true, recordsConsent := false }
      else return { authorized := false, ends := false, recordsConsent := false }
    | .allOf =>
      if policy.addresses.contains who then
        let present := who :: consented.map cfg.toLowerCase
        return { authorized := true, ends := policy.addresses.all present.contains,
                 recordsConsent := true }
      else return { authorized := false, ends := false, recordsConsent := false }

structure EndedByRelease where
  claimId : Nat
  cid : Cid
  fullyUnpinned : Bool
  activatedGuardian : Option Nat
  refund : RefundSummary

inductive ReleaseOutcome where
  | notAParticipant
  | waiting (consents : List Account) (needed got : Nat)
  | alreadyClosed
  | ended (e : EndedByRelease)

structure ReleaseReply where
  orderId : Nat
  policyType : ReleaseType
  receipts : Option (List Account)
  outcome : ReleaseOutcome

/-- Once the threshold is met, end the order's active claim, if it still has one. -/
def endOrder {cfg : Config} (orderId : Nat) (reason : String) : Handler cfg ReleaseOutcome := do
  match ← ask (fun db => getActiveClaimForOrder db orderId) with
  | none => return .alreadyClosed
  | some active =>
    let e ← liftExcept (← transact (.endActiveClaimForRelease active.claimId))
    let refund ← settleClaimRefund e.claim reason
    unpinIfLast e.fullyUnpinned e.claim.cid
    return .ended { claimId := e.claim.claimId, cid := e.claim.cid,
                    fullyUnpinned := e.fullyUnpinned, activatedGuardian := e.activated, refund }

def recordConsent {cfg : Config} (order : Order) (account : Account) (sig : String)
    (decision : Decision) : Handler cfg Unit :=
  if decision.recordsConsent then transact (.recordReleaseConsent order.orderId account sig)
  else return ()

/-- What both routes do for an authorised releaser. -/
def actOnDecision {cfg : Config} (order : Order) (account : Account) (sig : String)
    (decision : Decision) (reason : String) : Handler cfg ReleaseOutcome := do
  recordConsent order account sig decision
  if !decision.ends then
    let present ← ask (fun db => getReleaseConsents db order.orderId)
    let addresses := order.releasePolicy.addresses.map cfg.toLowerCase
    return .waiting present addresses.length (present.filter addresses.contains).length
  else endOrder order.orderId reason

structure ReleaseRequest where
  orderId : Option Nat
  signed : Signed

def release {cfg : Config} (b : ReleaseRequest) : Handler cfg ReleaseReply := do
  let account := cfg.toLowerCase b.signed.hiveAccount
  match b.orderId with
  | none => .fail ⟨"bad_request", "order_id required"⟩
  | some orderId =>
    verifySignedUserRequest account b.signed.ts b.signed.pubkey b.signed.sig
      s!"ipfs-gate:release:v1:{orderId}:{account}:{tsText b.signed.ts}"
    match ← ask (fun db => getOrder db orderId) with
    | none => .fail ⟨"not_found", "order not found"⟩
    | some order =>
      let consented ← ask (fun db => getReleaseConsents db orderId)
      let decision ← liftExcept
        (evaluateRelease cfg order.releasePolicy order.owner account consented)
      require decision.authorized ⟨"forbidden",
        s!"@{account} is not authorised to release this order under its {order.releasePolicy.type.text} policy"⟩
      let outcome ← actOnDecision order account b.signed.sig decision "released"
      return { orderId, policyType := order.releasePolicy.type, receipts := none, outcome }

structure ReceiptRequest where
  orderId : Option Nat
  proofHash : String
  signed : Signed

/-- A receipt of an account that may not release is recorded all the same. -/
def actOnReceipt {cfg : Config} (order : Order) (account : Account) (sig : String)
    (decision : Decision) : Handler cfg ReleaseOutcome :=
  if !decision.authorized then return .notAParticipant
  else actOnDecision order account sig decision "released-via-receipt"

/-- A proof of decryption is recorded, and counts as a consent to release. -/
def receipt {cfg : Config} (b : ReceiptRequest) : Handler cfg ReleaseReply := do
  let account := cfg.toLowerCase b.signed.hiveAccount
  let proofHash := cfg.toLowerCase b.proofHash
  match b.orderId with
  | none => .fail ⟨"bad_request", "order_id required"⟩
  | some orderId =>
    require (isHexSha256 proofHash) ⟨"bad_request", "proof_hash must be a 64-char hex sha256"⟩
    verifySignedUserRequest account b.signed.ts b.signed.pubkey b.signed.sig
      s!"ipfs-gate:receipt:v1:{orderId}:{account}:{tsText b.signed.ts}:{proofHash}"
    match ← ask (fun db => getOrder db orderId) with
    | none => .fail ⟨"not_found", "order not found"⟩
    | some order =>
      match order.receiptHash with
      | none => .fail ⟨"unprocessable_entity",
          "this order has no receipt commitment (uploaded before proof-of-receipt, or a public upload) — receipts unsupported"⟩
      | some receiptHash =>
        require (proofHash = cfg.toLowerCase receiptHash) ⟨"forbidden",
          "proof does not match — you must actually decrypt the file to confirm receipt"⟩
        let _ ← transact (.recordReceipt orderId account proofHash b.signed.sig)
        let consented ← ask (fun db => getReleaseConsents db orderId)
        let decision ← liftExcept
          (evaluateRelease cfg order.releasePolicy order.owner account consented)
        let receipts ← ask (fun db => getReceipts db orderId)
        let outcome ← actOnReceipt order account b.signed.sig decision
        return { orderId, policyType := order.releasePolicy.type, receipts := some receipts,
                 outcome }

end IpfsGate.Server
