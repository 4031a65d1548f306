import IpfsGate.Server.Access

/-!
# Refunds and Kubo clean-up

Every refund path goes through `broadcastRefund`: a ledger row first, then the attempt to pay
it. It never fails, whatever the chain answers.
-/
namespace IpfsGate.Server

open Quota Pricing
open Lib (Prog)
open Lib.Prog (liftExcept)

structure RefundSummary where
  amount : Coins
  status : RefundStatus
  txId : Option String
  refundId : Option Nat
deriving DecidableEq

inductive SendError where
  | noRefundKey
  | failed (message : String)

/-- Pay from the escrow account, signed with the active key if the node has it. -/
def sendRefund {cfg : Config} (dest : Account) (amount : Coins) (currency memo : String) :
    Handler cfg (Except SendError String) := do
  let account := cfg.toLowerCase dest
  if !cfg.hasActiveKey then
    let _ ← perform .returned
    return .error .noRefundKey
  else if !isAccountName account then
    let _ ← perform .returned
    return .error (.failed s!"invalid refund destination: {dest}")
  else
    match ← perform (.broadcast account amount currency memo) with
    | .ok txId => return .ok txId
    | .error e => return .error (.failed e)

/-- Queue the report of a claim for the box and publish it once. A report that cannot be built
is logged, and a duplicate is not published. -/
def settleClaim {cfg : Config} (claim : Claim) (trigger : String) (refundId : Nat) :
    Handler cfg Unit := do
  let payRows ← ask (fun db => getClaimPayments db claim)
  let now ← clock
  if cfg.buildsReport claim payRows trigger now then
    let won ← transact (.enqueueReport claim.claimId refundId)
    if won then
      let _ ← perform (.settleReport claim.claimId refundId)
  let _ ← perform .returned

/-- Settle a pending refund row: through the escrow box when the node is keyless, else on
chain. -/
def payRefund {cfg : Config} (claim : Claim) (amount : Coins) (memo reason : String)
    (refundId : Nat) : Handler cfg RefundSummary := do
  let pending : RefundSummary :=
    { amount, status := .pending, txId := none, refundId := some refundId }
  if cfg.escrowBoxMode then
    settleClaim claim reason refundId
    return pending
  else
    match ← sendRefund claim.owner amount claim.currency memo with
    | .ok txId =>
      let _ ← transact (.markRefundSettled refundId .sent (some txId))
      return { pending with status := .sent, txId := some txId }
    | .error .noRefundKey => return pending
    | .error (.failed _) =>
      let _ ← transact (.markRefundSettled refundId .failed none)
      return { pending with status := .failed }

/-- Record what the claim's owner gets back, then pay it. -/
def broadcastRefund {cfg : Config} (claim : Claim) (amount : Coins) (reason : String) :
    Handler cfg RefundSummary := do
  let memo := s!"ipfs-gate:refund:{claim.claimId}"
  if amount ≤ 0 then
    let _ ← transact (.recordRefund
      { claimId := claim.claimId, toAccount := claim.owner, amount := 0,
        currency := claim.currency, memo, status := .skipped,
        reason := reason ++ ": nothing refundable (consumed/forfeit/dust)" })
    return { amount := 0, status := .skipped, txId := none, refundId := none }
  else
    let refundId ← transact (.recordRefund
      { claimId := claim.claimId, toAccount := claim.owner, amount,
        currency := claim.currency, memo, status := .pending, reason })
    payRefund claim amount memo reason refundId

/-- What a user-initiated ending pays back: a dormant pledge its escrow, an active claim its
unused hours. The claim is the row as it was before it was closed. -/
def userRefund (cfg : Config) (claim : Claim) (now : Int) : Except Fault Coins :=
  if claim.state = .dormant then
    .ok (calculateDormantRefund cfg claim cfg.guardianCancelFeePct).amount
  else (calculateRefund cfg claim now).map RefundQuote.amount

def settleClaimRefund {cfg : Config} (claim : Claim) (reason : String) :
    Handler cfg RefundSummary := do
  let now ← clock
  let amount ← liftExcept (userRefund cfg claim now)
  let summary ← broadcastRefund claim amount
    (if claim.state = .dormant then "dormant_cancel" else reason)
  let _ ← perform .returned
  return summary

def settleForcedRefund {cfg : Config} (claim : Claim) (policy : RefundPolicy)
    (innocent : Bool) : Handler cfg RefundSummary := do
  let now ← clock
  let amount ← liftExcept (forcedRefundAmount cfg claim policy innocent now)
  let summary ← broadcastRefund claim amount
    (if innocent then "admin_void_innocent_guardian"
     else if policy = .none then "admin_void_forfeit" else "admin_void_prorata")
  let _ ← perform .returned
  return summary

/-- A Kubo unpin takes effect, if it does, before its response. -/
def unpin {cfg : Config} (cid : Cid) : Handler cfg (Except String Unit) := do
  match ← perform (.kuboRemove cid) with
  | true =>
    let _ ← transact (.unpinFromKubo cid)
    perform (.kuboRemoved cid)
  | false => perform (.kuboRemoved cid)

/-- Best effort: a failure is logged and ignored. -/
def unpinAndGc {cfg : Config} (cid : Cid) : Handler cfg Bool := do
  match ← unpin cid with
  | .error _ => return false
  | .ok () =>
    match ← perform .kuboGc with
    | .error _ => return false
    | .ok () => return true

def unpinIfLast {cfg : Config} (fullyUnpinned : Bool) (cid : Cid) : Handler cfg Unit := do
  if fullyUnpinned then
    let _ ← unpinAndGc cid
    return ()
  else return ()

/-- Unpin each CID, count the successes, and collect garbage after any. -/
def unpinAll {cfg : Config} (cids : List Cid) : Handler cfg Nat := do
  let unpinned ← Prog.fold (fun n cid => do
    match ← unpin cid with
    | .error _ => return n
    | .ok () => return n + 1) cids 0
  if unpinned > 0 then
    let _ ← perform .kuboGc
  return unpinned

end IpfsGate.Server
