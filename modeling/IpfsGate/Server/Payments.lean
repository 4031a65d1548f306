import IpfsGate.Server.Access

/-!
# Payment verification

The on-chain transfer is looked up, matched against the expected payer, memo and amount, and
confirmed on the sidechain before a payments row is written.
-/
namespace IpfsGate.Server

open Quota
open Lib (Number)
open Lib.Prog (require liftExcept)

def ssc : String := "ssc-mainnet-hive"

/-- The first tokens/transfer payload of an operation that the sender authorised. -/
def tokenTransferOf (expectedSender : Account) : Operation → Option (Option TransferPayload)
  | .customJson payload =>
    if payload.id = ssc && payload.auths.contains expectedSender then
      (payload.actions.getD []).findSome? (fun a =>
        if a.contractName = "tokens" && a.contractAction = "transfer" then
          some a.contractPayload
        else none)
    else none
  | .other => none

def extractTokenTransferOp (operations : List Operation) (expectedSender : Account) :
    Except Fault (Option TransferPayload) :=
  match operations.findSome? (tokenTransferOf expectedSender) with
  | some payload => .ok payload
  | none => .error ⟨"unprocessable_entity",
      "no matching tokens/transfer custom_json op found in transaction"⟩

/-- `!(paid < required)`, which holds against a required amount that is not a number. -/
def covers (paid : Coins) : Number → Bool
  | .fin required => required ≤ paid
  | .posInf => false
  | .negInf => true
  | .nan => true

structure Paid where
  amount : Amount
  currency : String

def validateTransferPayload (cfg : Config) (payload : Option TransferPayload)
    (expectedMemo : String) (minAmount : Number) : Except Fault Paid :=
  match payload with
  | none => .error ⟨"unprocessable_entity", "invalid payload"⟩
  | some payload =>
    if cfg.toLowerCase payload.toAccount ≠ cfg.gateAccount then
      .error ⟨"unprocessable_entity",
        s!"transfer to wrong account: {payload.toAccount} (expected {cfg.gateAccount})"⟩
    else if payload.symbol ≠ cfg.paymentCurrency then
      .error ⟨"unprocessable_entity",
        s!"wrong currency: {payload.symbol} (expected {cfg.paymentCurrency})"⟩
    else
      match payload.quantity with
      | none => .error ⟨"unprocessable_entity", "underpaid"⟩
      | some paid =>
        if !covers paid.value minAmount then .error ⟨"unprocessable_entity", "underpaid"⟩
        else if payload.memo ≠ expectedMemo then
          .error ⟨"unprocessable_entity",
            s!"memo mismatch: \"{payload.memo}\" (expected \"{expectedMemo}\")"⟩
        else .ok { amount := paid, currency := payload.symbol }

def verifyPayment {cfg : Config} (txId : String) (sender : Account) (expectedMemo : String)
    (expectedAmount : Number) : Handler cfg Paid := do
  match ← perform (.getTransaction txId) with
  | .error e => .fail ⟨"unprocessable_entity", e⟩
  | .ok operations =>
    let payload ← liftExcept (extractTokenTransferOp operations sender)
    liftExcept (validateTransferPayload cfg payload expectedMemo expectedAmount)

/-- The error a sidechain result stands for, if it is not a confirmation. -/
def sidechainFault : Except String SidechainResult → Option Fault
  | .error e => some ⟨"unprocessable_entity", s!"Hive-Engine sidechain unreachable: {e}"⟩
  | .ok .confirmed => none
  | .ok (.rejected errors) =>
    some ⟨"unprocessable_entity",
      "Hive-Engine did not confirm: " ++ (if errors.isEmpty then "sidechain rejected the transfer"
        else "; ".intercalate errors)⟩
  | .ok .pending =>
    some ⟨"unprocessable_entity",
      "Hive-Engine did not confirm: sidechain did not confirm within the retry budget — try again in ~30s"⟩

def confirmOnSidechain {cfg : Config} (txId : String) : Handler cfg Unit := do
  match sidechainFault (← perform (.verifyHiveEngineSidechain txId)) with
  | some e => .fail e
  | none => return ()

/-- What a pledge or an own copy rests on once it is paid for. -/
structure Settled where
  paid : Coins
  currency : String
  paymentId : Nat

structure PaymentRequest where
  feeExempt : Bool
  txId : String
  sender : Account
  expectedMemo : String
  expectedAmount : Number
  syntheticTxId : String

/-- A fee-exempt payer gets a payments row of zero under a synthetic transaction id. -/
def verifyOrSkipPayment {cfg : Config} (p : PaymentRequest) : Handler cfg Settled := do
  if p.feeExempt then
    let paymentId ← liftExcept (← transact (.recordPayment
      { txId := p.syntheticTxId, reservationId := none, uploader := p.sender,
        currency := cfg.paymentCurrency, amount := 0, memo := p.expectedMemo,
        status := .confirmed }))
    let _ ← perform .returned
    return { paid := 0, currency := cfg.paymentCurrency, paymentId }
  else
    let payResult ← verifyPayment p.txId p.sender p.expectedMemo p.expectedAmount
    confirmOnSidechain p.txId
    let paymentId ← liftExcept (← transact (.recordPayment
      { txId := p.txId, reservationId := none, uploader := p.sender,
        currency := payResult.currency, amount := payResult.amount.value,
        memo := p.expectedMemo, status := .confirmed }))
    let _ ← perform .returned
    return { paid := payResult.amount.value, currency := payResult.currency, paymentId }

end IpfsGate.Server
