import IpfsGate.Lib.Crash
import IpfsGate.Reports.Queue

/-!
# Settlement through the escrow box

The gate reports a settlement and waits for the box's receipt. A settle call queues its facts in
the turn in which it arrives and then publishes the row; draining publishes the pending rows one
after the other. Each attempt signs the row anew. A restart keeps the queue and nothing else.
-/
namespace IpfsGate.Reports

open Lib (Machine Number Pool Event Prog)
open Lib.Prog (Trace)

/-- What is signed. -/
structure EventReport where
  service : String
  ref : String
  subject : String
  facts : Json
  nonce : String
  createdAt : Int
  reporter : String

structure Signed where
  report : EventReport
  sig : String

structure SettleClaim where
  claimId : String
  claim : Json
  payRows : Json
  trigger : String
  now : Int
  metaData : Option Json

structure SettlePayment where
  ref : String
  txId : String
  sender : String
  amount : Number
  currency : String
  memo : String
  payoutTo : String
  platformFee : Number
  now : Int
  metaData : Option Json

/-- What comes from the escrow package: it builds the facts, signs with a key and verifies, and
building and signing may throw. -/
structure Config where
  service : String
  reporter : String
  buildClaimSettleReportFacts : SettleClaim → Option Json
  buildSinglePaymentReportFacts : SettlePayment → Option Json
  sign : String → EventReport → Option String
  verifyReceiptFromBox : Receipt → Bool
  parse : String → Except String Json

/-- What becomes of an attempt to bring the transport up: `createEscrowBoxClient` may throw, and so
may the client's `start`, when the client is kept already. -/
inductive Transport where
  | up
  | unstarted
  | down
deriving DecidableEq

/-- What the process finds around it: the key for the transport, the key for the reports, the
transport and the clock. -/
structure Env where
  selfSk : Option String
  sk : Option String
  transport : Transport
  now : Int

structure World where
  queue : Queue
  client : Bool
  env : Env

/-- `client` asks for the client, `connect` creates it, and `publishReport` hands a report to it. -/
inductive Stmt where
  | client
  | connect
  | enqueue (c : Settle)
  | get (ref : String)
  | pending
  | sign (report : EventReport)
  | markAttempt (ref : String)
  | publishReport (signed : Signed)
  | markSettled (ref : String) (receipt : Receipt)
  | markFailed (ref : String) (receipt : Receipt)
  | updateReceipt (ref : String) (receipt : Receipt)

abbrev Stmt.Out : Stmt → Type
  | client => Bool
  | connect => Bool
  | enqueue _ => Bool
  | get _ => Option Row
  | pending => List Row
  | sign _ => Option Signed
  | markAttempt _ => Unit
  | publishReport _ => Unit
  | markSettled .. => Bool
  | markFailed .. => Bool
  | updateReceipt .. => Unit

/-- `buildSignedReport`, once the report is put together. -/
def signed (cfg : Config) (env : Env) (report : EventReport) : Option Signed :=
  env.sk.bind (fun sk => (cfg.sign sk report).map (⟨report, ·⟩))

/-- The client is kept before it is started. -/
def connect (w : World) : Bool × World :=
  match w.env.transport with
  | .up => (true, { w with client := true })
  | .unstarted => (false, { w with client := true })
  | .down => (false, w)

def Stmt.sem (cfg : Config) : (s : Stmt) → World → s.Out × World
  | client, w => (w.client, w)
  | connect, w => Reports.connect w
  | enqueue c, w =>
    ((Reports.enqueue w.queue c).1, { w with queue := (Reports.enqueue w.queue c).2 })
  | get ref, w => (Reports.get w.queue ref, w)
  | pending, w => (Reports.pending w.queue, w)
  | sign report, w => (signed cfg w.env report, w)
  | markAttempt ref, w => ((), { w with queue := Reports.markAttempt w.queue ref w.env.now })
  | publishReport _, w => ((), w)
  | markSettled ref receipt, w =>
    ((Reports.markSettled w.queue ref receipt).1,
      { w with queue := (Reports.markSettled w.queue ref receipt).2 })
  | markFailed ref receipt, w =>
    ((Reports.markFailed w.queue ref receipt).1,
      { w with queue := (Reports.markFailed w.queue ref receipt).2 })
  | updateReceipt ref receipt, w =>
    ((), { w with queue := Reports.updateReceipt w.queue ref receipt })

/-- What the handlers of a settled or completed report are given. -/
structure Notice where
  ref : String
  facts : Option Json
  receipt : Receipt
  metaData : Option Json

/-- `returned` is the turn that an await of a value takes. A report that was handed over is
`relayed`, or is not. -/
inductive Call where
  | imported
  | returned
  | relayed (signed : Signed)
  | onSettled (n : Notice)
  | onCompleted (n : Notice)

abbrev Call.Reply : Call → Type
  | imported => Unit
  | returned => Unit
  | relayed _ => Bool
  | onSettled _ => Unit
  | onCompleted _ => Unit

/-- The builder of the facts threw, or the transport did. -/
inductive Fault where
  | facts
  | transport
  | noRow

abbrev machine (cfg : Config) : Machine where
  World := World
  Fault := Fault
  Stmt := Stmt
  Out := Stmt.Out
  sem := Stmt.sem cfg
  Call := Call
  Reply := Call.Reply
  Drift := Env
  drift := fun env w => { w with env }

abbrev Handler (cfg : Config) : Type → Type := Prog (machine cfg)

section Handlers

variable {cfg : Config}

def transact (s : Stmt) : Handler cfg s.Out := Prog.tx (M := machine cfg) s

def perform (c : Call) : Handler cfg c.Reply := Prog.call (M := machine cfg) c

def selfSk : Handler cfg (Option String) :=
  Prog.query (M := machine cfg) (fun w => w.env.selfSk)

def createClient : Handler cfg Bool := do
  let _ ← perform .imported
  if ← transact .connect then return true
  else Prog.fail .transport

/-- Whether there is a client. -/
def ensureClient : Handler cfg Bool := do
  if ← transact .client then return true
  else
    let sk ← selfSk
    if sk.isNone then return false
    else createClient

def eventReport (cfg : Config) (row : Row) (facts : Json) : EventReport where
  service := cfg.service
  ref := row.ref
  subject := row.ref
  facts := facts
  nonce := row.nonce
  createdAt := row.createdAt
  reporter := cfg.reporter

/-- Count the attempt and hand the report over; without a signature the row stays queued. -/
def handOver (row : Row) : Option Signed → Handler cfg Bool
  | none => return false
  | some signed => do
    transact (.markAttempt row.ref)
    transact (.publishReport signed)
    perform (.relayed signed)

def signRow (row : Row) : Handler cfg Bool :=
  match cfg.parse row.factsJson with
  | .error _ => return false
  | .ok facts => do
    let signed ← transact (.sign (eventReport cfg row facts))
    handOver row signed

def publishRow (row : Row) : Handler cfg Bool := do
  let c ← ensureClient
  let _ ← perform .returned
  if !c then return false
  else signRow row

/-- Publish the rows one after the other. -/
def publishRows (rows : List Row) : Handler cfg Unit :=
  Prog.fold (fun _ row => do
    let _ ← publishRow row
    let _ ← perform .returned
    return ()) rows ()

def drainOnce : Handler cfg Nat := do
  let rows ← transact .pending
  publishRows rows
  return rows.length

def settleNonce (ref : String) : String := s!"{ref}:settle"

/-- Publish the row that was queued. -/
def publishQueued : Option Row → Handler cfg Bool
  | none => Prog.fail .noRow
  | some row => do
    let _ ← publishRow row
    let _ ← perform .returned
    return true

def settle (c : Settle) : Handler cfg Bool := do
  if ← transact (.enqueue c) then
    let row ← transact (.get c.ref)
    publishQueued row
  else return false

/-- What a settle call queues, unless the builder throws. -/
def SettleClaim.toSettle (cfg : Config) (a : SettleClaim) : Option Settle :=
  (cfg.buildClaimSettleReportFacts a).map (fun facts =>
    { ref := a.claimId, facts, nonce := settleNonce a.claimId, now := a.now,
      metaData := a.metaData })

def SettlePayment.toSettle (cfg : Config) (a : SettlePayment) : Option Settle :=
  (cfg.buildSinglePaymentReportFacts a).map (fun facts =>
    { ref := a.ref, facts, nonce := settleNonce a.ref, now := a.now, metaData := a.metaData })

def settleClaim (a : SettleClaim) : Handler cfg Bool :=
  match a.toSettle cfg with
  | none => Prog.fail .facts
  | some c => settle c

def settlePayment (a : SettlePayment) : Handler cfg Bool :=
  match a.toSettle cfg with
  | none => Prog.fail .facts
  | some c => settle c

def notice (cfg : Config) (row : Row) (receipt : Receipt) : Notice where
  ref := row.ref
  facts := (cfg.parse row.factsJson).toOption
  receipt := receipt
  metaData := row.metaJson.bind (fun text => (cfg.parse text).toOption)

/-- The report was finalised as pending, and this receipt completes it. -/
def completes (row : Row) (receipt : Receipt) : Bool :=
  row.receipt.any (fun stored => stored.status = .pending) &&
    (receipt.status = .settled || receipt.status = .failed)

def markRow (ref : String) (receipt : Receipt) : Handler cfg Bool :=
  if receipt.status = .failed then transact (.markFailed ref receipt)
  else transact (.markSettled ref receipt)

/-- The first receipt finalises the report, and a definitive one after a pending one completes
it. -/
def finalize (ref : String) (receipt : Receipt) : Option Row → Handler cfg Unit
  | none => return ()
  | some row => do
    if ← markRow ref receipt then perform (.onSettled (notice cfg row receipt))
    else if completes row receipt then
      transact (.updateReceipt ref receipt)
      perform (.onCompleted (notice cfg row receipt))

def handleReceipt (receipt : Receipt) : Handler cfg Unit :=
  match receipt.ref with
  | none => return ()
  | some ref =>
    if ref = "" || !cfg.verifyReceiptFromBox receipt then return ()
    else do
      let row ← transact (.get ref)
      finalize ref receipt row

/-- Bring the transport up and drain what an earlier run left. -/
def start : Handler cfg Unit := do
  let _ ← Prog.attempt (M := machine cfg) ensureClient
  let _ ← perform .returned
  let _ ← Prog.attempt (M := machine cfg) drainOnce
  return ()

end Handlers

inductive Request where
  | start
  | settleClaim (a : SettleClaim)
  | settlePayment (a : SettlePayment)
  | drainOnce
  | handleReceipt (receipt : Receipt)

inductive Answer where
  | done
  | settled (won : Bool)
  | drained (rows : Nat)

def handler (cfg : Config) : Request → Handler cfg Answer
  | .start => do
    start
    return .done
  | .settleClaim a => do
    let won ← settleClaim a
    return .settled won
  | .settlePayment a => do
    let won ← settlePayment a
    return .settled won
  | .drainOnce => do
    let n ← drainOnce
    return .drained n
  | .handleReceipt receipt => do
    handleReceipt receipt
    return .done

end IpfsGate.Reports
