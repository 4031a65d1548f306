import IpfsGate.Lib.Extend
import IpfsGate.Server.Gateway
import IpfsGate.Server.Views

/-!
# Every endpoint of the server

The gate with the routes around it: the ones that only read, those that ask Kubo for something
other than pinning, and the operator's note of a refund made by hand. That note is kept in columns
of the payments table which no request of the gate reads, so they are held beside its world.
-/
namespace IpfsGate.Server

open Quota Pricing Moderation
open Lib (Event Extension Machine Pool Prog)
open Lib.Prog (require liftExcept)

/-! ## The machine -/

/-- The columns `status`, `refund_tx_id` and `refund_at` of a payments row. -/
structure PaymentMark where
  status : PaymentStatus
  refundTxId : Option String
  refundAt : Option Int

/-- The world of the gate, and the marks of the payments by their id. -/
structure Site where
  world : World
  marks : Nat → PaymentMark

/-- What a request gives as the id of a payment: something falsy, something that is not one value
to the driver, or a value, with the text that `String` makes of it and the row id that SQLite
reads it as, if it reads one. -/
inductive PaymentRef where
  | missing
  | refused
  | value (text : String) (row : Option Nat)

namespace PaymentRef

def isMissing : PaymentRef → Bool
  | missing => true
  | _ => false

def text : PaymentRef → String
  | value text _ => text
  | _ => ""

/-- The row id a statement binds. -/
def bound : PaymentRef → Except Fault (Option Nat)
  | value _ row => .ok row
  | missing => .ok none
  | refused => Arg.refused.bound.map (fun _ => none)

end PaymentRef

inductive SiteStmt where
  | gate (s : Stmt)
  | logManualRefund (paymentId : PaymentRef) (refundTxId reason : Arg)

abbrev SiteStmt.Out : SiteStmt → Type
  | gate s => s.Out
  | logManualRefund .. => Except Fault Nat

/-- A payment that is recorded is marked with the status it is recorded with. -/
def marksAfter (marks : Nat → PaymentMark) : (s : Stmt) → s.Out → Nat → PaymentMark
  | .recordPayment n, .ok id =>
    Function.update marks id { status := n.status, refundTxId := none, refundAt := none }
  | _, _ => marks

def markPaymentRefunded (w : Site) (paymentId : Nat) (refundTxId : Option String) : Site :=
  { w with
    marks := Function.update w.marks paymentId
      { status := .refunded, refundTxId, refundAt := some w.world.now } }

/-- The payment whose refund is to be noted, and the transaction that its row is to name. -/
def refundedPayment (w : Site) (paymentId : PaymentRef) (refundTxId : Arg) :
    Except Fault (Payment × Option String) := do
  check (!paymentId.isMissing) ⟨"bad_request", "payment_id required"⟩
  check (!refundTxId.isFalsy) ⟨"bad_request", "refund_tx_id required"⟩
  let row ← paymentId.bound
  match row.bind w.world.db.payments.find? with
  | none => throw ⟨"not_found", "payment not found"⟩
  | some pmt =>
    check ((w.marks pmt.id).status ≠ .refunded) ⟨"conflict", "payment already marked refunded"⟩
    let refundTx ← refundTxId.bound
    return (pmt, refundTx)

def refundEntry (paymentId : PaymentRef) (refundTxId : Arg) (reason : Option String) : AuditEntry :=
  { action := "refund_issued", targetType := "payment", target := paymentId.text, reason,
    metadata := some (.refundIssued refundTxId), adminId := Moderation.adminId }

/-- The mark of the payment and the line of the log are two commits; the reason is bound by the
second only. -/
def logManualRefund (w : Site) (paymentId : PaymentRef) (refundTxId reason : Arg) :
    Except Fault Nat × Site :=
  match refundedPayment w paymentId refundTxId with
  | .error fault => (.error fault, w)
  | .ok (pmt, refundTx) =>
    let marked := markPaymentRefunded w pmt.id refundTx
    match reason.orNull.bound with
    | .error fault => (.error fault, marked)
    | .ok reason =>
      let (moderationLogId, db) :=
        audit w.world.db w.world.now (refundEntry paymentId refundTxId reason)
      (.ok moderationLogId, { marked with world := { w.world with db } })

def SiteStmt.sem (cfg : Config) : (s : SiteStmt) → Site → s.Out × Site
  | gate s, w =>
    ((s.sem cfg w.world).1,
      { world := (s.sem cfg w.world).2, marks := marksAfter w.marks s (s.sem cfg w.world).1 })
  | logManualRefund paymentId refundTxId reason, w =>
    Server.logManualRefund w paymentId refundTxId reason

inductive SiteCall where
  | gate (c : Call)
  | kuboCidOfFile (file : Cid)
  | kuboCat (cid : Cid) (offset length : Option Nat)
  | kuboStats

inductive KuboStats where
  | ok (version : Option String) (usedBytes numObjects : Option Nat)
  | unreachable (error : String)

abbrev SiteCall.Reply : SiteCall → Type
  | gate c => c.Reply
  | kuboCidOfFile _ => Except Fault Unit
  | kuboCat .. => CatReply
  | kuboStats => KuboStats

abbrev siteMachine (cfg : Config) : Machine where
  World := Site
  Fault := Fault
  Stmt := SiteStmt
  Out := SiteStmt.Out
  sem := SiteStmt.sem cfg
  Call := SiteCall
  Reply := SiteCall.Reply
  Drift := Nat
  drift := fun ms w => { w with world := { w.world with now := w.world.now + ms } }

/-- The machine of the gate, with more around it. -/
def siteExtension (cfg : Config) : Extension (machine cfg) (siteMachine cfg) where
  world := Site.world
  fault := id
  stmt := SiteStmt.gate
  out := fun _ o => o
  call := SiteCall.gate
  reply := fun _ r => r
  drift := id
  out_sem := fun _ _ => rfl
  world_sem := fun _ _ => rfl
  world_drift := fun _ _ => rfl

abbrev SiteHandler (cfg : Config) : Type → Type := Prog (siteMachine cfg)

/-- A program of the gate. -/
def inGate {cfg : Config} {α β : Type} (tell : α → β) (p : Handler cfg α) : SiteHandler cfg β :=
  p.lift (siteExtension cfg) tell

def consult {cfg : Config} (c : SiteCall) : SiteHandler cfg c.Reply :=
  Prog.call (M := siteMachine cfg) c

/-- Answer from the site as it is now. -/
def survey {cfg : Config} {α : Type} (f : Site → Except Fault α) : SiteHandler cfg α :=
  .read (fun w => liftExcept (f w))

/-! ## POST /check -/

structure HostedReply where
  hostedUntil : Option Int
  activeHosts : Nat
  guardianQueueDepth : Nat
  hours : Int
  amount : Lib.Number

structure CheckReply where
  cid : Cid
  hosted : Option HostedReply

/-- Both options are quoted at the default duration. -/
def checkHosted (cfg : Config) (db : Db) (cid : Cid) : Except Fault CheckReply := do
  check (!isCidBlocked db cid) blockedFault
  match alreadyHostedForCid db cid with
  | none => return { cid, hosted := none }
  | some hosted =>
    let quote ← calculateCost cfg hosted.sizeBytes (.fin cfg.defaultHours) (.fin 1)
      cfg.ratePerMBHour
    let reply : HostedReply :=
      { hostedUntil := isoFromMs hosted.hostedUntil, activeHosts := hosted.activeHosts,
        guardianQueueDepth := hosted.guardianQueueDepth, hours := quote.billableHrs,
        amount := quote.total }
    return { cid, hosted := some reply }

/-- `file` stands for the uploaded bytes, named by their CID. -/
def checkFile {cfg : Config} (file : Cid) : SiteHandler cfg CheckReply := do
  require (cfg.byteCount file ≤ cfg.maxFileSizeBytes)
    ⟨"payload_too_large", s!"file exceeds {cfg.maxFileSizeMB}MB"⟩
  match ← consult (.kuboCidOfFile file) with
  | .error e => .fail e
  | .ok () => survey (fun w => checkHosted cfg w.world.db file)

/-! ## GET /ipfs/:cid -/

/-- The offset and the length that the gateway asks Kubo for, if it asks. -/
def catRequest (db : Db) (method : Method) (cid : Cid) (range : Option String) :
    Option (Option Nat × Option Nat) :=
  if isCidBlocked db cid || method = .head then none
  else
    match getServeInfoForCid db cid with
    | none => none
    | some serve =>
      match Range.parseRange range serve.sizeBytes with
      | some .unsatisfiable => none
      | some (.slice start last) => some ((some start).filter (0 < ·), some (last - start + 1))
      | none => some (none, none)

/-- The headers are fixed before Kubo is asked. -/
def ipfs {cfg : Config} (method : Method) (cid : Cid) (range : Option String) :
    SiteHandler cfg Response :=
  .read (fun w =>
    let response := fun reply => getIpfs cfg w.world.db (fun _ _ _ => reply) method cid range
    match catRequest w.world.db method cid range with
    | none => return response (.unreachable "")
    | some (offset, length) => response <$> consult (.kuboCat cid offset length))

/-! ## GET /admin/stats -/

structure PinCounts where
  active : Nat
  expired : Nat
  banned : Nat
  takedown : Nat

structure PaymentCounts where
  confirmed : Nat
  orphan : Nat
  paidUnconfirmed : Nat
  refunded : Nat
  totalRevenue : List (String × Coins)

structure StatsReply where
  limitBytes : Nat
  usedBytes : Nat
  availableBytes : Nat
  usedPercent : ℚ
  pins : PinCounts
  payments : PaymentCounts
  activeBans : Nat
  activeTakedowns : Nat
  recentActions24h : Nat
  kubo : KuboStats

def countPins (db : Db) (status : PinStatus) : Nat := db.pins.count (fun p => p.status = status)

def paymentsOf (w : Site) (status : PaymentStatus) : List Payment :=
  w.world.db.payments.filter (fun p => (w.marks p.id).status = status)

/-- `SUM(amount) … GROUP BY currency`. -/
def revenue (payments : List Payment) : List (String × Coins) :=
  (payments.map Payment.currency).eraseDups.map (fun currency =>
    (currency, ((payments.filter (fun p => p.currency = currency)).map Payment.amount).sum))

/-- `Math.round(x * 10000) / 100`. -/
def percentOf (part whole : Nat) : ℚ :=
  if 0 < whole then ⌊(part : ℚ) / whole * 10000 + 1 / 2⌋ / 100 else 0

def statsReply (cfg : Config) (w : Site) (kubo : KuboStats) : StatsReply :=
  let db := w.world.db
  let used := (getDiskUsage db w.world.now).usedBytes
  { limitBytes := cfg.diskLimitBytes, usedBytes := used, availableBytes := cfg.diskLimitBytes - used,
    usedPercent := percentOf used cfg.diskLimitBytes,
    pins := { active := countPins db .active, expired := countPins db .expired,
              banned := countPins db .banned, takedown := countPins db .takedown },
    payments := { confirmed := (paymentsOf w .confirmed).length,
                  orphan := (paymentsOf w .orphan).length,
                  paidUnconfirmed := (paymentsOf w .paidUnconfirmed).length,
                  refunded := (paymentsOf w .refunded).length,
                  totalRevenue := revenue (paymentsOf w .confirmed) },
    activeBans := (listBans db).length, activeTakedowns := (listTakedowns db).length,
    recentActions24h :=
      db.moderationLog.count (fun r => w.world.now - 24 * 60 * 60 * 1000 < r.timestamp),
    kubo }

/-- The database is read before Kubo is asked. -/
def stats {cfg : Config} (auth : AdminAuth) : SiteHandler cfg StatsReply := do
  inGate id (requireAdmin auth)
  .read (fun w => statsReply cfg w <$> consult .kuboStats)

/-! ## GET /admin/orphan-payments, POST /admin/log-refund -/

structure OrphanItem where
  paymentId : Nat
  txId : String
  uploader : Account
  currency : String
  amount : Coins
  memo : String
  verifiedAt : Option Int
  status : PaymentStatus
  reasonUnmatched : String

/-- `/^ipfs-gate:upload:([a-f0-9]{16})$/`, where reservation ids are decimal numbers. -/
def namesReservation (memo : String) : Bool :=
  match memo.toList.dropPrefix? "ipfs-gate:upload:".toList with
  | none => false
  | some id => id ≠ [] && id.all Range.isDigit

def orphanItem (w : Site) (p : Payment) : OrphanItem where
  paymentId := p.id
  txId := p.txId
  uploader := p.uploader
  currency := p.currency
  amount := p.amount
  memo := p.memo
  verifiedAt := isoFromMs p.verifiedAt
  status := (w.marks p.id).status
  reasonUnmatched :=
    if p.memo ≠ "" && !namesReservation p.memo then
      "memo did not match ipfs-gate:upload:<id> pattern"
    else "matched memo but sidechain unconfirmed"

def isOrphan (w : Site) (p : Payment) : Bool :=
  (w.marks p.id).status = .orphan || (w.marks p.id).status = .paidUnconfirmed

def listOrphanPayments (w : Site) : List OrphanItem :=
  (newestFirst Payment.verifiedAt (w.world.db.payments.filter (isOrphan w))).map (orphanItem w)

def orphanPayments {cfg : Config} (auth : AdminAuth) : SiteHandler cfg (List OrphanItem) := do
  inGate id (requireAdmin auth)
  survey (fun w => .ok (listOrphanPayments w))

structure LogRefundRequest where
  paymentId : PaymentRef
  refundTxId : Arg
  reason : Arg
  auth : AdminAuth

structure LogRefundReply where
  paymentId : PaymentRef
  moderationLogId : Nat

def logRefund {cfg : Config} (b : LogRefundRequest) : SiteHandler cfg LogRefundReply := do
  inGate id (requireAdmin b.auth)
  let moderationLogId ← liftExcept (← Prog.tx (M := siteMachine cfg)
    (.logManualRefund b.paymentId b.refundTxId b.reason))
  return { paymentId := b.paymentId, moderationLogId }

/-! ## The site -/

inductive SiteRequest where
  | gate (q : Request)
  | info
  | status (cid : Cid)
  | check (file : Cid)
  | ipfs (method : Method) (cid : Cid) (range : Option String)
  | uploadsByUser (s : Signed)
  | claimsMine (s : Signed)
  | guardianQuote (b : QuoteRequest)
  | guardianQueue (cid : Cid)
  | backstopQuote (b : QuoteRequest)
  | backstopQueue (cid : Cid)
  | ownCopyQuote (b : QuoteRequest)
  | extendQuote (claimId : Option Nat) (hours : Option Lib.Number)
  | adminWhitelist (auth : AdminAuth)
  | adminUploads (auth : AdminAuth) (account : String) (p : PageRequest)
  | adminBans (auth : AdminAuth)
  | adminTakedowns (auth : AdminAuth)
  | moderationLog (auth : AdminAuth) (p : PageRequest)
  | stats (auth : AdminAuth)
  | orphanPayments (auth : AdminAuth)
  | logRefund (b : LogRefundRequest)

inductive SiteBody where
  | gate (r : Body)
  | info (r : InfoReply)
  | status (r : StatusReply)
  | check (r : CheckReply)
  | ipfs (r : Response)
  | uploadsByUser (r : UploadsReply)
  | claimsMine (r : ClaimsReply)
  | quote (r : QuoteReply)
  | queue (r : QueueReply)
  | ownCopyQuote (r : OwnCopyQuoteReply)
  | extendQuote (r : ExtendQuoteReply)
  | adminWhitelist (r : WhitelistReply)
  | adminUploads (r : AdminUploadsReply)
  | adminBans (bans : List BanItem)
  | adminTakedowns (takedowns : List TakedownItem)
  | moderationLog (r : LogReply)
  | stats (r : StatsReply)
  | orphanPayments (orphans : List OrphanItem)
  | logRefund (r : LogRefundReply)

def visit (cfg : Config) : SiteRequest → SiteHandler cfg SiteBody
  | .gate q => inGate SiteBody.gate (handle cfg q)
  | .info => return .info (info cfg)
  | .status cid => inGate SiteBody.status (respond (fun db _ => status db cid))
  | .check file => SiteBody.check <$> checkFile file
  | .ipfs method cid range => SiteBody.ipfs <$> ipfs method cid range
  | .uploadsByUser s => inGate SiteBody.uploadsByUser (uploadsByUser s)
  | .claimsMine s => inGate SiteBody.claimsMine (claimsMine s)
  | .guardianQuote b =>
    inGate SiteBody.quote (respond (fun db _ => guardianQuote cfg "guardian" db b))
  | .guardianQueue cid => inGate SiteBody.queue (respond (fun db _ => guardianQueue db cid))
  | .backstopQuote b =>
    inGate SiteBody.quote (respond (fun db _ => guardianQuote cfg "backstop" db b))
  | .backstopQueue cid => inGate SiteBody.queue (respond (fun db _ => guardianQueue db cid))
  | .ownCopyQuote b => inGate SiteBody.ownCopyQuote (respond (fun db _ => ownCopyQuote cfg db b))
  | .extendQuote claimId hours =>
    inGate SiteBody.extendQuote (respond (fun db _ => extendQuote cfg db claimId hours))
  | .adminWhitelist auth => inGate SiteBody.adminWhitelist (adminWhitelist auth)
  | .adminUploads auth account p =>
    inGate SiteBody.adminUploads (adminView auth (fun db _ => adminUploads cfg db account p))
  | .adminBans auth =>
    inGate SiteBody.adminBans (adminView auth (fun db _ => .ok (adminBans db)))
  | .adminTakedowns auth =>
    inGate SiteBody.adminTakedowns (adminView auth (fun db _ => .ok (adminTakedowns db)))
  | .moderationLog auth p =>
    inGate SiteBody.moderationLog (adminView auth (fun db _ => listModerationLog db p))
  | .stats auth => SiteBody.stats <$> stats auth
  | .orphanPayments auth => SiteBody.orphanPayments <$> orphanPayments auth
  | .logRefund b => SiteBody.logRefund <$> logRefund b

abbrev SitePool (cfg : Config) := Pool (siteMachine cfg) SiteRequest SiteBody

abbrev SiteEvent (cfg : Config) := Event (siteMachine cfg) SiteRequest

/-- The site after the events, from the given state of its database with nothing under way. -/
def host (cfg : Config) (w : Site) (events : List (SiteEvent cfg)) : SitePool cfg :=
  (Pool.start w).run (visit cfg) events

/-- A run of the site whose requests are all the gate's is a run of the gate. -/
theorem host_gate (cfg : Config) (w : Site) {events : List (GateEvent cfg)}
    {events' : List (SiteEvent cfg)}
    (h : List.Forall₂ (Pool.EventLifts (siteExtension cfg) SiteRequest.gate) events events') :
    Pool.Lifts (siteExtension cfg) SiteRequest.gate SiteBody.gate
      ((Pool.start w.world).run (handle cfg) events) (host cfg w events') := by
  have hstart : Pool.Lifts (siteExtension cfg) SiteRequest.gate SiteBody.gate
      (Pool.start w.world) (Pool.start w) := ⟨rfl, .nil, .nil⟩
  have hhandler : ∀ q, visit cfg (.gate q) =
      (handle cfg q).lift (siteExtension cfg) SiteBody.gate := fun _ => rfl
  exact hstart.run hhandler h

end IpfsGate.Server
