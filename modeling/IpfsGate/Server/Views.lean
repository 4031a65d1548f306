import IpfsGate.Server.Gate

/-!
# Routes that only read

The quotes, the queues, the listings of an account and those of the operator. Each reads the
database in one turn; the signed ones verify their request first. What depends on the environment
alone (texts, addresses, the public URL of a file) is left out of the answers.
-/
namespace IpfsGate.Server

open Quota Pricing
open Lib (Number Prog)
open Lib.Prog (require liftExcept)

/-- Answer from the database and the clock. -/
def respond {cfg : Config} {α : Type} (f : Db → Int → Except Fault α) : Handler cfg α :=
  .read (fun w => liftExcept (f w.db w.now))

/-! ## GET /, GET /status/:cid -/

structure InfoReply where
  currency : String
  maxSizeMB : Nat
  defaultHours : Int
  hostingPermanent : Bool
  ratePerMBHour : ℚ
  minHours : Int
  mbDivisor : Nat
  nodeCount : Int
  guardianCancelFeePct : ℚ
  whitelistMode : Bool

def info (cfg : Config) : InfoReply where
  currency := cfg.paymentCurrency
  maxSizeMB := cfg.maxFileSizeMB
  defaultHours := cfg.defaultHours
  hostingPermanent := cfg.hostingPermanent
  ratePerMBHour := cfg.ratePerMBHour
  minHours := cfg.minHours
  mbDivisor := cfg.mbDivisor
  nodeCount := getNodeCount cfg
  guardianCancelFeePct := cfg.guardianCancelFeePct
  whitelistMode := cfg.whitelistMode

structure StatusReply where
  cid : Cid
  hostedUntil : Option Int
  activeHosts : Nat
  guardianQueueDepth : Nat

def status (db : Db) (cid : Cid) : Except Fault StatusReply :=
  if isCidBlocked db cid then .error ⟨"legal_takedown", "this CID has been removed"⟩
  else
    match alreadyHostedForCid db cid with
    | none => .error ⟨"not_found", "CID not pinned"⟩
    | some hosted =>
      .ok { cid, hostedUntil := isoFromMs hosted.hostedUntil, activeHosts := hosted.activeHosts,
            guardianQueueDepth := hosted.guardianQueueDepth }

/-! ## The quotes -/

/-- The query of a quote on a hosted CID; a number is absent when its parameter is missing. -/
structure QuoteRequest where
  cid : Cid
  hours : Option Number
  copies : Option Number
  hiveAccount : String

/-- `Math.max(1, Math.floor(copies) || 1)`. -/
def copiesAsked : Number → Number
  | .fin c => .fin (max 1 ⌊c⌋ : Int)
  | .posInf => .posInf
  | .negInf => .fin 1
  | .nan => .fin 1

/-- Whether fewer copies are granted than were asked for. -/
def isCapped (granted : Int) (copies : Number) : Bool :=
  match copiesAsked copies with
  | .fin c => (granted : ℚ) < c
  | .posInf => true
  | _ => false

structure QuoteReply where
  cid : Cid
  hostedUntil : Option Int
  activeHosts : Nat
  queueDepth : Nat
  memo : String
  copiesRequested : Number
  copiesCapped : Bool
  quote : Quote
  feeExempt : Bool

/-- What both quote routes do. An account that names itself is quoted its own rate. -/
def quoteRoute (cfg : Config) (db : Db) (b : QuoteRequest) (hours : Number)
    (memo notHosted : String) : Except Fault QuoteReply := do
  let copies := b.copies.getD (.fin 1)
  check (b.cid ≠ "") ⟨"bad_request", "cid required"⟩
  check (!isCidBlocked db b.cid) blockedFault
  match alreadyHostedForCid db b.cid with
  | none => .error ⟨"not_found", notHosted⟩
  | some hosted =>
    let quoteAccount := cfg.toLowerCase b.hiveAccount
    let feeExempt := quoteAccount ≠ "" && (feeExemptEntryFor cfg db quoteAccount).isSome
    let quote ← calculateCost cfg hosted.sizeBytes hours copies (rateFor cfg feeExempt)
    return { cid := b.cid, hostedUntil := isoFromMs hosted.hostedUntil,
             activeHosts := hosted.activeHosts, queueDepth := hosted.guardianQueueDepth, memo,
             copiesRequested := copiesAsked copies, copiesCapped := isCapped quote.copies copies,
             quote, feeExempt }

def guardianQuote (cfg : Config) (memoPurpose : String) (db : Db) (b : QuoteRequest) :
    Except Fault QuoteReply :=
  quoteRoute cfg db b (b.hours.getD (.fin cfg.defaultHours)) s!"ipfs-gate:{memoPurpose}:{b.cid}"
    "CID is not currently hosted here — you can only guard a live file"

structure OwnCopyQuoteReply where
  quoted : QuoteReply
  nodeCount : Int
  addsRedundancy : Bool

def ownCopyQuote (cfg : Config) (db : Db) (b : QuoteRequest) :
    Except Fault OwnCopyQuoteReply := do
  let quoted ← quoteRoute cfg db b
    (if cfg.hostingPermanent then .fin cfg.minHours else b.hours.getD (.fin cfg.defaultHours))
    s!"ipfs-gate:owncopy:{b.cid}"
    "CID is not currently hosted here — upload it via /reserve + /upload instead"
  return { quoted, nodeCount := getNodeCount cfg,
           addsRedundancy := (quoted.activeHosts : Int) < getNodeCount cfg }

structure ExtendQuoteReply where
  claimId : Nat
  memo : String
  billableMB : Int
  extraHrs : Int
  copies : Int
  rate : Coins
  total : Number
  currency : String

/-- An absent id is one that is not a non-empty text; missing hours are zero, which no quote is
given for. -/
def extendQuote (cfg : Config) (db : Db) (claimId : Option Nat) (hours : Option Number) :
    Except Fault ExtendQuoteReply := do
  match claimId with
  | none => .error ⟨"bad_request", "claim_id required"⟩
  | some claimId =>
    match getClaim db claimId with
    | none => .error ⟨"not_found", "claim not found"⟩
    | some claim =>
      check (claim.state = .active)
        ⟨"conflict", s!"claim is {claim.state.text}; only active claims can be extended"⟩
      let extraHrs ← billableHours cfg (hours.getD (.fin 0))
      let total := roundCoinsNum cfg
        ((((Number.fin claim.sizeMB).mul (.fin extraHrs)).mul (.fin claim.rateLocked)).mul
          (.fin claim.copiesRequested))
      return { claimId, memo := s!"ipfs-gate:extend:{claimId}", billableMB := claim.sizeMB,
               extraHrs, copies := claim.copiesRequested, rate := claim.rateLocked, total,
               currency := claim.currency }

/-! ## GET /guardian/queue, GET /backstop/queue -/

structure LiveHost where
  claimId : Nat
  owner : Account
  kind : ClaimKind
  paidHours : Int
  expiresAt : Option Int

structure QueuedGuardian where
  position : Nat
  pledgeOrder : Option Nat
  claimId : Nat
  owner : Account
  pledgedHours : Int
  pledgeBudget : Option Coins
  amountEscrowed : Coins
  currency : String

structure QueueReply where
  cid : Cid
  active : List LiveHost
  guardianQueue : List QueuedGuardian
  totalPledgedHours : Int

def queuedGuardian (position : Nat) (c : Claim) : QueuedGuardian where
  position := position
  pledgeOrder := c.pledgeOrder
  claimId := c.claimId
  owner := c.owner
  pledgedHours := c.paidHours
  pledgeBudget := c.pledgeBudget
  amountEscrowed := c.amountPaid
  currency := c.currency

def guardianQueue (db : Db) (cid : Cid) : Except Fault QueueReply := do
  check (cid ≠ "") ⟨"bad_request", "cid required"⟩
  let dormant := getDormantGuardiansForCid db cid
  return { cid,
           active := (getActiveClaimsForCid db cid).map (fun c =>
             { claimId := c.claimId, owner := c.owner, kind := c.kind, paidHours := c.paidHours,
               expiresAt := isoFromMs c.expiryTs }),
           guardianQueue := dormant.mapIdx (fun i c => queuedGuardian (i + 1) c),
           totalPledgedHours := (dormant.map Claim.paidHours).sum }

/-! ## GET /uploads/by-user, GET /claims/mine -/

/-- `ORDER BY t DESC`; rows of one time stay in the order they were inserted in. -/
def newestFirst {α : Type} (t : α → Int) (rows : List α) : List α :=
  rows.insertionSort (fun a b => t b ≤ t a)

/-- `LIMIT limit OFFSET offset`: a negative limit is none, a negative offset is zero. -/
def page {α : Type} (limit offset : Int) (rows : List α) : List α :=
  let rest := rows.drop offset.toNat
  if limit < 0 then rest else rest.take limit.toNat

/-- A pin with its payment, and a claim that is linked to it. -/
structure UploadRow where
  pin : Pin
  payment : Payment
  claim : Option Claim

/-- `LEFT JOIN claims c ON c.pin_id = p.id`. -/
def claimsOfPin (db : Db) (p : Pin) : List (Option Claim) :=
  match db.claims.filter (fun c => c.pinId = some p.id) with
  | [] => [none]
  | claims => claims.map some

def listUploadsForAccount (db : Db) (account : Account) (limit offset : Int) : List UploadRow :=
  page limit offset
    ((newestFirst Pin.createdAt (db.pins.filter (fun p => p.uploader = account))).flatMap (fun p =>
      (db.payments.find? p.paymentId).toList.flatMap (fun payment =>
        (claimsOfPin db p).map (fun claim => { pin := p, payment, claim }))))

structure CoHosting where
  queueDepth : Nat
  pledgedHoursTotal : Int
  coHosts : Nat

structure UploadItem where
  cid : Cid
  sizeBytes : Nat
  mime : Option String
  mode : Mode
  kind : Option ClaimKind
  claimId : Option Nat
  uploadedAt : Option Int
  expiresAt : Option Int
  status : PinStatus
  guardians : Option CoHosting

def coHosting (db : Db) (p : Pin) : CoHosting :=
  let dormant := getDormantGuardiansForCid db p.cid
  { queueDepth := dormant.length, pledgedHoursTotal := (dormant.map Claim.paidHours).sum,
    coHosts := ((getActiveClaimsForCid db p.cid).filter (fun c => c.pinId ≠ some p.id)).length }

def uploadItem (db : Db) (row : UploadRow) : UploadItem where
  cid := row.pin.cid
  sizeBytes := row.pin.sizeBytes
  mime := row.pin.mime.filter (· ≠ "")
  mode := row.pin.mode
  kind := row.claim.map Claim.kind
  claimId := row.claim.map Claim.claimId
  uploadedAt := isoFromMs row.pin.createdAt
  expiresAt := isoFromMs row.pin.expiresAt
  status := row.pin.status
  guardians := if row.pin.status = .active then some (coHosting db row.pin) else none

inductive QuotaScope where
  | perAccount
  | sharedDisk

/-- `whitelisted` is null when the mode is off. -/
structure QuotaReply where
  quotaScope : QuotaScope
  usedBytes : Nat
  limitBytes : Nat
  availableBytes : Nat
  pendingCount : Nat
  whitelisted : Option Bool
  feeExempt : Bool

structure UploadsReply where
  hiveAccount : Account
  quota : QuotaReply
  isAdmin : Bool
  uploads : List UploadItem

/-- A member with a cap of its own sees that instead of the disk. -/
def quotaReply (cfg : Config) (db : Db) (now : Int) (account : Account) : QuotaReply :=
  let disk := (getDiskUsage db now).usedBytes
  let entry := if cfg.whitelistMode then getWhitelistEntry db account else none
  let whitelisted := if cfg.whitelistMode then some entry.isSome else none
  let pendingCount := getAccountPendingCount db now account
  let feeExempt := entry.any WhitelistedAccount.feeExempt
  match entry.bind WhitelistedAccount.quotaBytes with
  | some cap =>
    let used := (getAccountUsage db now account).usedBytes
    { quotaScope := .perAccount, usedBytes := used, limitBytes := cap,
      availableBytes := cap - used, pendingCount, whitelisted, feeExempt }
  | none =>
    { quotaScope := .sharedDisk, usedBytes := disk, limitBytes := cfg.diskLimitBytes,
      availableBytes := cfg.diskLimitBytes - disk, pendingCount, whitelisted, feeExempt }

def uploadsReply (cfg : Config) (account : Account) (db : Db) (now : Int) : UploadsReply where
  hiveAccount := account
  quota := quotaReply cfg db now account
  isAdmin := cfg.serverAdminHiveAccounts.contains account
  uploads := (listUploadsForAccount db account 500 0).map (uploadItem db)

def uploadsByUser {cfg : Config} (s : Signed) : Handler cfg UploadsReply := do
  let account := cfg.toLowerCase s.hiveAccount
  verifySignedUserRequest account s.ts s.pubkey s.sig
    s!"ipfs-gate:list-uploads:v1:{account}:{tsText s.ts}"
  respond (fun db now => .ok (uploadsReply cfg account db now))

structure ClaimItem where
  claimId : Nat
  orderId : Nat
  cid : Cid
  kind : ClaimKind
  state : ClaimState
  paidHours : Int
  copiesRequested : Int
  sizeMB : Int
  rateLocked : Coins
  amountPaid : Coins
  currency : String
  pledgeOrder : Option Nat
  pledgeBudget : Option Coins
  startTs : Option Int
  expiryTs : Option Int
  createdTs : Option Int

def claimItem (c : Claim) : ClaimItem where
  claimId := c.claimId
  orderId := c.orderId
  cid := c.cid
  kind := c.kind
  state := c.state
  paidHours := c.paidHours
  copiesRequested := c.copiesRequested
  sizeMB := c.sizeMB
  rateLocked := c.rateLocked
  amountPaid := c.amountPaid
  currency := c.currency
  pledgeOrder := c.pledgeOrder
  pledgeBudget := c.pledgeBudget
  startTs := isoFromMs c.startTs
  expiryTs := isoFromMs c.expiryTs
  createdTs := isoFromMs c.createdTs

structure ClaimsReply where
  hiveAccount : Account
  claims : List ClaimItem

def listClaimsForOwner (db : Db) (owner : Account) : List Claim :=
  newestFirst Claim.createdTs (db.claims.filter (fun c => c.owner = owner))

def claimsMine {cfg : Config} (s : Signed) : Handler cfg ClaimsReply := do
  let account := cfg.toLowerCase s.hiveAccount
  verifySignedUserRequest account s.ts s.pubkey s.sig
    s!"ipfs-gate:list-claims:v1:{account}:{tsText s.ts}"
  respond (fun db _ => .ok { hiveAccount := account,
                             claims := (listClaimsForOwner db account).map claimItem })

/-! ## The operator's listings -/

/-- `parseInt` of a parameter, absent when it is no number that the database takes. -/
structure PageRequest where
  limit : Option Int
  offset : Option Int

structure Page where
  limit : Int
  offset : Int

/-- A page is five hundred rows at most. -/
def parsePage (p : PageRequest) : Except Fault Page :=
  match p.limit, p.offset with
  | some limit, some offset => .ok { limit := min limit 500, offset }
  | _, _ => .error ⟨"SQLITE_MISMATCH", "datatype mismatch"⟩

structure AdminUpload where
  pinId : Nat
  cid : Cid
  sizeBytes : Nat
  createdAt : Option Int
  expiresAt : Option Int
  status : PinStatus
  statusReason : Option String
  txId : String
  amount : Coins
  currency : String

structure AdminUploadsReply where
  account : Account
  total : Nat
  page : Page
  uploads : List AdminUpload

def adminUpload (row : UploadRow) : AdminUpload where
  pinId := row.pin.id
  cid := row.pin.cid
  sizeBytes := row.pin.sizeBytes
  createdAt := isoFromMs row.pin.createdAt
  expiresAt := isoFromMs row.pin.expiresAt
  status := row.pin.status
  statusReason := row.pin.statusReason
  txId := row.payment.txId
  amount := row.payment.amount
  currency := row.payment.currency

def adminUploads (cfg : Config) (db : Db) (account : String) (p : PageRequest) :
    Except Fault AdminUploadsReply := do
  let account := cfg.toLowerCase account
  check (account ≠ "") ⟨"bad_request", "account query param required"⟩
  let page ← parsePage p
  return { account, total := db.pins.count (fun p => p.uploader = account), page,
           uploads := (listUploadsForAccount db account page.limit page.offset).map adminUpload }

def listBans (db : Db) : List BannedAccount :=
  newestFirst BannedAccount.bannedAt
    (db.bannedAccounts.rows.filter (fun b => b.unbannedAt.isNone))

structure BanItem where
  hiveAccount : Account
  bannedAt : Option Int
  bannedBy : String
  reason : String
  refundPolicy : RefundPolicy

def adminBans (db : Db) : List BanItem :=
  (listBans db).map (fun b =>
    { hiveAccount := b.hiveAccount, bannedAt := isoFromMs b.bannedAt, bannedBy := b.bannedBy,
      reason := b.reason, refundPolicy := b.refundPolicy })

def listTakedowns (db : Db) : List BlockedCid :=
  newestFirst BlockedCid.blockedAt (db.blockedCids.rows.filter (fun b => b.unblockedAt.isNone))

structure TakedownItem where
  cid : Cid
  blockedAt : Option Int
  blockedBy : String
  reason : String

def adminTakedowns (db : Db) : List TakedownItem :=
  (listTakedowns db).map (fun b =>
    { cid := b.cid, blockedAt := isoFromMs b.blockedAt, blockedBy := b.blockedBy,
      reason := b.reason })

structure LogItem where
  id : Nat
  action : String
  targetType : String
  target : String
  reason : Option String
  adminId : String
  timestamp : Option Int
  metadata : Option LogMetadata

structure LogReply where
  log : List LogItem
  total : Nat
  page : Page

def logItem (r : LogRow) : LogItem where
  id := r.id
  action := r.action
  targetType := r.targetType
  target := r.target
  reason := r.reason
  adminId := r.adminId
  timestamp := isoFromMs r.timestamp
  metadata := r.metadata

def listModerationLog (db : Db) (p : PageRequest) : Except Fault LogReply := do
  let page ← parsePage p
  return { log := (Server.page page.limit page.offset
             (newestFirst LogRow.timestamp db.moderationLog.rows)).map logItem,
           total := db.moderationLog.rows.length, page }

/-- A route of the operator that only reads. -/
def adminView {cfg : Config} {α : Type} (auth : AdminAuth) (f : Db → Int → Except Fault α) :
    Handler cfg α := do
  requireAdmin auth
  respond f

/-! ## GET /admin/whitelist -/

def listWhitelist (db : Db) : List WhitelistedAccount :=
  newestFirst WhitelistedAccount.addedAt
    (db.whitelistedAccounts.rows.filter (fun w => w.removedAt.isNone))

structure WhitelistItem where
  hiveAccount : Account
  addedAt : Option Int
  addedBy : String
  quotaBytes : Option Nat
  feeExempt : Bool
  note : Option String

structure WhitelistReply where
  whitelistMode : Bool
  whitelist : List WhitelistItem

def adminWhitelist {cfg : Config} (auth : AdminAuth) : Handler cfg WhitelistReply := do
  let _ ← verifyAdminAuth auth "whitelist-list" "all"
  respond (fun db _ => .ok
    { whitelistMode := cfg.whitelistMode,
      whitelist := (listWhitelist db).map (fun w =>
        { hiveAccount := w.hiveAccount, addedAt := isoFromMs w.addedAt, addedBy := w.addedBy,
          quotaBytes := w.quotaBytes, feeExempt := w.feeExempt, note := w.note }) })

end IpfsGate.Server
