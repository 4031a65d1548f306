import IpfsGate.Server.Payments
import IpfsGate.Server.Refunds

/-!
# Requests that put files under hosting

Reserving, uploading, pledging as a guardian, buying an own copy and extending. Each handler
checks first, waits for its payment to be verified, and then writes.
-/
namespace IpfsGate.Server

open Quota Pricing LedgerRun
open Lib (Number Prog)
open Lib.Prog (require liftExcept)

/-- Permanent claims carry a sentinel expiry, which clients see as none. -/
def isoFromMs (ms : Int) : Option Int := if ms = 0 || isPermanent ms then none else some ms

def whitelistFault (who : String) : Fault :=
  ⟨"forbidden", s!"this server is invite-only — {who} is not whitelisted"⟩

def blockedFault : Fault := ⟨"legal_takedown", "this CID is blocked on this server"⟩

/-- Whitelist mode lets members in only. -/
def admits (cfg : Config) (db : Db) (account : Account) : Bool :=
  !cfg.whitelistMode || isAccountWhitelisted db account

/-! ## POST /reserve -/

/-- `mode` is the empty text and the optional numbers are absent when not given. -/
structure ReserveRequest where
  uploader : String
  sizeBytes : Nat
  mode : String
  hoursRequested : Option Number
  copies : Option Number

structure ReserveReply where
  reservationId : Nat
  expiresAt : Option Int
  mode : Mode
  amount : Number
  memo : String
  billableMB : Int
  billableHrs : Int
  copies : Int
  rate : ℚ
  feeExempt : Bool

def parseMode (mode : String) : Option Mode :=
  if mode = "" || mode = "encrypted" then some .encrypted
  else if mode = "public" then some .public
  else none

def memoForReservation (reservationId : Nat) : String := s!"ipfs-gate:upload:{reservationId}"

/-- The rate an account is quoted and charged at. -/
def rateFor (cfg : Config) (feeExempt : Bool) : ℚ := if feeExempt then 0 else cfg.ratePerMBHour

def reserve {cfg : Config} (b : ReserveRequest) : Handler cfg ReserveReply := do
  require (0 < b.sizeBytes)
    ⟨"bad_request", "uploader (string) and size_bytes (positive integer) required"⟩
  require (b.sizeBytes ≤ cfg.maxFileSizeBytes) ⟨"payload_too_large",
    s!"size_bytes ({b.sizeBytes}) exceeds this gate's {cfg.maxFileSizeMB}MB max — do not pay"⟩
  match parseMode b.mode with
  | none => .fail ⟨"bad_request", "mode must be 'encrypted' or 'public'"⟩
  | some mode =>
    let hoursRequested := b.hoursRequested.getD (.fin cfg.defaultHours)
    let copiesRequested := b.copies.getD (.fin 1)
    require (match hoursRequested with | .fin h => 0 < h | _ => false)
      ⟨"bad_request", "hours_requested must be a positive number"⟩
    let uploader := cfg.toLowerCase b.uploader
    let feeExempt ← ask (fun db => (feeExemptEntryFor cfg db uploader).isSome)
    let pricingHours := if cfg.hostingPermanent then .fin cfg.minHours else hoursRequested
    let quote ← liftExcept
      (calculateCost cfg b.sizeBytes pricingHours copiesRequested (rateFor cfg feeExempt))
    let r ← liftExcept (← transact (.createReservation uploader b.sizeBytes mode
      { hoursRequested := quote.billableHrs, copies := quote.copies,
        quotedAmount := quote.total }))
    return { reservationId := r.id, expiresAt := isoFromMs r.expiresAt, mode,
             amount := quote.total, memo := memoForReservation r.id,
             billableMB := quote.billableMB, billableHrs := quote.billableHrs,
             copies := quote.copies, rate := quote.rate, feeExempt }

/-! ## POST /upload -/

/-- A release policy as sent: not JSON, or its type and addresses. -/
inductive PolicyText where
  | malformed
  | parsed (type : String) (addresses : List String)

def parseReleaseType (type : String) : Option ReleaseType :=
  if type = "" || type = "owner_only" then some .ownerOnly
  else if type = "any_of" then some .anyOf
  else if type = "all_of" then some .allOf
  else none

/-- `replace(/^@/, '')`. -/
def dropAt (s : String) : String :=
  match s.toList with
  | '@' :: rest => String.ofList rest
  | _ => s

def normalizeReleasePolicy (cfg : Config) (type : String) (addresses : List String) :
    Except Fault ReleasePolicy :=
  match parseReleaseType type with
  | none =>
    .error ⟨"bad_request", "release_policy.type must be one of owner_only|any_of|all_of"⟩
  | some type =>
    let addresses :=
      ((addresses.map (fun a => dropAt (cfg.toLowerCase a))).eraseDups).filter (· ≠ "")
    if type ≠ .ownerOnly ∧ addresses = [] then
      .error ⟨"bad_request",
        s!"release_policy.type '{type.text}' requires a non-empty addresses list"⟩
    else .ok { type, addresses }

def parsePolicy (cfg : Config) : Option PolicyText → Except Fault (Option ReleasePolicy)
  | none => .ok none
  | some .malformed => .error ⟨"bad_request", "release_policy must be valid JSON"⟩
  | some (.parsed type addresses) => (normalizeReleasePolicy cfg type addresses).map some

/-- `/^[a-f0-9]{64}$/`. -/
def isHexSha256 (s : String) : Bool :=
  s.toList.length = 64 &&
    s.toList.all (fun c => ('a' ≤ c && c ≤ 'f') || ('0' ≤ c && c ≤ '9'))

def parseReceiptHash (cfg : Config) (receiptHash : String) : Except Fault (Option String) :=
  if receiptHash = "" then .ok none
  else if isHexSha256 (cfg.toLowerCase receiptHash) then .ok (some (cfg.toLowerCase receiptHash))
  else .error ⟨"bad_request", "receipt_hash must be a 64-char hex sha256"⟩

/-- One half of `/^[a-z0-9][a-z0-9.+-]*\/[a-z0-9][a-z0-9.+-]*$/`. -/
def isMimePart (part : List Char) : Bool :=
  match part with
  | [] => false
  | c :: rest =>
    isNameChar c && rest.all (fun d => isNameChar d || d = '.' || d = '+' || d = '-')

/-- `MIME_RE`, which ignores the case of letters. -/
def mimeRe (s : String) : Bool :=
  match s.toList.splitOn '/' with
  | [type, subtype] => isMimePart (type.map Char.toLower) && isMimePart (subtype.map Char.toLower)
  | _ => false

def parseMime (cfg : Config) (mode : Mode) (claimed : String) : Except Fault (Option String) :=
  match mode with
  | .encrypted => .ok none
  | .public =>
    if mimeRe claimed && claimed.toList.length ≤ 255 then .ok (some (cfg.toLowerCase claimed))
    else .error ⟨"bad_request", "public upload requires a valid `mime` field"⟩

/-- `file` stands for the uploaded bytes, named by their CID. -/
structure UploadRequest where
  reservationId : Nat
  txId : String
  uploaderPubkey : String
  uploadProofSig : String
  file : Cid
  mime : String
  releasePolicy : Option PolicyText
  receiptHash : String

structure UploadReply where
  cid : Cid
  sizeBytes : Nat
  expiresAt : Option Int
  deduped : Bool
  existingExpiresAt : Option Int
  claimId : Nat
  orderId : Nat
  kind : ClaimKind
  paidHours : Int
  copies : Int
  sizeMB : Int
  rateLocked : Coins
  amountPaid : Coins
  currency : String

def checkReservation (now : Int) (sizeBytes : Nat) (r : Reservation) : Except Fault Unit :=
  if r.status = .expired then .error ⟨"gone", "reservation expired"⟩
  else if r.status ≠ .pending then
    .error ⟨"conflict", s!"reservation is {r.status.text}, expected pending"⟩
  else if r.expiresAt < now then .error ⟨"gone", "reservation expired"⟩
  else if r.sizeBytes < sizeBytes then
    .error ⟨"payload_too_large",
      s!"ciphertext ({sizeBytes}) exceeds reserved size ({r.sizeBytes})"⟩
  else .ok ()

/-- Skipping the payment takes a quote of zero and an entry that is fee-exempt now. -/
def isFeeExemptUpload (cfg : Config) (db : Db) (r : Reservation) : Bool :=
  (feeExemptEntryFor cfg db r.uploader).isSome && r.quotedAmount = 0

def uploadProofMessage (cfg : Config) (file : Cid) (r : Reservation) : String :=
  s!"ipfs-gate:upload-proof:v1:{cfg.sha256Hex file}:{r.id}:{r.uploader}"

/-- `/add` with `pin=true`: the pin happens, if it does, before the response. -/
def pinFile {cfg : Config} (file : Cid) : Handler cfg (Except String Unit) := do
  match ← perform (.kuboAdd file) with
  | true =>
    let _ ← transact (.pinInKubo file)
    perform (.kuboAdded file)
  | false => return .error "Kubo /add failed"

/-- What the checks before the first suspension settle. -/
structure Checked where
  reservation : Reservation
  mime : Option String
  releasePolicy : Option ReleasePolicy
  receiptHash : Option String
  feeExempt : Bool

def checkUpload (cfg : Config) (db : Db) (now : Int) (b : UploadRequest) :
    Except Fault Checked := do
  let sizeBytes := cfg.byteCount b.file
  check (b.uploaderPubkey ≠ "" && b.uploadProofSig ≠ "")
    ⟨"bad_request", "reservation_id, uploader_pubkey, upload_proof_sig all required"⟩
  check (sizeBytes ≤ cfg.maxFileSizeBytes)
    ⟨"payload_too_large", s!"ciphertext exceeds {cfg.maxFileSizeMB}MB"⟩
  match getReservation db b.reservationId with
  | none => .error ⟨"not_found", "reservation not found"⟩
  | some r =>
    checkReservation now sizeBytes r
    let mime ← parseMime cfg r.mode b.mime
    let releasePolicy ← parsePolicy cfg b.releasePolicy
    let receiptHash ← parseReceiptHash cfg b.receiptHash
    check (!isAccountBanned db r.uploader) ⟨"forbidden", "uploader is banned"⟩
    check (admits cfg db r.uploader)
      ⟨"forbidden", "this server is invite-only — uploader is no longer whitelisted"⟩
    let feeExempt := isFeeExemptUpload cfg db r
    check (feeExempt || b.txId ≠ "") ⟨"bad_request", "tx_id required"⟩
    return { reservation := r, mime, releasePolicy, receiptHash, feeExempt }

/-- Verify an upload's transfer; one that the sidechain does not confirm also cancels the
reservation. -/
def verifyTransfer {cfg : Config} (r : Reservation) (txId : String) : Handler cfg Paid := do
  let payResult ← verifyPayment txId r.uploader (memoForReservation r.id) (.fin r.quotedAmount)
  match ← perform (.verifyHiveEngineSidechain txId) with
  | .error e =>
    let _ ← transact (.markReservationCancelled r.id)
    .fail ⟨"unprocessable_entity", s!"Hive-Engine sidechain unreachable: {e}"⟩
  | .ok (.rejected errors) =>
    let _ ← transact (.markReservationCancelled r.id)
    .fail ⟨"unprocessable_entity", "Hive-Engine rejected the transfer: " ++
      (if errors.isEmpty then "sidechain rejected the transfer" else "; ".intercalate errors)⟩
  | .ok .pending =>
    let _ ← transact (.markReservationCancelled r.id)
    .fail ⟨"unprocessable_entity",
      "Hive-Engine sidechain did not confirm the transfer within the retry budget. Try uploading again in ~30s."⟩
  | .ok .confirmed =>
    let _ ← perform (.getHiveEngineBalance cfg.gateAccount cfg.paymentCurrency)
    return payResult

/-- Fee-exempt uploads have no payment to verify. -/
def uploadPayment {cfg : Config} (c : Checked) (txId : String) : Handler cfg Paid :=
  if c.feeExempt then
    return { amount := ⟨0, le_rfl⟩, currency := cfg.paymentCurrency }
  else verifyTransfer c.reservation txId

/-- Without a payment to prove the account, the key must be one of its own. -/
def bindUploaderKey {cfg : Config} (c : Checked) (pubkey : String) : Handler cfg Unit := do
  if c.feeExempt then
    match ← perform (.getAccountPostingPubkeys c.reservation.uploader) with
    | .error e => .fail ⟨"unprocessable_entity", s!"could not verify uploader keys: {e}"⟩
    | .ok postingKeys =>
      require (postingKeys.contains pubkey)
        ⟨"unauthorized", "uploader_pubkey is not a current posting key of this Hive account"⟩
  else return ()

/-- `PRICE_MIN_HOURS` on a permanent gate, else the hours the reservation was quoted for. -/
def uploadHours (cfg : Config) (r : Reservation) : Int :=
  if cfg.hostingPermanent then cfg.minHours
  else if 0 < r.hoursRequested then r.hoursRequested
  else cfg.defaultHours

/-- The synchronous end of an upload whose bytes Kubo has pinned and whose CID is not
blocked. -/
def finishUpload {cfg : Config} (b : UploadRequest) (c : Checked) (paymentId : Nat)
    (paid : Coins) (currency : String) : Handler cfg UploadReply := do
  let r := c.reservation
  let sizeBytes := cfg.byteCount b.file
  let paidHours := uploadHours cfg r
  let copies := cappedCopies cfg (.fin r.copies)
  let sizeMB ← liftExcept (billableMB cfg sizeBytes)
  let rateLocked := rateFor cfg c.feeExempt
  let startTs ← clock
  let out ← transact (.finaliseUpload r.id
    { cid := b.file, owner := r.uploader, paymentId, sizeBytes, sizeMB, mode := r.mode,
      mime := c.mime, rateLocked, paidHours, copies, amountPaid := paid, currency, startTs,
      permanent := cfg.hostingPermanent, releasePolicy := c.releasePolicy,
      receiptHash := c.receiptHash })
  let others ← ask (fun db =>
    ((getActivePinsForCid db b.file).filter (fun p => p.id ≠ out.pin.id)).map Pin.expiresAt)
  return { cid := b.file, sizeBytes, expiresAt := isoFromMs out.pin.expiresAt,
           deduped := !others.isEmpty, existingExpiresAt := others.max?.bind isoFromMs,
           claimId := out.claim.claimId, orderId := out.claim.orderId, kind := out.kind,
           paidHours, copies, sizeMB, rateLocked, amountPaid := paid, currency }

/-- Pay, record, pin and commit, once the checks have passed. -/
def storeUpload {cfg : Config} (b : UploadRequest) (c : Checked) : Handler cfg UploadReply := do
  let r := c.reservation
  match ← perform (.hashFile b.file) with
  | .error e => .fail ⟨"internal_error", e⟩
  | .ok () =>
    require (isAccountName r.uploader)
      ⟨"internal_error", "uploader must be a valid Hive account name"⟩
    require (cfg.verifyHiveSig (uploadProofMessage cfg b.file r) b.uploadProofSig
      b.uploaderPubkey) ⟨"unauthorized", "upload_proof_sig verification failed"⟩
    bindUploaderKey c b.uploaderPubkey
    let effectiveTxId := if c.feeExempt then s!"whitelist-free:upload:{r.id}" else b.txId
    require (← ask (fun db => (getPaymentByTxId db effectiveTxId).isNone))
      ⟨"conflict", "tx_id already used"⟩
    let payResult ← uploadPayment c b.txId
    let paymentId ← liftExcept (← transact (.recordPayment
      { txId := effectiveTxId, reservationId := some r.id, uploader := r.uploader,
        currency := payResult.currency, amount := payResult.amount.value,
        memo := memoForReservation r.id, status := .confirmed }))
    let _ ← transact (.markReservationPaid r.id effectiveTxId)
    match ← pinFile b.file with
    | .error e =>
      let _ ← transact (.markReservationCancelled r.id)
      .fail ⟨"bad_gateway", e⟩
    | .ok () =>
      if ← ask (fun db => isCidBlocked db b.file) then
        let _ ← unpin b.file
        let _ ← transact (.markReservationCancelled r.id)
        .fail blockedFault
      else finishUpload b c paymentId payResult.amount.value payResult.currency

def upload {cfg : Config} (b : UploadRequest) : Handler cfg UploadReply := do
  let now ← clock
  let checked ← ask (fun db => checkUpload cfg db now b)
  let c ← liftExcept checked
  storeUpload b c

/-! ## POST /guardian/pledge, POST /backstop/pledge -/

structure PledgeRequest where
  pledger : String
  cid : Cid
  hoursRequested : Option Number
  copies : Option Number
  txId : String

structure PledgeReply where
  claimId : Nat
  cid : Cid
  pledgedHours : Int
  copies : Int
  pledgeOrder : Option Nat
  pledgeBudget : Coins
  currency : String
  queuePosition : Nat
  queueDepth : Nat

/-- A quote on a CID that is hosted. -/
structure HostedQuote where
  sizeBytes : Nat
  quote : Quote
  feeExempt : Bool

/-- What a pledge and an own copy check before they wait for their payment: who asks, whether
the CID is blocked or hosted, and what it costs. -/
def quoteHosted (cfg : Config) (db : Db) (role : String) (account : Account) (cid : Cid)
    (txId : String) (hours copies : Number) (allows : Nat → Except Fault Unit)
    (notHosted : String) : Except Fault HostedQuote := do
  check (!isAccountBanned db account) ⟨"forbidden", role ++ " is banned"⟩
  check (admits cfg db account) (whitelistFault role)
  check (!isCidBlocked db cid) blockedFault
  let feeExempt := (feeExemptEntryFor cfg db account).isSome
  check (feeExempt || txId ≠ "") ⟨"bad_request", "tx_id required"⟩
  match alreadyHostedForCid db cid with
  | none => .error ⟨"not_found", notHosted⟩
  | some hosted =>
    allows hosted.sizeBytes
    let quote ← calculateCost cfg hosted.sizeBytes hours copies (rateFor cfg feeExempt)
    check (feeExempt || (getPaymentByTxId db txId).isNone) ⟨"conflict", "tx_id already used"⟩
    return { sizeBytes := hosted.sizeBytes, quote, feeExempt }

def guardianPledge {cfg : Config} (memoPurpose : String) (b : PledgeRequest) :
    Handler cfg PledgeReply := do
  require (b.pledger ≠ "" && b.cid ≠ "") ⟨"bad_request", "pledger, cid required"⟩
  let account := cfg.toLowerCase b.pledger
  let quoted ← ask (fun db => quoteHosted cfg db "pledger" account b.cid b.txId
    (b.hoursRequested.getD (.fin cfg.defaultHours)) (b.copies.getD (.fin 1)) (fun _ => .ok ())
    "CID is not currently hosted here — you can only guard a live file")
  let q ← liftExcept quoted
  let now ← clock
  let settled ← verifyOrSkipPayment
    { feeExempt := q.feeExempt, txId := b.txId, sender := account,
      expectedMemo := s!"ipfs-gate:{memoPurpose}:{b.cid}", expectedAmount := q.quote.total,
      syntheticTxId := s!"whitelist-free:{memoPurpose}:{b.cid}:{account}:{now}" }
  let claim ← transact (.pledge
    { cid := b.cid, owner := account, paymentId := settled.paymentId, sizeBytes := q.sizeBytes,
      sizeMB := q.quote.billableMB, rateLocked := rateFor cfg q.feeExempt,
      paidHours := q.quote.billableHrs, copies := q.quote.copies, amountPaid := settled.paid,
      currency := settled.currency })
  let queue ← ask (fun db => (getDormantGuardiansForCid db b.cid).map Claim.claimId)
  return { claimId := claim.claimId, cid := b.cid, pledgedHours := q.quote.billableHrs,
           copies := q.quote.copies, pledgeOrder := claim.pledgeOrder,
           pledgeBudget := settled.paid, currency := settled.currency,
           queuePosition := queue.findIdx (· = claim.claimId) + 1, queueDepth := queue.length }

/-! ## POST /claims/own-copy -/

structure OwnCopyBody where
  owner : String
  cid : Cid
  hoursRequested : Option Number
  copies : Option Number
  txId : String

structure OwnCopyReply where
  claimId : Nat
  orderId : Nat
  cid : Cid
  paidHours : Int
  copies : Int
  expiresAt : Option Int
  amountPaid : Coins
  currency : String

def ownCopy {cfg : Config} (b : OwnCopyBody) : Handler cfg OwnCopyReply := do
  require (b.owner ≠ "" && b.cid ≠ "") ⟨"bad_request", "owner, cid required"⟩
  let account := cfg.toLowerCase b.owner
  let hours := b.hoursRequested.getD (.fin cfg.defaultHours)
  let now ← clock
  let quoted ← ask (fun db => quoteHosted cfg db "owner" account b.cid b.txId
    (if cfg.hostingPermanent then .fin cfg.minHours else hours) (b.copies.getD (.fin 1))
    (fun sizeBytes => assertWhitelistAllows cfg db now account sizeBytes)
    "CID is not currently hosted here — upload it via /reserve + /upload instead")
  let q ← liftExcept quoted
  let settled ← verifyOrSkipPayment
    { feeExempt := q.feeExempt, txId := b.txId, sender := account,
      expectedMemo := s!"ipfs-gate:owncopy:{b.cid}", expectedAmount := q.quote.total,
      syntheticTxId := s!"whitelist-free:owncopy:{b.cid}:{account}:{now}" }
  let claim ← liftExcept (← transact (.createOwnCopyClaim
    { cid := b.cid, owner := account, paymentId := settled.paymentId,
      paidHours := if cfg.hostingPermanent then cfg.minHours else q.quote.billableHrs,
      copies := q.quote.copies, rateLocked := rateFor cfg q.feeExempt,
      amountPaid := settled.paid, currency := settled.currency,
      expiryOverride := if cfg.hostingPermanent then some permanentExpiryTs else none }))
  return { claimId := claim.claimId, orderId := claim.orderId, cid := b.cid,
           paidHours := q.quote.billableHrs, copies := q.quote.copies,
           expiresAt := isoFromMs claim.expiryTs, amountPaid := settled.paid,
           currency := settled.currency }

/-! ## POST /claims/extend -/

structure ExtendRequest where
  claimId : Nat
  extraHours : Number
  txId : String

structure ExtendReply where
  claimId : Nat
  addedHours : Int
  paidHours : Int
  expiresAt : Option Int
  amountPaid : Coins
  currency : String
  feeExempt : Bool

structure ExtendQuote where
  claim : Claim
  cost : Number
  feeExempt : Bool

def checkExtend (cfg : Config) (db : Db) (b : ExtendRequest) (extraHrs : Int) :
    Except Fault ExtendQuote := do
  match getClaim db b.claimId with
  | none => .error ⟨"not_found", "claim not found"⟩
  | some claim =>
    check (claim.state = .active)
      ⟨"conflict", s!"claim is {claim.state.text}; only active claims can be extended"⟩
    check (!isPermanent claim.expiryTs)
      ⟨"conflict", "claim is permanent (hosts until unpinned) — nothing to extend"⟩
    check (!isCidBlocked db claim.cid) blockedFault
    let cost := roundCoinsNum cfg
      ((((Number.fin claim.sizeMB).mul (.fin extraHrs)).mul (.fin claim.rateLocked)).mul
        (.fin claim.copiesRequested))
    let feeExempt := cost = .fin 0 && (feeExemptEntryFor cfg db claim.owner).isSome
    check (feeExempt || b.txId ≠ "") ⟨"bad_request", "tx_id required"⟩
    check (feeExempt || (getPaymentByTxId db b.txId).isNone) ⟨"conflict", "tx_id already used"⟩
    return { claim, cost, feeExempt }

def extend {cfg : Config} (b : ExtendRequest) : Handler cfg ExtendReply := do
  let extraHrs ← liftExcept (billableHours cfg b.extraHours)
  let checked ← ask (fun db => checkExtend cfg db b extraHrs)
  let q ← liftExcept checked
  let memo := s!"ipfs-gate:extend:{b.claimId}"
  if q.feeExempt then
    let now ← clock
    let _ ← liftExcept (← transact (.recordPayment
      { txId := s!"whitelist-free:extend:{b.claimId}:{now}", reservationId := none,
        uploader := q.claim.owner, currency := q.claim.currency, amount := 0, memo,
        status := .confirmed }))
    let updated ← liftExcept (← transact (.extendClaim b.claimId q.claim.owner extraHrs))
    return { claimId := b.claimId, addedHours := extraHrs, paidHours := updated.paidHours,
             expiresAt := isoFromMs updated.expiryTs, amountPaid := 0,
             currency := q.claim.currency, feeExempt := true }
  else
    let payResult ← verifyPayment b.txId q.claim.owner memo q.cost
    confirmOnSidechain b.txId
    let _ ← liftExcept (← transact (.recordPayment
      { txId := b.txId, reservationId := none, uploader := q.claim.owner,
        currency := payResult.currency, amount := payResult.amount.value, memo,
        status := .confirmed }))
    let updated ← liftExcept (← transact (.extendClaim b.claimId q.claim.owner extraHrs))
    return { claimId := b.claimId, addedHours := extraHrs, paidHours := updated.paidHours,
             expiresAt := isoFromMs updated.expiryTs, amountPaid := payResult.amount.value,
             currency := payResult.currency, feeExempt := false }

end IpfsGate.Server
