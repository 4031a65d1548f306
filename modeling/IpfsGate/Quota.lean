import IpfsGate.Pricing
import Mathlib.Data.List.MinMax
import Mathlib.Data.List.Sort

/-!
# Reservations, payments, pins, claims and refunds

The transactions of `quota.js`, each a function of the database and of the clock reading
`t` it takes when it starts. A transaction that throws is rolled back, so an error carries
no database. Rows are listed in rowid order where the source gives no order.
-/
namespace IpfsGate.Quota

open Lib (Number Table)

/-! ## Queries -/

def hasActivePinForCid (db : Db) (cid : Cid) : Bool :=
  db.pins.rows.any (fun p => p.cid = cid && p.status = .active)

def getActivePinsForCid (db : Db) (cid : Cid) : List Pin :=
  db.pins.filter (fun p => p.cid = cid && p.status = .active)

def isAccountBanned (db : Db) (account : Account) : Bool :=
  db.bannedAccounts.any (fun b => b.hiveAccount = account && b.unbannedAt.isNone)

def isCidBlocked (db : Db) (cid : Cid) : Bool :=
  db.blockedCids.any (fun b => b.cid = cid && b.unblockedAt.isNone)

def getWhitelistEntry (db : Db) (account : Account) : Option WhitelistedAccount :=
  db.whitelistedAccounts.find? (fun w => w.hiveAccount = account && w.removedAt.isNone)

def isAccountWhitelisted (db : Db) (account : Account) : Bool :=
  db.whitelistedAccounts.any (fun w => w.hiveAccount = account && w.removedAt.isNone)

structure Usage where
  activeBytes : Nat
  reservedBytes : Nat
deriving DecidableEq

def Usage.usedBytes (u : Usage) : Nat := u.activeBytes + u.reservedBytes

def isPendingAt (t : Int) (r : Reservation) : Bool := r.status = .pending && t < r.expiresAt

def getDiskUsage (db : Db) (t : Int) : Usage where
  activeBytes := ((db.pins.filter (fun p => p.status = .active)).map Pin.sizeBytes).sum
  reservedBytes := ((db.reservations.filter (isPendingAt t)).map Reservation.sizeBytes).sum

def getAccountUsage (db : Db) (t : Int) (account : Account) : Usage where
  activeBytes :=
    ((db.pins.filter (fun p => p.uploader = account && p.status = .active)).map
      Pin.sizeBytes).sum
  reservedBytes :=
    ((db.reservations.filter (fun r => r.uploader = account && isPendingAt t r)).map
      Reservation.sizeBytes).sum

def getAccountPendingCount (db : Db) (t : Int) (uploader : Account) : Nat :=
  db.reservations.count (fun r => r.uploader = uploader && isPendingAt t r)

/-- The membership and per-account quota gate of whitelist mode. -/
def assertWhitelistAllows (cfg : Config) (db : Db) (t : Int) (account : Account)
    (addedBytes : Nat) : Except Fault Unit :=
  if cfg.whitelistMode then
    match getWhitelistEntry db account with
    | none =>
      .error ⟨"forbidden", "this server is invite-only — your account is not whitelisted"⟩
    | some entry =>
      match entry.quotaBytes with
      | none => .ok ()
      | some q =>
        let used := (getAccountUsage db t account).usedBytes
        if 0 < addedBytes ∧ q < used + addedBytes then
          .error ⟨"insufficient_storage",
            s!"per-account quota exceeded ({used} + {addedBytes} > {q} bytes)"⟩
        else .ok ()
  else .ok ()

/-! ## Reservations -/

structure ReservationQuote where
  hoursRequested : Int
  copies : Int
  quotedAmount : Number
deriving DecidableEq

structure Reserved where
  id : Nat
  expiresAt : Int
deriving DecidableEq

/-- A quote that is not finite is stored as an amount of zero. -/
def createReservation (cfg : Config) (db : Db) (t : Int) (uploader : Account)
    (sizeBytes : Nat) (mode : Mode) (quote : ReservationQuote) : Except Fault (Reserved × Db) :=
  if uploader = "" then .error ⟨"bad_request", "uploader required"⟩
  else if sizeBytes = 0 then .error ⟨"bad_request", "size_bytes must be a positive integer"⟩
  else if cfg.maxFileSizeBytes < sizeBytes then
    .error ⟨"payload_too_large", s!"size_bytes exceeds MAX_FILE_SIZE_MB={cfg.maxFileSizeMB}"⟩
  else if isAccountBanned db uploader then .error ⟨"forbidden", "uploader is banned"⟩
  else if cfg.whitelistMode && !isAccountWhitelisted db uploader then
    .error ⟨"forbidden", "this server is invite-only — your account is not whitelisted"⟩
  else if cfg.reservationPerAccountMax ≤ getAccountPendingCount db t uploader then
    .error ⟨"rate_limited",
      s!"per-account pending reservation limit ({cfg.reservationPerAccountMax}) reached"⟩
  else if cfg.diskLimitBytes < (getDiskUsage db t).usedBytes + sizeBytes then
    .error ⟨"insufficient_storage", "insufficient storage available"⟩
  else
    match assertWhitelistAllows cfg db t uploader sizeBytes with
    | .error e => .error e
    | .ok () =>
      let expiresAt := t + cfg.reservationTtlMin * 60 * 1000
      let reservations := db.reservations.insert (fun id =>
        { id, uploader, sizeBytes, createdAt := t, expiresAt, status := .pending,
          paymentTxId := none, pinId := none, mode,
          hoursRequested := quote.hoursRequested, copies := quote.copies,
          quotedAmount := quote.quotedAmount.orZero }) (fun _ => rfl)
      .ok ({ id := db.reservations.next, expiresAt }, { db with reservations })

def getReservation (db : Db) (id : Nat) : Option Reservation := db.reservations.find? id

def markReservationPaid (db : Db) (reservationId : Nat) (txId : String) : Db :=
  { db with
    reservations := db.reservations.update
      (fun r => r.id = reservationId && r.status = .pending)
      (fun r => { r with status := .paid, paymentTxId := some txId }) (fun _ => rfl) }

def markReservationUploaded (db : Db) (reservationId pinId : Nat) : Db :=
  { db with
    reservations := db.reservations.update
      (fun r => r.id = reservationId && r.status = .paid)
      (fun r => { r with status := .uploaded, pinId := some pinId }) (fun _ => rfl) }

def markReservationCancelled (db : Db) (reservationId : Nat) : Db :=
  { db with
    reservations := db.reservations.update
      (fun r => r.id = reservationId && (r.status = .pending || r.status = .paid))
      (fun r => { r with status := .cancelled }) (fun _ => rfl) }

/-! ## Payments -/

structure NewPayment where
  txId : String
  reservationId : Option Nat
  uploader : Account
  currency : String
  amount : Coins
  memo : String
  status : PaymentStatus
deriving DecidableEq

def getPaymentByTxId (db : Db) (txId : String) : Option Payment :=
  db.payments.rows.find? (fun p => p.txId = txId)

/-- The UNIQUE constraint on `tx_id` is the replay guard. -/
def recordPayment (db : Db) (t : Int) (p : NewPayment) : Except Fault (Nat × Db) :=
  if db.payments.rows.any (fun q => q.txId = p.txId) then
    .error ⟨"conflict", "tx_id already used (replay)"⟩
  else
    let payments := db.payments.insert (fun id =>
      { id, txId := p.txId, reservationId := p.reservationId, uploader := p.uploader,
        currency := p.currency, amount := p.amount, memo := p.memo, verifiedAt := t })
      (fun _ => rfl)
    .ok (db.payments.next, { db with payments })

/-- The payments behind a claim: its own and those of its extensions. -/
def getClaimPayments (db : Db) (claim : Claim) : List Payment :=
  db.payments.filter (fun p =>
    p.id = claim.paymentId || p.memo = s!"ipfs-gate:extend:{claim.claimId}")

/-! ## Pins -/

structure NewPin where
  cid : Cid
  uploader : Account
  sizeBytes : Nat
  paymentId : Nat
  expiresAt : Int
  mode : Mode
  mime : Option String
deriving DecidableEq

/-- The row an inserted pin gets. -/
def NewPin.row (p : NewPin) (t : Int) (id : Nat) : Pin :=
  { id, cid := p.cid, uploader := p.uploader, sizeBytes := p.sizeBytes,
    paymentId := p.paymentId, createdAt := t, expiresAt := p.expiresAt, status := .active,
    statusChangedAt := none, statusReason := none, mode := p.mode, mime := p.mime }

def insertPin (db : Db) (t : Int) (p : NewPin) : Db :=
  { db with pins := db.pins.insert (p.row t) (fun _ => rfl) }

structure CreatedPin where
  id : Nat
  expiresAt : Int
deriving DecidableEq

def createPin (db : Db) (t : Int) (p : NewPin) : CreatedPin × Db :=
  ({ id := db.pins.next, expiresAt := p.expiresAt }, insertPin db t p)

/-- `UPDATE pins SET status, status_changed_at, status_reason` on the selected active rows. -/
def endPins (db : Db) (t : Int) (status : PinStatus) (reason : Pin → Option String)
    (select : Pin → Bool) : Db :=
  { db with
    pins := db.pins.update (fun p => select p && p.status = .active)
      (fun p => { p with status, statusChangedAt := some t, statusReason := reason p })
      (fun _ => rfl) }

/-- `UPDATE claims SET state` on the selected rows. -/
def closeClaims (db : Db) (state : ClaimState) (select : Claim → Bool) : Db :=
  { db with
    claims := db.claims.update select (fun c => { c with state }) (fun _ => rfl) }

structure PinInfo where
  sizeBytes : Nat
  mode : Mode
  mime : Option String
deriving DecidableEq

/-- The newest pin row of a CID in any status. SQL leaves the choice among equally new rows
open; this takes the first. -/
def getLatestPinInfoForCid (db : Db) (cid : Cid) : Option PinInfo :=
  -- the order is named, since the search may find one that does not compute
  (@List.argmax Pin Int Int.instLinearOrder.toPreorder Int.decLt Pin.createdAt
    (db.pins.filter (fun p => p.cid = cid))).map
    (fun p => { sizeBytes := p.sizeBytes, mode := p.mode, mime := p.mime })

structure Removed where
  removed : Nat
  fullyUnpinned : Bool
deriving DecidableEq

def removePinForUploader (db : Db) (t : Int) (cid : Cid) (uploader : Account) : Removed × Db :=
  let mine : Pin → Bool := fun p => p.cid = cid && p.uploader = uploader
  let after := endPins db t .expired (fun _ => some "user_deleted") mine
  ({ removed := db.pins.count (fun p => mine p && p.status = .active),
     fullyUnpinned := !hasActivePinForCid after cid }, after)

/-! ## Orders and claims -/

structure NewClaim where
  cid : Cid
  owner : Account
  pinId : Option Nat
  paymentId : Nat
  sizeBytes : Nat
  sizeMB : Int
  rateLocked : Coins
  paidHours : Int
  copies : Int
  amountPaid : Coins
  currency : String
  startTs : Int
  expiryTs : Int
  kind : ClaimKind
  state : ClaimState
  releasePolicy : Option ReleasePolicy
  receiptHash : Option String
deriving DecidableEq

structure CreatedClaim where
  orderId : Nat
  claimId : Nat
  pledgeOrder : Option Nat
deriving DecidableEq

/-- One more than the highest slot ever given to a guardian of the CID, in any state. -/
def nextPledgeOrder (db : Db) (cid : Cid) : Nat :=
  ((db.claims.filter (fun c => c.cid = cid && c.kind = .guardian)).map
    (fun c => c.pledgeOrder.getD 0)).foldr max 0 + 1

/-- The FIFO slot stamped on a guardian; other kinds have none. -/
def pledgeOrderFor (db : Db) (n : NewClaim) : Option Nat :=
  if n.kind = .guardian then some (nextPledgeOrder db n.cid) else none

/-- The row an inserted claim gets. -/
def NewClaim.row (n : NewClaim) (t : Int) (orderId : Nat) (pledgeOrder : Option Nat)
    (claimId : Nat) : Claim :=
  { claimId, orderId, cid := n.cid, owner := n.owner, pinId := n.pinId,
    sizeBytes := n.sizeBytes, sizeMB := n.sizeMB, rateLocked := n.rateLocked,
    paidHours := n.paidHours, copiesRequested := n.copies, kind := n.kind, state := n.state,
    amountPaid := n.amountPaid, currency := n.currency, paymentId := n.paymentId,
    startTs := n.startTs, expiryTs := n.expiryTs, createdTs := t, pledgeOrder,
    pledgeBudget := if n.kind = .guardian then some n.amountPaid else none }

def createOrderWithClaim (db : Db) (t : Int) (n : NewClaim) : CreatedClaim × Db :=
  let orders := db.orders.insert (fun orderId =>
    { orderId, cid := n.cid, owner := n.owner,
      releasePolicy := n.releasePolicy.getD { type := .ownerOnly, addresses := [] },
      receiptHash := n.receiptHash, createdTs := t }) (fun _ => rfl)
  let claims := db.claims.insert (n.row t db.orders.next (pledgeOrderFor db n)) (fun _ => rfl)
  ({ orderId := db.orders.next, claimId := db.claims.next, pledgeOrder := pledgeOrderFor db n },
   { db with orders, claims })

def getClaim (db : Db) (claimId : Nat) : Option Claim := db.claims.find? claimId

def getOrder (db : Db) (orderId : Nat) : Option Order := db.orders.find? orderId

def getActiveClaimForOrder (db : Db) (orderId : Nat) : Option Claim :=
  db.claims.rows.find? (fun c => c.orderId = orderId && c.state = .active)

def getActiveClaimsForCid (db : Db) (cid : Cid) : List Claim :=
  db.claims.filter (fun c => c.cid = cid && c.state = .active)

/-- `COALESCE(pledge_order, 1e18)`. -/
def pledgeSlot (c : Claim) : Nat := c.pledgeOrder.getD (10 ^ 18)

/-- `ORDER BY COALESCE(pledge_order, 1e18), created_ts, rowid`. -/
def QueuesBefore (a b : Claim) : Prop :=
  pledgeSlot a < pledgeSlot b ∨ (pledgeSlot a = pledgeSlot b ∧
    (a.createdTs < b.createdTs ∨ (a.createdTs = b.createdTs ∧ a.claimId ≤ b.claimId)))

instance : DecidableRel QueuesBefore := fun a b => by unfold QueuesBefore; infer_instance

def isDormantGuardian (cid : Cid) (c : Claim) : Bool :=
  c.cid = cid && c.state = .dormant && c.kind = .guardian

def getDormantGuardiansForCid (db : Db) (cid : Cid) : List Claim :=
  (db.claims.filter (isDormantGuardian cid)).insertionSort QueuesBefore

structure Hosted where
  hostedUntil : Int
  activeHosts : Nat
  guardianQueueDepth : Nat
  sizeBytes : Nat
deriving DecidableEq

/-- The "already hosted" snapshot, absent when no active pin remains. -/
def alreadyHostedForCid (db : Db) (cid : Cid) : Option Hosted :=
  match getActivePinsForCid db cid with
  | [] => none
  | p :: rest =>
    some { hostedUntil := rest.foldl (fun m q => max m q.expiresAt) p.expiresAt,
           activeHosts := rest.length + 1,
           guardianQueueDepth := (getDormantGuardiansForCid db cid).length,
           sizeBytes := p.sizeBytes }

structure OwnCopyRequest where
  cid : Cid
  owner : Account
  paymentId : Nat
  paidHours : Int
  copies : Int
  rateLocked : Coins
  amountPaid : Coins
  currency : String
  expiryOverride : Option Int
deriving DecidableEq

structure OwnCopy where
  claimId : Nat
  orderId : Nat
  pinId : Nat
  startTs : Int
  expiryTs : Int
deriving DecidableEq

def OwnCopyRequest.expiryTs (n : OwnCopyRequest) (t : Int) : Int :=
  n.expiryOverride.getD (t + n.paidHours * Pricing.hourMs)

def OwnCopyRequest.pin (n : OwnCopyRequest) (t : Int) (info : PinInfo) : NewPin :=
  { cid := n.cid, uploader := n.owner, sizeBytes := info.sizeBytes, paymentId := n.paymentId,
    expiresAt := n.expiryTs t, mode := info.mode, mime := info.mime }

def OwnCopyRequest.claim (n : OwnCopyRequest) (t : Int) (info : PinInfo) (pinId : Nat) :
    NewClaim :=
  { cid := n.cid, owner := n.owner, pinId := some pinId, paymentId := n.paymentId,
    sizeBytes := info.sizeBytes, sizeMB := max 1 ⌈(info.sizeBytes : ℚ) / 1000000⌉,
    rateLocked := n.rateLocked, paidHours := n.paidHours, copies := n.copies,
    amountPaid := n.amountPaid, currency := n.currency, startTs := t, expiryTs := n.expiryTs t,
    kind := .ownCopy, state := .active, releasePolicy := none, receiptHash := none }

/-- An independent live claim on bytes that are already hosted. -/
def createOwnCopyClaim (db : Db) (t : Int) (n : OwnCopyRequest) : Except Fault (OwnCopy × Db) :=
  match getLatestPinInfoForCid db n.cid with
  | none => .error ⟨"not_found", "CID is not currently hosted here"⟩
  | some info =>
    if !hasActivePinForCid db n.cid then
      .error ⟨"not_found", "CID is not currently hosted here"⟩
    else
      let pinId := db.pins.next
      let withPin := insertPin db t (n.pin t info)
      let (created, after) := createOrderWithClaim withPin t (n.claim t info pinId)
      .ok ({ claimId := created.claimId, orderId := created.orderId, pinId, startTs := t,
             expiryTs := n.expiryTs t }, after)

/-- The claims row after an extension to the given totals. -/
def extendedClaim (claimId : Nat) (paidHours expiryTs : Int) (c : Claim) : Claim :=
  if c.claimId = claimId then { c with paidHours, expiryTs } else c

/-- The pins row after its claim was extended. -/
def extendedPin (pinId : Option Nat) (expiresAt : Int) (p : Pin) : Pin :=
  if pinId = some p.id ∧ p.status = .active then { p with expiresAt } else p

/-- Add hours to an active claim, keeping the linked pin's expiry in lockstep. -/
def extendClaim (db : Db) (claimId : Nat) (owner : Account) (extraHours : Int) :
    Except Fault (Claim × Db) :=
  match getClaim db claimId with
  | none => .error ⟨"not_found", "claim not found"⟩
  | some claim =>
    if claim.owner ≠ owner then .error ⟨"forbidden", "not your claim"⟩
    else if claim.state ≠ .active then
      .error ⟨"conflict", s!"claim is {claim.state.text}, not active"⟩
    else
      let newPaidHours := claim.paidHours + extraHours
      let newExpiry := claim.expiryTs + extraHours * Pricing.hourMs
      let claims := db.claims.update (fun _ => true)
        (extendedClaim claimId newPaidHours newExpiry)
        (fun c => by simp only [extendedClaim]; split <;> rfl)
      let pins := db.pins.update (fun _ => true) (extendedPin claim.pinId newExpiry)
        (fun p => by simp only [extendedPin]; split <;> rfl)
      .ok ({ claim with paidHours := newPaidHours, expiryTs := newExpiry },
           { db with claims, pins })

/-! ## Ending claims -/

/-- The pin of a promoted guardian, with size, mode and mime of the CID's latest pin. -/
def promotedPin (db : Db) (t : Int) (next : Claim) : Pin :=
  let info := (getLatestPinInfoForCid db next.cid).getD
    { sizeBytes := next.sizeBytes, mode := .encrypted, mime := none }
  NewPin.row
    { cid := next.cid, uploader := next.owner, sizeBytes := info.sizeBytes,
      paymentId := next.paymentId, expiresAt := t + next.paidHours * Pricing.hourMs,
      mode := info.mode, mime := info.mime } t db.pins.next

/-- The row a promoted guardian becomes: live from `t`, on the pin about to be inserted. -/
def promotedClaim (db : Db) (t : Int) (next c : Claim) : Claim :=
  { c with state := .active, startTs := t, expiryTs := t + next.paidHours * Pricing.hourMs,
           pinId := some db.pins.next }

def promote (db : Db) (t : Int) (next : Claim) : Db :=
  { db with
    pins := db.pins.insert (fun id => { promotedPin db t next with id }) (fun _ => rfl)
    claims := db.claims.update (fun c => c.claimId = next.claimId && c.state = .dormant)
      (promotedClaim db t next) (fun _ => rfl) }

structure Reconciled where
  unpin : Bool
  activated : Option Nat
deriving DecidableEq

/-- After one of a CID's claims ended: leave it to another host, or promote the head of the
guardian queue, or report it for unpinning. -/
def reconcileCidAfterEnd (db : Db) (t : Int) (cid : Cid) : Reconciled × Db :=
  if hasActivePinForCid db cid then ({ unpin := false, activated := none }, db)
  else
    match getDormantGuardiansForCid db cid with
    | [] => ({ unpin := true, activated := none }, db)
    | next :: _ => ({ unpin := false, activated := some next.claimId }, promote db t next)

structure ReconciledAll where
  activated : List Nat
  cidsToUnpin : List Cid
deriving DecidableEq

/-- The reconcile loop that the sweep and the ban share. -/
def reconcileAll (db : Db) (t : Int) : List Cid → ReconciledAll × Db
  | [] => ({ activated := [], cidsToUnpin := [] }, db)
  | cid :: rest =>
    let (rec, mid) := reconcileCidAfterEnd db t cid
    let (all, after) := reconcileAll mid t rest
    match rec.activated with
    | some g => ({ all with activated := g :: all.activated }, after)
    | none =>
      if rec.unpin then ({ all with cidsToUnpin := cid :: all.cidsToUnpin }, after)
      else (all, after)

structure Ended where
  claim : Claim
  fullyUnpinned : Bool
  activated : Option Nat
  wasDormant : Bool
deriving DecidableEq

/-- Flip a claim to cancelled and expire the pin it was linked to. -/
def endClaim (db : Db) (t : Int) (claim : Claim) (reason : String) : Db :=
  endPins (closeClaims db .cancelled (fun c =>
      c.claimId = claim.claimId && (c.state = .active || c.state = .dormant)))
    t .expired (fun _ => some reason) (fun p => claim.pinId = some p.id)

/-- End an active claim, then pass the baton. -/
def retire (db : Db) (t : Int) (claim : Claim) (reason : String) : Ended × Db :=
  let (rec, after) := reconcileCidAfterEnd (endClaim db t claim reason) t claim.cid
  ({ claim, fullyUnpinned := rec.unpin, activated := rec.activated, wasDormant := false }, after)

def endActiveClaimForRelease (db : Db) (t : Int) (claimId : Nat) : Except Fault (Ended × Db) :=
  match getClaim db claimId with
  | none => .error ⟨"not_found", "claim not found"⟩
  | some claim =>
    if claim.state ≠ .active then
      .error ⟨"conflict", s!"claim is {claim.state.text}, not active"⟩
    else .ok (retire db t claim "released")

/-- `owner` is ignored when `asAdmin`. A dormant guardian holds no pin, so nothing is expired
or reconciled for it. The row was read in the same transaction, so the source's test that the
flip changed a row cannot fail. -/
def cancelClaim (db : Db) (t : Int) (claimId : Nat) (owner : Option Account)
    (asAdmin : Bool) : Except Fault (Ended × Db) :=
  match getClaim db claimId with
  | none => .error ⟨"not_found", "claim not found"⟩
  | some claim =>
    if !asAdmin && owner ≠ some claim.owner then .error ⟨"forbidden", "not your claim"⟩
    else if claim.state = .dormant then
      .ok ({ claim, fullyUnpinned := false, activated := none, wasDormant := true },
        closeClaims db .cancelled (fun c =>
          c.claimId = claimId && (c.state = .active || c.state = .dormant)))
    else if claim.state = .active then .ok (retire db t claim "claim_cancelled")
    else .error ⟨"conflict", s!"claim is {claim.state.text}, cannot cancel"⟩

/-! ## Refund ledger -/

structure NewRefund where
  claimId : Nat
  toAccount : Account
  amount : Coins
  currency : String
  memo : String
  status : RefundStatus
  reason : String
deriving DecidableEq

def recordRefund (db : Db) (t : Int) (n : NewRefund) : Nat × Db :=
  let settledTs := if n.status = .pending then none else some t
  let refunds := db.refunds.insert (fun refundId =>
    { refundId, claimId := n.claimId, toAccount := n.toAccount, amount := n.amount,
      currency := n.currency, memo := n.memo, status := n.status, reason := n.reason,
      txId := none, createdTs := t, settledTs }) (fun _ => rfl)
  (db.refunds.next, { db with refunds })

def markRefundSettled (db : Db) (t : Int) (refundId : Nat) (status : RefundStatus)
    (txId : Option String) : Db :=
  { db with
    refunds := db.refunds.update (fun r => r.refundId = refundId)
      (fun r => { r with status, txId, settledTs := some t }) (fun _ => rfl) }

/-! ## Release consents and receipts -/

/-- One consent per order and releaser. -/
def recordReleaseConsent (cfg : Config) (db : Db) (t : Int) (orderId : Nat)
    (releaser : Account) (sig : String) : Db :=
  let releaser := cfg.toLowerCase releaser
  if db.releaseConsents.any (fun c => c.orderId = orderId && c.releaser = releaser) then db
  else { db with
    releaseConsents := db.releaseConsents ++ [{ orderId, releaser, consentedAt := t, sig }] }

def getReleaseConsents (db : Db) (orderId : Nat) : List Account :=
  (db.releaseConsents.filter (fun c => c.orderId = orderId)).map ReleaseConsent.releaser

/-- One receipt per order and recipient. -/
def recordReceipt (cfg : Config) (db : Db) (t : Int) (orderId : Nat) (recipient : Account)
    (proofHash sig : String) : Db :=
  let recipient := cfg.toLowerCase recipient
  if db.receipts.any (fun r => r.orderId = orderId && r.recipient = recipient) then db
  else { db with
    receipts := db.receipts ++ [{ orderId, recipient, proofHash, receivedAt := t, sig }] }

def getReceipts (db : Db) (orderId : Nat) : List Account :=
  (db.receipts.filter (fun r => r.orderId = orderId)).map Receipt.recipient

/-! ## The sweep -/

structure Swept where
  expiredReservations : Nat
  expiredClaims : Nat
  expiredPins : Nat
  activatedGuardians : Nat
  cidsToUnpin : List Cid
deriving DecidableEq

def isOverdue (t : Int) (c : Claim) : Bool := c.state = .active && c.expiryTs < t

/-- Close the overdue claims and expire their pins, then expire the pins whose own clock ran
out. -/
def expireOverdue (db : Db) (t : Int) : Db :=
  let overdue := db.claims.filter (isOverdue t)
  let closed := closeClaims db .expired (isOverdue t)
  let unpinned := endPins closed t .expired (fun _ => some "claim_expired")
    (fun p => overdue.any (fun c => c.pinId = some p.id))
  endPins unpinned t .expired Pin.statusReason (fun p => p.expiresAt < t)

/-- `SELECT DISTINCT cid FROM pins WHERE status = 'expired' AND status_changed_at = t`. -/
def sweepCandidates (db : Db) (t : Int) : List Cid :=
  ((db.pins.filter (fun p => p.status = .expired && p.statusChangedAt = some t)).map
    Pin.cid).eraseDups

def isLapsed (t : Int) (r : Reservation) : Bool := r.status = .pending && r.expiresAt < t

def expireReservations (db : Db) (t : Int) : Db :=
  { db with
    reservations := db.reservations.update (isLapsed t)
      (fun r => { r with status := .expired }) (fun _ => rfl) }

def sweep (db : Db) (t : Int) : Swept × Db :=
  let overdue := db.claims.filter (isOverdue t)
  let ended := expireOverdue (expireReservations db t) t
  let (all, after) := reconcileAll ended t (sweepCandidates ended t)
  ({ expiredReservations := db.reservations.count (isLapsed t),
     expiredClaims := overdue.length,
     expiredPins := db.pins.count (fun p => p.status = .active && p.expiresAt < t &&
       !overdue.any (fun c => c.pinId = some p.id)),
     activatedGuardians := all.activated.length,
     cidsToUnpin := all.cidsToUnpin }, after)

end IpfsGate.Quota
