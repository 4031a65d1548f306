import IpfsGate.Client.PrivateSend
import IpfsGate.Server.Uploadable

/-!
# Uploads from the page

The page reserves, signs the upload proof, pays what it was told to pay and sends the file. It has
paid before the gate looks at the release policy or the media type; everything else that the page
sends is what the gate asks for.
-/
namespace IpfsGate.Client.Paying

open Lib Lib.Prog
open Lib (Number Outside Pool)
open PrivateSend (Session)
open Quota
open Server

/-! ## What the page sends -/

/-- What goes with the bytes: a release policy and the hash of the plaintext, or a media type. -/
inductive Form where
  | «private» (policyType : String) (addresses : List String) (receiptHash : String)
  | «public» (mime : String)

namespace Form

def mode : Form → String
  | .private .. => "encrypted"
  | .public _ => "public"

def mime : Form → String
  | .private .. => ""
  | .public mime => mime

def releasePolicy : Form → Option PolicyText
  | .private type addresses _ => some (.parsed type addresses)
  | .public _ => none

def receiptHash : Form → String
  | .private _ _ hash => hash
  | .public _ => ""

end Form

/-- The body of POST /reserve. -/
def reserveBody (s : Session) (form : Form) (sizeBytes : Nat) (hours copies : Number) :
    ReserveRequest :=
  { uploader := s.username, sizeBytes, mode := form.mode, hoursRequested := some hours,
    copies := some copies }

/-- What the gate tells the page to pay. -/
structure Payment where
  escrowAccount : Account
  amount : Number
  currency : String
  memo : String

/-- A text for a finite amount is read back as that amount. -/
def quantityOf : Number → Option Amount
  | .fin q => if h : 0 ≤ q then some ⟨q, h⟩ else none
  | _ => none

section Page

variable (lower upper : String → String) (s : Session)

/-- The operation that Keychain puts on the chain. -/
def keychainTransferGateToken (p : Payment) : Operation :=
  let sym := upper (if p.currency = "" then "CNOOBS" else p.currency)
  .customJson
    { id := "ssc-mainnet-hive", auths := [s.username],
      actions := some [{ contractName := "tokens", contractAction := "transfer",
                         contractPayload := some { toAccount := p.escrowAccount, symbol := sym,
                                                   quantity := quantityOf p.amount,
                                                   memo := p.memo } }] }

/-- The serial number stands for the sixteen digits of an id. -/
def buildUploadProofMessage (ciphertextSha256Hex : String) (reservationId : Nat)
    (uploader : String) : Except String String :=
  if !isHexSha256 ciphertextSha256Hex then .error "bad ciphertext sha256"
  else
    let u := lower uploader
    if !isAccountName u then .error "bad uploader"
    else .ok s!"ipfs-gate:upload-proof:v1:{ciphertextSha256Hex}:{reservationId}:{u}"

/-- What the page has Keychain broadcast, unless the upload is free, and what it sends then. -/
structure Upload where
  transfer : Option Operation
  request : UploadRequest

/-- The form of POST /upload. -/
def uploadForm (reply : ReserveReply) (file : Cid) (form : Form) (txId uploadProofSig : String) :
    UploadRequest :=
  { reservationId := reply.reservationId, txId, uploaderPubkey := s.pubKey, uploadProofSig, file,
    mime := form.mime, releasePolicy := form.releasePolicy, receiptHash := form.receiptHash }

/-- From the answer to the reservation up to the upload; `txId` is empty when Keychain has not
paid. -/
def upload (p : Payment) (sha256Hex : String) (reply : ReserveReply) (file : Cid) (form : Form)
    (txId : String) : Except String Upload := do
  let proofMsg ← buildUploadProofMessage lower sha256Hex reply.reservationId s.username
  let uploadProofSig := s.signRaw proofMsg
  if uploadProofSig = "" then .error "upload proof signature cancelled"
  else if reply.feeExempt then
    .ok { transfer := none, request := uploadForm s reply file form "" uploadProofSig }
  else if txId = "" then .error "payment cancelled or failed"
  else
    .ok { transfer := some (keychainTransferGateToken upper s
            { p with currency := upper (if p.currency = "" then "CNOOBS" else p.currency) }),
          request := uploadForm s reply file form txId uploadProofSig }

end Page

/-- The payment that a reservation is answered with. -/
def paymentOf (cfg : Config) (reply : ReserveReply) : Payment :=
  { escrowAccount := cfg.gateAccount, amount := reply.amount, currency := cfg.paymentCurrency,
    memo := reply.memo }

/-! ## The payment is found -/

section Paid

variable {cfg : Config} {upper : String → String} {s : Session} {p : Payment} {paid : ℚ}

/-- The gate's account is in lower case, and its currency in upper case. -/
structure Spelled (cfg : Config) (upper : String → String) : Prop where
  account : cfg.toLowerCase cfg.gateAccount = cfg.gateAccount
  currency : upper cfg.paymentCurrency = cfg.paymentCurrency
  named : cfg.paymentCurrency ≠ ""

theorem extract_keychain (p : Payment) :
    extractTokenTransferOp [keychainTransferGateToken upper s p] s.username =
      .ok (some { toAccount := p.escrowAccount,
                  symbol := upper (if p.currency = "" then "CNOOBS" else p.currency),
                  quantity := quantityOf p.amount, memo := p.memo }) := by
  simp [extractTokenTransferOp, keychainTransferGateToken, tokenTransferOf, ssc]

/-- What the page pays for a quote is a payment for whatever costs no more. -/
theorem validate_paid (h : Spelled cfg upper) {amount : Number} {due : ℚ} (memo : String)
    (hamount : amount = .fin paid) (hpaid : 0 ≤ paid) (hdue : due ≤ paid) :
    ∃ settled, validateTransferPayload cfg
      (some { toAccount := cfg.gateAccount, symbol := cfg.paymentCurrency,
              quantity := quantityOf amount, memo }) memo (.fin due) = .ok settled ∧
      settled.amount.value = paid := by
  refine ⟨{ amount := ⟨paid, hpaid⟩, currency := cfg.paymentCurrency }, ?_, rfl⟩
  simp [validateTransferPayload, h.account, hamount, quantityOf, hpaid, covers, hdue]

end Paid

/-! ## The upload is committed -/

/-- The file is served, and hosted for its owner under a claim and an order. -/
structure Hosts (db : Db) (file : Cid) (owner : Account) (out : UploadReply) (paid : ℚ)
    (policy : Option ReleasePolicy) (receiptHash : Option String) : Prop where
  served : hasActivePinForCid db file = true
  allowed : isCidBlocked db file = false
  claim : ∃ c ∈ db.claims, c.claimId = out.claimId ∧ c.orderId = out.orderId ∧ c.cid = file ∧
    c.owner = owner ∧ c.state = .active ∧ c.amountPaid = paid
  order : ∃ ord, getOrder db out.orderId = some ord ∧ ord.cid = file ∧ ord.owner = owner ∧
    ord.releasePolicy = policy.getD { type := .ownerOnly, addresses := [] } ∧
    ord.receiptHash = receiptHash

section Committed

variable {cfg : Config} {o : Outside (machine cfg)} {w : World}

theorem hosts_finalised (id : Nat) (u : LedgerRun.Upload) (out : UploadReply)
    (hallowed : isCidBlocked w.db u.cid = false)
    (hclaim : out.claimId = ((Stmt.finaliseUpload id u).sem cfg w).1.claim.claimId)
    (horder : out.orderId = ((Stmt.finaliseUpload id u).sem cfg w).1.claim.orderId) :
    Hosts ((Stmt.finaliseUpload id u).sem cfg w).2.db u.cid u.owner out u.amountPaid
      u.releasePolicy u.receiptHash where
  served := by
    refine hasActivePinForCid_iff.mpr ⟨u.pin.row w.now w.db.pins.next, ?_, rfl, rfl⟩
    exact mem_insertPin.mpr (Or.inr rfl)
  allowed := hallowed
  claim := by
    refine ⟨newClaimRow (insertPin w.db w.now u.pin) w.now
      (u.claim (alreadyHostedForCid w.db u.cid).isSome w.db.pins.next), ?_, hclaim.symm,
      horder.symm, rfl, rfl, rfl, rfl⟩
    exact mem_createOrderWithClaim.mpr (Or.inr rfl)
  order := by
    rw [horder]
    refine ⟨_, Table.find?_eq_some.mpr ⟨Table.mem_insert.mpr (Or.inr rfl), rfl⟩, rfl, rfl, rfl, rfl⟩

/-- What a successful upload comes to. -/
def Committed (b : UploadRequest) (c : Checked) (paid : ℚ) (sol : Solo (machine cfg) UploadReply) :
    Prop :=
  ∃ out, sol.result = .ok out ∧ Hosts sol.final.db b.file c.reservation.uploader out paid
    c.releasePolicy c.receiptHash

theorem comes_finishUpload {b : UploadRequest} {c : Checked} {paymentId : Nat} {paid : Coins}
    {currency : String} {cs : List Call} (hsize : 0 < cfg.byteCount b.file)
    (hallowed : isCidBlocked w.db b.file = false) :
    (finishUpload b c paymentId paid currency).Comes o (Committed b c paid) cs w := by
  refine comes_liftExcept (fun e he => ?_) (fun sizeMB _ => ?_)
  · rw [Pricing.billableMB, if_neg (Nat.ne_of_gt hsize)] at he
    cases he
  · exact comes_clock (comes_transact (comes_ask
      ⟨_, rfl, @hosts_finalised cfg w _ _ _ hallowed rfl rfl⟩))

/-- Kubo takes the file, and knows how to hash it. -/
structure Stores (o : Outside (machine cfg)) (file : Cid) : Prop where
  hashed : o.answer (.hashFile file) = .ok ()
  added : o.answer (.kuboAdd file) = true
  reported : o.answer (.kuboAdded file) = .ok ()

/-- The transfer is on the chain, and confirmed on the sidechain. -/
structure Moved (o : Outside (machine cfg)) (txId : String) (op : Operation) : Prop where
  found : o.answer (.getTransaction txId) = .ok [op]
  confirmed : o.answer (.verifyHiveEngineSidechain txId) = .ok .confirmed

/-- The transaction id that the payment of an upload is recorded under. -/
def recordedAs (c : Checked) (txId : String) : String :=
  if c.feeExempt then s!"whitelist-free:upload:{c.reservation.id}" else txId

/-- The payment of an upload goes through: it is free, or the transfer is there. -/
def PaidFor (cfg : Config) (o : Outside (machine cfg)) (c : Checked) (txId : String) (paid : ℚ) :
    Prop :=
  (c.feeExempt = true ∧ paid = 0) ∨
    (c.feeExempt = false ∧ ∃ op, Moved o txId op ∧ ∃ payload amount,
      extractTokenTransferOp [op] c.reservation.uploader = .ok payload ∧
      validateTransferPayload cfg payload (memoForReservation c.reservation.id)
        (.fin c.reservation.quotedAmount) = .ok amount ∧ amount.amount.value = paid)

theorem comes_uploadPayment {β : Type} {Q : Solo (machine cfg) β → Prop} {c : Checked}
    {txId : String} {paid : ℚ} {f : Paid → Handler cfg β} {cs : List Call} {w₀ : World}
    (hw : Waited w₀ w) (hpaid : PaidFor cfg o c txId paid)
    (hok : ∀ settled cs w', settled.amount.value = paid → Waited w₀ w' →
      (f settled).Comes o Q cs w') :
    (Prog.bind (uploadPayment c txId) f).Comes o Q cs w := by
  unfold uploadPayment
  rcases hpaid with ⟨hfree, rfl⟩ | ⟨hfree, op, hmoved, payload, amount, hextract, hvalid, hvalue⟩
  · rw [if_pos hfree]
    exact hok _ cs w rfl hw
  · rw [if_neg (by simp [hfree])]
    unfold verifyTransfer verifyPayment
    simp only [Prog.bind_eq, Prog.bind_assoc]
    refine comes_call (fun w₁ hw₁ => ?_)
    rw [hmoved.found]
    simp only [hextract, hvalid, Prog.liftExcept, Prog.ret_bind]
    refine comes_call (fun w₂ hw₂ => ?_)
    rw [hmoved.confirmed]
    refine comes_call (fun w₃ hw₃ => ?_)
    exact hok amount _ w₃ hvalue (((hw.trans hw₁).trans hw₂).trans hw₃)

theorem comes_uploadPaid {b : UploadRequest} {c : Checked} {paid : ℚ} {cs : List Call}
    (hstores : Stores o b.file) (hpaid : PaidFor cfg o c b.txId paid)
    (hsize : 0 < cfg.byteCount b.file) (hallowed : isCidBlocked w.db b.file = false)
    (hfresh : (getPaymentByTxId w.db (recordedAs c b.txId)).isNone = true) :
    (uploadPaid b c).Comes o (Committed b c paid) cs w := by
  unfold uploadPaid
  refine comes_ask (comes_require (fun hno => absurd hfresh (Bool.eq_false_iff.mp hno)) (fun _ => ?_))
  refine comes_uploadPayment (Waited.refl w) hpaid (fun settled cs w₁ hvalue hw₁ => ?_)
  refine comes_record ?_ (fun paymentId payments => ?_)
  · rw [hw₁.db_eq]
    exact hfresh
  · refine comes_transact (comes_call (fun w₂ hw₂ => ?_))
    rw [hstores.added]
    refine comes_transact (comes_call (fun w₃ hw₃ => ?_))
    rw [hstores.reported]
    have hblocked : isCidBlocked w₃.db b.file = false := by
      rw [hw₃.db_eq]
      change isCidBlocked w₂.db b.file = false
      rw [hw₂.db_eq]
      change isCidBlocked w₁.db b.file = false
      rw [hw₁.db_eq]
      exact hallowed
    refine comes_ask ?_
    rw [hblocked, ← hvalue]
    exact comes_finishUpload hsize hblocked

end Committed

/-! ## What the gate makes of the form -/

/-- A policy that names nobody is one for the owner only; a media type is one the gate serves. -/
def Form.Accepted (cfg : Config) : Form → Prop
  | .private type addresses hash =>
    (∃ t, parseReleaseType type = some t ∧
      (t = .ownerOnly ∨ ∃ a ∈ addresses, dropAt (cfg.toLowerCase a) ≠ "")) ∧
      (hash = "" ∨ isHexSha256 (cfg.toLowerCase hash) = true)
  | .public mime => mimeRe mime = true ∧ mime.toList.length ≤ 255

/-- What the checks of an upload read from its form. -/
structure Reads (cfg : Config) (mode : Mode) (form : Form) (mime : Option String)
    (policy : Option ReleasePolicy) (hash : Option String) : Prop where
  mime : parseMime cfg mode form.mime = .ok mime
  policy : parsePolicy cfg form.releasePolicy = .ok policy
  hash : parseReceiptHash cfg form.receiptHash = .ok hash

section Forms

variable {cfg : Config}

theorem normalizes_iff {type : String} {addresses : List String} :
    (∃ p, normalizeReleasePolicy cfg type addresses = .ok p) ↔
      ∃ t, parseReleaseType type = some t ∧
        (t = .ownerOnly ∨ ∃ a ∈ addresses, dropAt (cfg.toLowerCase a) ≠ "") := by
  have hnamed : ((addresses.map (fun a => dropAt (cfg.toLowerCase a))).eraseDups).filter (· ≠ "") = []
      ↔ ¬ ∃ a ∈ addresses, dropAt (cfg.toLowerCase a) ≠ "" := by
    simp [List.filter_eq_nil_iff]
  unfold normalizeReleasePolicy
  cases parseReleaseType type with
  | none => simp
  | some t =>
    by_cases howner : t = .ownerOnly
    · simp [howner]
    · by_cases hsome : ∃ a ∈ addresses, dropAt (cfg.toLowerCase a) ≠ ""
      · simp only [hnamed, hsome]
        simp [howner]
      · simp only [hnamed, hsome]
        simp [howner]

theorem receiptHash_iff {hash : String} : (∃ h, parseReceiptHash cfg hash = .ok h) ↔
    hash = "" ∨ isHexSha256 (cfg.toLowerCase hash) = true := by
  unfold parseReceiptHash
  by_cases hempty : hash = ""
  · simp [hempty]
  · by_cases hhex : isHexSha256 (cfg.toLowerCase hash) = true <;> simp [hempty, hhex]

theorem mime_iff {mime : String} : (∃ m, parseMime cfg .public mime = .ok m) ↔
    mimeRe mime = true ∧ mime.toList.length ≤ 255 := by
  unfold parseMime
  by_cases hmime : mimeRe mime = true ∧ mime.toList.length ≤ 255 <;> simp [hmime]

theorem accepted_iff {form : Form} {mode : Mode} (hmode : parseMode form.mode = some mode) :
    form.Accepted cfg ↔ ∃ mime policy hash, Reads cfg mode form mime policy hash := by
  cases form with
  | «private» type addresses hash =>
    obtain rfl : mode = .encrypted := by
      cases hmode
      rfl
    constructor
    · rintro ⟨hpolicy, hhash⟩
      obtain ⟨p, hp⟩ := normalizes_iff.mpr hpolicy
      obtain ⟨h, hh⟩ := receiptHash_iff.mpr hhash
      exact ⟨none, some p, h, rfl, by simp [Form.releasePolicy, parsePolicy, hp, Except.map], hh⟩
    · rintro ⟨_, policy, h, -, hpolicy, hh⟩
      refine ⟨normalizes_iff.mp ?_, receiptHash_iff.mp ⟨h, hh⟩⟩
      cases hp : normalizeReleasePolicy cfg type addresses with
      | ok p => exact ⟨p, rfl⟩
      | error e =>
        simp [Form.releasePolicy, parsePolicy, hp, Except.map] at hpolicy
  | «public» mime =>
    obtain rfl : mode = .public := by
      cases hmode
      rfl
    constructor
    · intro hmime
      obtain ⟨m, hm⟩ := mime_iff.mpr hmime
      exact ⟨m, none, none, hm, rfl, rfl⟩
    · rintro ⟨m, _, _, hm, -, -⟩
      exact mime_iff.mp ⟨m, hm⟩

end Forms

section Checked

variable {cfg : Config} {o : Outside (machine cfg)} {w : World} {s : Session} {reply : ReserveReply}
  {r : Reservation} {file : Cid} {form : Form} {txId sig : String}

/-- Past the checks of the reservation, the form decides. -/
theorem checkUpload_page (h : Usable cfg w r) (hid : r.id = reply.reservationId)
    (hsize : cfg.byteCount file ≤ r.sizeBytes) (hmax : r.sizeBytes ≤ cfg.maxFileSizeBytes)
    (hpubkey : s.pubKey ≠ "") (hsig : sig ≠ "")
    (htx : isFeeExemptUpload cfg w.db r = true ∨ txId ≠ "") {c : Checked} :
    checkUpload cfg w.db w.now (uploadForm s reply file form txId sig) = .ok c ↔
      Reads cfg r.mode form c.mime c.releasePolicy c.receiptHash ∧ c.reservation = r ∧
        c.feeExempt = isFeeExemptUpload cfg w.db r := by
  have hchecked : checkReservation w.now (cfg.byteCount file) r = .ok () := by
    unfold checkReservation
    rw [if_neg (by rw [h.pending]; decide), if_neg (not_not_intro h.pending),
      if_neg (by have := h.unexpired; omega), if_neg (by omega)]
  have hsent : (s.pubKey ≠ "" && sig ≠ "") = true := by simp [hpubkey, hsig]
  have hpaid : (isFeeExemptUpload cfg w.db r || txId ≠ "") = true := by
    rcases htx with htx | htx <;> simp [htx]
  have hfound : getReservation w.db reply.reservationId = some r := hid ▸ h.found
  unfold checkUpload uploadForm
  simp only [hsent, hfound, hchecked, h.unbanned, h.admitted, hpaid, check,
    Nat.le_trans hsize hmax, decide_true, if_true, Bool.not_false]
  constructor
  · intro hc
    obtain ⟨_, _, hc⟩ := ok_of_bind hc
    obtain ⟨_, _, hc⟩ := ok_of_bind hc
    obtain ⟨_, _, hc⟩ := ok_of_bind hc
    obtain ⟨mime, hmime, hc⟩ := ok_of_bind hc
    obtain ⟨policy, hpolicy, hc⟩ := ok_of_bind hc
    obtain ⟨hash, hhash, hc⟩ := ok_of_bind hc
    cases hc
    exact ⟨⟨hmime, hpolicy, hhash⟩, rfl, rfl⟩
  · rintro ⟨⟨hmime, hpolicy, hhash⟩, hr, hfree⟩
    simp only [hmime, hpolicy, hhash]
    subst hr
    rw [← hfree]
    rfl

end Checked

/-! ## The answer to the reservation -/

section Answered

variable {cfg : Config} {b : ReserveRequest} {reply : ReserveReply}

theorem total_value {sizeBytes : Nat} {hours copies : Number} {rate x : ℚ} {q : Pricing.Quote}
    (h : Pricing.calculateCost cfg sizeBytes hours copies rate = .ok q) (hx : q.total = .fin x) :
    x = Pricing.roundCoins cfg (q.billableMB * q.billableHrs * rate * q.copies) := by
  obtain ⟨-, -, -, htotal⟩ := calculateCost_ok h
  rw [htotal] at hx
  cases hproduct : (((Number.fin q.billableMB).mul (.fin q.billableHrs)).mul (.fin rate)).mul
      (.fin q.copies) with
  | fin r =>
    rw [hproduct] at hx
    rw [← Number.product_eq hproduct]
    exact (Number.fin.inj hx).symm
  | _ =>
    rw [hproduct] at hx
    cases hx

/-- What is quoted is not negative, and nothing where nothing is charged. -/
theorem total_nonneg {sizeBytes : Nat} {hours copies : Number} {rate x : ℚ} {q : Pricing.Quote}
    (hrate : 0 ≤ rate) (h : Pricing.calculateCost cfg sizeBytes hours copies rate = .ok q)
    (hx : q.total = .fin x) : 0 ≤ x ∧ (rate = 0 → x = 0) := by
  obtain ⟨hmb, hhrs, hcps, -⟩ := calculateCost_ok h
  have hmb0 : (0 : ℚ) ≤ q.billableMB := by
    exact_mod_cast Int.le_trans Int.one_nonneg (Pricing.billableMB_ok hmb).2
  have hhrs0 : (0 : ℚ) ≤ q.billableHrs := by
    exact_mod_cast Int.le_trans Int.one_nonneg (Pricing.billableHours_ok hhrs)
  have hcps0 : (0 : ℚ) ≤ q.copies := by
    rw [hcps]
    exact_mod_cast Int.le_trans Int.one_nonneg (Pricing.cappedCopies_range cfg _).1
  rw [total_value h hx]
  constructor
  · exact Lib.roundTo_nonneg _ (by positivity)
  · rintro rfl
    simp

/-- The rest of the answer that the page uses. -/
theorem reserve_answers (b : ReserveRequest) (w : World) :
    (reserve b : Handler cfg ReserveReply).Turns (M := machine cfg)
      (fun stop _ => ∀ reply, stop = .finished (.ok reply) → 0 < b.sizeBytes ∧
        parseMode b.mode = some reply.mode ∧ reply.memo = memoForReservation reply.reservationId)
      w := by
  have hrefused : ∀ {e : Fault} reply,
      (Stop.finished (.error e) : Stop (machine cfg) ReserveReply) = .finished (.ok reply) →
        0 < b.sizeBytes ∧ parseMode b.mode = some reply.mode ∧
          reply.memo = memoForReservation reply.reservationId := by
    intro e reply h
    cases h
  unfold reserve
  refine turns_require (fun _ => hrefused) (fun hsize => ?_)
  refine turns_require (fun _ => hrefused) (fun _ => ?_)
  split
  · exact hrefused
  · next mode hmode =>
    refine turns_require (fun _ => hrefused) (fun _ => ?_)
    refine turns_liftExcept (fun _ _ => hrefused) (fun q _ => ?_)
    refine turns_liftExcept (fun _ _ => hrefused) (fun out _ => ?_)
    intro reply hreply
    cases hreply
    exact ⟨of_decide_eq_true hsize, hmode, rfl⟩

/-- A reservation at any later time: its row, and the price that it holds. -/
theorem row_of_reply {S : Gate cfg} (h : reserveReply S b = some reply)
    (later : List (GateEvent cfg)) {w : World}
    (hw : w = (S.run (handle cfg) (.spawn (.reserve b) :: later)).world) :
    ∃ r ∈ w.db.reservations, ReservedFor cfg b reply r ∧ r.sizeBytes ≤ cfg.maxFileSizeBytes ∧
      r.quotedAmount = reply.amount.orZero := by
  obtain ⟨hmax, r, hr, hfor⟩ := reservedFor_run h later
  obtain ⟨q, hq⟩ := reserves_of_reply h
  have hprice := minimumPayment_run (S := S.step (handle cfg) (.spawn (.reserve b))) hq.row later
  have hrun : w = ((S.step (handle cfg) (.spawn (.reserve b))).run (handle cfg) later).world := hw
  rw [← hw] at hr
  rw [← hrun] at hprice
  have hfound : getReservation w.db reply.reservationId = some r :=
    Table.find?_eq_some.mpr ⟨hr, hfor.id⟩
  refine ⟨r, hr, hfor, hfor.sizeBytes ▸ hmax, ?_⟩
  rw [minimumPayment, hfound] at hprice
  rw [hq.amount]
  exact Number.fin.inj (Option.some.inj hprice)

/-- The price of an answer is what the computed quote says. -/
theorem amount_of_reply {S : Gate cfg} (h : reserveReply S b = some reply)
    (hfinite : reply.amount.isFinite = true) :
    reply.amount = .fin reply.amount.orZero ∧ 0 ≤ reply.amount.orZero ∧
      (reply.feeExempt = true → reply.amount.orZero = 0) := by
  obtain ⟨q, hq⟩ := reserves_of_reply h
  have hfin : reply.amount = .fin reply.amount.orZero := (Number.fin_orZero_iff.mpr hfinite).symm
  obtain ⟨hnonneg, hfree⟩ := total_nonneg (rateFor_nonneg reply.feeExempt) hq.cost
    (hq.amount.symm.trans hfin)
  exact ⟨hfin, hnonneg, fun hexempt => hfree (by rw [hexempt]; rfl)⟩

end Answered

/-! ## The page's upload -/

section Landing

variable {cfg : Config} {o : Outside (machine cfg)} {w : World} {s : Session}
  {upper : String → String} {reply : ReserveReply} {file : Cid} {form : Form} {txId : String}
  {u : Upload}

/-- The session signs with a key of its account, which has an account name in lower case. -/
structure Signs (cfg : Config) (o : Outside (machine cfg)) (s : Session) : Prop where
  named : isAccountName s.username = true
  lowerCase : cfg.toLowerCase s.username = s.username
  keyed : s.pubKey ≠ ""
  verified : ∀ m, s.signRaw m ≠ "" → cfg.verifyHiveSig m (s.signRaw m) s.pubKey = true
  keys : ∃ keys, o.answer (.getAccountPostingPubkeys s.username) = .ok keys ∧
    keys.contains s.pubKey = true

/-- The page's upload: its proof is the one the gate asks for, and it is paid unless it is free. -/
structure Prepared (cfg : Config) (upper : String → String) (s : Session) (reply : ReserveReply)
    (file : Cid) (form : Form) (txId : String) (u : Upload) : Prop where
  signed : ∃ sig, sig ≠ "" ∧
    sig = s.signRaw s!"ipfs-gate:upload-proof:v1:{cfg.sha256Hex file}:{reply.reservationId}:{s.username}" ∧
    u.request = uploadForm s reply file form (if reply.feeExempt then "" else txId) sig
  transfer : reply.feeExempt = false → txId ≠ "" ∧
    u.transfer = some (keychainTransferGateToken upper s (paymentOf cfg reply))

theorem prepared_of_upload (hsigns : Signs cfg o s) (hspelled : Spelled cfg upper)
    (h : upload cfg.toLowerCase upper s (paymentOf cfg reply) (cfg.sha256Hex file) reply file form
      txId = .ok u) : Prepared cfg upper s reply file form txId u := by
  unfold upload at h
  have hproof : ∀ m, buildUploadProofMessage cfg.toLowerCase (cfg.sha256Hex file)
      reply.reservationId s.username = .ok m → m =
      s!"ipfs-gate:upload-proof:v1:{cfg.sha256Hex file}:{reply.reservationId}:{s.username}" := by
    intro m hm
    unfold buildUploadProofMessage at hm
    split at hm
    · cases hm
    · dsimp only at hm
      rw [hsigns.lowerCase, hsigns.named] at hm
      cases hm
      rfl
  have hcurrency : upper (if cfg.paymentCurrency = "" then "CNOOBS" else cfg.paymentCurrency) =
      cfg.paymentCurrency := by
    rw [if_neg hspelled.named, hspelled.currency]
  cases hm : buildUploadProofMessage cfg.toLowerCase (cfg.sha256Hex file) reply.reservationId
      s.username with
  | error e =>
    rw [hm] at h
    cases h
  | ok m =>
    rw [hm] at h
    obtain rfl := hproof m hm
    simp only [Bind.bind, Except.bind] at h
    split at h
    · cases h
    · next hsig =>
      split at h
      · next hfree =>
        cases h
        exact ⟨⟨_, hsig, rfl, by rw [if_pos hfree]⟩, fun hno => by rw [hfree] at hno; cases hno⟩
      · next hfree =>
        split at h
        · cases h
        · next htx =>
          cases h
          exact ⟨⟨_, hsig, rfl, by rw [if_neg hfree]⟩, fun _ => ⟨htx, congrArg (fun c =>
            some (keychainTransferGateToken upper s { paymentOf cfg reply with currency := c }))
            hcurrency⟩⟩

/-- What the page pays is what the gate looks for. -/
theorem paidFor_page (hspelled : Spelled cfg upper) (hp : Prepared cfg upper s reply file form txId u)
    {c : Checked} (hid : c.reservation.id = reply.reservationId)
    (huploader : c.reservation.uploader = s.username)
    (hquoted : c.reservation.quotedAmount = reply.amount.orZero)
    (hamount : reply.amount = .fin reply.amount.orZero) (hnonneg : 0 ≤ reply.amount.orZero)
    (hmemo : reply.memo = memoForReservation reply.reservationId)
    (hfree : c.feeExempt = true → c.reservation.quotedAmount = 0)
    (hcharged : c.feeExempt = false → reply.feeExempt = false)
    (hmoved : ∀ op, u.transfer = some op → Moved o txId op) :
    PaidFor cfg o c u.request.txId reply.amount.orZero := by
  obtain ⟨sig, -, -, hrequest⟩ := hp.signed
  cases hexempt : c.feeExempt with
  | true => exact Or.inl ⟨hexempt, by rw [← hquoted, hfree hexempt]⟩
  | false =>
    have hpays := hcharged hexempt
    obtain ⟨-, htransfer⟩ := hp.transfer hpays
    have htx : u.request.txId = txId := by
      rw [hrequest, hpays]
      rfl
    have hsymbol : upper (if (paymentOf cfg reply).currency = "" then "CNOOBS" else
        (paymentOf cfg reply).currency) = cfg.paymentCurrency :=
      (congrArg upper (if_neg hspelled.named)).trans hspelled.currency
    have hextract := huploader ▸ @extract_keychain upper s (paymentOf cfg reply)
    rw [hsymbol] at hextract
    obtain ⟨settled, hvalid, hvalue⟩ :=
      validate_paid hspelled reply.memo hamount hnonneg (le_refl reply.amount.orZero)
    rw [← hquoted] at hvalid
    rw [hmemo, ← hid] at hvalid
    have hpayload : (paymentOf cfg reply).memo = memoForReservation c.reservation.id :=
      hmemo.trans (by rw [hid])
    rw [hpayload] at hextract
    exact Or.inr ⟨hexempt, _, htx ▸ hmoved _ htransfer, _, settled, hextract, hvalid, hvalue⟩

/-- The checks before the payment, passed. -/
theorem comes_uploadChecks {β : Type} {Q : Solo (machine cfg) β → Prop} {b : UploadRequest}
    {c : Checked} {f : Checked → Handler cfg β} (hsigns : Signs cfg o s)
    (hc : checkUpload cfg w.db w.now b = .ok c) (hhash : o.answer (.hashFile b.file) = .ok ())
    (huploader : c.reservation.uploader = s.username) (hkey : b.uploaderPubkey = s.pubKey)
    (hverify : cfg.verifyHiveSig (uploadProofMessage cfg b.file c.reservation) b.uploadProofSig
      b.uploaderPubkey = true)
    (hok : ∀ cs w', Waited w w' → (f c).Comes o Q cs w') :
    ((uploadChecks b).bind f).Comes o Q [] w := by
  unfold uploadChecks
  simp only [Prog.bind_eq, Prog.bind_assoc]
  refine comes_clock (comes_ask ?_)
  rw [hc]
  refine comes_call (fun w₁ hw₁ => ?_)
  rw [hhash]
  have hname : isAccountName c.reservation.uploader = true := huploader ▸ hsigns.named
  simp only [Prog.bind_assoc]
  refine comes_require (fun hno => absurd hname (Bool.eq_false_iff.mp hno)) (fun _ => ?_)
  refine comes_require (fun hno => absurd hverify (Bool.eq_false_iff.mp hno)) (fun _ => ?_)
  unfold bindUploaderKey
  by_cases hfee : c.feeExempt = true
  · obtain ⟨keys, hkeys, hcontains⟩ := hsigns.keys
    rw [if_pos hfee]
    simp only [Prog.bind_eq, Prog.bind_assoc]
    refine comes_call (fun w₂ hw₂ => ?_)
    rw [huploader, hkeys]
    refine comes_require (fun hno => absurd hcontains (Bool.eq_false_iff.mp (hkey ▸ hno)))
      (fun _ => ?_)
    exact hok _ w₂ (hw₁.trans hw₂)
  · rw [if_neg hfee]
    exact hok _ w₁ hw₁

/-- An upload that is answered has passed its checks. -/
theorem checked_of_result {b : UploadRequest} {out : UploadReply}
    (h : (lone cfg o (.upload b) w).result = .ok (.upload out)) :
    ∃ c, checkUpload cfg w.db w.now b = .ok c := by
  have hcomes : (Server.upload b : Handler cfg UploadReply).Comes o
      (fun sol => ∀ out, sol.result = .ok out → ∃ c, checkUpload cfg w.db w.now b = .ok c) [] w := by
    refine comes_clock (comes_ask (comes_liftExcept (fun e _ out hout => ?_) (fun c hc => ?_)))
    · cases hout
    · exact Comes.mono (Q := fun _ => True) trivial (fun _ _ _ _ => ⟨c, hc⟩)
  have hmapped : (handle cfg (.upload b)).Comes o (fun sol => ∀ out, sol.result = .ok (.upload out) →
      ∃ c, checkUpload cfg w.db w.now b = .ok c) [] w := by
    refine comes_map (hcomes.mono (fun sol hsol out hout => ?_))
    cases hresult : sol.result with
    | error e =>
      rw [hresult] at hout
      cases hout
    | ok reply => exact hsol reply hresult
  exact hmapped out h

/-- The row of the reservation at the page's upload, and what the page has of the answer. -/
structure Held (cfg : Config) (s : Session) (form : Form) (file : Cid) (reply : ReserveReply)
    (r : Reservation) : Prop where
  id : r.id = reply.reservationId
  uploader : r.uploader = s.username
  sizeBytes : r.sizeBytes = cfg.byteCount file
  nonempty : 0 < cfg.byteCount file
  max : r.sizeBytes ≤ cfg.maxFileSizeBytes
  mode : parseMode form.mode = some r.mode
  memo : reply.memo = memoForReservation reply.reservationId
  quoted : r.quotedAmount = reply.amount.orZero
  amount : reply.amount = .fin reply.amount.orZero
  nonneg : 0 ≤ reply.amount.orZero
  free : reply.feeExempt = true → reply.amount.orZero = 0

theorem held_of_reply {S : Gate cfg} {hours copies : Number}
    (haccepts : reserveReply S (reserveBody s form (cfg.byteCount file) hours copies) = some reply)
    (hfinite : reply.amount.isFinite = true) (later : List (GateEvent cfg))
    (hlater : w = (S.run (handle cfg)
      (.spawn (.reserve (reserveBody s form (cfg.byteCount file) hours copies)) :: later)).world)
    (hlower : cfg.toLowerCase s.username = s.username) :
    ∃ r ∈ w.db.reservations, Held cfg s form file reply r := by
  obtain ⟨r, hr, hfor, hmax, hquoted⟩ := row_of_reply haccepts later hlater
  obtain ⟨hamount, hnonneg, hzero⟩ := amount_of_reply haccepts hfinite
  obtain ⟨hsize, hmode, hmemo⟩ := of_reserveReply
    (Q := fun reply _ => 0 < cfg.byteCount file ∧ parseMode form.mode = some reply.mode ∧
      reply.memo = memoForReservation reply.reservationId) (reserve_answers
      (reserveBody s form (cfg.byteCount file) hours copies) S.world) haccepts
  exact ⟨r, hr, hfor.id, hfor.uploader.trans hlower, hfor.sizeBytes, hsize, hmax,
    hfor.mode ▸ hmode, hmemo, hquoted, hamount, hnonneg, hzero⟩

section Stages

variable {r : Reservation} {c : Checked}

/-- What was free is free at the upload, if the account is still exempt. -/
theorem Held.exempt (h : Held cfg s form file reply r)
    (hexempt : reply.feeExempt = true → (feeExemptEntryFor cfg w.db s.username).isSome = true)
    (hfree : reply.feeExempt = true) : isFeeExemptUpload cfg w.db r = true := by
  simp [isFeeExemptUpload, h.uploader, hexempt hfree, h.quoted, h.free hfree]

/-- What is charged at the upload was charged in the answer. -/
theorem Held.charged (h : Held cfg s form file reply r)
    (hexempt : reply.feeExempt = true → (feeExemptEntryFor cfg w.db s.username).isSome = true)
    (hcharged : isFeeExemptUpload cfg w.db r = false) : reply.feeExempt = false := by
  cases hfree : reply.feeExempt with
  | false => rfl
  | true =>
    rw [h.exempt hexempt hfree] at hcharged
    cases hcharged

/-- The form alone decides whether the checks pass. -/
theorem Held.checks (h : Held cfg s form file reply r) (hgood : Usable cfg w r)
    (hsigns : Signs cfg o s) (hp : Prepared cfg upper s reply file form txId u)
    (hexempt : reply.feeExempt = true → (feeExemptEntryFor cfg w.db s.username).isSome = true) :
    checkUpload cfg w.db w.now u.request = .ok c ↔
      Reads cfg r.mode form c.mime c.releasePolicy c.receiptHash ∧ c.reservation = r ∧
        c.feeExempt = isFeeExemptUpload cfg w.db r := by
  obtain ⟨sig, hsig, -, hrequest⟩ := hp.signed
  have htx : isFeeExemptUpload cfg w.db r = true ∨
      (if reply.feeExempt then "" else txId) ≠ "" := by
    cases hfree : reply.feeExempt with
    | true => exact Or.inl (h.exempt hexempt hfree)
    | false => exact Or.inr (hp.transfer hfree).1
  rw [hrequest]
  exact checkUpload_page hgood h.id h.sizeBytes.ge h.max hsigns.keyed hsig htx

/-- The page has paid what the gate asks for. -/
theorem Held.paid (h : Held cfg s form file reply c.reservation) (hspelled : Spelled cfg upper)
    (hp : Prepared cfg upper s reply file form txId u)
    (hmoved : ∀ op, u.transfer = some op → Moved o txId op)
    (hexempt : reply.feeExempt = true → (feeExemptEntryFor cfg w.db s.username).isSome = true)
    (hexempted : c.feeExempt = isFeeExemptUpload cfg w.db c.reservation) :
    PaidFor cfg o c u.request.txId reply.amount.orZero := by
  refine paidFor_page hspelled hp h.id h.uploader h.quoted h.amount h.nonneg h.memo ?_ ?_ hmoved
  · intro hfree
    rw [hexempted] at hfree
    simp only [isFeeExemptUpload, Bool.and_eq_true, decide_eq_true_eq] at hfree
    exact hfree.2
  · exact fun hcharged => h.charged hexempt (hexempted.symm.trans hcharged)

/-- The page has signed what the gate verifies. -/
theorem Held.verified (h : Held cfg s form file reply r) (hsigns : Signs cfg o s)
    (hp : Prepared cfg upper s reply file form txId u) :
    u.request.file = file ∧ u.request.uploaderPubkey = s.pubKey ∧
      cfg.verifyHiveSig (uploadProofMessage cfg u.request.file r) u.request.uploadProofSig
        u.request.uploaderPubkey = true := by
  obtain ⟨sig, hsig, hsigned, hrequest⟩ := hp.signed
  have hmessage : uploadProofMessage cfg file r =
      s!"ipfs-gate:upload-proof:v1:{cfg.sha256Hex file}:{reply.reservationId}:{s.username}" := by
    unfold uploadProofMessage
    rw [h.id, h.uploader]
  rw [hrequest]
  refine ⟨rfl, rfl, ?_⟩
  show cfg.verifyHiveSig (uploadProofMessage cfg file r) sig s.pubKey = true
  rw [hmessage, hsigned]
  exact hsigns.verified _ (hsigned ▸ hsig)

/-- A page's upload on its own, its checks passed, ends with the file hosted. -/
theorem Held.lands (h : Held cfg s form file reply c.reservation) (hspelled : Spelled cfg upper)
    (hsigns : Signs cfg o s) (hp : Prepared cfg upper s reply file form txId u)
    (hmoved : ∀ op, u.transfer = some op → Moved o txId op)
    (hexempt : reply.feeExempt = true → (feeExemptEntryFor cfg w.db s.username).isSome = true)
    (hfresh : ∀ recorded ∈ [s!"whitelist-free:upload:{reply.reservationId}", u.request.txId],
      (getPaymentByTxId w.db recorded).isNone = true)
    (hstores : Stores o file) (hallowed : isCidBlocked w.db file = false)
    (hc : checkUpload cfg w.db w.now u.request = .ok c)
    (hexempted : c.feeExempt = isFeeExemptUpload cfg w.db c.reservation) :
    ∃ out, (lone cfg o (.upload u.request) w).result = .ok (.upload out) ∧
      Hosts (lone cfg o (.upload u.request) w).final.db file s.username out reply.amount.orZero
        c.releasePolicy c.receiptHash := by
  obtain ⟨hfile, hkey, hverify⟩ := h.verified hsigns hp
  have hpaid := h.paid hspelled hp hmoved hexempt hexempted
  have hrecorded : (getPaymentByTxId w.db (recordedAs c u.request.txId)).isNone = true := by
    apply hfresh
    unfold recordedAs
    split
    · simp [h.id]
    · simp
  have hcomes : (Server.upload u.request : Handler cfg UploadReply).Comes o
      (Committed u.request c reply.amount.orZero) [] w := by
    rw [upload_eq]
    refine comes_uploadChecks hsigns hc (hfile ▸ hstores.hashed) h.uploader hkey hverify
      (fun cs w' hw' => ?_)
    refine comes_uploadPaid (hfile ▸ hstores) hpaid (hfile ▸ h.nonempty) ?_ ?_
    · rw [hw'.db_eq, hfile]
      exact hallowed
    · rw [hw'.db_eq]
      exact hrecorded
  have hlone : (handle cfg (.upload u.request)).Comes o (fun sol => ∃ out,
      sol.result = .ok (.upload out) ∧ Hosts sol.final.db file s.username out
        reply.amount.orZero c.releasePolicy c.receiptHash) [] w := by
    refine comes_map (hcomes.mono (fun sol hsol => ?_))
    obtain ⟨out, hout, hhosts⟩ := hsol
    rw [hfile, h.uploader] at hhosts
    refine ⟨out, ?_, hhosts⟩
    rw [hout]
    rfl
  exact hlone

end Stages

end Landing

/-- While its reservation is good, its transfer arrived and Kubo works, a page's upload on its own
is answered exactly if the gate takes its form; the file is then hosted at the quoted price. -/
theorem page_upload_lands (cfg : Config) (o : Outside (machine cfg)) (S : Gate cfg) (s : Session)
    (form : Form) (file : Cid) (hours copies : Number) (reply : ReserveReply)
    (haccepts : reserveReply S (reserveBody s form (cfg.byteCount file) hours copies) = some reply)
    (hfinite : reply.amount.isFinite = true) (later : List (GateEvent cfg)) (w : World)
    (hlater : w = (S.run (handle cfg)
      (.spawn (.reserve (reserveBody s form (cfg.byteCount file) hours copies)) :: later)).world)
    (husable : ∀ r ∈ w.db.reservations, r.id = reply.reservationId → Usable cfg w r)
    (upper : String → String) (hspelled : Spelled cfg upper) (hsigns : Signs cfg o s)
    (txId : String) (u : Upload)
    (hu : upload cfg.toLowerCase upper s (paymentOf cfg reply) (cfg.sha256Hex file) reply file form
      txId = .ok u)
    (hmoved : ∀ op, u.transfer = some op → Moved o txId op)
    (hexempt : reply.feeExempt = true → (feeExemptEntryFor cfg w.db s.username).isSome = true)
    (hfresh : ∀ recorded ∈ [s!"whitelist-free:upload:{reply.reservationId}", u.request.txId],
      (getPaymentByTxId w.db recorded).isNone = true)
    (hstores : Stores o file) (hallowed : isCidBlocked w.db file = false) :
    (∃ out policy hash, (lone cfg o (.upload u.request) w).result = .ok (.upload out) ∧
      parsePolicy cfg form.releasePolicy = .ok policy ∧
      parseReceiptHash cfg form.receiptHash = .ok hash ∧
      Hosts (lone cfg o (.upload u.request) w).final.db file s.username out reply.amount.orZero
        policy hash) ↔ form.Accepted cfg := by
  obtain ⟨r, hr, hheld⟩ := held_of_reply haccepts hfinite later hlater hsigns.lowerCase
  have hprepared := prepared_of_upload hsigns hspelled hu
  have hchecks : ∀ {c}, checkUpload cfg w.db w.now u.request = .ok c ↔
      Reads cfg r.mode form c.mime c.releasePolicy c.receiptHash ∧ c.reservation = r ∧
        c.feeExempt = isFeeExemptUpload cfg w.db r :=
    hheld.checks (husable r hr hheld.id) hsigns hprepared hexempt
  rw [accepted_iff hheld.mode]
  constructor
  · rintro ⟨out, -, -, hresult, -⟩
    obtain ⟨c, hc⟩ := checked_of_result hresult
    exact ⟨_, _, _, (hchecks.mp hc).1⟩
  · rintro ⟨mime, policy, hash, hreads⟩
    have hc := (@hchecks ⟨r, mime, policy, hash, isFeeExemptUpload cfg w.db r⟩).mpr
      ⟨hreads, rfl, rfl⟩
    obtain ⟨out, hout, hhosts⟩ := Held.lands hheld hspelled hsigns hprepared hmoved hexempt hfresh
      hstores hallowed hc rfl
    exact ⟨out, policy, hash, hout, hreads.policy, hreads.hash, hhosts⟩

section Sampled

open Server.Sample (config answer bootGate)

/-- Its hash is its name. -/
def sampleFile : Cid := String.ofList (List.replicate 64 'a')

def sampleSession : Session where
  username := "alice"
  pubKey := "posting-key"
  privKey := none
  signRaw _ := "signature"

def sampleForm : Form := .public "text/plain"

def sampleBody : ReserveRequest := reserveBody sampleSession sampleForm 100 (.fin 24) (.fin 1)

def sampleReserved : World := (bootGate.run (handle config) [.spawn (.reserve sampleBody)]).world

/-- The chain has the operation that was broadcast. -/
def broadcastOn (op : Operation) : Outside (machine config) where
  answer
    | .getTransaction _ => .ok [op]
    | c => answer c
  delay := fun _ => 0

theorem sampleReserved_usable : ∀ r ∈ sampleReserved.db.reservations,
    Usable config sampleReserved r := by
  have hrows : ∀ r ∈ sampleReserved.db.reservations,
      getReservation sampleReserved.db r.id = some r ∧ r.status = .pending ∧
        sampleReserved.now ≤ r.expiresAt ∧
        isAccountBanned sampleReserved.db r.uploader = false ∧
        admits config sampleReserved.db r.uploader = true := by decide +kernel
  intro r hr
  obtain ⟨hfound, hpending, hunexpired, hunbanned, hadmitted⟩ := hrows r hr
  exact ⟨hfound, hpending, hunexpired, hunbanned, hadmitted⟩

/-- Alice pays for a public file, and it is hosted. -/
theorem page_upload_lands_alice : ∃ reply op out policy hash,
    reserveReply bootGate sampleBody = some reply ∧
    (lone config (broadcastOn op) (.upload (uploadForm sampleSession reply sampleFile sampleForm
      "tx-1" "signature")) sampleReserved).result = .ok (.upload out) ∧
    Hosts (lone config (broadcastOn op) (.upload (uploadForm sampleSession reply sampleFile
      sampleForm "tx-1" "signature")) sampleReserved).final.db sampleFile "alice" out
      reply.amount.orZero policy hash := by
  obtain ⟨reply, hreply⟩ := Option.isSome_iff_exists.mp
    (by decide +kernel : (reserveReply bootGate sampleBody).isSome = true)
  have hseen : (reserveReply bootGate sampleBody).map (fun r => (r.feeExempt, r.amount.isFinite)) =
      some (false, true) := by
    decide +kernel
  obtain ⟨hcharged, hfinite⟩ : reply.feeExempt = false ∧ reply.amount.isFinite = true := by
    rw [hreply] at hseen
    simpa using hseen
  let op := keychainTransferGateToken id sampleSession (paymentOf config reply)
  have hu : upload config.toLowerCase id sampleSession (paymentOf config reply)
      (config.sha256Hex sampleFile) reply sampleFile sampleForm "tx-1" =
      .ok ⟨some op, uploadForm sampleSession reply sampleFile sampleForm "tx-1" "signature"⟩ := by
    have hhex : isHexSha256 (config.sha256Hex sampleFile) = true := by decide +kernel
    have hname : isAccountName (config.toLowerCase sampleSession.username) = true := by
      decide +kernel
    simp only [upload, buildUploadProofMessage, hhex, hname, hcharged, Bind.bind, Except.bind,
      Bool.not_true, Bool.false_eq_true, if_false]
    rfl
  have hunpaid : sampleReserved.db.payments.rows = [] := by decide +kernel
  obtain ⟨out, policy, hash, hout, -, -, hhosts⟩ := (page_upload_lands config (broadcastOn op) bootGate
    sampleSession sampleForm sampleFile (.fin 24) (.fin 1) reply hreply hfinite [] sampleReserved rfl
    (fun r hr _ => sampleReserved_usable r hr) id ⟨rfl, rfl, by decide⟩
    ⟨by decide, rfl, by decide, fun _ _ => rfl, ["posting-key"], rfl, by decide⟩ "tx-1" _ hu
    (fun op' hop => by cases hop; exact ⟨rfl, rfl⟩)
    (fun hfree => by rw [hcharged] at hfree; cases hfree)
    (fun _ _ => by rw [getPaymentByTxId, hunpaid]; rfl) ⟨rfl, rfl, rfl⟩ (by decide +kernel)).mpr
    ⟨by decide +kernel, by decide +kernel⟩
  exact ⟨reply, op, out, policy, hash, hreply, hout, hhosts⟩

end Sampled

end IpfsGate.Client.Paying
