import IpfsGate.Client.Paying
import IpfsGate.Server.Terms
import IpfsGate.Server.TopUps
import IpfsGate.Server.Views

/-!
# Purchases on hosted files

To guard a hosted file, to host a copy of it or to extend a claim, the page asks for a quote, pays
what it says and then asks for the claim. The gate computes the price again when it is asked.
-/
namespace IpfsGate.Client.Quoting

open Lib Lib.Prog
open Lib (Number Outside Pool)
open Paying (Form Moved Spelled keychainTransferGateToken extract_keychain validate_paid quantityOf total_nonneg)
open PrivateSend (Session)
open Pricing Quota
open Server

/-! ## What the page sends -/

/-- `Math.max(1, parseInt(text) || fallback)`. -/
def hoursOf (fallback : Int) (entered : Option Int) : Int :=
  match entered with
  | none => max 1 fallback
  | some 0 => max 1 fallback
  | some n => max 1 n

/-- What the page has Keychain broadcast, if it has to pay, and what it asks the gate for then. -/
structure Purchase where
  transfer : Option Operation
  request : Request

section Page

variable (upper : String → String) (s : Session)

/-- The payment of a quote, and the transaction id to send on; `txId` is empty when Keychain has
not paid. -/
def payQuote (free : Bool) (p : Paying.Payment) (txId : String) :
    Except String (Option Operation × String) :=
  if free then .ok (none, "")
  else if txId = "" then .error "payment cancelled or failed"
  else .ok (some (keychainTransferGateToken upper s p), txId)

/-- The query of a quote on a hosted CID. -/
def hostedQuery (cid : Cid) (hours : Int) : QuoteRequest :=
  { cid, hours := some (.fin hours), copies := none, hiveAccount := s.username }

/-- From the quote up to POST /guardian/pledge. -/
def becomeGuardian (cid : Cid) (hours : Int) (feeExempt : Bool) (p : Paying.Payment) (txId : String) :
    Except String Purchase := do
  let (transfer, txId) ← payQuote upper s feeExempt p txId
  let body : PledgeRequest :=
    { pledger := s.username, cid, hoursRequested := some (.fin hours), copies := none, txId }
  return { transfer, request := .guardianPledge body }

/-- From the quote up to POST /claims/own-copy. -/
def hostOwnCopy (cid : Cid) (hours : Int) (feeExempt : Bool) (p : Paying.Payment) (txId : String) :
    Except String Purchase := do
  let (transfer, txId) ← payQuote upper s feeExempt p txId
  let body : OwnCopyBody :=
    { owner := s.username, cid, hoursRequested := some (.fin hours), copies := none, txId }
  return { transfer, request := .ownCopy body }

/-- From the quote up to POST /claims/extend; a quote of nothing is not paid. -/
def executeExtendClaim (claimId : Nat) (extraHrs : Int) (total : ℚ) (p : Paying.Payment)
    (txId : String) : Except String Purchase := do
  let (transfer, txId) ← payQuote upper s (total ≤ 0) p txId
  return { transfer, request := .extend { claimId, extraHours := .fin extraHrs, txId } }

end Page

/-- The payment that the quotes on a hosted CID are answered with. -/
def paymentFor (cfg : Config) (q : QuoteReply) : Paying.Payment :=
  { escrowAccount := cfg.gateAccount, amount := q.quote.total, currency := cfg.paymentCurrency,
    memo := q.memo }

/-- The payment that the quote of an extension is answered with. -/
def extensionPayment (cfg : Config) (q : ExtendQuoteReply) : Paying.Payment :=
  { escrowAccount := cfg.gateAccount, amount := q.total, currency := q.currency, memo := q.memo }

/-! ## The quote and its price later -/

section Quotes

variable {cfg : Config} {db : Db}

theorem quoteRoute_ok {b : QuoteRequest} {hours : Number} {memo notHosted : String}
    {q : QuoteReply} (h : quoteRoute cfg db b hours memo notHosted = .ok q) :
    b.cid ≠ "" ∧ q.memo = memo ∧
      q.feeExempt = (cfg.toLowerCase b.hiveAccount ≠ "" &&
        (feeExemptEntryFor cfg db (cfg.toLowerCase b.hiveAccount)).isSome) ∧
      ∃ hosted, alreadyHostedForCid db b.cid = some hosted ∧
        calculateCost cfg hosted.sizeBytes hours (b.copies.getD (.fin 1))
          (rateFor cfg q.feeExempt) = .ok q.quote := by
  unfold quoteRoute at h
  obtain ⟨_, hcid, h⟩ := ok_of_bind h
  obtain ⟨_, _, h⟩ := ok_of_bind h
  cases hh : alreadyHostedForCid db b.cid with
  | none =>
    rw [hh] at h
    cases h
  | some hosted =>
    rw [hh] at h
    obtain ⟨quote, hcost, h⟩ := ok_of_bind h
    cases h
    exact ⟨of_decide_eq_true (check_ok.mp hcid), rfl, rfl, hosted, rfl, hcost⟩

/-- What is bought does not depend on the rate. -/
theorem calculateCost_rate {sizeBytes : Nat} {hours copies : Number} {rate rate' : ℚ} {q : Quote}
    (h : calculateCost cfg sizeBytes hours copies rate = .ok q) :
    ∃ q', calculateCost cfg sizeBytes hours copies rate' = .ok q' ∧
      q'.billableMB = q.billableMB ∧ q'.billableHrs = q.billableHrs ∧ q'.copies = q.copies := by
  unfold calculateCost at h ⊢
  obtain ⟨mb, hmb, h⟩ := ok_of_bind h
  obtain ⟨hrs, hhrs, h⟩ := ok_of_bind h
  rw [hmb, hhrs]
  cases h
  exact ⟨Quote.mk mb hrs (cappedCopies cfg copies) rate' _, rfl, rfl, rfl, rfl⟩

/-- What the account that asks for a claim on a hosted CID is quoted when it asks. -/
structure Offered (cfg : Config) (db : Db) (account : Account) (cid : Cid) (free : Bool) : Prop where
  unbanned : isAccountBanned db account = false
  admitted : admits cfg db account = true
  allowed : isCidBlocked db cid = false
  hosted : hasActivePinForCid db cid = true
  exempt : free = true → (feeExemptEntryFor cfg db account).isSome = true

theorem quoteHosted_iff {role : String} {account : Account} {cid : Cid} {txId : String}
    {hours copies : Number} {allows : Nat → Except Fault Unit} {notHosted : String}
    {h : HostedQuote} :
    quoteHosted cfg db role account cid txId hours copies allows notHosted = .ok h ↔
      isAccountBanned db account = false ∧ admits cfg db account = true ∧
      isCidBlocked db cid = false ∧
      ((feeExemptEntryFor cfg db account).isSome = true ∨
        txId ≠ "" ∧ (getPaymentByTxId db txId).isNone = true) ∧
      ∃ hosted, alreadyHostedForCid db cid = some hosted ∧ allows hosted.sizeBytes = .ok () ∧
        calculateCost cfg hosted.sizeBytes hours copies
          (rateFor cfg (feeExemptEntryFor cfg db account).isSome) = .ok h.quote ∧
        h.sizeBytes = hosted.sizeBytes ∧
        h.feeExempt = (feeExemptEntryFor cfg db account).isSome := by
  constructor
  · intro hq
    unfold quoteHosted at hq
    obtain ⟨_, hunbanned, hq⟩ := ok_of_bind hq
    obtain ⟨_, hadmitted, hq⟩ := ok_of_bind hq
    obtain ⟨_, hallowed, hq⟩ := ok_of_bind hq
    obtain ⟨_, hpaid, hq⟩ := ok_of_bind hq
    have hsent := check_ok.mp hpaid
    cases hh : alreadyHostedForCid db cid with
    | none =>
      rw [hh] at hq
      cases hq
    | some hosted =>
      rw [hh] at hq
      obtain ⟨_, hallows, hq⟩ := ok_of_bind hq
      obtain ⟨quote, hcost, hq⟩ := ok_of_bind hq
      obtain ⟨_, hunpaid, hq⟩ := ok_of_bind hq
      have hfresh := check_ok.mp hunpaid
      cases hq
      refine ⟨by simpa using check_ok.mp hunbanned, check_ok.mp hadmitted,
        by simpa using check_ok.mp hallowed, ?_, hosted, rfl, hallows, hcost, rfl, rfl⟩
      cases hfree : (feeExemptEntryFor cfg db account).isSome with
      | true => exact Or.inl rfl
      | false =>
        rw [hfree, Bool.false_or] at hsent hfresh
        exact Or.inr ⟨of_decide_eq_true hsent, hfresh⟩
  · rintro ⟨hunbanned, hadmitted, hallowed, hpaid, hosted, hhosted, hallows, hcost, hsize, hfree⟩
    have hsent : ((feeExemptEntryFor cfg db account).isSome || txId ≠ "") = true := by
      rcases hpaid with hpaid | hpaid <;> simp [hpaid]
    have hfresh : ((feeExemptEntryFor cfg db account).isSome ||
        (getPaymentByTxId db txId).isNone) = true := by
      rcases hpaid with hpaid | hpaid <;> simp [hpaid]
    unfold quoteHosted
    simp only [hunbanned, hadmitted, hallowed, check, hsent, hfresh, hhosted, hallows, hcost,
      Bool.not_false, if_true]
    obtain ⟨sizeBytes, quote, feeExempt⟩ := h
    subst hsize hfree
    rfl

end Quotes

/-! ## The payment is settled -/

section Settling

variable {cfg : Config} {o : Outside (machine cfg)} {w w₀ : World} {upper : String → String}
  {s : Session}

/-- The request asks for nothing, or for a transfer that is there. -/
def Covered (cfg : Config) (o : Outside (machine cfg)) (p : PaymentRequest) (paid : ℚ) : Prop :=
  (p.feeExempt = true ∧ paid = 0) ∨ (p.feeExempt = false ∧ ∃ op payload settled,
    Moved o p.txId op ∧ extractTokenTransferOp [op] p.sender = .ok payload ∧
    validateTransferPayload cfg payload p.expectedMemo p.expectedAmount = .ok settled ∧
    settled.amount.value = paid)

/-- The transaction id that a payment is recorded under. -/
def recordedUnder (p : PaymentRequest) : String :=
  if p.feeExempt then p.syntheticTxId else p.txId

theorem comes_covered {β : Type} {Q : Solo (machine cfg) β → Prop} {p : PaymentRequest}
    {f : Settled → Handler cfg β} {cs : List Call} {paid : ℚ} (hw : Waited w₀ w)
    (hcovered : Covered cfg o p paid)
    (hfresh : (getPaymentByTxId w₀.db (recordedUnder p)).isNone = true)
    (hok : ∀ settled cs w' payments, settled.paid = paid → w'.db = { w₀.db with payments } →
      (f settled).Comes o Q cs w') : (Prog.bind (verifyOrSkipPayment p) f).Comes o Q cs w := by
  unfold verifyOrSkipPayment
  unfold recordedUnder at hfresh
  rcases hcovered with ⟨hfree, rfl⟩ | ⟨hcharged, op, payload, settled, hmoved, hextract, hvalid, hpaid⟩
  · rw [if_pos hfree] at hfresh ⊢
    simp only [Prog.bind_eq, Prog.bind_assoc]
    refine comes_record (by rw [hw.db_eq]; exact hfresh) (fun id payments => ?_)
    refine comes_call (fun w₁ hw₁ => ?_)
    exact hok _ _ w₁ payments rfl (by rw [hw₁.db_eq, hw.db_eq])
  · have hno : ¬ p.feeExempt = true := by simp [hcharged]
    rw [if_neg hno] at hfresh ⊢
    unfold verifyPayment confirmOnSidechain
    simp only [Prog.bind_eq, Prog.bind_assoc]
    refine comes_call (fun w₁ hw₁ => ?_)
    rw [hmoved.found]
    simp only [hextract, hvalid, Prog.liftExcept, Prog.ret_bind]
    refine comes_call (fun w₂ hw₂ => ?_)
    rw [hmoved.confirmed]
    have hwaited := (hw.trans hw₁).trans hw₂
    refine comes_record (by rw [hwaited.db_eq]; exact hfresh) (fun id payments => ?_)
    refine comes_call (fun w₃ hw₃ => ?_)
    exact hok _ _ w₃ payments hpaid (by rw [hw₃.db_eq, hwaited.db_eq])

/-- What the page has paid for a quote covers what the gate asks for later. -/
theorem covered_page (hspelled : Spelled cfg upper) {free : Bool} {p : Paying.Payment}
    {txId : String} {sent : Option Operation × String} (hsent : payQuote upper s free p txId = .ok sent)
    (hmoved : ∀ op, sent.1 = some op → Moved o sent.2 op) {r : PaymentRequest} {price : ℚ}
    (hto : p.escrowAccount = cfg.gateAccount) (hin : p.currency = cfg.paymentCurrency)
    (hamount : p.amount = .fin price) (hprice : 0 ≤ price) (hmemo : p.memo = r.expectedMemo)
    (htx : r.txId = sent.2) (hsender : r.sender = s.username)
    (hdue : r.feeExempt = false → r.expectedAmount = .fin price)
    (hstill : free = true → r.feeExempt = true) :
    Covered cfg o r (if r.feeExempt then 0 else price) := by
  cases hfree : r.feeExempt with
  | true => exact Or.inl ⟨hfree, rfl⟩
  | false =>
    have hcharged : ¬ free = true := fun h => by
      rw [hstill h] at hfree
      cases hfree
    unfold payQuote at hsent
    rw [if_neg hcharged] at hsent
    split at hsent
    · cases hsent
    · cases hsent
      have hextract := @extract_keychain upper s p
      have hsymbol : upper (if p.currency = "" then "CNOOBS" else p.currency) =
          cfg.paymentCurrency := by
        rw [hin, if_neg hspelled.named, hspelled.currency]
      obtain ⟨settled, hvalid, hvalue⟩ := validate_paid hspelled p.memo hamount hprice (le_refl price)
      rw [hsymbol, hto, ← hsender] at hextract
      refine Or.inr ⟨hfree, _, _, settled, htx ▸ hmoved _ rfl, hextract, ?_, hvalue⟩
      rw [hdue hfree, ← hmemo]
      exact hvalid

/-- A page that has been quoted a price sends a transaction id. -/
theorem sent_txId {db : Db} {free : Bool} {p : Paying.Payment} {txId : String}
    {sent : Option Operation × String} (hsent : payQuote upper s free p txId = .ok sent)
    (hfresh : (getPaymentByTxId db txId).isNone = true) :
    (free = true ∧ sent.2 = "") ∨
      (free = false ∧ sent.2 ≠ "" ∧ (getPaymentByTxId db sent.2).isNone = true) := by
  unfold payQuote at hsent
  cases hfree : free with
  | true =>
    rw [hfree, if_pos rfl] at hsent
    cases hsent
    exact Or.inl ⟨rfl, rfl⟩
  | false =>
    rw [hfree, if_neg Bool.false_ne_true] at hsent
    split at hsent
    · cases hsent
    · next htx =>
      cases hsent
      exact Or.inr ⟨rfl, htx, hfresh⟩

/-- The transfer that the page sends on is the one that Keychain made. -/
theorem sent_moved {free : Bool} {p : Paying.Payment} {txId : String}
    {sent : Option Operation × String} (hsent : payQuote upper s free p txId = .ok sent)
    (hmoved : ∀ op, sent.1 = some op → Moved o txId op) :
    ∀ op, sent.1 = some op → Moved o sent.2 op := by
  unfold payQuote at hsent
  split at hsent
  · cases hsent
    exact fun op hop => nomatch hop
  · split at hsent
    · cases hsent
    · cases hsent
      exact hmoved

end Settling

/-! ## The quote when the claim is asked for -/

section Requoted

variable {cfg : Config} {db : Db} {account : Account} {cid : Cid} {hours copies : Number}
  {free : Bool} {q : Quote}

/-- What the gate finds when it quotes again: as much for no more. -/
structure Requoted (cfg : Config) (db : Db) (account : Account) (cid : Cid) (q : Quote)
    (h : HostedQuote) : Prop where
  sizeBytes : h.sizeBytes = cfg.byteCount cid
  feeExempt : h.feeExempt = (feeExemptEntryFor cfg db account).isSome
  billableMB : h.quote.billableMB = q.billableMB
  billableHrs : h.quote.billableHrs = q.billableHrs
  copies : h.quote.copies = q.copies
  total : h.feeExempt = false → h.quote.total = q.total

variable {role txId notHosted : String} {allows : Nat → Except Fault Unit}

/-- The page is quoted again exactly if it is still offered the claim. -/
theorem quoteHosted_page
    (hcost : calculateCost cfg (cfg.byteCount cid) hours copies (rateFor cfg free) = .ok q)
    (hsize : ∀ hosted, alreadyHostedForCid db cid = some hosted →
      hosted.sizeBytes = cfg.byteCount cid)
    (htx : (free = true ∧ txId = "") ∨
      (free = false ∧ txId ≠ "" ∧ (getPaymentByTxId db txId).isNone = true)) :
    (∃ h, quoteHosted cfg db role account cid txId hours copies allows notHosted = .ok h) ↔
    Offered cfg db account cid free ∧ allows (cfg.byteCount cid) = .ok () := by
  constructor
  · rintro ⟨h, hq⟩
    obtain ⟨hunbanned, hadmitted, hallowed, hpaid, hosted, hhosted, hallows, -, -, -⟩ :=
      quoteHosted_iff.mp hq
    rw [hsize hosted hhosted] at hallows
    refine ⟨⟨hunbanned, hadmitted, hallowed, ?_, fun hfree => ?_⟩, hallows⟩
    · rw [hasActivePinForCid_iff, ← alreadyHostedForCid_isSome, hhosted]
      rfl
    · rcases hpaid with hexempt | ⟨hsent, -⟩
      · exact hexempt
      · rcases htx with ⟨-, hnone⟩ | ⟨hcharged, -, -⟩
        · exact absurd hnone hsent
        · rw [hfree] at hcharged
          cases hcharged
  · rintro ⟨hoffered, hallows⟩
    obtain ⟨hosted, hhosted⟩ := Option.isSome_iff_exists.mp
      (alreadyHostedForCid_isSome.mpr (hasActivePinForCid_iff.mp hoffered.hosted))
    have hbytes := hsize hosted hhosted
    obtain ⟨q', hcost', -⟩ := @calculateCost_rate cfg _ _ _ _
      (rateFor cfg (feeExemptEntryFor cfg db account).isSome) _ hcost
    refine ⟨⟨hosted.sizeBytes, q', (feeExemptEntryFor cfg db account).isSome⟩,
      quoteHosted_iff.mpr ⟨hoffered.unbanned, hoffered.admitted, hoffered.allowed, ?_, hosted,
        hhosted, ?_, ?_, rfl, rfl⟩⟩
    · rcases htx with ⟨hfree, -⟩ | ⟨-, hsent⟩
      · exact Or.inl (hoffered.exempt hfree)
      · exact Or.inr hsent
    · rw [hbytes]
      exact hallows
    · rw [hbytes]
      exact hcost'

theorem requoted_of_ok {h : HostedQuote}
    (hcost : calculateCost cfg (cfg.byteCount cid) hours copies (rateFor cfg free) = .ok q)
    (hsize : ∀ hosted, alreadyHostedForCid db cid = some hosted →
      hosted.sizeBytes = cfg.byteCount cid)
    (hstill : free = true → (feeExemptEntryFor cfg db account).isSome = true)
    (hq : quoteHosted cfg db role account cid txId hours copies allows notHosted = .ok h) :
    Requoted cfg db account cid q h := by
  obtain ⟨-, -, -, -, hosted, hhosted, -, hcost', hbytes, hfree⟩ := quoteHosted_iff.mp hq
  rw [hsize hosted hhosted] at hbytes hcost'
  obtain ⟨q', hcost'', hmb, hhrs, hcps⟩ := @calculateCost_rate cfg _ _ _ _
    (rateFor cfg (feeExemptEntryFor cfg db account).isSome) _ hcost
  obtain rfl : q' = h.quote := Except.ok.inj (hcost''.symm.trans hcost')
  refine ⟨hbytes, hfree, hmb, hhrs, hcps, fun hnow => ?_⟩
  rw [hfree] at hnow
  have hcharged : free = false := by
    cases hno : free with
    | false => rfl
    | true =>
      rw [hstill hno] at hnow
      cases hnow
  rw [hnow, ← hcharged, hcost] at hcost''
  exact congrArg Quote.total (Except.ok.inj hcost''.symm)

end Requoted

/-! ## The page's pledge -/

/-- The claim of a guardian waits for the file, on what was quoted. -/
def Guards (db : Db) (cid : Cid) (owner : Account) (out : PledgeReply) (q : Quote) (paid : ℚ) :
    Prop :=
  ∃ c ∈ db.claims, c.claimId = out.claimId ∧ c.cid = cid ∧ c.owner = owner ∧ c.kind = .guardian ∧
    c.state = .dormant ∧ c.paidHours = q.billableHrs ∧ c.sizeMB = q.billableMB ∧
    c.copiesRequested = q.copies ∧ c.amountPaid = paid

theorem Guards.requoted {cfg : Config} {db db' : Db} {cid : Cid} {owner account : Account}
    {out : PledgeReply} {q : Quote} {h : HostedQuote} {paid : ℚ}
    (hguards : Guards db cid owner out h.quote paid) (hagain : Requoted cfg db' account cid q h) :
    Guards db cid owner out q paid := by
  unfold Guards at hguards ⊢
  rw [hagain.billableHrs, hagain.billableMB, hagain.copies] at hguards
  exact hguards

section Landing

variable {cfg : Config} {o : Outside (machine cfg)} {w : World} {upper : String → String}
  {s : Session} {cid : Cid} {hours : Int}

/-- The size of a hosted file does not change. -/
theorem hosted_size (cfg : Config) (t : Int) (events : List (GateEvent cfg)) {cid : Cid}
    {hosted : Hosted} (h : alreadyHostedForCid (serve cfg t events).world.db cid = some hosted) :
    hosted.sizeBytes = cfg.byteCount cid := (serve_accounted cfg t events).sourced.hosted h

/-- What the page was quoted. -/
theorem seen_of_map {α : Type} {r : Except Fault α} {f g : α → Bool} {x y : Bool}
    (h : r.map (fun q => (f q, g q)) = .ok (x, y)) : ∃ q, r = .ok q ∧ f q = x ∧ g q = y := by
  cases r with
  | error e => cases h
  | ok q =>
    cases h
    exact ⟨q, rfl, rfl, rfl⟩

theorem quoted_page {t : Int} {events : List (GateEvent cfg)} {asked : Number} {memo notHosted : String}
    {q : QuoteReply}
    (h : quoteRoute cfg (serve cfg t events).world.db (hostedQuery s cid hours) asked memo notHosted =
      .ok q) :
    cid ≠ "" ∧ q.memo = memo ∧ calculateCost cfg (cfg.byteCount cid) asked (.fin 1)
      (rateFor cfg q.feeExempt) = .ok q.quote := by
  obtain ⟨hcid, hmemo, -, hosted, hhosted, hcost⟩ := quoteRoute_ok h
  rw [hosted_size cfg t events hhosted] at hcost
  exact ⟨hcid, hmemo, hcost⟩

/-- The request the page sends, and the transaction id in it. -/
theorem becomeGuardian_ok {free : Bool} {p : Paying.Payment} {txId : String} {order : Purchase}
    (h : becomeGuardian upper s cid hours free p txId = .ok order) :
    ∃ sent, payQuote upper s free p txId = .ok sent ∧ order.transfer = sent.1 ∧
      order.request = .guardianPledge (PledgeRequest.mk s.username cid (some (.fin hours)) none
        sent.2) := by
  unfold becomeGuardian at h
  cases hsent : payQuote upper s free p txId with
  | error e =>
    rw [hsent] at h
    cases h
  | ok sent =>
    rw [hsent] at h
    cases h
    exact ⟨sent, rfl, rfl, rfl⟩

/-- A route's answer on its own is what its handler comes to. -/
theorem lone_ok {α : Type} {p : Handler cfg α} {g : α → Body} {q : Request}
    (hq : handle cfg q = g <$> p) {P : α → World → Prop}
    (h : p.Comes o (fun sol => ∃ out, sol.result = .ok out ∧ P out sol.final) [] w) :
    ∃ out, (lone cfg o q w).result = .ok (g out) ∧ P out (lone cfg o q w).final := by
  have hmapped : (g <$> p).Comes o (fun sol => ∃ out, sol.result = .ok (g out) ∧ P out sol.final)
      [] w := by
    refine comes_map (h.mono (fun sol hsol => ?_))
    obtain ⟨out, hout, hP⟩ := hsol
    exact ⟨out, congrArg (Except.map g) hout, hP⟩
  rw [← hq] at hmapped
  exact hmapped

theorem of_lone_ok {α : Type} {p : Handler cfg α} {g : α → Body} {q : Request}
    (hq : handle cfg q = g <$> p) {P : Prop}
    (h : p.Comes o (fun sol => ∀ out, sol.result = .ok out → P) [] w) {out : α}
    (hout : (lone cfg o q w).result = .ok (g out)) : P := by
  have hmapped : (g <$> p).Comes o (fun sol => ∀ out, sol.result = .ok (g out) → P) [] w := by
    refine comes_map (h.mono (fun sol hsol out hout => ?_))
    cases hresult : sol.result with
    | error e =>
      rw [hresult] at hout
      cases hout
    | ok reply => exact hsol reply hresult
  rw [← hq] at hmapped
  exact hmapped out hout

/-- A pledge that is quoted and covered is taken. -/
theorem lone_pledge {b : PledgeRequest} {account : Account} {h : HostedQuote} {paid : ℚ}
    (hsent : (b.pledger ≠ "" && b.cid ≠ "") = true) (hlower : cfg.toLowerCase b.pledger = account)
    (hquoted : quoteHosted cfg w.db "pledger" account b.cid b.txId
      (b.hoursRequested.getD (.fin cfg.defaultHours)) (b.copies.getD (.fin 1)) (fun _ => .ok ())
      "CID is not currently hosted here — you can only guard a live file" = .ok h)
    (hcovered : Covered cfg o
      { feeExempt := h.feeExempt, txId := b.txId, sender := account,
        expectedMemo := s!"ipfs-gate:guardian:{b.cid}", expectedAmount := h.quote.total,
        syntheticTxId := s!"whitelist-free:guardian:{b.cid}:{account}:{w.now}" } paid)
    (hfresh : (getPaymentByTxId w.db (if h.feeExempt then
      s!"whitelist-free:guardian:{b.cid}:{account}:{w.now}" else b.txId)).isNone = true) :
    ∃ out, (lone cfg o (.guardianPledge b) w).result = .ok (.pledge out) ∧
      Guards (lone cfg o (.guardianPledge b) w).final.db b.cid account out h.quote paid := by
  subst hlower
  have hcomes : (guardianPledge "guardian" b : Handler cfg PledgeReply).Comes o (fun sol => ∃ out,
      sol.result = .ok out ∧
        Guards sol.final.db b.cid (cfg.toLowerCase b.pledger) out h.quote paid) [] w := by
    unfold guardianPledge
    refine comes_require (fun hno => absurd hsent (Bool.eq_false_iff.mp hno)) (fun _ => comes_ask ?_)
    rw [hquoted]
    refine comes_clock (comes_covered (Waited.refl w) hcovered hfresh ?_)
    intro settled cs w' payments hpaid hdb
    refine comes_transact (comes_ask ⟨_, rfl, _, mem_createOrderWithClaim.mpr (Or.inr rfl), ?_⟩)
    exact ⟨rfl, rfl, rfl, rfl, rfl, rfl, rfl, rfl, hpaid⟩
  exact @lone_ok cfg o w _ _ _ (.guardianPledge b) rfl
    (fun out final => Guards final.db b.cid (cfg.toLowerCase b.pledger) out h.quote paid) hcomes

/-- A pledge that is taken has been quoted. -/
theorem quoted_of_pledge {b : PledgeRequest} {out : PledgeReply}
    (h : (lone cfg o (.guardianPledge b) w).result = .ok (.pledge out)) :
    ∃ quote, quoteHosted cfg w.db "pledger" (cfg.toLowerCase b.pledger) b.cid b.txId
      (b.hoursRequested.getD (.fin cfg.defaultHours)) (b.copies.getD (.fin 1)) (fun _ => .ok ())
      "CID is not currently hosted here — you can only guard a live file" = .ok quote := by
  refine @of_lone_ok cfg o w _ (guardianPledge "guardian" b) _ _ rfl _ ?_ _ h
  unfold guardianPledge
  refine comes_require (fun _ out hout => by cases hout) (fun _ => comes_ask ?_)
  refine comes_liftExcept (fun e _ out hout => by cases hout) (fun quote hquoted => ?_)
  exact Comes.mono (Q := fun _ => True) trivial (fun _ _ _ _ => ⟨quote, hquoted⟩)

/-- What a quote is paid with, in numbers. -/
theorem price_of_quote {sizeBytes : Nat} {hours copies : Number} {free : Bool} {q : Quote}
    (hcost : calculateCost cfg sizeBytes hours copies (rateFor cfg free) = .ok q)
    (hfinite : q.total.isFinite = true) : q.total = .fin q.total.orZero ∧ 0 ≤ q.total.orZero := by
  have hfin : q.total = .fin q.total.orZero := (Number.fin_orZero_iff.mpr hfinite).symm
  exact ⟨hfin, (total_nonneg (rateFor_nonneg free) hcost hfin).1⟩

theorem sent_fresh {q : QuoteReply} {sent : Option Operation × String} {h : HostedQuote}
    {synthetic : String}
    (htx : (q.feeExempt = true ∧ sent.2 = "") ∨
      (q.feeExempt = false ∧ sent.2 ≠ "" ∧ (getPaymentByTxId w.db sent.2).isNone = true))
    (hstill : q.feeExempt = true → (feeExemptEntryFor cfg w.db s.username).isSome = true)
    (hagain : Requoted cfg w.db s.username cid q.quote h)
    (hfresh : (getPaymentByTxId w.db synthetic).isNone = true) :
    (getPaymentByTxId w.db (if h.feeExempt then synthetic else sent.2)).isNone = true := by
  split
  · exact hfresh
  · next hcharged =>
    rcases htx with ⟨hfree, -⟩ | ⟨-, -, hnone⟩
    · exact absurd (hagain.feeExempt.trans (hstill hfree)) hcharged
    · exact hnone

/-- The payment of a quote settles what the gate asks for when it has quoted again. -/
theorem settles_page (hspelled : Spelled cfg upper) {q : QuoteReply} {txId : String}
    {sent : Option Operation × String} {h : HostedQuote} {memo : String} {hours : Number}
    (hcost : calculateCost cfg (cfg.byteCount cid) hours (.fin 1) (rateFor cfg q.feeExempt) =
      .ok q.quote)
    (hfinite : q.quote.total.isFinite = true)
    (hsent : payQuote upper s q.feeExempt (paymentFor cfg q) txId = .ok sent)
    (hmoved : ∀ op, sent.1 = some op → Moved o sent.2 op)
    (hmemo : q.memo = memo)
    (hagain : Requoted cfg w.db s.username cid q.quote h)
    (hstill : q.feeExempt = true → (feeExemptEntryFor cfg w.db s.username).isSome = true)
    (synthetic : String) :
    Covered cfg o { feeExempt := h.feeExempt, txId := sent.2, sender := s.username,
                    expectedMemo := memo, expectedAmount := h.quote.total,
                    syntheticTxId := synthetic }
      (if h.feeExempt then 0 else q.quote.total.orZero) := by
  obtain ⟨hprice, hnonneg⟩ := price_of_quote hcost hfinite
  refine covered_page hspelled hsent hmoved rfl rfl hprice hnonneg hmemo rfl rfl ?_ ?_
  · intro hcharged
    exact (hagain.total hcharged).trans hprice
  · intro hfree
    exact hagain.feeExempt.trans (hstill hfree)

end Landing

/-- Whenever the page asks for the claim it was quoted and paid for, the gate takes it exactly if
the account may still host here, the file is still hosted and allowed, and what was free is still
free; the guardian then has what was quoted, at the quoted price or for nothing. -/
theorem page_pledge_lands (cfg : Config) (o : Outside (machine cfg)) (t : Int)
    (events later : List (GateEvent cfg)) (s : Session) (hname : s.username ≠ "")
    (hlower : cfg.toLowerCase s.username = s.username) (cid : Cid) (entered : Option Int)
    (fallback : Int) (q : QuoteReply)
    (hquote : guardianQuote cfg "guardian" (serve cfg t events).world.db
      (hostedQuery s cid (hoursOf fallback entered)) = .ok q)
    (hfinite : q.quote.total.isFinite = true) (upper : String → String)
    (hspelled : Spelled cfg upper) (txId : String) (order : Purchase)
    (horder : becomeGuardian upper s cid (hoursOf fallback entered) q.feeExempt (paymentFor cfg q)
      txId = .ok order)
    (hmoved : ∀ op, order.transfer = some op → Moved o txId op)
    (w : World) (hw : w = (serve cfg t (events ++ later)).world)
    (hfresh : ∀ recorded ∈ [s!"whitelist-free:guardian:{cid}:{s.username}:{w.now}", txId],
      (getPaymentByTxId w.db recorded).isNone = true) :
    (∃ out, (lone cfg o order.request w).result = .ok (.pledge out) ∧
      Guards (lone cfg o order.request w).final.db cid s.username out q.quote
        (if (feeExemptEntryFor cfg w.db s.username).isSome then 0 else q.quote.total.orZero)) ↔
    Offered cfg w.db s.username cid q.feeExempt := by
  obtain ⟨hcid, hmemo, hcost⟩ := quoted_page hquote
  obtain ⟨sent, hsent, htransfer, hrequest⟩ := becomeGuardian_ok horder
  have hsize : ∀ hosted, alreadyHostedForCid w.db cid = some hosted →
      hosted.sizeBytes = cfg.byteCount cid :=
    fun hosted hhosted => hosted_size cfg t (events ++ later) (hw ▸ hhosted)
  have htx := sent_txId hsent (hfresh txId (by simp))
  rw [hrequest]
  constructor
  · rintro ⟨out, hout, -⟩
    have hquoted := quoted_of_pledge hout
    rw [hlower] at hquoted
    exact ((quoteHosted_page hcost hsize htx).mp hquoted).1
  · intro hoffered
    obtain ⟨h, hquoted⟩ := (@quoteHosted_page cfg w.db s.username cid _ _ _ _ "pledger" sent.2
      "CID is not currently hosted here — you can only guard a live file" (fun _ => .ok ()) hcost
      hsize htx).mpr ⟨hoffered, rfl⟩
    have hagain := requoted_of_ok hcost hsize hoffered.exempt hquoted
    have hlands := @lone_pledge cfg o w
      (PledgeRequest.mk s.username cid (some (.fin (hoursOf fallback entered))) none sent.2)
      s.username h (if h.feeExempt then 0 else q.quote.total.orZero) (by simp [hname, hcid]) hlower
      hquoted ?_ ?_
    · obtain ⟨out, hout, hguards⟩ := hlands
      refine ⟨out, hout, ?_⟩
      rw [← hagain.feeExempt]
      exact hguards.requoted hagain
    · exact settles_page hspelled hcost hfinite hsent (sent_moved hsent (htransfer ▸ hmoved)) hmemo hagain
        hoffered.exempt _
    · exact sent_fresh htx hoffered.exempt hagain (hfresh _ (by simp))

section Sampled

open Server.Sample (config hostedByAlice)
open Paying (broadcastOn)

def bob : Session where
  username := "bob"
  pubKey := "posting-key"
  privKey := none
  signRaw _ := "signature"

def hosted : World := (serve config 0 hostedByAlice).world

theorem offered_bob : Offered config hosted.db "bob" "bafy" false :=
  ⟨by decide +kernel, by decide +kernel, by decide +kernel, by decide +kernel, fun h => nomatch h⟩

def paidByBob (q : QuoteReply) : Operation :=
  keychainTransferGateToken id bob (paymentFor config q)

def pledgeOfBob : PledgeRequest :=
  { pledger := "bob", cid := "bafy", hoursRequested := some (.fin (24 : Int)), copies := none,
    txId := "tx-1" }

/-- Bob pays for a day, and waits for Alice's file. -/
theorem page_pledge_lands_bob : ∃ q out,
    guardianQuote config "guardian" hosted.db (hostedQuery bob "bafy" 24) = .ok q ∧
    (lone config (broadcastOn (paidByBob q)) (.guardianPledge pledgeOfBob) hosted).result =
      .ok (.pledge out) ∧
    Guards (lone config (broadcastOn (paidByBob q)) (.guardianPledge pledgeOfBob) hosted).final.db
      "bafy" "bob" out q.quote q.quote.total.orZero := by
  have hseen : (guardianQuote config "guardian" hosted.db (hostedQuery bob "bafy" 24)).map
      (fun q => (q.feeExempt, q.quote.total.isFinite)) = .ok (false, true) := by
    decide +kernel
  obtain ⟨q, hq, hcharged, hfinite⟩ := seen_of_map hseen
  have horder : becomeGuardian id bob "bafy" 24 q.feeExempt (paymentFor config q) "tx-1" =
      .ok ⟨some (paidByBob q), .guardianPledge pledgeOfBob⟩ := by
    rw [hcharged]
    rfl
  obtain ⟨out, hout, hguards⟩ := (page_pledge_lands config (broadcastOn (paidByBob q)) 0
    hostedByAlice [] bob (by decide) rfl "bafy" (some 24) 24 q hq hfinite id ⟨rfl, rfl, by decide⟩
    "tx-1" _ horder (fun op hop => by cases hop; exact ⟨rfl, rfl⟩) hosted rfl
    (by decide +kernel)).mpr (by rw [hcharged]; exact offered_bob)
  rw [(by decide +kernel : (feeExemptEntryFor config hosted.db bob.username).isSome = false)] at hguards
  exact ⟨q, out, hq, hout, hguards⟩

end Sampled

/-! ## The page's own copy -/

/-- The file is served, and hosted for the owner too, on what was quoted. -/
def Copied (db : Db) (cid : Cid) (owner : Account) (out : OwnCopyReply) (q : Quote) (paid : ℚ) :
    Prop :=
  hasActivePinForCid db cid = true ∧ isCidBlocked db cid = false ∧
    ∃ c ∈ db.claims, c.claimId = out.claimId ∧ c.orderId = out.orderId ∧ c.cid = cid ∧
      c.owner = owner ∧ c.kind = .ownCopy ∧ c.state = .active ∧ c.paidHours = q.billableHrs ∧
      c.copiesRequested = q.copies ∧ c.amountPaid = paid

section OwnCopies

variable {cfg : Config} {o : Outside (machine cfg)} {w : World} {upper : String → String}
  {s : Session} {cid : Cid} {hours : Int}

theorem hostOwnCopy_ok {free : Bool} {p : Paying.Payment} {txId : String} {order : Purchase}
    (h : hostOwnCopy upper s cid hours free p txId = .ok order) :
    ∃ sent, payQuote upper s free p txId = .ok sent ∧ order.transfer = sent.1 ∧
      order.request = .ownCopy (OwnCopyBody.mk s.username cid (some (.fin hours)) none sent.2) := by
  unfold hostOwnCopy at h
  cases hsent : payQuote upper s free p txId with
  | error e =>
    rw [hsent] at h
    cases h
  | ok sent =>
    rw [hsent] at h
    cases h
    exact ⟨sent, rfl, rfl, rfl⟩

/-- A copy of a hosted file is a claim with its own pin. -/
theorem createOwnCopyClaim_eq {db : Db} {t : Int} {n : OwnCopyRequest}
    (hhosted : hasActivePinForCid db n.cid = true) :
    ∃ info, createOwnCopyClaim db t n =
      .ok ({ claimId := db.claims.next, orderId := db.orders.next, pinId := db.pins.next,
             startTs := t, expiryTs := n.expiryTs t },
        (createOrderWithClaim (insertPin db t (n.pin t info)) t (n.claim t info db.pins.next)).2) := by
  obtain ⟨p, hp⟩ := hasActivePinForCid_iff.mp hhosted
  obtain ⟨hosted, hsome⟩ := Option.isSome_iff_exists.mp (alreadyHostedForCid_isSome.mpr ⟨p, hp⟩)
  obtain ⟨r, after, hrun⟩ := @createOwnCopyClaim_hosted db t n hosted hsome
  unfold createOwnCopyClaim at hrun ⊢
  cases hinfo : getLatestPinInfoForCid db n.cid with
  | none =>
    rw [hinfo] at hrun
    cases hrun
  | some info =>
    refine ⟨info, ?_⟩
    simp only [hhosted]
    rfl

/-- A copy that is quoted and covered is hosted. -/
theorem lone_ownCopy {b : OwnCopyBody} {account : Account} {h : HostedQuote} {paid : ℚ}
    (hsent : (b.owner ≠ "" && b.cid ≠ "") = true) (hlower : cfg.toLowerCase b.owner = account)
    (hquoted : quoteHosted cfg w.db "owner" account b.cid b.txId
      (if cfg.hostingPermanent then .fin cfg.minHours
        else b.hoursRequested.getD (.fin cfg.defaultHours)) (b.copies.getD (.fin 1))
      (fun sizeBytes => assertWhitelistAllows cfg w.db w.now account sizeBytes)
      "CID is not currently hosted here — upload it via /reserve + /upload instead" = .ok h)
    (hcovered : Covered cfg o
      { feeExempt := h.feeExempt, txId := b.txId, sender := account,
        expectedMemo := s!"ipfs-gate:owncopy:{b.cid}", expectedAmount := h.quote.total,
        syntheticTxId := s!"whitelist-free:owncopy:{b.cid}:{account}:{w.now}" } paid)
    (hfresh : (getPaymentByTxId w.db (if h.feeExempt then
      s!"whitelist-free:owncopy:{b.cid}:{account}:{w.now}" else b.txId)).isNone = true) :
    ∃ out, (lone cfg o (.ownCopy b) w).result = .ok (.ownCopy out) ∧
      Copied (lone cfg o (.ownCopy b) w).final.db b.cid account out h.quote paid := by
  subst hlower
  obtain ⟨-, -, hallowed, -, hosted, hhosted, -, hcost, -, -⟩ := quoteHosted_iff.mp hquoted
  have hactive : hasActivePinForCid w.db b.cid = true := by
    rw [hasActivePinForCid_iff, ← alreadyHostedForCid_isSome, hhosted]
    rfl
  have hhours : (if cfg.hostingPermanent then cfg.minHours else h.quote.billableHrs) =
      h.quote.billableHrs := by
    split
    · next hpermanent =>
      obtain ⟨_, hhrs, _, _⟩ := calculateCost_ok hcost
      rw [if_pos hpermanent] at hhrs
      exact (billableHours_minHours hhrs).symm
    · rfl
  have hcomes : (ownCopy b : Handler cfg OwnCopyReply).Comes o (fun sol => ∃ out,
      sol.result = .ok out ∧
        Copied sol.final.db b.cid (cfg.toLowerCase b.owner) out h.quote paid) [] w := by
    unfold ownCopy
    refine comes_require (fun hno => absurd hsent (Bool.eq_false_iff.mp hno)) (fun _ => ?_)
    refine comes_clock (comes_ask ?_)
    rw [hquoted]
    refine comes_covered (Waited.refl w) hcovered hfresh ?_
    intro settled cs w' payments hpaid hdb
    have hactive' : hasActivePinForCid w'.db b.cid = true := by
      rw [hdb]
      exact hactive
    have hallowed' : isCidBlocked w'.db b.cid = false := by
      rw [hdb]
      exact hallowed
    obtain ⟨info, hrun⟩ := @createOwnCopyClaim_eq w'.db w'.now
      { cid := b.cid, owner := cfg.toLowerCase b.owner, paymentId := settled.paymentId,
        paidHours := if cfg.hostingPermanent then cfg.minHours else h.quote.billableHrs,
        copies := h.quote.copies, rateLocked := rateFor cfg h.feeExempt,
        amountPaid := settled.paid, currency := settled.currency,
        expiryOverride := if cfg.hostingPermanent then some permanentExpiryTs else none } hactive'
    refine comes_transact ?_
    simp only [Stmt.sem, hrun, Stmt.fallible]
    refine ⟨_, rfl, ?_, hallowed', _, mem_createOrderWithClaim.mpr (Or.inr rfl), rfl, rfl, rfl, rfl,
      rfl, rfl, hhours, rfl, hpaid⟩
    exact hasActivePinForCid_iff.mpr ⟨_, mem_insertPin.mpr (Or.inr rfl), rfl, rfl⟩
  exact @lone_ok cfg o w _ _ _ (.ownCopy b) rfl
    (fun out final => Copied final.db b.cid (cfg.toLowerCase b.owner) out h.quote paid) hcomes

theorem quoted_of_ownCopy {b : OwnCopyBody} {out : OwnCopyReply}
    (h : (lone cfg o (.ownCopy b) w).result = .ok (.ownCopy out)) :
    ∃ quote, quoteHosted cfg w.db "owner" (cfg.toLowerCase b.owner) b.cid b.txId
      (if cfg.hostingPermanent then .fin cfg.minHours
        else b.hoursRequested.getD (.fin cfg.defaultHours)) (b.copies.getD (.fin 1))
      (fun sizeBytes => assertWhitelistAllows cfg w.db w.now (cfg.toLowerCase b.owner) sizeBytes)
      "CID is not currently hosted here — upload it via /reserve + /upload instead" = .ok quote := by
  refine @of_lone_ok cfg o w _ (ownCopy b) _ _ rfl _ ?_ _ h
  unfold ownCopy
  refine comes_require (fun _ out hout => by cases hout) (fun _ => comes_clock (comes_ask ?_))
  refine comes_liftExcept (fun e _ out hout => by cases hout) (fun quote hquoted => ?_)
  exact Comes.mono (Q := fun _ => True) trivial (fun _ _ _ _ => ⟨quote, hquoted⟩)

theorem Copied.requoted {db db' : Db} {owner account : Account} {out : OwnCopyReply} {q : Quote}
    {h : HostedQuote} {paid : ℚ} (hcopied : Copied db cid owner out h.quote paid)
    (hagain : Requoted cfg db' account cid q h) : Copied db cid owner out q paid := by
  unfold Copied at hcopied ⊢
  rw [hagain.billableHrs, hagain.copies] at hcopied
  exact hcopied

end OwnCopies

/-- Whenever the page asks for the copy it was quoted and paid for, the gate hosts it exactly if
the account may still host that much here, the file is still hosted and allowed, and what was free
is still free; the copy is then live as quoted, at the quoted price or for nothing. -/
theorem page_own_copy_lands (cfg : Config) (o : Outside (machine cfg)) (t : Int)
    (events later : List (GateEvent cfg)) (s : Session) (hname : s.username ≠ "")
    (hlower : cfg.toLowerCase s.username = s.username) (cid : Cid) (entered : Option Int)
    (fallback : Int) (q : OwnCopyQuoteReply)
    (hquote : ownCopyQuote cfg (serve cfg t events).world.db
      (hostedQuery s cid (hoursOf fallback entered)) = .ok q)
    (hfinite : q.quoted.quote.total.isFinite = true) (upper : String → String)
    (hspelled : Spelled cfg upper) (txId : String) (order : Purchase)
    (horder : hostOwnCopy upper s cid (hoursOf fallback entered) q.quoted.feeExempt
      (paymentFor cfg q.quoted) txId = .ok order)
    (hmoved : ∀ op, order.transfer = some op → Moved o txId op)
    (w : World) (hw : w = (serve cfg t (events ++ later)).world)
    (hfresh : ∀ recorded ∈ [s!"whitelist-free:owncopy:{cid}:{s.username}:{w.now}", txId],
      (getPaymentByTxId w.db recorded).isNone = true) :
    (∃ out, (lone cfg o order.request w).result = .ok (.ownCopy out) ∧
      Copied (lone cfg o order.request w).final.db cid s.username out q.quoted.quote
        (if (feeExemptEntryFor cfg w.db s.username).isSome then 0
          else q.quoted.quote.total.orZero)) ↔
    Offered cfg w.db s.username cid q.quoted.feeExempt ∧
      assertWhitelistAllows cfg w.db w.now s.username (cfg.byteCount cid) = .ok () := by
  obtain ⟨quoted, hroute, hreply⟩ := ok_of_bind hquote
  cases hreply
  obtain ⟨hcid, hmemo, hcost⟩ := quoted_page hroute
  obtain ⟨sent, hsent, htransfer, hrequest⟩ := hostOwnCopy_ok horder
  have hsize : ∀ hosted, alreadyHostedForCid w.db cid = some hosted →
      hosted.sizeBytes = cfg.byteCount cid :=
    fun hosted hhosted => hosted_size cfg t (events ++ later) (hw ▸ hhosted)
  have htx := sent_txId hsent (hfresh txId (by simp))
  rw [hrequest]
  constructor
  · rintro ⟨out, hout, -⟩
    have hquoted := quoted_of_ownCopy hout
    rw [hlower] at hquoted
    exact (quoteHosted_page hcost hsize htx).mp hquoted
  · rintro ⟨hoffered, hallows⟩
    obtain ⟨h, hquoted⟩ := (@quoteHosted_page cfg w.db s.username cid _ _ _ _ "owner" sent.2
      "CID is not currently hosted here — upload it via /reserve + /upload instead"
      (fun sizeBytes => assertWhitelistAllows cfg w.db w.now s.username sizeBytes) hcost
      hsize htx).mpr ⟨hoffered, hallows⟩
    have hagain := requoted_of_ok hcost hsize hoffered.exempt hquoted
    have hlands := @lone_ownCopy cfg o w
      (OwnCopyBody.mk s.username cid (some (.fin (hoursOf fallback entered))) none sent.2)
      s.username h (if h.feeExempt then 0 else quoted.quote.total.orZero) (by simp [hname, hcid])
      hlower hquoted ?_ ?_
    · obtain ⟨out, hout, hcopied⟩ := hlands
      refine ⟨out, hout, ?_⟩
      rw [← hagain.feeExempt]
      exact hcopied.requoted hagain
    · exact settles_page hspelled hcost hfinite hsent (sent_moved hsent (htransfer ▸ hmoved)) hmemo
        hagain hoffered.exempt _
    · exact sent_fresh htx hoffered.exempt hagain (hfresh _ (by simp))

section Sampled

open Server.Sample (config hostedByAlice)
open Paying (broadcastOn)

def copyOfBob : OwnCopyBody :=
  { owner := "bob", cid := "bafy", hoursRequested := some (.fin (24 : Int)), copies := none,
    txId := "tx-1" }

/-- Bob pays for a day, and hosts Alice's file too. -/
theorem page_own_copy_lands_bob : ∃ q out,
    ownCopyQuote config hosted.db (hostedQuery bob "bafy" 24) = .ok q ∧
    (lone config (broadcastOn (paidByBob q.quoted)) (.ownCopy copyOfBob) hosted).result =
      .ok (.ownCopy out) ∧
    Copied (lone config (broadcastOn (paidByBob q.quoted)) (.ownCopy copyOfBob) hosted).final.db
      "bafy" "bob" out q.quoted.quote q.quoted.quote.total.orZero := by
  have hseen : (ownCopyQuote config hosted.db (hostedQuery bob "bafy" 24)).map
      (fun q => (q.quoted.feeExempt, q.quoted.quote.total.isFinite)) = .ok (false, true) := by
    decide +kernel
  obtain ⟨q, hq, hcharged, hfinite⟩ := seen_of_map hseen
  have horder : hostOwnCopy id bob "bafy" 24 q.quoted.feeExempt (paymentFor config q.quoted) "tx-1" =
      .ok ⟨some (paidByBob q.quoted), .ownCopy copyOfBob⟩ := by
    rw [hcharged]
    rfl
  obtain ⟨out, hout, hcopied⟩ := (page_own_copy_lands config (broadcastOn (paidByBob q.quoted)) 0
    hostedByAlice [] bob (by decide) rfl "bafy" (some 24) 24 q hq hfinite id ⟨rfl, rfl, by decide⟩
    "tx-1" _ horder (fun op hop => by cases hop; exact ⟨rfl, rfl⟩) hosted rfl
    (by decide +kernel)).mpr ⟨by rw [hcharged]; exact offered_bob, by decide +kernel⟩
  rw [(by decide +kernel : (feeExemptEntryFor config hosted.db bob.username).isSome = false)] at hcopied
  exact ⟨q, out, hq, hout, hcopied⟩

end Sampled

/-! ## The page's extension -/

/-- The claim can be given more time, for nothing only while its owner is exempt. -/
def Extendable (cfg : Config) (db : Db) (claimId : Nat) (total : ℚ) : Prop :=
  ∃ c, getClaim db claimId = some c ∧ c.state = .active ∧ isPermanent c.expiryTs = false ∧
    isCidBlocked db c.cid = false ∧
    (total = 0 → (feeExemptEntryFor cfg db c.owner).isSome = true)

/-- The claim has its hours more, and its pin lasts as long. -/
def Extended (before after : Db) (claimId : Nat) (extraHrs : Int) : Prop :=
  ∃ c d, getClaim before claimId = some c ∧ getClaim after claimId = some d ∧ d.state = .active ∧
    d.paidHours = c.paidHours + extraHrs ∧ d.expiryTs = c.expiryTs + extraHrs * hourMs ∧
    ∀ p ∈ after.pins, d.pinId = some p.id → p.status = .active → p.expiresAt = d.expiryTs

section Extensions

variable {cfg : Config} {o : Outside (machine cfg)} {w : World} {upper : String → String}
  {s : Session} {db : Db} {claimId : Nat}

/-- Hours that are rounded already are not rounded again. -/
theorem billableHours_settled {hours : Number} {n : Int} (h : billableHours cfg hours = .ok n) :
    billableHours cfg (.fin n) = .ok n := by
  have hleast := billableHours_ok h
  have hpos : ¬ (n : ℚ) ≤ 0 := by
    have hn : (0 : ℚ) < n := by exact_mod_cast hleast
    exact not_le.mpr hn
  have hmin : cfg.minHours ≤ n := by
    unfold billableHours at h
    split at h
    · split at h
      · cases h
      · cases h
        exact le_max_left _ _
    · cases h
  unfold billableHours
  simp only [hpos, if_false, Int.ceil_intCast]
  rw [max_eq_right hmin]

/-- The quote of an extension is at the claim's own terms. -/
theorem extendQuote_ok {hours : Number} {q : ExtendQuoteReply}
    (h : extendQuote cfg db (some claimId) (some hours) = .ok q) :
    ∃ c, getClaim db claimId = some c ∧ billableHours cfg hours = .ok q.extraHrs ∧
      q.memo = s!"ipfs-gate:extend:{claimId}" ∧ q.total = extensionCost cfg c q.extraHrs ∧
      q.currency = c.currency := by
  unfold extendQuote at h
  dsimp only at h
  cases hfind : getClaim db claimId with
  | none =>
    rw [hfind] at h
    cases h
  | some c =>
    rw [hfind] at h
    obtain ⟨_, _, h⟩ := ok_of_bind h
    obtain ⟨n, hn, h⟩ := ok_of_bind h
    cases h
    exact ⟨c, rfl, hn, rfl, rfl, rfl⟩

theorem extensionCost_terms {c d : Claim} (h : termsOf d = termsOf c) (extraHrs : Int) :
    extensionCost cfg d extraHrs = extensionCost cfg c extraHrs := by
  unfold extensionCost
  rw [show d.sizeMB = c.sizeMB from congrArg Terms.sizeMB h,
    show d.rateLocked = c.rateLocked from congrArg Terms.rateLocked h,
    show d.copiesRequested = c.copiesRequested from congrArg Terms.copiesRequested h]

/-- No extension of a claim that was sold costs less than nothing. -/
theorem extensionCost_nonneg {c : Claim} {extraHrs : Int} {x : ℚ} (hsold : Sold cfg (termsOf c))
    (hhours : 1 ≤ extraHrs) (h : extensionCost cfg c extraHrs = .fin x) : 0 ≤ x := by
  have hmb : (0 : ℚ) ≤ c.sizeMB := by exact_mod_cast Int.le_trans Int.one_nonneg hsold.sizeMB
  have hcps : (0 : ℚ) ≤ c.copiesRequested := by
    exact_mod_cast Int.le_trans Int.one_nonneg hsold.copies
  rw [TopUps.extensionCost_eq h]
  apply TopUps.extensionCharge_nonneg
  · exact mul_nonneg (mul_nonneg hmb hsold.rateLocked) hcps
  · omega

theorem executeExtendClaim_ok {extraHrs : Int} {total : ℚ} {p : Paying.Payment} {txId : String}
    {order : Purchase} (h : executeExtendClaim upper s claimId extraHrs total p txId = .ok order) :
    ∃ sent, payQuote upper s (total ≤ 0) p txId = .ok sent ∧ order.transfer = sent.1 ∧
      order.request = .extend (ExtendRequest.mk claimId (.fin extraHrs) sent.2) := by
  unfold executeExtendClaim at h
  cases hsent : payQuote upper s (total ≤ 0) p txId with
  | error e =>
    rw [hsent] at h
    cases h
  | ok sent =>
    rw [hsent] at h
    cases h
    exact ⟨sent, rfl, rfl, rfl⟩

/-- An extension is free where it costs nothing and the owner is exempt. -/
def freeExtension (cfg : Config) (db : Db) (c : Claim) (extraHrs : Int) : Bool :=
  extensionCost cfg c extraHrs = .fin 0 && (feeExemptEntryFor cfg db c.owner).isSome

theorem checkExtend_iff {b : ExtendRequest} {extraHrs : Int} {c : Claim} {x : ExtendQuote}
    (hfind : getClaim db b.claimId = some c) :
    checkExtend cfg db b extraHrs = .ok x ↔ c.state = .active ∧ isPermanent c.expiryTs = false ∧
      isCidBlocked db c.cid = false ∧
      (freeExtension cfg db c extraHrs = true ∨
        b.txId ≠ "" ∧ (getPaymentByTxId db b.txId).isNone = true) ∧
      x = ⟨c, extensionCost cfg c extraHrs, freeExtension cfg db c extraHrs⟩ := by
  constructor
  · intro h
    unfold checkExtend at h
    rw [hfind] at h
    obtain ⟨_, hactive, h⟩ := ok_of_bind h
    obtain ⟨_, htimed, h⟩ := ok_of_bind h
    obtain ⟨_, hallowed, h⟩ := ok_of_bind h
    obtain ⟨_, hsent, h⟩ := ok_of_bind h
    obtain ⟨_, hunpaid, h⟩ := ok_of_bind h
    have hsent := check_ok.mp hsent
    have hunpaid := check_ok.mp hunpaid
    cases h
    refine ⟨of_decide_eq_true (check_ok.mp hactive), by simpa using check_ok.mp htimed,
      by simpa using check_ok.mp hallowed, ?_, rfl⟩
    rw [Bool.or_eq_true] at hsent hunpaid
    rcases hsent with hfree | hsent
    · exact Or.inl hfree
    · rcases hunpaid with hfree | hunpaid
      · exact Or.inl hfree
      · exact Or.inr ⟨of_decide_eq_true hsent, hunpaid⟩
  · rintro ⟨hactive, htimed, hallowed, hpaid, rfl⟩
    have hsent : (freeExtension cfg db c extraHrs || b.txId ≠ "") = true := by
      rcases hpaid with hpaid | hpaid <;> simp [hpaid]
    have hfresh : (freeExtension cfg db c extraHrs || (getPaymentByTxId db b.txId).isNone) = true := by
      rcases hpaid with hpaid | hpaid <;> simp [hpaid]
    unfold freeExtension extensionCost at hsent hfresh
    unfold checkExtend
    rw [hfind]
    simp only [hactive, htimed, hallowed, check, hsent, hfresh, Bool.not_false, decide_true, if_true]
    rfl

/-- Extending an active claim rewrites its row and that of its pin. -/
theorem extended_of_extendClaim {db : Db} {c : Claim} (hfind : getClaim db claimId = some c)
    (hactive : c.state = .active) (extraHrs : Int) : ∃ d after,
      extendClaim db claimId c.owner extraHrs = .ok (d, after) ∧ Extended db after claimId extraHrs := by
  obtain ⟨d, after, hrun⟩ := extendClaim_active extraHrs hfind hactive
  obtain ⟨claim, hclaim, hid, -, -, hclaims, hpins⟩ := extendClaim_ok hrun
  obtain ⟨hc, hcid⟩ := Table.find?_eq_some.mp hfind
  obtain rfl : claim = c := Table.eq_of_key hclaim hc (hid.trans hcid.symm)
  refine ⟨d, after, hrun, claim, { claim with
    paidHours := claim.paidHours + extraHrs,
    expiryTs := claim.expiryTs + extraHrs * hourMs }, hfind, ?_, hactive, rfl, rfl, ?_⟩
  · refine Table.find?_eq_some.mpr ⟨(hclaims _).mpr ⟨claim, hc, ?_⟩, hcid⟩
    unfold extendedClaim
    rw [if_pos hid]
  · intro p hp hpin hlive
    obtain ⟨p', -, rfl⟩ := (hpins p).mp hp
    unfold extendedPin at hpin hlive ⊢
    split
    · rfl
    · next hno =>
      rw [if_neg hno] at hpin hlive
      exact absurd ⟨hpin, hlive⟩ hno

/-- The last step of an extension. -/
theorem comes_extendClaim {c : Claim} {extraHrs : Int} {payments : _} {w' : World}
    {f : Claim → ExtendReply} {cs : List Call} {paid : ℚ} (hf : ∀ d, (f d).amountPaid = paid)
    (hfind : getClaim w.db claimId = some c) (hactive : c.state = .active)
    (hdb : w'.db = { w.db with payments }) :
    (Prog.bind (transact (.extendClaim claimId c.owner extraHrs)) (fun out =>
      Prog.bind (Prog.liftExcept out) (fun d => Prog.ret (f d))) : Handler cfg ExtendReply).Comes o
      (fun sol => ∃ out, sol.result = .ok out ∧ out.amountPaid = paid ∧
        Extended w.db sol.final.db claimId extraHrs) cs w' := by
  have hfind' : getClaim w'.db claimId = some c := by
    rw [hdb]
    exact hfind
  obtain ⟨d, after, hrun, hextended⟩ := extended_of_extendClaim hfind' hactive extraHrs
  rw [hdb] at hextended
  refine comes_transact ?_
  simp only [Stmt.sem, hrun, Stmt.fallible]
  exact ⟨_, rfl, hf d, hextended⟩

/-- An extension that is checked and covered is granted. -/
theorem lone_extend {b : ExtendRequest} {extraHrs : Int} {x : ExtendQuote} {paid : ℚ}
    (hhours : billableHours cfg b.extraHours = .ok extraHrs)
    (hchecked : checkExtend cfg w.db b extraHrs = .ok x)
    (hcovered : Covered cfg o
      { feeExempt := x.feeExempt, txId := b.txId, sender := x.claim.owner,
        expectedMemo := s!"ipfs-gate:extend:{b.claimId}", expectedAmount := x.cost,
        syntheticTxId := s!"whitelist-free:extend:{b.claimId}:{w.now}" } paid)
    (hfresh : (getPaymentByTxId w.db (if x.feeExempt then
      s!"whitelist-free:extend:{b.claimId}:{w.now}" else b.txId)).isNone = true) :
    ∃ out, (lone cfg o (.extend b) w).result = .ok (.extend out) ∧ out.amountPaid = paid ∧
      Extended w.db (lone cfg o (.extend b) w).final.db b.claimId extraHrs := by
  obtain ⟨hfind, hactive, -⟩ := checkExtend_ready hchecked
  have hcomes : (extend b : Handler cfg ExtendReply).Comes o (fun sol => ∃ out,
      sol.result = .ok out ∧ out.amountPaid = paid ∧
        Extended w.db sol.final.db b.claimId extraHrs) [] w := by
    unfold extend
    rw [hhours]
    refine comes_liftExcept (fun _ he => nomatch he) (fun n hn => comes_ask ?_)
    cases hn
    rw [hchecked]
    show (ite (x.feeExempt = true) _ _ : Handler cfg ExtendReply).Comes _ _ _ _
    rcases hcovered with ⟨hfree, rfl⟩ | ⟨hcharged, op, payload, settled, hmoved, hextract, hvalid, hpaid⟩
    · rw [if_pos hfree] at hfresh ⊢
      refine comes_clock (comes_record hfresh (fun id payments => ?_))
      exact comes_extendClaim (fun _ => rfl) hfind hactive rfl
    · have hno : ¬ x.feeExempt = true := Bool.eq_false_iff.mp hcharged
      rw [if_neg hno] at hfresh ⊢
      unfold verifyPayment confirmOnSidechain
      simp only [Prog.bind_eq, Prog.bind_assoc]
      refine comes_call (fun w₁ hw₁ => ?_)
      rw [hmoved.found]
      simp only [hextract, hvalid, Prog.liftExcept, Prog.ret_bind]
      refine comes_call (fun w₂ hw₂ => ?_)
      rw [hmoved.confirmed]
      have hwaited := hw₁.trans hw₂
      refine comes_record (by rw [hwaited.db_eq]; exact hfresh) (fun id payments => ?_)
      exact comes_extendClaim (fun _ => hpaid) hfind hactive (by rw [hwaited.db_eq])
  exact @lone_ok cfg o w _ _ _ (.extend b) rfl (fun out final => out.amountPaid = paid ∧
    Extended w.db final.db b.claimId extraHrs) hcomes

theorem checked_of_extend {b : ExtendRequest} {out : ExtendReply} {extraHrs : Int}
    (hhours : billableHours cfg b.extraHours = .ok extraHrs)
    (h : (lone cfg o (.extend b) w).result = .ok (.extend out)) :
    ∃ x, checkExtend cfg w.db b extraHrs = .ok x := by
  refine @of_lone_ok cfg o w _ (extend b) _ _ rfl _ ?_ _ h
  unfold extend
  rw [hhours]
  refine comes_liftExcept (fun _ he => nomatch he) (fun n hn => comes_ask ?_)
  cases hn
  refine comes_liftExcept (fun e _ out hout => by cases hout) (fun x hx => ?_)
  exact Comes.mono (Q := fun _ => True) trivial (fun _ _ _ _ => ⟨x, hx⟩)

/-- The quoted claim when the page asks for its hours, and the quote. -/
structure Priced (cfg : Config) (db : Db) (s : Session) (claimId : Nat) (q : ExtendQuoteReply)
    (c : Claim) : Prop where
  found : getClaim db claimId = some c
  owner : c.owner = s.username
  hours : billableHours cfg (.fin q.extraHrs) = .ok q.extraHrs
  price : q.total = .fin q.total.orZero
  cost : extensionCost cfg c q.extraHrs = .fin q.total.orZero
  nonneg : 0 ≤ q.total.orZero
  memo : q.memo = s!"ipfs-gate:extend:{claimId}"
  currency : q.currency = cfg.paymentCurrency

/-- A claim keeps its terms, so that its hours cost later what they were quoted at. -/
theorem priced_later {t : Int} {events later : List (GateEvent cfg)} {hours : Number}
    {q : ExtendQuoteReply}
    (hquote : extendQuote cfg (serve cfg t events).world.db (some claimId) (some hours) = .ok q)
    (howner : ∀ c ∈ (serve cfg t events).world.db.claims, c.claimId = claimId →
      c.owner = s.username)
    (hfinite : q.total.isFinite = true) :
    ∃ c, Priced cfg (serve cfg t (events ++ later)).world.db s claimId q c := by
  obtain ⟨c₀, hfind₀, hhours, hmemo, htotal, hcurrency⟩ := extendQuote_ok hquote
  obtain ⟨hmem₀, hid₀⟩ := Table.find?_eq_some.mp hfind₀
  have hsold := allSold_serve cfg t events c₀ hmem₀
  obtain ⟨c, hmem, hid, hterms, -⟩ := onRecord_serve cfg t events later hmem₀
  have hprice : q.total = .fin q.total.orZero := (Number.fin_orZero_iff.mpr hfinite).symm
  have hkept : c.owner = c₀.owner := congrArg Terms.owner hterms
  refine ⟨c, Table.find?_eq_some.mpr ⟨hmem, hid.trans hid₀⟩, hkept.trans (howner c₀ hmem₀ hid₀),
    billableHours_settled hhours, hprice, ?_, ?_, hmemo, hcurrency.trans hsold.currency⟩
  · rw [extensionCost_terms hterms, ← htotal]
    exact hprice
  · exact extensionCost_nonneg hsold (billableHours_ok hhours) (htotal.symm.trans hprice)

section Stages

variable {q : ExtendQuoteReply} {c : Claim} {p : Paying.Payment} {txId : String}
  {sent : Option Operation × String}

theorem Priced.free_iff (h : Priced cfg db s claimId q c) :
    freeExtension cfg db c q.extraHrs = true ↔
      q.total.orZero = 0 ∧ (feeExemptEntryFor cfg db c.owner).isSome = true := by
  unfold freeExtension
  rw [h.cost]
  simp

/-- What the page does not pay for is free at the gate, if the owner is exempt. -/
theorem Priced.stillFree (h : Priced cfg db s claimId q c)
    (hexempt : q.total.orZero = 0 → (feeExemptEntryFor cfg db c.owner).isSome = true)
    (hle : decide (q.total.orZero ≤ 0) = true) : freeExtension cfg db c q.extraHrs = true := by
  have hzero : q.total.orZero = 0 := le_antisymm (of_decide_eq_true hle) h.nonneg
  exact h.free_iff.mpr ⟨hzero, hexempt hzero⟩

/-- Hours that are granted were those of a claim that could have them. -/
theorem Priced.extendable (h : Priced cfg w.db s claimId q c)
    (hsent : payQuote upper s (q.total.orZero ≤ 0) p txId = .ok sent)
    (hfresh : (getPaymentByTxId w.db txId).isNone = true) {out : ExtendReply}
    (hout : (lone cfg o (.extend (ExtendRequest.mk claimId (.fin q.extraHrs) sent.2)) w).result =
      .ok (.extend out)) : Extendable cfg w.db claimId q.total.orZero := by
  obtain ⟨x, hx⟩ := checked_of_extend h.hours hout
  obtain ⟨hactive, htimed, hallowed, hpaid, -⟩ := (checkExtend_iff h.found).mp hx
  refine ⟨c, h.found, hactive, htimed, hallowed, fun hzero => ?_⟩
  rcases hpaid with hexempt | ⟨hsome, -⟩
  · exact (h.free_iff.mp hexempt).2
  · rcases sent_txId hsent hfresh with ⟨-, hnone⟩ | ⟨hcharged, -⟩
    · exact absurd hnone hsome
    · exact absurd hzero.le (of_decide_eq_false hcharged)

/-- The page has paid for the hours what the gate asks for them. -/
theorem Priced.covered (h : Priced cfg w.db s claimId q c) (hspelled : Spelled cfg upper)
    (hsent : payQuote upper s (q.total.orZero ≤ 0) (extensionPayment cfg q) txId = .ok sent)
    (hmoved : ∀ op, sent.1 = some op → Moved o txId op)
    (hexempt : q.total.orZero = 0 → (feeExemptEntryFor cfg w.db c.owner).isSome = true) :
    Covered cfg o
      { feeExempt := freeExtension cfg w.db c q.extraHrs, txId := sent.2, sender := c.owner,
        expectedMemo := s!"ipfs-gate:extend:{claimId}",
        expectedAmount := extensionCost cfg c q.extraHrs,
        syntheticTxId := s!"whitelist-free:extend:{claimId}:{w.now}" } q.total.orZero := by
  have hcovered := @covered_page cfg o upper s hspelled _ _ _ _ hsent (sent_moved hsent hmoved)
    { feeExempt := freeExtension cfg w.db c q.extraHrs, txId := sent.2, sender := c.owner,
      expectedMemo := s!"ipfs-gate:extend:{claimId}",
      expectedAmount := extensionCost cfg c q.extraHrs,
      syntheticTxId := s!"whitelist-free:extend:{claimId}:{w.now}" }
    q.total.orZero rfl h.currency h.price h.nonneg h.memo rfl h.owner (fun _ => h.cost)
    (h.stillFree hexempt)
  have hpaid : (if freeExtension cfg w.db c q.extraHrs then 0 else q.total.orZero) =
      q.total.orZero := by
    split
    · next hfree => exact (h.free_iff.mp hfree).1.symm
    · rfl
  rw [← hpaid]
  exact hcovered

/-- A claim that can have the hours is given them. -/
theorem Priced.lands (h : Priced cfg w.db s claimId q c) (hspelled : Spelled cfg upper)
    (hsent : payQuote upper s (q.total.orZero ≤ 0) (extensionPayment cfg q) txId = .ok sent)
    (hmoved : ∀ op, sent.1 = some op → Moved o txId op)
    (hfresh : ∀ recorded ∈ [s!"whitelist-free:extend:{claimId}:{w.now}", txId],
      (getPaymentByTxId w.db recorded).isNone = true)
    (hextendable : Extendable cfg w.db claimId q.total.orZero) :
    ∃ out, (lone cfg o (.extend (ExtendRequest.mk claimId (.fin q.extraHrs) sent.2)) w).result =
        .ok (.extend out) ∧ out.amountPaid = q.total.orZero ∧
      Extended w.db (lone cfg o (.extend (ExtendRequest.mk claimId (.fin q.extraHrs) sent.2)) w).final.db
        claimId q.extraHrs := by
  obtain ⟨c', hfind', hactive, htimed, hallowed, hexempt⟩ := hextendable
  obtain rfl : c = c' := Option.some.inj (h.found.symm.trans hfind')
  have htx := sent_txId hsent (hfresh txId (by simp))
  have hx := (@checkExtend_iff cfg w.db (ExtendRequest.mk claimId (.fin q.extraHrs) sent.2)
    q.extraHrs c _ h.found).mpr ⟨hactive, htimed, hallowed, ?_, rfl⟩
  · refine @lone_extend cfg o w (ExtendRequest.mk claimId (.fin q.extraHrs) sent.2) q.extraHrs _
      q.total.orZero h.hours hx (h.covered hspelled hsent hmoved hexempt) ?_
    show (getPaymentByTxId w.db (if freeExtension cfg w.db c q.extraHrs then _ else _)).isNone = true
    split
    · exact hfresh _ (by simp)
    · next hno =>
      rcases htx with ⟨hzero, -⟩ | ⟨-, -, hnone⟩
      · exact absurd (h.stillFree hexempt hzero) hno
      · exact hnone
  · rcases htx with ⟨hzero, -⟩ | ⟨-, hsome⟩
    · exact Or.inl (h.stillFree hexempt hzero)
    · exact Or.inr hsome

end Stages

end Extensions

/-- Whenever the page asks for the hours it was quoted and has paid for, the gate adds them exactly
if the claim is still active, timed and allowed, and its owner still exempt if they are free; the
claim and its pin then last for the quoted hours more, at the quoted price. -/
theorem page_extension_lands (cfg : Config) (o : Outside (machine cfg)) (t : Int)
    (events later : List (GateEvent cfg)) (s : Session) (claimId : Nat) (entered : Option Int)
    (q : ExtendQuoteReply)
    (hquote : extendQuote cfg (serve cfg t events).world.db (some claimId)
      (some (.fin (hoursOf 1 entered))) = .ok q)
    (howner : ∀ c ∈ (serve cfg t events).world.db.claims, c.claimId = claimId →
      c.owner = s.username)
    (hfinite : q.total.isFinite = true) (upper : String → String)
    (hspelled : Spelled cfg upper) (txId : String) (order : Purchase)
    (horder : executeExtendClaim upper s claimId q.extraHrs q.total.orZero (extensionPayment cfg q)
      txId = .ok order)
    (hmoved : ∀ op, order.transfer = some op → Moved o txId op)
    (w : World) (hw : w = (serve cfg t (events ++ later)).world)
    (hfresh : ∀ recorded ∈ [s!"whitelist-free:extend:{claimId}:{w.now}", txId],
      (getPaymentByTxId w.db recorded).isNone = true) :
    (∃ out, (lone cfg o order.request w).result = .ok (.extend out) ∧
      out.amountPaid = q.total.orZero ∧
      Extended w.db (lone cfg o order.request w).final.db claimId q.extraHrs) ↔
    Extendable cfg w.db claimId q.total.orZero := by
  obtain ⟨sent, hsent, htransfer, hrequest⟩ := executeExtendClaim_ok horder
  obtain ⟨c, hpriced⟩ : ∃ c, Priced cfg w.db s claimId q c :=
    hw ▸ priced_later hquote howner hfinite
  rw [hrequest]
  constructor
  · rintro ⟨out, hout, -⟩
    exact hpriced.extendable hsent (hfresh txId (by simp)) hout
  · exact hpriced.lands hspelled hsent (htransfer ▸ hmoved) hfresh

section Sampled

open Server.Sample (config hostedByAlice)
open Paying (broadcastOn sampleSession)

def extensionOfAlice : ExtendRequest := { claimId := 1, extraHours := .fin (5 : Int), txId := "tx-1" }

/-- Alice pays for five hours more. -/
theorem page_extension_lands_alice : ∃ q op out,
    extendQuote config hosted.db (some 1) (some (.fin (5 : Int))) = .ok q ∧
    (lone config (broadcastOn op) (.extend extensionOfAlice) hosted).result = .ok (.extend out) ∧
    out.amountPaid = q.total.orZero ∧
    Extended hosted.db (lone config (broadcastOn op) (.extend extensionOfAlice) hosted).final.db 1
      q.extraHrs := by
  have hseen : (extendQuote config hosted.db (some 1) (some (.fin (5 : Int)))).map
      (fun q => (decide (q.total.orZero ≤ 0 ∨ q.total.orZero = 0 ∨ q.extraHrs ≠ 5),
        q.total.isFinite)) = .ok (false, true) := by
    decide +kernel
  obtain ⟨q, hq, hprice, hfinite⟩ := seen_of_map hseen
  obtain ⟨hpaid, hsome, hhrs⟩ : ¬ q.total.orZero ≤ 0 ∧ q.total.orZero ≠ 0 ∧ q.extraHrs = 5 := by
    simpa [not_or] using hprice
  have horder : executeExtendClaim id sampleSession 1 q.extraHrs q.total.orZero
      (extensionPayment config q) "tx-1" =
      .ok ⟨some (keychainTransferGateToken id sampleSession (extensionPayment config q)),
        .extend extensionOfAlice⟩ := by
    unfold executeExtendClaim payQuote
    rw [hhrs, if_neg (by simpa using hpaid)]
    rfl
  have hrow : (getClaim hosted.db 1).isSome = true ∧ ∀ c ∈ getClaim hosted.db 1,
      c.state = .active ∧ isPermanent c.expiryTs = false ∧ isCidBlocked hosted.db c.cid = false := by
    decide +kernel
  have hextendable : Extendable config hosted.db 1 q.total.orZero := by
    obtain ⟨c, hc⟩ := Option.isSome_iff_exists.mp hrow.1
    obtain ⟨hactive, htimed, hallowed⟩ := hrow.2 c hc
    exact ⟨c, hc, hactive, htimed, hallowed, fun hzero => absurd hzero hsome⟩
  obtain ⟨out, hout, hamount, hextended⟩ := (page_extension_lands config
    (broadcastOn (keychainTransferGateToken id sampleSession (extensionPayment config q))) 0
    hostedByAlice [] sampleSession 1 (some 5) q hq (by decide +kernel) hfinite id
    ⟨rfl, rfl, by decide⟩ "tx-1" _ horder (fun op hop => by cases hop; exact ⟨rfl, rfl⟩) hosted rfl
    (by decide +kernel)).mpr hextendable
  exact ⟨q, _, out, hq, hout, hamount, hextended⟩

end Sampled

end IpfsGate.Client.Quoting
