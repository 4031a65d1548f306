import IpfsGate.Server.Funding

/-!
# What stands behind a grant

The statements that create or lengthen a claim for a payment come at the end of a handler. This
module collects what the handler has established by then: the check of its first turn, what the
chain answered about the payment, and the one payments row it has added.
-/
namespace IpfsGate.Server

open Quota Pricing LedgerRun
open Lib Lib.Prog
open Lib (Table)

/-- A transfer that the chain showed: by the sender, under the memo and of what was due. -/
def Transferred (cfg : Config) (A : Answers) (txId : String) (sender : Account) (memo : String)
    (due : Number) (paid : Paid) : Prop :=
  ∃ operations payload, A (.getTransaction txId) (.ok operations) ∧
    extractTokenTransferOp operations sender = .ok payload ∧
    validateTransferPayload cfg payload memo due = .ok paid

/-- Nothing is due from a fee-exempt payer; the others have paid. -/
structure PaidFor (cfg : Config) (A : Answers) (p : PaymentRequest) (amount : Coins) : Prop where
  free : p.feeExempt = true → amount = 0
  transferred : p.feeExempt = false → ∃ paid,
    Transferred cfg A p.txId p.sender p.expectedMemo p.expectedAmount paid ∧
      amount = paid.amount.value

/-- The quote a reservation keeps, at the rate of an exempt account or at the gate's. -/
def QuotedFor (cfg : Config) (sizeBytes : Nat) (quote : ReservationQuote) : Prop :=
  ∃ hours copies feeExempt q, (cfg.hostingPermanent = true → hours = .fin cfg.minHours) ∧
    calculateCost cfg sizeBytes hours copies (rateFor cfg feeExempt) = .ok q ∧
      quote = { hoursRequested := q.billableHrs, copies := q.copies, quotedAmount := q.total }

/-! ## The four kinds of grants -/

/-- An upload that arrived in `w₀` and committed. -/
structure UploadBacked (cfg : Config) (A : Answers) (b : UploadRequest) (w₀ : World) (c : Checked)
    (past : Trace (machine cfg)) (reservationId : Nat) (u : Upload) : Prop where
  checked : checkUpload cfg w₀.db w₀.now b = .ok c
  reservationId : reservationId = c.reservation.id
  cid : u.cid = b.file
  owner : u.owner = c.reservation.uploader
  sizeBytes : u.sizeBytes = cfg.byteCount b.file
  sizeMB : billableMB cfg (cfg.byteCount b.file) = .ok u.sizeMB
  rateLocked : u.rateLocked = rateFor cfg c.feeExempt
  paidHours : u.paidHours = uploadHours cfg c.reservation
  copies : u.copies = cappedCopies cfg (.fin c.reservation.copies)
  signed : cfg.verifyHiveSig (uploadProofMessage cfg b.file c.reservation) b.uploadProofSig
    b.uploaderPubkey = true
  bound : c.feeExempt = true → ∃ keys,
    A (.getAccountPostingPubkeys c.reservation.uploader) (.ok keys) ∧
      keys.contains b.uploaderPubkey = true
  paid : PaidFor cfg A
    { feeExempt := c.feeExempt, txId := b.txId, sender := c.reservation.uploader,
      expectedMemo := memoForReservation c.reservation.id,
      expectedAmount := .fin c.reservation.quotedAmount, syntheticTxId := "" } u.amountPaid
  held : purse past = .held u.paymentId

/-- A pledge by either route. -/
structure PledgeBacked (cfg : Config) (A : Answers) (purpose : String) (b : PledgeRequest)
    (w₀ : World) (q : HostedQuote) (past : Trace (machine cfg)) (g : Pledge) : Prop where
  quoted : quoteHosted cfg w₀.db "pledger" (cfg.toLowerCase b.pledger) b.cid b.txId
    (b.hoursRequested.getD (.fin cfg.defaultHours)) (b.copies.getD (.fin 1)) (fun _ => .ok ())
    "CID is not currently hosted here — you can only guard a live file" = .ok q
  cid : g.cid = b.cid
  owner : g.owner = cfg.toLowerCase b.pledger
  sizeBytes : g.sizeBytes = q.sizeBytes
  sizeMB : g.sizeMB = q.quote.billableMB
  rateLocked : g.rateLocked = rateFor cfg q.feeExempt
  paidHours : g.paidHours = q.quote.billableHrs
  copies : g.copies = q.quote.copies
  paid : ∃ synthetic, PaidFor cfg A
    { feeExempt := q.feeExempt, txId := b.txId, sender := cfg.toLowerCase b.pledger,
      expectedMemo := s!"ipfs-gate:{purpose}:{b.cid}", expectedAmount := q.quote.total,
      syntheticTxId := synthetic } g.amountPaid
  held : purse past = .held g.paymentId

structure OwnCopyBacked (cfg : Config) (A : Answers) (b : OwnCopyBody) (w₀ : World)
    (q : HostedQuote) (past : Trace (machine cfg)) (n : OwnCopyRequest) : Prop where
  quoted : quoteHosted cfg w₀.db "owner" (cfg.toLowerCase b.owner) b.cid b.txId
    (if cfg.hostingPermanent then .fin cfg.minHours
      else b.hoursRequested.getD (.fin cfg.defaultHours)) (b.copies.getD (.fin 1))
    (fun sizeBytes => assertWhitelistAllows cfg w₀.db w₀.now (cfg.toLowerCase b.owner) sizeBytes)
    "CID is not currently hosted here — upload it via /reserve + /upload instead" = .ok q
  cid : n.cid = b.cid
  owner : n.owner = cfg.toLowerCase b.owner
  rateLocked : n.rateLocked = rateFor cfg q.feeExempt
  paidHours : n.paidHours = if cfg.hostingPermanent then cfg.minHours else q.quote.billableHrs
  copies : n.copies = q.quote.copies
  paid : ∃ synthetic, PaidFor cfg A
    { feeExempt := q.feeExempt, txId := b.txId, sender := cfg.toLowerCase b.owner,
      expectedMemo := s!"ipfs-gate:owncopy:{b.cid}", expectedAmount := q.quote.total,
      syntheticTxId := synthetic } n.amountPaid
  held : purse past = .held n.paymentId

structure ExtendBacked (cfg : Config) (A : Answers) (b : ExtendRequest) (w₀ : World)
    (q : ExtendQuote) (past : Trace (machine cfg)) (claimId : Nat) (owner : Account)
    (extraHours : Int) : Prop where
  hours : billableHours cfg b.extraHours = .ok extraHours
  checked : checkExtend cfg w₀.db b extraHours = .ok q
  claimId : claimId = b.claimId
  owner : owner = q.claim.owner
  paid : ∃ amount, PaidFor cfg A
    { feeExempt := q.feeExempt, txId := b.txId, sender := q.claim.owner,
      expectedMemo := s!"ipfs-gate:extend:{b.claimId}", expectedAmount := q.cost,
      syntheticTxId := "" } amount
  held : ∃ id, purse past = .held id

/-- What a request that arrived under a condition has behind it when it runs a statement. -/
def Backed (cfg : Config) (A : Answers) (Arrives : Request → World → Prop) (q : Request)
    (past : Trace (machine cfg)) (s : Stmt) (w : World) : Prop :=
  match q, s with
  | .reserve _, .createReservation _ sizeBytes _ quote => QuotedFor cfg sizeBytes quote
  | .upload b, .finaliseUpload id u => ∃ w₀ c, Arrives (.upload b) w₀ ∧ Evolves w₀ w ∧
      UploadBacked cfg A b w₀ c past id u
  | .guardianPledge b, .pledge g => ∃ w₀ q, Arrives (.guardianPledge b) w₀ ∧ Evolves w₀ w ∧
      PledgeBacked cfg A "guardian" b w₀ q past g
  | .backstopPledge b, .pledge g => ∃ w₀ q, Arrives (.backstopPledge b) w₀ ∧ Evolves w₀ w ∧
      PledgeBacked cfg A "backstop" b w₀ q past g
  | .ownCopy b, .createOwnCopyClaim n => ∃ w₀ q, Arrives (.ownCopy b) w₀ ∧ Evolves w₀ w ∧
      OwnCopyBacked cfg A b w₀ q past n
  | .extend b, .extendClaim claimId owner extraHours => ∃ w₀ q, Arrives (.extend b) w₀ ∧
      Evolves w₀ w ∧ ExtendBacked cfg A b w₀ q past claimId owner extraHours
  | _, _ => True

/-- Every statement is of its request's table, is backed, and spends at most one payment once. -/
structure Justified (cfg : Config) (A : Answers) (Arrives : Request → World → Prop) (q : Request)
    (past : Trace (machine cfg)) (s : Stmt) (w : World) : Prop where
  tabled : tabled cfg q past s w
  backed : Backed cfg A Arrives q past s w
  balanced : (purse (past ++ [(s, w)])).Balanced

/-- The requests that pay for one grant. -/
def Request.buys : Request → Bool
  | .guardianPledge _ | .backstopPledge _ | .ownCopy _ | .extend _ => true
  | _ => false

/-- A granting transaction that fails. -/
def Refuses : Stmt → World → Prop
  | .createOwnCopyClaim n, w => (Quota.createOwnCopyClaim w.db w.now n).isOk = false
  | .extendClaim claimId owner extraHours, w =>
    (Quota.extendClaim w.db claimId owner extraHours).isOk = false
  | _, _ => False

/-- A granting transaction that succeeds. -/
def Grants (s : Stmt) (w : World) : Prop :=
  (fundedClaim (s, w)).isSome = true ∨ lengthens (s, w) = true

/-- A buying request ends with its grant; if it fails, it has recorded nothing or was refused
its grant. -/
def Concluded (cfg : Config) (q : Request) : Outcome (machine cfg) Body := fun r past _ =>
  q.buys = true → match r with
    | .ok _ => ∃ past' s w, past = past' ++ [(s, w)] ∧ Grants s w
    | .error _ => (purse past).recorded = [] ∨
      ∃ past' s w, past = past' ++ [(s, w)] ∧ Refuses s w

/-! ## What the checks settle -/

section Checks

variable {cfg : Config} {db : Db}

theorem checkUpload_ok {now : Int} {b : UploadRequest} {c : Checked}
    (h : checkUpload cfg db now b = .ok c) :
    getReservation db b.reservationId = some c.reservation ∧
      checkReservation now (cfg.byteCount b.file) c.reservation = .ok () ∧
      c.feeExempt = isFeeExemptUpload cfg db c.reservation := by
  unfold checkUpload at h
  iterate 2 (obtain ⟨_, _, h⟩ := ok_of_bind h)
  cases hr : getReservation db b.reservationId with
  | none => rw [hr] at h; cases h
  | some r =>
    rw [hr] at h
    obtain ⟨_, hchecked, h⟩ := ok_of_bind h
    iterate 6 (obtain ⟨_, _, h⟩ := ok_of_bind h)
    cases h
    exact ⟨rfl, hchecked, rfl⟩

/-- What an extension costs its claim. -/
def extensionCost (cfg : Config) (claim : Claim) (extraHours : Int) : Number :=
  roundCoinsNum cfg ((((Number.fin claim.sizeMB).mul (.fin extraHours)).mul
    (.fin claim.rateLocked)).mul (.fin claim.copiesRequested))

theorem checkExtend_ok {b : ExtendRequest} {extraHrs : Int} {q : ExtendQuote}
    (h : checkExtend cfg db b extraHrs = .ok q) :
    q.claim ∈ db.claims ∧ q.claim.claimId = b.claimId ∧
      q.cost = extensionCost cfg q.claim extraHrs ∧ q.feeExempt = (q.cost = .fin 0 && (feeExemptEntryFor cfg db q.claim.owner).isSome) := by
  unfold checkExtend getClaim at h
  cases hfind : db.claims.find? b.claimId with
  | none => rw [hfind] at h; cases h
  | some claim =>
    rw [hfind] at h
    iterate 5 (obtain ⟨_, _, h⟩ := ok_of_bind h)
    cases h
    obtain ⟨hmem, hid⟩ := Table.find?_eq_some.mp hfind
    exact ⟨hmem, hid, rfl, rfl⟩

theorem quoteHosted_feeExempt {role : String} {account : Account} {cid : Cid}
    {txId : String} {hours copies : Number} {allows : Nat → Except Fault Unit} {notHosted : String}
    {q : HostedQuote}
    (h : quoteHosted cfg db role account cid txId hours copies allows notHosted = .ok q) :
    q.feeExempt = (feeExemptEntryFor cfg db account).isSome := by
  unfold quoteHosted at h
  iterate 4 (obtain ⟨_, _, h⟩ := ok_of_bind h)
  cases hh : alreadyHostedForCid db cid with
  | none => rw [hh] at h; cases h
  | some hosted =>
    rw [hh] at h
    iterate 3 (obtain ⟨_, _, h⟩ := ok_of_bind h)
    cases h
    rfl

end Checks

/-! ## Rules -/

/-- A statement that records no payment and grants nothing. -/
def Stmt.Unfunded (s : Stmt) : Prop := ∀ w, paymentOf (s, w) = none ∧ fundedClaim (s, w) = none ∧
  lengthens (s, w) = false

section Rules

variable {cfg : Config} {Inv : World → Prop} {Ok : Stmt → World → Prop} {A : Answers}
  {Arrives : Request → World → Prop} {q : Request} {α β : Type} {past : Trace (machine cfg)}
  {w : World}

/-- The handler's statements are justified, in runs that meet the condition with such answers. -/
abbrev Walk (Inv : World → Prop) (Ok : Stmt → World → Prop) (A : Answers) (Arrives : Request → World → Prop)
    (q : Request) (p : Handler cfg α) (Q : Outcome (machine cfg) α) (past : Trace (machine cfg))
    (w : World) : Prop :=
  p.Assures (evolving cfg Inv Ok A) (Justified cfg A Arrives q) Q past w

theorem Walk.perform {c : Call} {f : c.Reply → Handler cfg β} {Q : Outcome (machine cfg) β}
    (h : ∀ r w', Evolves w w' → A c r → Walk Inv Ok A Arrives q (f r) Q past w') :
    Walk Inv Ok A Arrives q (Prog.bind (Server.perform c) f) Q past w :=
  fun w' hl _ r ha => h r w' hl ha

theorem Walk.idle {s : Stmt} {f : s.Out → Handler cfg β} {Q : Outcome (machine cfg) β}
    (hs : s.Unfunded) (htab : q.mayWrite s = true ∧ s.Checked w)
    (hback : Backed cfg A Arrives q past s w) (hbal : (purse past).Balanced)
    (h : ∀ o past' w', purse past' = purse past → Evolves w w' →
      Walk Inv Ok A Arrives q (f o) Q past' w') :
    Walk Inv Ok A Arrives q (Prog.bind (transact s) f) Q past w := by
  have hpurse : purse (past ++ [(s, w)]) = purse past := by
    rw [purse_append]
    exact Purse.note_of_idle (hs w).1 (hs w).2.1 (hs w).2.2
  intro _
  refine ⟨⟨htab, hback, ?_⟩, fun _ => h _ _ _ hpurse (evolves_sem cfg htab.2)⟩
  rw [hpurse]
  exact hbal

/-- Adding the request's payments row. -/
theorem Walk.record {p : NewPayment} {f : Nat → Handler cfg β} {Q : Outcome (machine cfg) β}
    (htab : q.mayWrite (.recordPayment p) = true ∧ p.status = .confirmed)
    (hback : Backed cfg A Arrives q past (.recordPayment p) w) (hempty : purse past = .empty)
    (hfail : ∀ e past' w', purse past' = .empty → Q (.error e) past' w')
    (hok : ∀ id past' w', purse past' = .held id → Evolves w w' →
      Walk Inv Ok A Arrives q (f id) Q past' w') :
    Walk Inv Ok A Arrives q
      (Prog.bind (transact (.recordPayment p)) (fun o => Prog.bind (liftExcept o) f)) Q past w := by
  intro _
  have hev : Evolves w ((Stmt.recordPayment p).sem cfg w).2 := evolves_sem cfg htab.2
  have hpurse : purse (past ++ [(Stmt.recordPayment p, w)]) =
      Purse.empty.note (.recordPayment p, w) := by
    rw [purse_append, hempty]
  cases hrun : Quota.recordPayment w.db w.now p with
  | error e =>
    have hnone : purse (past ++ [(Stmt.recordPayment p, w)]) = .empty := by
      rw [hpurse, Purse.note_record hrun]
      rfl
    refine ⟨⟨htab, hback, hnone ▸ .unpaid⟩, fun _ => ?_⟩
    refine assures_liftExcept (fun e' _ => hfail e' _ _ hnone) (fun id hid => ?_)
    simp only [Stmt.sem, hrun, Stmt.fallible] at hid
    cases hid
  | ok r =>
    have hheld : purse (past ++ [(Stmt.recordPayment p, w)]) = .held r.1 := by
      rw [hpurse, Purse.note_record hrun]
      rfl
    refine ⟨⟨htab, hback, hheld ▸ .paid r.1⟩, fun _ => ?_⟩
    refine assures_liftExcept (fun e' he => ?_) (fun id hid => ?_)
    · simp only [Stmt.sem, hrun, Stmt.fallible] at he
      cases he
    · simp only [Stmt.sem, hrun, Stmt.fallible] at hid
      cases hid
      exact hok r.1 _ _ hheld hev

/-- What a part without statements leaves: the trace, and what it has learnt. -/
abbrev Learnt (past : Trace (machine cfg)) (w : World) (P : α → Prop) : Outcome (machine cfg) α :=
  fun r past' w' => past' = past ∧ Evolves w w' ∧ ∀ a, r = .ok a → P a

/-- Go on after a part without statements. -/
theorem Walk.learn {p : Handler cfg α} {f : α → Handler cfg β} {P : α → Prop}
    {Q : Outcome (machine cfg) β} (hp : Walk Inv Ok A Arrives q p (Learnt past w P) past w)
    (hfail : ∀ e w', Q (.error e) past w')
    (hok : ∀ a w', Evolves w w' → P a → Walk Inv Ok A Arrives q (f a) Q past w') :
    Walk Inv Ok A Arrives q (Prog.bind p f) Q past w := by
  refine assures_bind (Assures.mono ?_ hp)
  rintro r past' w' ⟨rfl, hev, hP⟩
  cases r with
  | error e => exact hfail e w'
  | ok a => exact hok a w' hev (hP a rfl)

theorem verifyPayment_walk {txId : String} {sender : Account} {memo : String} {due : Number} :
    Walk Inv Ok A Arrives q (verifyPayment txId sender memo due)
      (Learnt past w (Transferred cfg A txId sender memo due)) past w := by
  unfold verifyPayment
  refine Walk.perform (fun r w' hev ha => ?_)
  cases r with
  | error e => exact ⟨rfl, hev, fun _ h => nomatch h⟩
  | ok operations =>
    refine assures_liftExcept (fun e _ => ⟨rfl, hev, fun _ h => nomatch h⟩) (fun payload hp => ?_)
    cases hv : validateTransferPayload cfg payload memo due with
    | error e => exact ⟨rfl, hev, fun _ h => nomatch h⟩
    | ok paid =>
      refine ⟨rfl, hev, fun a h => ?_⟩
      cases h
      exact ⟨operations, payload, ha, hp, hv⟩

theorem confirmOnSidechain_walk {txId : String} :
    Walk Inv Ok A Arrives q (confirmOnSidechain txId : Handler cfg Unit)
      (Learnt past w (fun _ => True)) past w := by
  unfold confirmOnSidechain
  refine Walk.perform (fun r w' hev _ => ?_)
  split
  · exact ⟨rfl, hev, fun _ h => nomatch h⟩
  · exact ⟨rfl, hev, fun _ _ => trivial⟩

/-- A settled payment is recorded once and is what the request was asked for. -/
abbrev Paying (cfg : Config) (A : Answers) (p : PaymentRequest) (w : World) :
    Outcome (machine cfg) Settled := fun r past' w' =>
  match r with
  | .ok settled => Evolves w w' ∧ purse past' = .held settled.paymentId ∧
      PaidFor cfg A p settled.paid
  | .error _ => (purse past').recorded = []

theorem verifyOrSkipPayment_walk {p : PaymentRequest} (hempty : purse past = .empty)
    (htab : ∀ n, q.mayWrite (.recordPayment n) = true)
    (hback : ∀ n past w, Backed cfg A Arrives q past (.recordPayment n) w) :
    Walk Inv Ok A Arrives q (verifyOrSkipPayment p) (Paying cfg A p w) past w := by
  have hnone : ∀ {past : Trace (machine cfg)}, purse past = .empty → (purse past).recorded = [] :=
    fun h => by rw [h]; rfl
  unfold verifyOrSkipPayment
  by_cases hfree : p.feeExempt = true
  · rw [if_pos hfree]
    refine Walk.record ⟨htab _, rfl⟩ (hback _ _ _) hempty (fun _ _ _ h => hnone h) (fun id past' w' hheld hev => ?_)
    refine Walk.perform (fun _ w'' hev' _ => ⟨hev.trans hev', hheld, fun _ => rfl, fun hno => ?_⟩)
    rw [hfree] at hno
    cases hno
  · rw [if_neg hfree]
    refine Walk.learn verifyPayment_walk (fun _ _ => hnone hempty) (fun paid w₁ hev₁ hpaid => ?_)
    refine Walk.learn confirmOnSidechain_walk (fun _ _ => hnone hempty) (fun _ w₂ hev₂ _ => ?_)
    refine Walk.record ⟨htab _, rfl⟩ (hback _ _ _) hempty (fun _ _ _ h => hnone h) (fun id past' w₃ hheld hev₃ => ?_)
    refine Walk.perform (fun _ w₄ hev₄ _ => ⟨((hev₁.trans hev₂).trans hev₃).trans hev₄, hheld, ?_, ?_⟩)
    · exact fun hyes => absurd hyes hfree
    · exact fun _ => ⟨paid, hpaid, rfl⟩

theorem Walk.ask {γ : Type} {g : Db → γ} {f : γ → Handler cfg β} {Q : Outcome (machine cfg) β}
    (h : Walk Inv Ok A Arrives q (f (g w.db)) Q past w) :
    Walk Inv Ok A Arrives q (Prog.bind (Server.ask g) f) Q past w := h

theorem Walk.clock {f : Int → Handler cfg β} {Q : Outcome (machine cfg) β}
    (h : Walk Inv Ok A Arrives q (f w.now) Q past w) :
    Walk Inv Ok A Arrives q (Prog.bind Server.clock f) Q past w := h

/-- The claim that the held payment funds. -/
theorem Purse.balanced_created {id : Nat} {a : Stmt × World} (hheld : purse past = .held id)
    (hp : paymentOf a = none) (hc : fundedClaim a = some id) (hl : lengthens a = false) :
    (purse (past ++ [a])).Balanced := by
  rw [purse_append, hheld]
  unfold note
  rw [hp, hc, hl]
  exact .created id

/-- The extension that the held payment funds. -/
theorem Purse.balanced_extended {id : Nat} {a : Stmt × World} (hheld : purse past = .held id)
    (hp : paymentOf a = none) (hc : fundedClaim a = none) (hl : lengthens a = true) :
    (purse (past ++ [a])).Balanced := by
  rw [purse_append, hheld]
  unfold note
  rw [hp, hc, hl]
  exact .extended id

theorem Purse.balanced_refused {id : Nat} {a : Stmt × World} (hheld : purse past = .held id)
    (hp : paymentOf a = none) (hc : fundedClaim a = none) (hl : lengthens a = false) :
    (purse (past ++ [a])).Balanced := by
  rw [purse_append, note_of_idle hp hc hl, hheld]
  exact .paid id

/-- How a buying request ends. -/
abbrev Bought (cfg : Config) : Outcome (machine cfg) α := fun r past _ =>
  match r with
  | .ok _ => ∃ past' s w, past = past' ++ [(s, w)] ∧ Grants s w
  | .error _ => (purse past).recorded = [] ∨ ∃ past' s w, past = past' ++ [(s, w)] ∧ Refuses s w

/-- Both pledge routes. -/
theorem guardianPledge_walk {purpose : String} {b : PledgeRequest} (harrives : Arrives q w)
    (htab : (∀ n, q.mayWrite (.recordPayment n) = true) ∧ ∀ g, q.mayWrite (.pledge g) = true)
    (hrecord : ∀ n past w, Backed cfg A Arrives q past (.recordPayment n) w)
    (hpledge : ∀ g past w', (∃ w₀ h, Arrives q w₀ ∧ Evolves w₀ w' ∧
      PledgeBacked cfg A purpose b w₀ h past g) → Backed cfg A Arrives q past (.pledge g) w') :
    Walk Inv Ok A Arrives q (guardianPledge purpose b : Handler cfg PledgeReply) (Bought cfg) [] w := by
  unfold guardianPledge
  refine assures_require (fun _ => Or.inl rfl) (fun _ => Walk.ask ?_)
  refine assures_liftExcept (fun _ _ => Or.inl rfl) (fun h hquoted => Walk.clock ?_)
  refine assures_bind (Assures.mono ?_ (verifyOrSkipPayment_walk rfl htab.1 hrecord))
  intro r past w' hr
  cases r with
  | error e => exact Or.inl hr
  | ok settled =>
    obtain ⟨hev, hheld, hpaid⟩ := hr
    intro _
    refine ⟨⟨⟨htab.2 _, quoteHosted_size hquoted⟩, ?_, ?_⟩, fun _ => ⟨past, _, w', rfl, Or.inl rfl⟩⟩
    · refine hpledge _ _ _ ⟨w, h, harrives, hev, ?_⟩
      exact ⟨hquoted, rfl, rfl, rfl, rfl, rfl, rfl, rfl, ⟨_, hpaid⟩, hheld⟩
    · exact Purse.balanced_created hheld rfl rfl rfl

theorem Walk.buyOwnCopy {n : OwnCopyRequest} {f : OwnCopy → Handler cfg β}
    (htab : q.mayWrite (.createOwnCopyClaim n) = true)
    (hback : Backed cfg A Arrives q past (.createOwnCopyClaim n) w)
    (hheld : purse past = .held n.paymentId)
    (hok : ∀ r past' w', (∃ p s w, past' = p ++ [(s, w)] ∧ Grants s w) →
      Walk Inv Ok A Arrives q (f r) (Bought cfg) past' w') :
    Walk Inv Ok A Arrives q (Prog.bind (transact (.createOwnCopyClaim n))
      (fun o => Prog.bind (liftExcept o) f)) (Bought cfg) past w := by
  intro _
  cases hrun : Quota.createOwnCopyClaim w.db w.now n with
  | error e =>
    have hnone : fundedClaim (.createOwnCopyClaim n, w) = none := by
      change (Quota.createOwnCopyClaim w.db w.now n).toOption.map _ = none
      rw [hrun]
      rfl
    have hrefuses : Refuses (.createOwnCopyClaim n) w := by
      change (Quota.createOwnCopyClaim w.db w.now n).isOk = false
      rw [hrun]
      rfl
    refine ⟨⟨⟨htab, trivial⟩, hback, Purse.balanced_refused hheld rfl hnone rfl⟩, fun _ => ?_⟩
    refine assures_liftExcept (fun _ _ => Or.inr ⟨past, _, w, rfl, hrefuses⟩) (fun r hr => ?_)
    simp only [Stmt.sem, hrun, Stmt.fallible] at hr
    cases hr
  | ok r =>
    have hsome : fundedClaim (.createOwnCopyClaim n, w) = some n.paymentId := by
      change (Quota.createOwnCopyClaim w.db w.now n).toOption.map _ = _
      rw [hrun]
      rfl
    have hgrants : Grants (.createOwnCopyClaim n) w := Or.inl (by rw [hsome]; rfl)
    refine ⟨⟨⟨htab, trivial⟩, hback, Purse.balanced_created hheld rfl hsome rfl⟩, fun _ => ?_⟩
    refine assures_liftExcept (fun e he => ?_) (fun a _ => hok a _ _ ⟨past, _, w, rfl, hgrants⟩)
    simp only [Stmt.sem, hrun, Stmt.fallible] at he
    cases he

theorem Walk.buyExtension {claimId : Nat} {owner : Account} {extraHours : Int} {id : Nat}
    {f : Claim → Handler cfg β}
    (htab : q.mayWrite (.extendClaim claimId owner extraHours) = true)
    (hback : Backed cfg A Arrives q past (.extendClaim claimId owner extraHours) w)
    (hheld : purse past = .held id)
    (hok : ∀ c past' w', (∃ p s w, past' = p ++ [(s, w)] ∧ Grants s w) →
      Walk Inv Ok A Arrives q (f c) (Bought cfg) past' w') :
    Walk Inv Ok A Arrives q (Prog.bind (transact (.extendClaim claimId owner extraHours))
      (fun o => Prog.bind (liftExcept o) f)) (Bought cfg) past w := by
  intro _
  cases hrun : Quota.extendClaim w.db claimId owner extraHours with
  | error e =>
    have hno : lengthens (.extendClaim claimId owner extraHours, w) = false := by
      change (Quota.extendClaim w.db claimId owner extraHours).isOk = false
      rw [hrun]
      rfl
    refine ⟨⟨⟨htab, trivial⟩, hback, Purse.balanced_refused hheld rfl rfl hno⟩, fun _ => ?_⟩
    refine assures_liftExcept (fun _ _ => Or.inr ⟨past, _, w, rfl, hno⟩) (fun r hr => ?_)
    simp only [Stmt.sem, hrun, Stmt.fallible] at hr
    cases hr
  | ok r =>
    have hyes : lengthens (.extendClaim claimId owner extraHours, w) = true := by
      change (Quota.extendClaim w.db claimId owner extraHours).isOk = true
      rw [hrun]
      rfl
    refine ⟨⟨⟨htab, trivial⟩, hback, Purse.balanced_extended hheld rfl rfl hyes⟩, fun _ => ?_⟩
    refine assures_liftExcept (fun e he => ?_)
      (fun a _ => hok a _ _ ⟨past, _, w, rfl, Or.inr hyes⟩)
    simp only [Stmt.sem, hrun, Stmt.fallible] at he
    cases he

theorem ownCopy_walk {b : OwnCopyBody} (harrives : Arrives (.ownCopy b) w) :
    Walk Inv Ok A Arrives (.ownCopy b) (ownCopy b : Handler cfg OwnCopyReply) (Bought cfg) [] w := by
  unfold ownCopy
  refine assures_require (fun _ => Or.inl rfl) (fun _ => Walk.clock (Walk.ask ?_))
  refine assures_liftExcept (fun _ _ => Or.inl rfl) (fun h hquoted => ?_)
  refine assures_bind (Assures.mono ?_
    (verifyOrSkipPayment_walk rfl (fun _ => rfl) (fun _ _ _ => trivial)))
  intro r past w' hr
  cases r with
  | error e => exact Or.inl hr
  | ok settled =>
    obtain ⟨hev, hheld, hpaid⟩ := hr
    refine Walk.buyOwnCopy rfl ⟨w, h, harrives, hev, ?_⟩ hheld (fun _ _ _ hgrant => hgrant)
    exact ⟨hquoted, rfl, rfl, rfl, rfl, rfl, ⟨_, hpaid⟩, hheld⟩

theorem extend_walk {b : ExtendRequest} (harrives : Arrives (.extend b) w) :
    Walk Inv Ok A Arrives (.extend b) (extend b : Handler cfg ExtendReply) (Bought cfg) [] w := by
  have hnone : ∀ {past : Trace (machine cfg)}, purse past = .empty → (purse past).recorded = [] :=
    fun h => by rw [h]; rfl
  unfold extend
  refine assures_liftExcept (fun _ _ => Or.inl rfl) (fun extraHrs hhours => Walk.ask ?_)
  refine assures_liftExcept (fun _ _ => Or.inl rfl) (fun h hchecked => ?_)
  dsimp only
  by_cases hfree : h.feeExempt = true
  · rw [if_pos hfree]
    refine Walk.clock (Walk.record ⟨rfl, rfl⟩ trivial rfl (fun _ _ _ he => Or.inl (hnone he)) ?_)
    intro id past w' hheld hev
    refine Walk.buyExtension rfl ⟨w, h, harrives, hev, ?_⟩ hheld (fun _ _ _ hgrant => hgrant)
    refine ⟨hhours, hchecked, rfl, rfl, ⟨0, fun _ => rfl, fun hno => ?_⟩, id, hheld⟩
    exact absurd hfree (Bool.eq_false_iff.mp hno)
  · rw [if_neg hfree]
    refine Walk.learn verifyPayment_walk (fun _ _ => Or.inl rfl) (fun paid w₁ hev₁ hpaid => ?_)
    refine Walk.learn confirmOnSidechain_walk (fun _ _ => Or.inl rfl) (fun _ w₂ hev₂ _ => ?_)
    refine Walk.record ⟨rfl, rfl⟩ trivial rfl (fun _ _ _ he => Or.inl (hnone he)) ?_
    intro id past w₃ hheld hev₃
    have hev := (hev₁.trans hev₂).trans hev₃
    refine Walk.buyExtension rfl ⟨w, h, harrives, hev, ?_⟩ hheld (fun _ _ _ hgrant => hgrant)
    refine ⟨hhours, hchecked, rfl, rfl, ⟨paid.amount.value, fun hyes => ?_, fun _ => ?_⟩, id, hheld⟩
    · exact absurd hyes hfree
    · exact ⟨paid, hpaid, rfl⟩

/-! ### Uploads -/

section Upload

variable {b : UploadRequest} {c : Checked}

theorem bindUploaderKey_walk :
    Walk Inv Ok A Arrives q (bindUploaderKey c b.uploaderPubkey : Handler cfg Unit)
      (Learnt past w (fun _ => c.feeExempt = true → ∃ keys,
        A (.getAccountPostingPubkeys c.reservation.uploader) (.ok keys) ∧
          keys.contains b.uploaderPubkey = true)) past w := by
  unfold bindUploaderKey
  by_cases hfree : c.feeExempt = true
  · rw [if_pos hfree]
    refine Walk.perform (fun r w' hev ha => ?_)
    cases r with
    | error e => exact ⟨rfl, hev, fun _ h => nomatch h⟩
    | ok postingKeys =>
      unfold Prog.require
      by_cases hkey : postingKeys.contains b.uploaderPubkey = true
      · dsimp only
        rw [if_pos hkey]
        exact ⟨rfl, hev, fun _ _ _ => ⟨postingKeys, ha, hkey⟩⟩
      · dsimp only
        rw [if_neg hkey]
        exact ⟨rfl, hev, fun _ h => nomatch h⟩
  · rw [if_neg hfree]
    exact ⟨rfl, .refl w, fun _ _ hyes => absurd hyes hfree⟩

/-- The payment an upload rests on. -/
abbrev uploadDue (b : UploadRequest) (c : Checked) : PaymentRequest :=
  { feeExempt := c.feeExempt, txId := b.txId, sender := c.reservation.uploader,
    expectedMemo := memoForReservation c.reservation.id,
    expectedAmount := .fin c.reservation.quotedAmount, syntheticTxId := "" }

/-- What an upload's payment leaves: nothing is recorded yet. -/
abbrev UploadPaid (cfg : Config) (A : Answers) (b : UploadRequest) (c : Checked)
    (past : Trace (machine cfg)) (w : World) : Outcome (machine cfg) Paid :=
  fun r past' w' => ∀ paid, r = .ok paid → past' = past ∧ Evolves w w' ∧
    PaidFor cfg A (uploadDue b c) paid.amount.value

theorem uploadPayment_walk (hbal : (purse past).Balanced) :
    Walk Inv Ok A Arrives (.upload b) (uploadPayment c b.txId : Handler cfg Paid)
      (UploadPaid cfg A b c past w) past w := by
  unfold uploadPayment
  by_cases hfree : c.feeExempt = true
  · rw [if_pos hfree]
    intro paid hpaid
    cases hpaid
    exact ⟨rfl, .refl w, fun _ => rfl, fun hno => absurd hfree (Bool.eq_false_iff.mp hno)⟩
  · rw [if_neg hfree]
    unfold verifyTransfer
    refine Walk.learn verifyPayment_walk (fun _ _ _ h => nomatch h) (fun paid w₁ hev₁ hpaid => ?_)
    have hcancel : ∀ {w' : World} {e : Fault}, Walk Inv Ok A Arrives (.upload b)
        (Prog.bind (transact (.markReservationCancelled c.reservation.id))
          (fun _ => .fail e) : Handler cfg Paid) (UploadPaid cfg A b c past w) past w' :=
      Walk.idle (fun _ => ⟨rfl, rfl, rfl⟩) ⟨rfl, trivial⟩ trivial hbal
        (fun _ _ _ _ _ _ h => nomatch h)
    refine Walk.perform (fun side w₂ hev₂ _ => ?_)
    split
    · exact hcancel
    · exact hcancel
    · exact hcancel
    · refine Walk.perform (fun _ w₃ hev₃ _ a ha => ?_)
      cases ha
      refine ⟨rfl, (hev₁.trans hev₂).trans hev₃, fun hyes => absurd hyes hfree, fun _ => ?_⟩
      exact ⟨paid, hpaid, rfl⟩

/-- A statement that neither pays nor grants, in a part that keeps the purse. -/
theorem Walk.tail {s : Stmt} {f : s.Out → Handler cfg β} (hs : s.Unfunded)
    (htab : q.mayWrite s = true ∧ s.Checked w) (hback : Backed cfg A Arrives q past s w)
    (hbal : (purse past).Balanced)
    (h : ∀ o past' w', (purse past').Balanced → Walk Inv Ok A Arrives q (f o)
      (fun _ _ _ => True) past' w') :
    Walk Inv Ok A Arrives q (Prog.bind (transact s) f) (fun _ _ _ => True) past w :=
  Walk.idle hs htab hback hbal (fun o past' w' hpurse _ => h o past' w' (hpurse ▸ hbal))

/-- Pinning leaves the purse as it is. -/
theorem pinFile_walk {file : Cid} (hbal : (purse past).Balanced) :
    Walk Inv Ok A Arrives (.upload b) (pinFile file : Handler cfg _)
      (fun _ past' w' => purse past' = purse past ∧ Evolves w w') past w := by
  unfold pinFile
  refine Walk.perform (fun reached w₁ hev₁ _ => ?_)
  cases reached with
  | true =>
    refine Walk.idle (fun _ => ⟨rfl, rfl, rfl⟩) ⟨rfl, trivial⟩ trivial hbal ?_
    intro _ past' w₂ hpurse hev₂
    exact fun w₃ hev₃ _ _ _ => ⟨hpurse, (hev₁.trans hev₂).trans hev₃⟩
  | false => exact ⟨rfl, hev₁⟩

theorem unpin_walk {file : Cid} (hbal : (purse past).Balanced) :
    Walk Inv Ok A Arrives (.upload b) (unpin file : Handler cfg _)
      (fun _ past' _ => purse past' = purse past) past w := by
  unfold unpin
  refine Walk.perform (fun reached w₁ _ _ => ?_)
  cases reached with
  | true =>
    refine Walk.idle (fun _ => ⟨rfl, rfl, rfl⟩) ⟨rfl, trivial⟩ trivial hbal ?_
    exact fun _ past' w₂ hpurse _ w₃ _ _ _ _ => hpurse
  | false => exact fun w₂ _ _ _ _ => rfl

/-- The commit of an upload that has come this far. -/
theorem finishUpload_walk {w₀ : World} {id : Nat} {paid : Coins} {currency : String}
    (harrives : Arrives (.upload b) w₀) (hev : Evolves w₀ w)
    (hblocked : isCidBlocked w.db b.file = false)
    (hchecked : checkUpload cfg w₀.db w₀.now b = .ok c)
    (hsigned : cfg.verifyHiveSig (uploadProofMessage cfg b.file c.reservation) b.uploadProofSig
      b.uploaderPubkey = true)
    (hbound : c.feeExempt = true → ∃ keys,
      A (.getAccountPostingPubkeys c.reservation.uploader) (.ok keys) ∧
        keys.contains b.uploaderPubkey = true)
    (hpaid : PaidFor cfg A (uploadDue b c) paid) (hheld : purse past = .held id) :
    Walk Inv Ok A Arrives (.upload b) (finishUpload b c id paid currency : Handler cfg _)
      (fun _ _ _ => True) past w := by
  unfold finishUpload
  refine assures_liftExcept (fun _ _ => trivial) (fun sizeMB hmb => Walk.clock ?_)
  intro _
  refine ⟨⟨⟨rfl, hblocked, (billableMB_ok hmb).1⟩, ⟨w₀, c, harrives, hev, ?_⟩, ?_⟩, fun _ => trivial⟩
  · exact ⟨hchecked, rfl, rfl, rfl, rfl, hmb, rfl, rfl, rfl, hsigned, hbound, hpaid, hheld⟩
  · exact Purse.balanced_created hheld rfl rfl rfl

theorem upload_walk (harrives : Arrives (.upload b) w) :
    Walk Inv Ok A Arrives (.upload b) (upload b : Handler cfg UploadReply) (fun _ _ _ => True) [] w := by
  unfold upload
  refine Walk.clock (Walk.ask ?_)
  refine assures_liftExcept (fun _ _ => trivial) (fun c hchecked => ?_)
  unfold storeUpload
  refine Walk.perform (fun hashed w₁ hev₁ _ => ?_)
  cases hashed with
  | error e => trivial
  | ok u =>
    refine assures_require (fun _ => trivial) (fun _ => ?_)
    refine assures_require (fun _ => trivial) (fun hsigned => ?_)
    refine Walk.learn bindUploaderKey_walk (fun _ _ => trivial) (fun _ w₂ hev₂ hbound => ?_)
    refine Walk.ask (assures_require (fun _ => trivial) (fun _ => ?_))
    refine assures_bind (Assures.mono ?_ (uploadPayment_walk .unpaid))
    intro r past₃ w₃ hr
    cases r with
    | error e => trivial
    | ok paid =>
      obtain ⟨rfl, hev₃, hpaid⟩ := hr paid rfl
      refine Walk.record ⟨rfl, rfl⟩ trivial rfl (fun _ _ _ _ => trivial) ?_
      intro id past₄ w₄ hheld hev₄
      refine Walk.idle (fun _ => ⟨rfl, rfl, rfl⟩) ⟨rfl, trivial⟩ trivial (hheld ▸ .paid id) ?_
      intro _ past₅ w₅ hpurse₅ hev₅
      have hheld₅ := hpurse₅.trans hheld
      refine assures_bind (Assures.mono ?_ (pinFile_walk (hheld₅ ▸ .paid id)))
      rintro pinned past₆ w₆ ⟨hpurse₆, hev₆⟩
      have hheld₆ := hpurse₆.trans hheld₅
      have hbal₆ : (purse past₆).Balanced := hheld₆ ▸ .paid id
      cases pinned with
      | error e => trivial
      | ok pinned =>
        cases pinned with
        | error e =>
          exact Walk.tail (fun _ => ⟨rfl, rfl, rfl⟩) ⟨rfl, trivial⟩ trivial hbal₆
            (fun _ _ _ _ => trivial)
        | ok u =>
          refine Walk.ask ?_
          by_cases hblocked : isCidBlocked w₆.db b.file = true
          · rw [if_pos hblocked]
            refine assures_bind (Assures.mono ?_ (unpin_walk hbal₆))
            intro r past₇ w₇ hpurse₇
            cases r with
            | error e => trivial
            | ok u =>
              exact Walk.tail (fun _ => ⟨rfl, rfl, rfl⟩) ⟨rfl, trivial⟩ trivial
                (hpurse₇ ▸ hbal₆) (fun _ _ _ _ => trivial)
          · rw [if_neg hblocked]
            have hev := ((((hev₁.trans hev₂).trans hev₃).trans hev₄).trans hev₅).trans hev₆
            exact finishUpload_walk harrives hev (Bool.not_eq_true _ ▸ hblocked) hchecked hsigned
              hbound hpaid hheld₆

end Upload

/-! ### Every request -/

theorem reserve_walk {b : ReserveRequest} :
    Walk Inv Ok A Arrives (.reserve b) (reserve b : Handler cfg ReserveReply)
      (fun _ _ _ => True) [] w := by
  unfold reserve
  refine assures_require (fun _ => trivial) (fun _ => ?_)
  refine assures_require (fun _ => trivial) (fun _ => ?_)
  split
  · trivial
  · refine assures_require (fun _ => trivial) (fun _ => Walk.ask ?_)
    refine assures_liftExcept (fun _ _ => trivial) (fun quote hquote _ => ?_)
    refine ⟨⟨⟨rfl, trivial⟩, ⟨_, _, _, quote, fun hp => if_pos hp, hquote, rfl⟩, .unpaid⟩, fun _ => ?_⟩
    exact assures_liftExcept (fun _ _ => trivial) (fun _ _ => trivial)

/-- The requests whose statements need something behind them. -/
def Request.backs : Request → Bool
  | .reserve _ | .upload _ => true
  | q => q.buys

theorem idle_of_mayWrite {s : Stmt} (hq : q.backs = false) (h : q.mayWrite s = true) :
    s.Unfunded := by
  cases q <;> first
    | exact absurd hq.symm Bool.false_ne_true
    | (cases s <;> first | exact fun _ => ⟨rfl, rfl, rfl⟩ | exact absurd h Bool.false_ne_true)

theorem backed_of_idle {s : Stmt} (hq : q.backs = false) : Backed cfg A Arrives q past s w := by
  cases q <;> first | exact absurd hq.symm Bool.false_ne_true | trivial

/-- A request that needs nothing behind it keeps an empty purse. -/
theorem idle_walk (hq : q.backs = false) :
    Walk Inv Ok A Arrives q (handle cfg q) (Concluded cfg q) [] w := by
  refine Assures.mono ?_ (Emits.assures (M := machine cfg) (J := fun past _ => purse past = .empty)
    ?_ (fun _ _ _ hj _ _ => hj) (handle_follows cfg q w) rfl)
  · intro r past w _ hbuys
    cases q <;> first | exact absurd hq.symm Bool.false_ne_true | cases hbuys
  · intro s w past hs _ hj
    have hidle := idle_of_mayWrite hq hs.1 w
    have hpurse : purse (past ++ [(s, w)]) = .empty := by
      rw [purse_append, Purse.note_of_idle hidle.1 hidle.2.1 hidle.2.2, hj]
    exact ⟨⟨hs, backed_of_idle hq, hpurse ▸ .unpaid⟩, fun _ => hpurse⟩

/-- A reply wrapped up as the answer of the gate. -/
theorem Walk.answer {p : Handler cfg α} {f : α → Body}
    (h : Walk Inv Ok A Arrives q p (Bought cfg) past w) :
    Walk Inv Ok A Arrives q (f <$> p) (Concluded cfg q) past w := by
  refine assures_bind (Assures.mono ?_ h)
  intro r past w hr
  cases r with
  | ok a => exact fun _ => hr
  | error e => exact fun _ => hr

/-- Every handler justifies what it writes, from the world its request arrived in. -/
theorem handle_walk (q : Request) (harrives : Arrives q w) :
    Walk Inv Ok A Arrives q (handle cfg q) (Concluded cfg q) [] w := by
  by_cases hq : q.backs = true
  · cases q with
    | reserve b =>
      refine assures_bind (Assures.mono ?_ reserve_walk)
      intro r past w _
      cases r <;> exact fun hbuys => nomatch hbuys
    | upload b =>
      refine assures_bind (Assures.mono ?_ (upload_walk harrives))
      intro r past w _
      cases r <;> exact fun hbuys => nomatch hbuys
    | guardianPledge b =>
      exact Walk.answer (guardianPledge_walk harrives ⟨fun _ => rfl, fun _ => rfl⟩
        (fun _ _ _ => trivial) (fun _ _ _ h => h))
    | backstopPledge b =>
      exact Walk.answer (guardianPledge_walk harrives ⟨fun _ => rfl, fun _ => rfl⟩
        (fun _ _ _ => trivial) (fun _ _ _ h => h))
    | ownCopy b => exact Walk.answer (ownCopy_walk harrives)
    | extend b => exact Walk.answer (extend_walk harrives)
    | _ => cases hq
  · exact idle_walk (Bool.not_eq_true _ ▸ hq)

end Rules

section Runs

variable {cfg : Config} {Inv : World → Prop} {Ok : Stmt → World → Prop} {A : Answers}
  {Arrives : Request → World → Prop}

/-- The run's requests arrive and its statements run under the conditions. -/
abbrev GuardedArrivals (cfg : Config) (Arrives : Request → World → Prop)
    (Ok : Stmt → World → Prop) (t : Int) (events : List (GateEvent cfg)) : Prop :=
  Pool.Admissible (handle cfg) Arrives (fun _ => Ok) (Pool.start (World.boot t)) events

/-- The world answers the calls of the run as it may. -/
abbrev Answered (cfg : Config) (A : Answers) (events : List (GateEvent cfg)) : Prop :=
  ∀ e ∈ events, (evolving cfg (fun _ => True) (fun _ _ => True) A).Honest e

/-- Anything may be answered. -/
theorem answered_any (events : List (GateEvent cfg)) : Answered cfg (fun _ _ => True) events := by
  intro e _
  cases e with
  | resume i answer => exact fun _ => trivial
  | _ => trivial

/-- A request arrives under the condition, in a world with the property. -/
abbrev ArrivesIn (Inv : World → Prop) (Arrives : Request → World → Prop) (q : Request)
    (w : World) : Prop :=
  Arrives q w ∧ Inv w

/-- A property of the world that the start has and every justified statement keeps. -/
structure Kept (cfg : Config) (Inv : World → Prop) (Ok : Stmt → World → Prop) (A : Answers)
    (Arrives : Request → World → Prop) (t : Int) : Prop where
  start : Inv (World.boot t)
  drift : ∀ (ms : Nat) w, Inv w → Inv { w with now := w.now + ms }
  step : ∀ q past s w, Justified cfg A (ArrivesIn Inv Arrives) q past s w → Ok s w → Inv w →
    Inv (s.sem cfg w).2

theorem Kept.any (cfg : Config) (Ok : Stmt → World → Prop) (A : Answers)
    (Arrives : Request → World → Prop) (t : Int) : Kept cfg (fun _ => True) Ok A Arrives t :=
  ⟨trivial, fun _ _ _ => trivial, fun _ _ _ _ _ _ _ => trivial⟩

section Kept

variable {t : Int} {events : List (GateEvent cfg)}

theorem Kept.valid (hinv : Kept cfg Inv Ok A Arrives t) :
    (evolving cfg Inv Ok A).Valid (Justified cfg A (ArrivesIn Inv Arrives)) :=
  evolving_valid cfg A (fun _ _ _ _ h => h.tabled) hinv.drift hinv.step

/-- Every process of such a run has justified what it wrote, and every finished request is
concluded. -/
theorem serve_justified (hinv : Kept cfg Inv Ok A Arrives t)
    (h : GuardedArrivals cfg Arrives Ok t events) (hanswered : Answered cfg A events) :
    (evolving cfg Inv Ok A).Stands (Justified cfg A (ArrivesIn Inv Arrives)) (Concluded cfg)
      (serve cfg t events) :=
  Rely.run_stands hinv.valid hinv.start
    (fun q _ hi harrives => handle_walk q (And.intro harrives hi)) h hanswered

/-- What a process has run, it ran in a world with the property and under the condition. -/
theorem admitted_serve (hinv : Kept cfg Inv Ok A Arrives t)
    (h : GuardedArrivals cfg Arrives Ok t events) (hanswered : Answered cfg A events)
    {q : Request} {past : Trace (machine cfg)} (hran : (serve cfg t events).Ran q past) :
    ∀ a ∈ past, Inv a.2 ∧ Ok a.1 a.2 :=
  Rely.admitted_of_ran hinv.valid hinv.start
    (fun q _ hi harrives => handle_walk q (And.intro harrives hi)) h hanswered hran

end Kept

end Runs

end IpfsGate.Server
