import IpfsGate.Lib.Grows
import IpfsGate.Server.Effects
import IpfsGate.Server.Prices

/-!
# The terms of a claim

A claim is bought at a size, a rate, a number of copies and a price, in the gate's currency, for
an hour at least. Its row stays, its terms stay as they are, and an extension only adds hours.
-/
namespace IpfsGate.Server

open Quota LedgerRun
open Lib (Number Pool Prog Table)
open Lib.Prog (Emits Trace emits_bind)

/-- What stays the same about a claim from its purchase on. -/
structure Terms where
  orderId : Nat
  cid : Cid
  owner : Account
  sizeBytes : Nat
  sizeMB : Int
  rateLocked : Coins
  copiesRequested : Int
  kind : ClaimKind
  amountPaid : Coins
  currency : String
  paymentId : Nat
  createdTs : Int
  pledgeOrder : Option Nat
  pledgeBudget : Option Coins
deriving DecidableEq

def termsOf (c : Claim) : Terms where
  orderId := c.orderId
  cid := c.cid
  owner := c.owner
  sizeBytes := c.sizeBytes
  sizeMB := c.sizeMB
  rateLocked := c.rateLocked
  copiesRequested := c.copiesRequested
  kind := c.kind
  amountPaid := c.amountPaid
  currency := c.currency
  paymentId := c.paymentId
  createdTs := c.createdTs
  pledgeOrder := c.pledgeOrder
  pledgeBudget := c.pledgeBudget

/-- The claim is still on record, on its terms, with its hours or more. -/
def OnRecord (c : Claim) (db : Db) : Prop :=
  ∃ d ∈ db.claims, d.claimId = c.claimId ∧ termsOf d = termsOf c ∧ c.paidHours ≤ d.paidHours

/-- The gate sells in its currency, by the megabyte and by the copy. -/
structure Sold (cfg : Config) (x : Terms) : Prop where
  currency : x.currency = cfg.paymentCurrency
  sizeMB : 1 ≤ x.sizeMB
  rateLocked : 0 ≤ x.rateLocked
  copies : 1 ≤ x.copiesRequested

/-- A statement that creates a claim sells it, and one that extends a claim adds hours. -/
def Stmt.Fair (cfg : Config) : Stmt → Prop
  | .finaliseUpload _ u => u.currency = cfg.paymentCurrency ∧ 1 ≤ u.sizeMB ∧ 0 ≤ u.rateLocked ∧
      1 ≤ u.copies
  | .createOwnCopyClaim n => n.currency = cfg.paymentCurrency ∧ 0 ≤ n.rateLocked ∧ 1 ≤ n.copies
  | .pledge g => g.currency = cfg.paymentCurrency ∧ 1 ≤ g.sizeMB ∧ 0 ≤ g.rateLocked ∧ 1 ≤ g.copies
  | .extendClaim _ _ extraHours => 0 ≤ extraHours
  | _ => True

section Rows

variable {cfg : Config} {c : Claim} {db after : Db} {t : Int}

theorem termsOf_closedClaim {state : ClaimState} {select : Claim → Bool} :
    termsOf (closedClaim state select c) = termsOf c := by
  unfold closedClaim
  split <;> rfl

theorem termsOf_extendedClaim {claimId : Nat} {paidHours expiryTs : Int} :
    termsOf (extendedClaim claimId paidHours expiryTs c) = termsOf c := by
  unfold extendedClaim
  split <;> rfl

/-- Rewriting rows under their numbers, on their terms. -/
theorem OnRecord.rewrite (h : OnRecord c db) (hrow : ∀ d ∈ db.claims, ∃ e ∈ after.claims,
    e.claimId = d.claimId ∧ termsOf e = termsOf d ∧ d.paidHours ≤ e.paidHours) :
    OnRecord c after := by
  obtain ⟨d, hd, hid, hterms, hhours⟩ := h
  obtain ⟨e, he, hid', hterms', hhours'⟩ := hrow d hd
  exact ⟨e, he, hid'.trans hid, hterms'.trans hterms, hhours.trans hhours'⟩

theorem enduring_onRecord (c : Claim) (t : Int) : Enduring t (OnRecord c) where
  same := fun _ _ _ hclaims h => h.rewrite (fun d hd => ⟨d, hclaims ▸ hd, rfl, rfl, le_refl _⟩)
  endPins := fun _ _ _ _ _ h => h
  closeClaims := by
    intro db state select _ _ h
    refine h.rewrite (fun d hd => ⟨_, mem_closeClaims.mpr ⟨d, hd, rfl⟩, ?_⟩)
    simp [termsOf_closedClaim]
  promote := by
    intro db cid g _ h
    refine h.rewrite (fun d hd => ⟨_, mem_claims_promote.mpr ⟨d, hd, rfl⟩, ?_⟩)
    split <;> exact ⟨rfl, rfl, le_refl _⟩

theorem onRecord_extend {claimId : Nat} {owner : Account} {extraHours : Int} {r : Claim}
    (hrun : Quota.extendClaim db claimId owner extraHours = .ok (r, after)) (hextra : 0 ≤ extraHours)
    (h : OnRecord c db) : OnRecord c after := by
  obtain ⟨claim, hclaim, hid, _, _, hclaims, _⟩ := extendClaim_ok hrun
  refine h.rewrite (fun d hd => ⟨_, (hclaims _).mpr ⟨d, hd, rfl⟩, ?_⟩)
  refine ⟨?_, termsOf_extendedClaim, ?_⟩
  · unfold extendedClaim
    split <;> rfl
  · unfold extendedClaim
    split
    · next hsame =>
      have hrow : d = claim := Table.eq_of_key hd hclaim (hsame.trans hid.symm)
      rw [hrow]
      show claim.paidHours ≤ claim.paidHours + extraHours
      omega
    · exact le_refl _

theorem onRecord_create (h : OnRecord c db) (hclaims : after.claims = db.claims) (n : NewClaim) :
    OnRecord c (createOrderWithClaim after t n).2 :=
  h.rewrite (fun d hd =>
    ⟨d, mem_createOrderWithClaim.mpr (Or.inl (hclaims ▸ hd)), rfl, rfl, le_refl _⟩)

/-- A statement keeps every claim on record, if an extension adds hours. -/
theorem onRecord_sem {s : Stmt} {w : World} (hadds : ∀ claimId owner extraHours,
      s = .extendClaim claimId owner extraHours → 0 ≤ extraHours) (h : OnRecord c w.db) :
    OnRecord c (s.sem cfg w).2.db := by
  cases s with
  | finaliseUpload id u =>
    exact (enduring_onRecord c w.now).same (LedgerRun.finaliseUpload w.db w.now u).2 _ rfl rfl
      (@onRecord_create c w.db (insertPin w.db w.now u.pin) w.now h rfl _)
  | createOwnCopyClaim n =>
    refine fallible_ind h (fun _ _ hrun => ?_)
    obtain ⟨info, _, _, rfl⟩ := createOwnCopyClaim_ok hrun
    exact onRecord_create h rfl _
  | pledge g => exact onRecord_create h rfl _
  | extendClaim claimId owner extraHours =>
    exact fallible_ind h (fun _ _ hrun => onRecord_extend hrun (hadds claimId owner extraHours rfl) h)
  | _ => exact (enduring_onRecord c w.now).sem rfl (fun _ _ _ hx => nomatch hx) h

/-- Every claim was sold. -/
def AllSold (cfg : Config) (db : Db) : Prop := ∀ c ∈ db.claims, Sold cfg (termsOf c)

theorem AllSold.rewrite (h : AllSold cfg db)
    (hrow : ∀ c ∈ after.claims, ∃ d ∈ db.claims, termsOf c = termsOf d) : AllSold cfg after := by
  intro c hc
  obtain ⟨d, hd, hterms⟩ := hrow c hc
  rw [hterms]
  exact h d hd

theorem durable_allSold (cfg : Config) : Durable (AllSold cfg) where
  same := fun _ _ _ hclaims h => h.rewrite (fun c hc => ⟨c, hclaims ▸ hc, rfl⟩)
  endPins := fun _ _ _ _ _ _ h => h
  closeClaims := by
    intro db state select _ _ h
    refine h.rewrite (fun c hc => ?_)
    obtain ⟨d, hd, rfl⟩ := mem_closeClaims.mp hc
    exact ⟨d, hd, termsOf_closedClaim⟩
  promote := by
    intro db t cid g _ h
    refine h.rewrite (fun c hc => ?_)
    obtain ⟨d, hd, rfl⟩ := mem_claims_promote.mp hc
    refine ⟨d, hd, ?_⟩
    split <;> rfl
  extend := by
    intro db claimId owner extraHours r after hrun h
    obtain ⟨_, _, _, _, _, hclaims, _⟩ := extendClaim_ok hrun
    refine h.rewrite (fun c hc => ?_)
    obtain ⟨d, hd, rfl⟩ := (hclaims c).mp hc
    exact ⟨d, hd, termsOf_extendedClaim⟩

theorem allSold_create (h : AllSold cfg db) (hclaims : after.claims = db.claims) {n : NewClaim}
    (hn : Sold cfg (termsOf (newClaimRow after t n))) :
    AllSold cfg (createOrderWithClaim after t n).2 := by
  intro c hc
  rcases mem_createOrderWithClaim.mp hc with hold | rfl
  · exact h c (hclaims ▸ hold)
  · exact hn

theorem allSold_sem {s : Stmt} (hs : s.Fair cfg) {w : World} (h : AllSold cfg w.db) :
    AllSold cfg (s.sem cfg w).2.db := by
  refine ((durable_allSold cfg).at w.now).sem_creating ?_ ?_ ?_ h
  · rintro id u rfl
    exact allSold_create h rfl ⟨hs.1, hs.2.1, hs.2.2.1, hs.2.2.2⟩
  · rintro n info rfl _ _
    exact allSold_create h rfl ⟨hs.1, le_max_left _ _, hs.2.1, hs.2.2⟩
  · rintro g rfl
    exact allSold_create h rfl ⟨hs.1, hs.2.1, hs.2.2.1, hs.2.2.2⟩

end Rows

/-! ## Hours -/

/-- Every claim is for an hour at least. -/
def Hourly (db : Db) : Prop := ∀ c ∈ db.claims, 1 ≤ c.paidHours

section Hours

variable {cfg : Config} {A : Answers} {Arrives : Request → World → Prop} {q : Request}
  {past : Trace (machine cfg)} {s : Stmt} {w : World}

/-- What a quote on a hosted CID bills. -/
theorem billableHrs_of_quote {db : Db} {role : String} {account : Account} {cid : Cid}
    {txId : String} {hours copies : Number} {allows : Nat → Except Fault Unit} {notHosted : String}
    {q : HostedQuote}
    (h : quoteHosted cfg db role account cid txId hours copies allows notHosted = .ok q) :
    1 ≤ q.quote.billableHrs := by
  obtain ⟨_, _, _, hcost⟩ := quoteHosted_ok h
  obtain ⟨_, hhrs, _, _⟩ := calculateCost_ok hcost
  exact Pricing.billableHours_ok hhrs

/-- A claim is created for the hours of its quote or of its reservation. -/
theorem hours_of_created {c : Claim} (hj : Justified cfg A Arrives q past s w)
    (harrived : ∀ q w, Arrives q w → Accounted cfg w) (h : created (s, w) = some c) :
    1 ≤ c.paidHours := by
  have htab := hj.tabled.1
  have hback := hj.backed
  cases s with
  | finaliseUpload id u =>
    cases q with
    | upload b =>
      cases h
      obtain ⟨w₀, checked, harr, _, hb⟩ := hback
      have hmem := (Table.find?_eq_some.mp (checkUpload_ok hb.checked).1).1
      exact ((harrived _ _ harr).quoted checked.reservation hmem).hours.trans_eq hb.paidHours.symm
    | _ => cases htab
  | pledge g =>
    cases h
    cases q with
    | guardianPledge b | backstopPledge b =>
      obtain ⟨w₀, quote, _, _, hb⟩ := hback
      exact (billableHrs_of_quote hb.quoted).trans_eq hb.paidHours.symm
    | _ => cases htab
  | createOwnCopyClaim n =>
    cases q with
    | ownCopy b =>
      obtain ⟨w₀, quote, _, _, hb⟩ := hback
      cases hrun : Quota.createOwnCopyClaim w.db w.now n with
      | error e =>
        rw [created_ownCopy_error hrun] at h
        cases h
      | ok r =>
        obtain ⟨info, _, hcreated, _⟩ := created_ownCopy hrun
        rw [hcreated] at h
        cases h
        exact (billableHrs_of_quote hb.quoted).trans_eq hb.billed.symm
    | _ => cases htab
  | _ => cases h

theorem extraHours_of_justified (hj : Justified cfg A Arrives q past s w) {claimId : Nat}
    {owner : Account} {extraHours : Int} (hs : s = .extendClaim claimId owner extraHours) :
    0 ≤ extraHours := by
  have htab := hj.tabled.1
  have hback := hj.backed
  subst hs
  cases q with
  | extend b =>
    obtain ⟨w₀, quote, _, _, hb⟩ := hback
    have hleast := Pricing.billableHours_ok hb.hours
    omega
  | _ => cases htab

/-- A claim of the world after the statement was there before, or is created by it. -/
theorem hourly_sem (hj : Justified cfg A Arrives q past s w)
    (harrived : ∀ q w, Arrives q w → Accounted cfg w) (hw : Hourly w.db) :
    Hourly (s.sem cfg w).2.db := by
  intro c hc
  by_cases hold : ∃ d ∈ w.db.claims, d.claimId = c.claimId
  · obtain ⟨d, hd, hid⟩ := hold
    have hstays : OnRecord d (s.sem cfg w).2.db :=
      onRecord_sem (fun _ _ _ hs => extraHours_of_justified hj hs) ⟨d, hd, rfl, rfl, le_refl _⟩
    obtain ⟨e, he, heid, _, hmore⟩ := hstays
    have hrow : e = c := Table.eq_of_key he hc (heid.trans hid)
    exact (hw d hd).trans (hrow ▸ hmore)
  · exact hours_of_created hj harrived
      (created_of_new cfg hc (fun d hd hid => hold ⟨d, hd, hid⟩))

theorem kept_hourly (cfg : Config) (Ok : Stmt → World → Prop) (A : Answers)
    (Arrives : Request → World → Prop) (t : Int) :
    Kept cfg (fun w => Accounted cfg w ∧ Hourly w.db) Ok A Arrives t where
  start := ⟨(kept_accounted cfg Ok A Arrives t).start, fun c hc => absurd hc (Table.not_mem_empty c)⟩
  drift := fun ms w hw => ⟨(kept_accounted cfg Ok A Arrives t).drift ms w hw.1, hw.2⟩
  step := fun _ _ _ _ hj _ hw => ⟨accounted_sem hj (fun _ _ h => h.2.1) hw.1,
    hourly_sem hj (fun _ _ h => h.2.1) hw.2⟩

/-- In every run every claim is for an hour at least. -/
theorem hourly_serve (cfg : Config) (t : Int) (events : List (GateEvent cfg)) :
    Hourly (serve cfg t events).world.db :=
  (serve_justified (kept_hourly cfg (fun _ _ => True) (fun _ _ => True) (fun _ _ => True) t)
    (Pool.admissible_true _ _ _) (answered_any events)).inv.2

end Hours

/-! ## What the handlers buy -/

section Handlers

variable {cfg : Config} {α β : Type} {P : α → Prop} {Q : β → Prop} {w : World}

/-- The program's statements are fair, and what it returns is of a kind. -/
abbrev Deals (cfg : Config) (P : α → Prop) (p : Handler cfg α) (w : World) : Prop :=
  p.Emits (M := machine cfg) (fun s _ => s.Fair cfg) (fun _ => True)
    (fun r _ => ∀ a, r = .ok a → P a) w

/-- What it pays is in the gate's currency. -/
abbrev InCurrency (cfg : Config) (paid : Paid) : Prop := paid.currency = cfg.paymentCurrency

theorem Deals.ret {a : α} (h : P a) : Deals cfg P (Prog.ret a) w := by
  intro b hb
  cases hb
  exact h

theorem Deals.fail {e : Fault} : Deals cfg P (Prog.fail e) w := fun _ h => nomatch h

theorem Deals.bind {p : Handler cfg α} {f : α → Handler cfg β} (hp : Deals cfg P p w)
    (hf : ∀ a w', P a → Deals cfg Q (f a) w') : Deals cfg Q (Prog.bind p f) w := by
  refine emits_bind (Emits.mono ?_ hp)
  intro r w' hr
  cases r with
  | ok a => exact hf a w' (hr a rfl)
  | error e => exact fun _ h => nomatch h

/-- Whatever a part returns that only keeps to the table. -/
theorem Deals.after {p : Handler cfg α} {f : α → Handler cfg β}
    (hp : Keeps cfg (fun s _ => s.Fair cfg) (fun _ => True) p w)
    (hf : ∀ a w', Deals cfg Q (f a) w') : Deals cfg Q (Prog.bind p f) w :=
  Deals.bind (P := fun _ => True) (hp.mono (fun _ _ _ _ _ => trivial)) (fun a w' _ => hf a w')

theorem Deals.lift {r : Except Fault α} {f : α → Handler cfg β}
    (hf : ∀ a, r = .ok a → Deals cfg Q (f a) w) :
    Deals cfg Q (Prog.bind (Prog.liftExcept r) f) w := by
  cases r with
  | ok a => exact hf a rfl
  | error e => exact Deals.fail

theorem Deals.require {b : Bool} {e : Fault} {f : Unit → Handler cfg β}
    (hf : b = true → Deals cfg Q (f ()) w) : Deals cfg Q (Prog.bind (Prog.require b e) f) w := by
  unfold Prog.require
  by_cases hb : b = true
  · rw [if_pos hb]
    exact hf hb
  · rw [if_neg hb]
    exact Deals.fail

theorem Deals.ask {g : Db → α} {f : α → Handler cfg β} (hf : Deals cfg Q (f (g w.db)) w) :
    Deals cfg Q (Prog.bind (Server.ask g) f) w := hf

theorem Deals.clock {f : Int → Handler cfg β} (hf : Deals cfg Q (f w.now) w) :
    Deals cfg Q (Prog.bind Server.clock f) w := hf

theorem Deals.transact {s : Stmt} {f : s.Out → Handler cfg β} (hs : s.Fair cfg)
    (hf : ∀ o w', Deals cfg Q (f o) w') : Deals cfg Q (Prog.bind (Server.transact s) f) w :=
  ⟨hs, hf _ _⟩

theorem Deals.perform {c : Call} {f : c.Reply → Handler cfg β}
    (hf : ∀ r w', Deals cfg Q (f r) w') : Deals cfg Q (Prog.bind (Server.perform c) f) w :=
  ⟨trivial, hf⟩

theorem currency_of_valid {payload : Option TransferPayload} {memo : String} {due : Number}
    {paid : Paid} (h : validateTransferPayload cfg payload memo due = .ok paid) :
    InCurrency cfg paid := by
  unfold validateTransferPayload at h
  split at h
  · cases h
  · split at h
    · cases h
    · split at h
      · cases h
      · next hsymbol =>
        split at h
        · cases h
        · split at h
          · cases h
          · split at h
            · cases h
            · cases h
              exact not_not.mp hsymbol

theorem deals_verifyPayment {txId : String} {sender : Account} {memo : String} {due : Number} :
    Deals cfg (InCurrency cfg) (verifyPayment txId sender memo due) w := by
  unfold verifyPayment
  refine Deals.perform (fun r w' => ?_)
  cases r with
  | error e => exact Deals.fail
  | ok operations =>
    refine Deals.lift (fun payload _ => ?_)
    cases hvalid : validateTransferPayload cfg payload memo due with
    | error e => exact Deals.fail
    | ok paid => exact Deals.ret (currency_of_valid hvalid)

theorem deals_verifyTransfer {r : Reservation} {txId : String} :
    Deals cfg (InCurrency cfg) (verifyTransfer r txId) w := by
  unfold verifyTransfer
  refine Deals.bind deals_verifyPayment (fun paid w' hpaid => Deals.perform (fun side w'' => ?_))
  split
  · exact Deals.transact trivial (fun _ _ => Deals.fail)
  · exact Deals.transact trivial (fun _ _ => Deals.fail)
  · exact Deals.transact trivial (fun _ _ => Deals.fail)
  · exact Deals.perform (fun _ _ => Deals.ret hpaid)

theorem deals_uploadPayment {c : Checked} {txId : String} :
    Deals cfg (InCurrency cfg) (uploadPayment c txId) w := by
  unfold uploadPayment
  split
  · exact Deals.ret rfl
  · exact deals_verifyTransfer

theorem deals_verifyOrSkipPayment {p : PaymentRequest} :
    Deals cfg (fun settled => settled.currency = cfg.paymentCurrency) (verifyOrSkipPayment p) w := by
  unfold verifyOrSkipPayment
  split
  · refine Deals.transact trivial (fun o w' => Deals.lift (fun _ _ => ?_))
    exact Deals.perform (fun _ _ => Deals.ret rfl)
  · refine Deals.bind deals_verifyPayment (fun paid w' hpaid => ?_)
    refine Deals.after (keeps_confirmOnSidechain (fun _ _ => trivial)) (fun _ w' => ?_)
    refine Deals.transact trivial (fun o w' => Deals.lift (fun _ _ => ?_))
    exact Deals.perform (fun _ _ => Deals.ret hpaid)

/-- What a quote on a hosted CID sells. -/
theorem sold_of_quote {db : Db} {role : String} {account : Account} {cid : Cid} {txId : String}
    {hours copies : Number} {allows : Nat → Except Fault Unit} {notHosted : String} {q : HostedQuote}
    (h : quoteHosted cfg db role account cid txId hours copies allows notHosted = .ok q) :
    1 ≤ q.quote.billableMB ∧ 0 ≤ rateFor cfg q.feeExempt ∧ 1 ≤ q.quote.copies := by
  obtain ⟨_, _, _, hcost⟩ := quoteHosted_ok h
  obtain ⟨hmb, _, hcopies, _⟩ := calculateCost_ok hcost
  refine ⟨(Pricing.billableMB_ok hmb).2, rateFor_nonneg _, ?_⟩
  rw [hcopies]
  exact (Pricing.cappedCopies_range cfg _).1

theorem deals_guardianPledge {purpose : String} {b : PledgeRequest} :
    Deals cfg (fun _ => True) (guardianPledge purpose b) w := by
  unfold guardianPledge
  refine Deals.require (fun _ => Deals.ask (Deals.lift (fun q hq => Deals.clock ?_)))
  have hquoted := sold_of_quote hq
  refine Deals.bind deals_verifyOrSkipPayment (fun settled w' hsettled => ?_)
  exact Deals.transact ⟨hsettled, hquoted.1, hquoted.2.1, hquoted.2.2⟩
    (fun _ _ => Deals.ask (Deals.ret trivial))

theorem deals_ownCopy {b : OwnCopyBody} : Deals cfg (fun _ => True) (ownCopy b) w := by
  unfold ownCopy
  refine Deals.require (fun _ => Deals.clock (Deals.ask (Deals.lift (fun q hq => ?_))))
  have hquoted := sold_of_quote hq
  refine Deals.bind deals_verifyOrSkipPayment (fun settled w' hsettled => ?_)
  exact Deals.transact ⟨hsettled, hquoted.2.1, hquoted.2.2⟩
    (fun _ _ => Deals.lift (fun _ _ => Deals.ret trivial))

theorem deals_extend {b : ExtendRequest} : Deals cfg (fun _ => True) (extend b) w := by
  unfold extend
  refine Deals.lift (fun extraHrs hhours => Deals.ask (Deals.lift (fun q _ => ?_)))
  have hadds : 0 ≤ extraHrs := by
    have hleast := Pricing.billableHours_ok hhours
    omega
  dsimp only
  split
  · refine Deals.clock (Deals.transact trivial (fun _ _ => Deals.lift (fun _ _ => ?_)))
    exact Deals.transact hadds (fun _ _ => Deals.lift (fun _ _ => Deals.ret trivial))
  · refine Deals.bind deals_verifyPayment (fun paid w' _ => ?_)
    refine Deals.after (keeps_confirmOnSidechain (fun _ _ => trivial)) (fun _ w' => ?_)
    refine Deals.transact trivial (fun _ _ => Deals.lift (fun _ _ => ?_))
    exact Deals.transact hadds (fun _ _ => Deals.lift (fun _ _ => Deals.ret trivial))

theorem deals_finishUpload {b : UploadRequest} {c : Checked} {paymentId : Nat} {paid : Coins}
    {currency : String} (hcurrency : currency = cfg.paymentCurrency) :
    Deals cfg (fun _ => True) (finishUpload b c paymentId paid currency) w := by
  unfold finishUpload
  refine Deals.lift (fun sizeMB hmb => Deals.clock (Deals.transact ?_ (fun _ _ => ?_)))
  · exact ⟨hcurrency, (Pricing.billableMB_ok hmb).2, rateFor_nonneg _,
      (Pricing.cappedCopies_range cfg (.fin c.reservation.copies)).1⟩
  · exact Deals.ask (Deals.ret trivial)

theorem deals_upload {b : UploadRequest} : Deals cfg (fun _ => True) (upload b) w := by
  refine Deals.clock (Deals.ask (Deals.lift (fun c _ => ?_)))
  unfold storeUpload
  refine Deals.perform (fun hashed w' => ?_)
  cases hashed with
  | error e => exact Deals.fail
  | ok u =>
    refine Deals.require (fun _ => Deals.require (fun _ => ?_))
    refine Deals.after (keeps_bindUploaderKey (fun _ _ => trivial)) (fun _ w' => Deals.ask (Deals.require (fun _ => ?_)))
    refine Deals.bind deals_uploadPayment (fun paid w' hpaid => ?_)
    refine Deals.transact trivial (fun _ _ => Deals.lift (fun _ _ => Deals.transact trivial ?_))
    intro _ w'
    refine Deals.after ?_ (fun pinned w' => ?_)
    · refine Keeps.perform trivial (fun reached w' => ?_)
      cases reached with
      | true => exact Keeps.transact trivial (fun _ _ => ⟨trivial, fun _ _ => trivial⟩)
      | false => trivial
    cases pinned with
    | error e => exact Deals.transact trivial (fun _ _ => Deals.fail)
    | ok u =>
      refine Deals.ask ?_
      split
      · refine Deals.after (keeps_unpin (fun _ _ => trivial) (fun _ _ => trivial)) (fun _ _ => ?_)
        exact Deals.transact trivial (fun _ _ => Deals.fail)
      · exact deals_finishUpload hpaid

/-- Every handler's statements are fair. -/
theorem handle_fair (cfg : Config) (q : Request) (w : World) :
    Keeps cfg (fun s _ => s.Fair cfg) (fun _ => True) (handle cfg q) w := by
  have hany : ∀ {α : Type} {p : Handler cfg α}, Deals cfg (fun _ => True) p w →
      Keeps cfg (fun s _ => s.Fair cfg) (fun _ => True) p w :=
    fun h => h.mono (fun _ _ _ => trivial)
  cases q with
  | upload b => exact Keeps.map _ (hany deals_upload)
  | guardianPledge b => exact Keeps.map _ (hany deals_guardianPledge)
  | backstopPledge b => exact Keeps.map _ (hany deals_guardianPledge)
  | ownCopy b => exact Keeps.map _ (hany deals_ownCopy)
  | extend b => exact Keeps.map _ (hany deals_extend)
  | _ =>
    refine (handle_follows cfg _ w).weaken (fun s _ hs => ?_) (fun _ _ => trivial)
    cases s <;> first | trivial | cases hs.1

end Handlers

/-! ## Runs -/

/-- What a run does to the claims. -/
def Grown (cfg : Config) (a b : World) : Prop :=
  (AllSold cfg a.db → AllSold cfg b.db) ∧ ∀ c, OnRecord c a.db → OnRecord c b.db

theorem forward_grown (cfg : Config) :
    Pool.Forward (M := machine cfg) (fun s _ => s.Fair cfg) (Grown cfg) where
  refl := fun _ => ⟨id, fun _ => id⟩
  trans := fun h h' => ⟨h'.1 ∘ h.1, fun c => h'.2 c ∘ h.2 c⟩
  drift := fun _ _ => ⟨id, fun _ => id⟩
  stmt := fun _ _ hs => ⟨allSold_sem hs, fun _ => onRecord_sem (by rintro _ _ _ rfl; exact hs)⟩

theorem grown_serve (cfg : Config) (t : Int) (events more : List (GateEvent cfg)) :
    Grown cfg (serve cfg t events).world (serve cfg t (events ++ more)).world :=
  Pool.run_grows (forward_grown cfg) (handle_fair cfg) (World.boot t) events more

theorem allSold_serve (cfg : Config) (t : Int) (events : List (GateEvent cfg)) :
    AllSold cfg (serve cfg t events).world.db :=
  (grown_serve cfg t [] events).1 (fun c hc => absurd hc (Table.not_mem_empty c))

theorem onRecord_serve {c : Claim} (cfg : Config) (t : Int) (events more : List (GateEvent cfg))
    (hc : c ∈ (serve cfg t events).world.db.claims) :
    OnRecord c (serve cfg t (events ++ more)).world.db :=
  (grown_serve cfg t events more).2 c ⟨c, hc, rfl, rfl, le_refl _⟩

/-- From any point of a run to any later one, every claim has been sold, for an hour at least, and
stays on record, on the terms it was sold at and with its hours or more. -/
theorem terms_kept (cfg : Config) (t : Int) (events more : List (GateEvent cfg)) :
    ∀ c ∈ (serve cfg t events).world.db.claims, Sold cfg (termsOf c) ∧ 1 ≤ c.paidHours ∧
      OnRecord c (serve cfg t (events ++ more)).world.db := by
  intro c hc
  exact ⟨allSold_serve cfg t events c hc, hourly_serve cfg t events c hc,
    onRecord_serve cfg t events more hc⟩

section Sampled

open Sample

/-- Alice's extension of her claim. -/
def extension : List (GateEvent config) := [.spawn extendFirst] ++ resumed 2 0

theorem terms_kept_extended :
    (∃ c ∈ (serve config 0 hostedByAlice).world.db.claims, c.state = .active) ∧
    ∀ c ∈ (serve config 0 hostedByAlice).world.db.claims, Sold config (termsOf c) ∧
      1 ≤ c.paidHours ∧ OnRecord c (serve config 0 (hostedByAlice ++ extension)).world.db := by
  refine ⟨by decide +kernel, ?_⟩
  exact terms_kept config 0 hostedByAlice extension

end Sampled

end IpfsGate.Server
