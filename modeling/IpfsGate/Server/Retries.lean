import IpfsGate.Lib.Solo
import IpfsGate.Server.Backing

/-!
# Payments without a verdict

Hive or its sidechain may be unreachable, or the sidechain may not have seen the transfer yet,
after the user has paid. The answers then ask for another try. A request on its own can be
tried again if the failed try has left nothing behind.
-/
namespace IpfsGate.Server

open Quota LedgerRun Pricing
open Lib (Number Outside Prog Solo Table)
open Lib.Prog (Comes comes_bind comes_liftExcept comes_map comes_require)

/-- A request's run on its own. -/
def lone (cfg : Config) (o : Outside (machine cfg)) (q : Request) (w : World) :
    Solo (machine cfg) Body := (handle cfg q).solo o [] w

/-- The transaction that a request is paid with. -/
def Request.paysWith : Request → Option String
  | .upload b => some b.txId
  | .guardianPledge b | .backstopPledge b => some b.txId
  | .ownCopy b => some b.txId
  | .extend b => some b.txId
  | _ => none

/-- The sidechain is unreachable, or has not seen the transfer yet. -/
def isUndecided : Except String SidechainResult → Bool
  | .error _ => true
  | .ok .pending => true
  | .ok _ => false

/-- The request's payment check ends without a verdict on the transfer. -/
inductive Undecided (cfg : Config) (o : Outside (machine cfg)) (q : Request) (w : World) :
    Prop where
  | hive (txId e : String) (hpays : q.paysWith = some txId)
      (hasked : Call.getTransaction txId ∈ (lone cfg o q w).asked)
      (hlost : o.answer (.getTransaction txId) = .error e)
  | sidechain (txId : String) (hpays : q.paysWith = some txId)
      (hasked : Call.verifyHiveEngineSidechain txId ∈ (lone cfg o q w).asked)
      (hopen : isUndecided (o.answer (.verifyHiveEngineSidechain txId)) = true)

/-- The gate keeps the uploaded bytes: there are some, Kubo pins them and they are allowed. -/
def Request.Keepable (cfg : Config) (o : Outside (machine cfg)) (db : Db) : Request → Prop
  | .upload b => 0 < cfg.byteCount b.file ∧ isCidBlocked db b.file = false ∧
      o.answer (.kuboAdd b.file) = true ∧ o.answer (.kuboAdded b.file) = .ok ()
  | _ => True

/-- The request finds its transfer on Hive, the sidechain confirms it, and nothing else is in
its way. -/
structure Confirms (cfg : Config) (o : Outside (machine cfg)) (q : Request) (txId : String)
    (w : World) : Prop where
  asked : Call.verifyHiveEngineSidechain txId ∈ (lone cfg o q w).asked
  confirmed : o.answer (.verifyHiveEngineSidechain txId) = .ok .confirmed
  keepable : q.Keepable cfg o w.db

/-- The request fails, the database is as before, and the request succeeds when it is sent again
at a time when its transfer is confirmed. -/
structure Retriable (cfg : Config) (o : Outside (machine cfg)) (q : Request) (w : World) :
    Prop where
  failed : ∃ e, (lone cfg o q w).result = .error e
  same : (lone cfg o q w).final.db = w.db
  again : ∀ txId t o', q.paysWith = some txId → (lone cfg o q w).final.now ≤ t →
    Confirms cfg o' q txId { w with now := t } →
    ∃ b, (lone cfg o' q { (lone cfg o q w).final with now := t }).result = .ok b

/-! ## The stages of a payment check -/

/-- Only the clock has moved. -/
def Waited (w w' : World) : Prop := w' = { w with now := w'.now }

namespace Waited

variable {w w' : World}

theorem refl (w : World) : Waited w w := rfl

theorem trans {w'' : World} (h : Waited w w') (h' : Waited w' w'') : Waited w w'' := by
  unfold Waited at h h' ⊢
  rw [h', h]

theorem drift (h : Waited w w') (ms : Nat) : Waited w { w' with now := w'.now + ms } := by
  unfold Waited at h ⊢
  rw [h]

theorem db_eq (h : Waited w w') : w'.db = w.db := by
  rw [h]

theorem kubo_eq (h : Waited w w') : w'.kubo = w.kubo := by
  rw [h]

/-- Sent again, the request starts as if it had not been sent before. -/
theorem restart (h : Waited w w') (t : Int) : { w' with now := t } = { w with now := t } := by
  rw [h]

end Waited

/-- What the run of a request says about each stage of its payment check: `Left` holds of what
an undecided sidechain leaves, and a confirmation leads to success if `Ready` holds. -/
structure Stages {cfg : Config} {α : Type} (o : Outside (machine cfg)) (txId : String)
    (Ready : Prop) (Left : World → Prop) (w : World) (s : Solo (machine cfg) α) : Prop where
  found : Call.verifyHiveEngineSidechain txId ∈ s.asked →
    ∃ operations, o.answer (.getTransaction txId) = .ok operations
  lost : Call.getTransaction txId ∈ s.asked → (∃ e, o.answer (.getTransaction txId) = .error e) →
    (∃ e, s.result = .error e) ∧ Waited w s.final
  undecided : Call.verifyHiveEngineSidechain txId ∈ s.asked →
    isUndecided (o.answer (.verifyHiveEngineSidechain txId)) = true →
    (∃ e, s.result = .error e) ∧ Left s.final
  confirmed : Call.verifyHiveEngineSidechain txId ∈ s.asked →
    o.answer (.verifyHiveEngineSidechain txId) = .ok .confirmed → Ready → ∃ a, s.result = .ok a

section Rules

variable {cfg : Config} {α β : Type} {o : Outside (machine cfg)} {txId : String} {Ready : Prop}
  {Left : World → Prop} {w₀ w : World} {cs : List Call} {s : Solo (machine cfg) α}

/-- The calls do not look the transfer up. -/
def Unasked (txId : String) (cs : List Call) : Prop :=
  Call.getTransaction txId ∉ cs ∧ Call.verifyHiveEngineSidechain txId ∉ cs

theorem Stages.of_unasked (h : Unasked txId s.asked) : Stages o txId Ready Left w₀ s where
  found := fun hasked => absurd hasked h.2
  lost := fun hasked => absurd hasked h.1
  undecided := fun hasked => absurd hasked h.2
  confirmed := fun hasked => absurd hasked h.2

theorem Stages.map {g : α → β} (h : Stages o txId Ready Left w₀ s) :
    Stages o txId Ready Left w₀
      { asked := s.asked, result := s.result.map g, final := s.final } where
  found := h.found
  lost := by
    intro hasked hlost
    obtain ⟨⟨e, he⟩, hw⟩ := h.lost hasked hlost
    exact ⟨⟨e, by rw [he]; rfl⟩, hw⟩
  undecided := by
    intro hasked hopen
    obtain ⟨⟨e, he⟩, hw⟩ := h.undecided hasked hopen
    exact ⟨⟨e, by rw [he]; rfl⟩, hw⟩
  confirmed := by
    intro hasked hconf hready
    obtain ⟨a, ha⟩ := h.confirmed hasked hconf hready
    exact ⟨g a, by rw [ha]; rfl⟩

/-- The run comes to a value. -/
def Yields (s : Solo (machine cfg) α) : Prop := ∃ a, s.result = .ok a

theorem comes_call {Q : Solo (machine cfg) β → Prop} {c : Call} {f : c.Reply → Handler cfg β}
    (h : ∀ w', Waited w w' → (f (o.answer c)).Comes o Q (cs ++ [c]) w') :
    (Prog.bind (perform c) f).Comes o Q cs w := h _ ((Waited.refl w).drift (o.delay c))

/-- The lookup on Hive, with the rest of the request behind it. -/
theorem comes_verifyPayment {sender : Account} {memo : String} {amount : Number}
    {f : Paid → Handler cfg β} (hw : Waited w₀ w) (hcs : Unasked txId cs)
    (hok : ∀ paid operations w', o.answer (.getTransaction txId) = .ok operations →
      Waited w₀ w' → (f paid).Comes o (Stages o txId Ready Left w₀)
        (cs ++ [.getTransaction txId]) w') :
    (Prog.bind (verifyPayment txId sender memo amount) f).Comes o
      (Stages o txId Ready Left w₀) cs w := by
  have hside : Call.verifyHiveEngineSidechain txId ∉ cs ++ [.getTransaction txId] := by
    simp [hcs.2]
  refine comes_bind (comes_call (fun w' hw' => ?_))
  have hidle := hw.trans hw'
  cases hans : o.answer (.getTransaction txId) with
  | error e =>
    exact ⟨fun h => absurd h hside, fun _ _ => ⟨⟨_, rfl⟩, hidle⟩, fun h => absurd h hside,
      fun h => absurd h hside⟩
  | ok operations =>
    have hfound : ∀ e, Stages o txId Ready Left w₀
        { asked := cs ++ [.getTransaction txId], result := (.error e : Except Fault β),
          final := w' } := by
      intro e
      refine ⟨fun h => absurd h hside, fun _ hlost => ?_, fun h => absurd h hside,
        fun h => absurd h hside⟩
      obtain ⟨e', he'⟩ := hlost
      rw [hans] at he'
      cases he'
    refine comes_liftExcept (fun e _ => hfound e) (fun payload _ => ?_)
    cases hpaid : validateTransferPayload cfg payload memo amount with
    | error e => exact hfound e
    | ok paid => exact hok paid operations w' hans hidle

/-- Behind a lookup that found the transfer, a run that ends undecided or confirmed as it
should. -/
theorem Stages.of_found {operations : List Operation}
    (hans : o.answer (.getTransaction txId) = .ok operations)
    (hundecided : isUndecided (o.answer (.verifyHiveEngineSidechain txId)) = true →
      (∃ e, s.result = .error e) ∧ Left s.final)
    (hconfirmed : o.answer (.verifyHiveEngineSidechain txId) = .ok .confirmed → Ready →
      ∃ a, s.result = .ok a) : Stages o txId Ready Left w₀ s where
  found := fun _ => ⟨operations, hans⟩
  lost := by
    rintro _ ⟨e, he⟩
    rw [hans] at he
    cases he
  undecided := fun _ => hundecided
  confirmed := fun _ => hconfirmed

theorem comes_found {p : Handler cfg α} {operations : List Operation}
    (hans : o.answer (.getTransaction txId) = .ok operations)
    (hundecided : isUndecided (o.answer (.verifyHiveEngineSidechain txId)) = true →
      p.Comes o (fun s => (∃ e, s.result = .error e) ∧ Left s.final) cs w)
    (hconfirmed : o.answer (.verifyHiveEngineSidechain txId) = .ok .confirmed → Ready →
      p.Comes o Yields cs w) : p.Comes o (Stages o txId Ready Left w₀) cs w :=
  .of_found hans hundecided hconfirmed

/-- The sidechain check that a pledge, an own copy and an extension share. -/
theorem comes_confirmOnSidechain {f : Unit → Handler cfg β} {operations : List Operation}
    (hans : o.answer (.getTransaction txId) = .ok operations) (hw : Waited w₀ w)
    (hok : ∀ w', Waited w₀ w' → (f ()).Comes o Yields
      (cs ++ [.verifyHiveEngineSidechain txId]) w') :
    (Prog.bind (confirmOnSidechain txId) f).Comes o (Stages o txId Ready (Waited w₀) w₀) cs w := by
  refine comes_bind (comes_call (fun w' hw' => ?_))
  have hidle := hw.trans hw'
  cases hside : sidechainFault (o.answer (.verifyHiveEngineSidechain txId)) with
  | some e =>
    refine Stages.of_found hans (fun _ => ⟨⟨e, rfl⟩, hidle⟩) (fun hconf _ => ?_)
    rw [hconf] at hside
    cases hside
  | none =>
    refine Stages.of_found hans (fun hopen => ?_) (fun _ _ => hok w' hidle)
    cases hres : o.answer (.verifyHiveEngineSidechain txId) with
    | error e =>
      rw [hres] at hside
      cases hside
    | ok r =>
      rw [hres] at hside hopen
      cases r with
      | confirmed => cases hopen
      | rejected errors => cases hside
      | pending => cases hside

theorem comes_transact {Q : Solo (machine cfg) β → Prop} {t : Stmt} {f : t.Out → Handler cfg β}
    (h : (f (t.sem cfg w).1).Comes o Q cs (t.sem cfg w).2) :
    (Prog.bind (transact t) f).Comes o Q cs w := h

theorem comes_ask {Q : Solo (machine cfg) β → Prop} {g : Db → α} {f : α → Handler cfg β}
    (h : (f (g w.db)).Comes o Q cs w) : (Prog.bind (ask g) f).Comes o Q cs w := h

theorem comes_clock {Q : Solo (machine cfg) β → Prop} {f : Int → Handler cfg β}
    (h : (f w.now).Comes o Q cs w) : (Prog.bind clock f).Comes o Q cs w := h

/-- A payments row is added under a transaction that no row has. -/
theorem comes_record {Q : Solo (machine cfg) β → Prop} {p : NewPayment} {f : Nat → Handler cfg β}
    (hfree : (getPaymentByTxId w.db p.txId).isNone = true)
    (h : ∀ id payments, (f id).Comes o Q cs { w with db := { w.db with payments } }) :
    (Prog.bind (transact (.recordPayment p)) (fun r => Prog.bind (Prog.liftExcept r) f)).Comes o
      Q cs w := by
  have hrec : ∃ id payments, Quota.recordPayment w.db w.now p =
      .ok (id, { w.db with payments }) := by
    have hnew : w.db.payments.rows.any (fun q => q.txId = p.txId) = false := by
      rw [getPaymentByTxId, Option.isNone_iff_eq_none, List.find?_eq_none] at hfree
      rw [List.any_eq_false]
      exact hfree
    unfold Quota.recordPayment
    rw [hnew]
    exact ⟨_, _, rfl⟩
  obtain ⟨id, payments, hrec⟩ := hrec
  change (Prog.bind (Prog.liftExcept (Stmt.fallible w
    (Quota.recordPayment w.db w.now p)).1) f).Comes o Q cs (Stmt.fallible w
    (Quota.recordPayment w.db w.now p)).2
  rw [hrec]
  exact h id payments

end Rules

/-! ## The four requests -/

section Handlers

variable {cfg : Config} {o : Outside (machine cfg)} {w : World}

theorem quoteHosted_unpaid {db : Db} {role : String} {account : Account} {cid : Cid}
    {txId : String} {hours copies : Number} {allows : Nat → Except Fault Unit} {notHosted : String}
    {q : HostedQuote}
    (h : quoteHosted cfg db role account cid txId hours copies allows notHosted = .ok q)
    (hfee : q.feeExempt = false) : (getPaymentByTxId db txId).isNone = true := by
  have hexempt := quoteHosted_feeExempt h
  rw [hfee] at hexempt
  unfold quoteHosted at h
  iterate 4 (obtain ⟨_, _, h⟩ := ok_of_bind h)
  cases hh : alreadyHostedForCid db cid with
  | none => rw [hh] at h; cases h
  | some hosted =>
    rw [hh] at h
    obtain ⟨_, _, h⟩ := ok_of_bind h
    obtain ⟨_, _, h⟩ := ok_of_bind h
    obtain ⟨_, hcheck, _⟩ := ok_of_bind h
    rw [← hexempt, Bool.false_or] at hcheck
    exact check_ok.mp hcheck

/-- A payment that is verified or skipped, with a request behind it that succeeds once the
payments row is there. -/
theorem comes_verifyOrSkipPayment {α : Type} {txId : String} {p : PaymentRequest}
    {f : Settled → Handler cfg α} {w₀ : World} (htx : p.txId = txId) (hw : Waited w₀ w)
    (hfree : p.feeExempt = false → (getPaymentByTxId w₀.db txId).isNone = true)
    (hskip : p.feeExempt = true → ∀ settled w', (f settled).Comes o
      (fun s => Unasked txId s.asked) [.returned] w')
    (hok : ∀ settled w' payments, w'.db = { w₀.db with payments } →
      ∀ cs, (f settled).Comes o Yields cs w') :
    (Prog.bind (verifyOrSkipPayment p) f).Comes o (Stages o txId True (Waited w₀) w₀) [] w := by
  subst htx
  unfold verifyOrSkipPayment
  by_cases hfee : p.feeExempt = true
  · rw [if_pos hfee]
    simp only [Prog.bind_eq, Prog.bind_assoc]
    refine Comes.mono (Q := fun s => Unasked p.txId s.asked) ?_ (fun _ => Stages.of_unasked)
    refine comes_transact (comes_liftExcept (fun _ _ => ⟨List.not_mem_nil, List.not_mem_nil⟩)
      (fun id _ => ?_))
    exact comes_call (fun w' _ => hskip hfee _ w')
  · rw [if_neg hfee]
    simp only [Prog.bind_eq, Prog.bind_assoc]
    refine comes_verifyPayment hw ⟨List.not_mem_nil, List.not_mem_nil⟩
      (fun paid _ w₁ hans hw₁ => ?_)
    refine comes_confirmOnSidechain hans hw₁ (fun w₂ hw₂ => ?_)
    refine comes_record ?_ (fun id payments => ?_)
    · rw [hw₂.db_eq]
      exact hfree (Bool.not_eq_true _ ▸ hfee)
    · refine comes_call (fun w₃ hw₃ => ?_)
      exact hok _ w₃ payments (by rw [hw₃.db_eq, hw₂.db_eq]) _

theorem unasked_nil (txId : String) : Unasked txId [] := ⟨List.not_mem_nil, List.not_mem_nil⟩

theorem unasked_returned (txId : String) : Unasked txId [.returned] := by
  constructor <;> simp

theorem stages_guardianPledge (purpose : String) (b : PledgeRequest) :
    (guardianPledge purpose b).Comes o (Stages o b.txId True (Waited w) w) [] w := by
  refine comes_require (fun _ => .of_unasked (unasked_nil _)) (fun _ => ?_)
  refine comes_ask (comes_liftExcept (fun _ _ => .of_unasked (unasked_nil _)) (fun q hq => ?_))
  refine comes_clock (comes_verifyOrSkipPayment rfl (.refl w) (quoteHosted_unpaid hq) ?_ ?_)
  · intro _ settled w'
    exact unasked_returned _
  · intro settled w' payments hdb cs
    exact ⟨_, rfl⟩

/-- An own copy of a hosted file can always be written. -/
theorem createOwnCopyClaim_hosted {db : Db} {t : Int} {n : OwnCopyRequest} {hosted : Hosted}
    (h : alreadyHostedForCid db n.cid = some hosted) :
    ∃ r after, createOwnCopyClaim db t n = .ok (r, after) := by
  obtain ⟨p, hp⟩ := alreadyHostedForCid_isSome.mp (by rw [h]; rfl)
  have hactive : hasActivePinForCid db n.cid = true := hasActivePinForCid_iff.mpr ⟨p, hp⟩
  unfold createOwnCopyClaim
  cases hinfo : getLatestPinInfoForCid db n.cid with
  | none =>
    rw [getLatestPinInfoForCid, Option.map_eq_none_iff, List.argmax_eq_none] at hinfo
    have hmem : p ∈ db.pins.filter (fun p => p.cid = n.cid) :=
      Table.mem_filter.mpr ⟨hp.mem, by simp [hp.cid_eq]⟩
    rw [hinfo] at hmem
    exact absurd hmem List.not_mem_nil
  | some info =>
    rw [hactive]
    exact ⟨_, _, rfl⟩

theorem stages_ownCopy (b : OwnCopyBody) :
    (ownCopy b).Comes o (Stages o b.txId True (Waited w) w) [] w := by
  refine comes_require (fun _ => .of_unasked (unasked_nil _)) (fun _ => comes_clock ?_)
  refine comes_ask (comes_liftExcept (fun _ _ => .of_unasked (unasked_nil _)) (fun q hq => ?_))
  refine comes_verifyOrSkipPayment rfl (.refl w) (quoteHosted_unpaid hq) ?_ ?_
  · intro _ settled w'
    exact comes_transact (comes_liftExcept (fun _ _ => unasked_returned _)
      (fun _ _ => unasked_returned _))
  · intro settled w' payments hdb cs
    obtain ⟨hosted, hhosted, _, _⟩ := quoteHosted_ok hq
    have hafter : alreadyHostedForCid w'.db b.cid = some hosted := by
      rw [hdb]
      exact hhosted
    refine comes_transact (comes_liftExcept (fun e he => ?_) (fun claim _ => ⟨_, rfl⟩))
    obtain ⟨r, after, hrun⟩ := createOwnCopyClaim_hosted (t := w'.now) (n :=
      { cid := b.cid, owner := cfg.toLowerCase b.owner, paymentId := settled.paymentId,
        paidHours := if cfg.hostingPermanent then cfg.minHours else q.quote.billableHrs,
        copies := q.quote.copies, rateLocked := rateFor cfg q.feeExempt,
        amountPaid := settled.paid, currency := settled.currency,
        expiryOverride := if cfg.hostingPermanent then some permanentExpiryTs else none }) hafter
    simp only [Stmt.sem, hrun, Stmt.fallible] at he
    cases he

theorem checkExtend_ready {db : Db} {b : ExtendRequest} {extraHrs : Int} {q : ExtendQuote}
    (h : checkExtend cfg db b extraHrs = .ok q) : getClaim db b.claimId = some q.claim ∧
      q.claim.state = .active ∧
      (q.feeExempt = false → (getPaymentByTxId db b.txId).isNone = true) := by
  unfold checkExtend at h
  cases hfind : getClaim db b.claimId with
  | none => rw [hfind] at h; cases h
  | some claim =>
    rw [hfind] at h
    obtain ⟨_, hactive, h⟩ := ok_of_bind h
    obtain ⟨_, _, h⟩ := ok_of_bind h
    obtain ⟨_, _, h⟩ := ok_of_bind h
    obtain ⟨_, _, h⟩ := ok_of_bind h
    obtain ⟨_, hunpaid, h⟩ := ok_of_bind h
    have hcheck := check_ok.mp hunpaid
    rw [Bool.or_eq_true] at hcheck
    cases h
    exact ⟨rfl, of_decide_eq_true (check_ok.mp hactive), fun hfee =>
      hcheck.resolve_left (Bool.eq_false_iff.mp hfee)⟩

/-- An active claim can always be extended in its owner's name. -/
theorem extendClaim_active {db : Db} {claimId : Nat} {claim : Claim} (extraHours : Int)
    (hfind : getClaim db claimId = some claim) (hactive : claim.state = .active) :
    ∃ c after, extendClaim db claimId claim.owner extraHours = .ok (c, after) := by
  unfold extendClaim
  rw [hfind]
  simp only [ne_eq, not_true_eq_false, ↓reduceIte, hactive]
  exact ⟨_, _, rfl⟩

theorem stages_extend (b : ExtendRequest) :
    (extend b).Comes o (Stages o b.txId True (Waited w) w) [] w := by
  have hnil : ∀ {s : Solo (machine cfg) ExtendReply}, s.asked = [] →
      Stages o b.txId True (Waited w) w s :=
    fun h => .of_unasked (h ▸ unasked_nil _)
  refine comes_liftExcept (fun _ _ => hnil rfl) (fun extraHrs _ => ?_)
  refine comes_ask (comes_liftExcept (fun _ _ => hnil rfl) (fun q hq => ?_))
  obtain ⟨hfind, hactive, hunpaid⟩ := checkExtend_ready hq
  dsimp only
  by_cases hfee : q.feeExempt = true
  · rw [if_pos hfee]
    refine comes_clock (comes_transact (comes_liftExcept (fun _ _ => hnil rfl) (fun _ _ => ?_)))
    exact comes_transact (comes_liftExcept (fun _ _ => hnil rfl) (fun _ _ => hnil rfl))
  · rw [if_neg hfee]
    refine comes_verifyPayment (.refl w) (unasked_nil _) (fun paid _ w₁ hans hw₁ => ?_)
    refine comes_confirmOnSidechain hans hw₁ (fun w₂ hw₂ => ?_)
    refine comes_record ?_ (fun id payments => ?_)
    · rw [hw₂.db_eq]
      exact hunpaid (Bool.not_eq_true _ ▸ hfee)
    · refine comes_transact (comes_liftExcept (fun e he => ?_) (fun updated _ => ⟨_, rfl⟩))
      have hafter : getClaim { w₂.db with payments } b.claimId = some q.claim := by
        rw [hw₂.db_eq]
        exact hfind
      obtain ⟨c, after, hrun⟩ := extendClaim_active extraHrs hafter hactive
      simp only [Stmt.sem, hrun, Stmt.fallible] at he
      cases he

/-- The calls made so far do not look the transfer up. -/
abbrev Silent (txId : String) {α : Type} (s : Solo (machine cfg) α) : Prop := Unasked txId s.asked

theorem Unasked.append {txId : String} {cs : List Call} {c : Call} (h : Unasked txId cs)
    (hc : c ≠ .getTransaction txId ∧ c ≠ .verifyHiveEngineSidechain txId) :
    Unasked txId (cs ++ [c]) := by
  constructor
  · rw [List.mem_append, List.mem_singleton]
    rintro (hmem | heq)
    · exact h.1 hmem
    · exact hc.1 heq.symm
  · rw [List.mem_append, List.mem_singleton]
    rintro (hmem | heq)
    · exact h.2 hmem
    · exact hc.2 heq.symm

section Silent

variable {txId : String} {cs : List Call} (hcs : Unasked txId cs)
include hcs

theorem silent_pinFile (file : Cid) : (pinFile file).Comes o (Silent txId) cs w := by
  refine comes_call (fun w' _ => ?_)
  have hadd : Unasked txId (cs ++ [.kuboAdd file]) := hcs.append ⟨nofun, nofun⟩
  cases o.answer (.kuboAdd file) with
  | true => exact comes_transact (hadd.append ⟨nofun, nofun⟩)
  | false => exact hadd

theorem silent_unpin (cid : Cid) : (unpin cid).Comes o (Silent txId) cs w := by
  refine comes_call (fun w' _ => ?_)
  have hrem : Unasked txId (cs ++ [.kuboRemove cid]) := hcs.append ⟨nofun, nofun⟩
  cases o.answer (.kuboRemove cid) with
  | true => exact comes_transact (hrem.append ⟨nofun, nofun⟩)
  | false => exact hrem.append ⟨nofun, nofun⟩

omit hcs in
theorem silent_bind {α β : Type} {p : Handler cfg α} {f : α → Handler cfg β}
    (hp : p.Comes o (Silent txId) cs w)
    (hf : ∀ a cs' w', Unasked txId cs' → (f a).Comes o (Silent txId) cs' w') :
    (Prog.bind p f).Comes o (Silent txId) cs w := by
  refine comes_bind (hp.mono (fun s hs => ?_))
  cases s.result with
  | ok a => exact hf a _ _ hs
  | error e => exact hs

theorem silent_finishUpload (b : UploadRequest) (c : Checked) (paymentId : Nat) (paid : Coins)
    (currency : String) :
    (finishUpload b c paymentId paid currency).Comes o (Silent txId) cs w := by
  refine comes_liftExcept (fun _ _ => hcs) (fun sizeMB _ => ?_)
  exact comes_clock (comes_transact (comes_ask hcs))

end Silent

/-- What is left of the database when a pending reservation has been cancelled. -/
def CancelsPending (w w' : World) : Prop :=
  ∃ r ∈ w.db.reservations, r.status = .pending ∧ w'.db = markReservationCancelled w.db r.id

/-- An upload without a payment to verify looks nothing up. -/
theorem silent_storeUpload (b : UploadRequest) (c : Checked) (hfee : c.feeExempt = true) :
    (storeUpload b c).Comes o (Silent b.txId) [] w := by
  refine comes_call (fun w₁ _ => ?_)
  have hhash : Unasked b.txId ([] ++ [.hashFile b.file]) :=
    (unasked_nil b.txId).append ⟨nofun, nofun⟩
  cases o.answer (.hashFile b.file) with
  | error e => exact hhash
  | ok u =>
    refine comes_require (fun _ => hhash) (fun _ => comes_require (fun _ => hhash) (fun _ => ?_))
    refine silent_bind ?_ (fun _ cs₂ w₂ h₂ => ?_)
    · unfold bindUploaderKey
      rw [if_pos hfee]
      refine comes_call (fun w' _ => ?_)
      have hkeys := hhash.append (c := .getAccountPostingPubkeys c.reservation.uploader)
        ⟨nofun, nofun⟩
      cases o.answer (.getAccountPostingPubkeys c.reservation.uploader) with
      | error e => exact hkeys
      | ok keys =>
        dsimp only
        unfold Prog.require
        split
        · exact hkeys
        · exact hkeys
    · refine comes_ask (comes_require (fun _ => h₂) (fun _ => ?_))
      unfold uploadPayment
      rw [if_pos hfee]
      refine comes_transact (comes_liftExcept (fun _ _ => h₂) (fun paymentId _ => ?_))
      refine comes_transact (silent_bind (silent_pinFile h₂ b.file) (fun r cs₃ w₃ h₃ => ?_))
      cases r with
      | error e => exact comes_transact h₃
      | ok u =>
        refine comes_ask ?_
        dsimp only
        split
        · exact silent_bind (silent_unpin h₃ b.file) (fun _ cs₄ w₄ h₄ => comes_transact h₄)
        · exact silent_finishUpload h₃ b c _ _ _

theorem succeeds_finishUpload {b : UploadRequest} {c : Checked} {paymentId : Nat} {paid : Coins}
    {currency : String} {cs : List Call} (hsize : 0 < cfg.byteCount b.file) :
    (finishUpload b c paymentId paid currency).Comes o Yields cs w := by
  refine comes_liftExcept (fun e he => ?_) (fun sizeMB _ => ?_)
  · rw [billableMB, if_neg (Nat.ne_of_gt hsize)] at he
    cases he
  · exact comes_clock (comes_transact (comes_ask ⟨_, rfl⟩))

/-- An upload with a payment to verify. -/
theorem stages_storeUpload {b : UploadRequest} {c : Checked} (hfee : c.feeExempt = false)
    (hr : c.reservation ∈ w.db.reservations) (hpending : c.reservation.status = .pending) :
    (storeUpload b c).Comes o (Stages o b.txId (Request.Keepable cfg o w.db (.upload b))
      (CancelsPending w) w) [] w := by
  refine comes_call (fun w₁ hw₁ => ?_)
  have hhash : Unasked b.txId ([] ++ [.hashFile b.file]) :=
    (unasked_nil b.txId).append ⟨nofun, nofun⟩
  cases o.answer (.hashFile b.file) with
  | error e => exact .of_unasked hhash
  | ok u =>
    refine comes_require (fun _ => .of_unasked hhash) (fun _ => ?_)
    refine comes_require (fun _ => .of_unasked hhash) (fun _ => ?_)
    unfold bindUploaderKey uploadPayment verifyTransfer
    simp only [hfee, Bool.false_eq_true, ↓reduceIte, Prog.pure_eq, Prog.bind_eq, Prog.ret_bind,
      Prog.bind_assoc]
    refine comes_ask (comes_require (fun _ => .of_unasked hhash) (fun hfree => ?_))
    refine comes_verifyPayment hw₁ hhash (fun paid _ w₂ hans hw₂ => ?_)
    refine comes_call (fun w₃ hw₃ => ?_)
    have hidle := hw₂.trans hw₃
    have hcancel : ∀ e, isUndecided (o.answer (.verifyHiveEngineSidechain b.txId)) = true →
        (∃ f, (Except.error e : Except Fault UploadReply) = .error f) ∧
          CancelsPending w ((Stmt.markReservationCancelled c.reservation.id).sem cfg w₃).2 := by
      intro e _
      refine ⟨⟨e, rfl⟩, c.reservation, hr, hpending, ?_⟩
      rw [hidle]
      rfl
    cases hside : o.answer (.verifyHiveEngineSidechain b.txId) with
    | error e =>
      refine comes_transact (.of_found hans (hcancel _) (fun hconf => ?_))
      rw [hside] at hconf
      cases hconf
    | ok r =>
      cases r with
      | rejected errors =>
        refine comes_transact (.of_found hans (hcancel _) (fun hconf => ?_))
        rw [hside] at hconf
        cases hconf
      | pending =>
        refine comes_transact (.of_found hans (hcancel _) (fun hconf => ?_))
        rw [hside] at hconf
        cases hconf
      | confirmed =>
        refine comes_found hans (fun hopen => ?_) (fun _ hkeep => ?_)
        · rw [hside] at hopen
          cases hopen
        · obtain ⟨hsize, hallowed, hadd, hadded⟩ := hkeep
          refine comes_call (fun w₄ hw₄ => comes_record ?_ (fun paymentId payments => ?_))
          · rw [hw₁.db_eq] at hfree
            rw [hw₄.db_eq, hidle.db_eq]
            simp only [hfee, Bool.false_eq_true, ↓reduceIte]
            exact hfree
          · refine comes_transact (comes_call (fun w₅ hw₅ => ?_))
            rw [hadd]
            refine comes_transact (comes_call (fun w₆ hw₆ => ?_))
            rw [hadded]
            have hblocked : isCidBlocked w₆.db b.file = false := by
              rw [hw₆.db_eq]
              change isCidBlocked w₅.db b.file = false
              rw [hw₅.db_eq]
              change isCidBlocked w₄.db b.file = false
              rw [hw₄.db_eq, hidle.db_eq]
              exact hallowed
            refine comes_ask ?_
            rw [hblocked]
            exact succeeds_finishUpload hsize

theorem pending_of_checkReservation {now : Int} {sizeBytes : Nat} {r : Reservation}
    (h : checkReservation now sizeBytes r = .ok ()) : r.status = .pending := by
  unfold checkReservation at h
  split at h
  · cases h
  · split at h
    · cases h
    · rename_i hstatus
      exact not_ne_iff.mp hstatus

theorem stages_upload (b : UploadRequest) :
    (upload b).Comes o (Stages o b.txId (Request.Keepable cfg o w.db (.upload b))
      (CancelsPending w) w) [] w := by
  refine comes_clock (comes_ask (comes_liftExcept (fun _ _ => .of_unasked (unasked_nil _))
    (fun c hc => ?_)))
  obtain ⟨hfind, hchecked, _⟩ := checkUpload_ok hc
  have hpending := pending_of_checkReservation hchecked
  by_cases hfee : c.feeExempt = true
  · exact (silent_storeUpload b c hfee).mono (fun _ => .of_unasked)
  · exact stages_storeUpload (Bool.not_eq_true _ ▸ hfee) (Table.find?_eq_some.mp hfind).1 hpending

/-- What an undecided sidechain leaves of the world. -/
def Request.Leaves (w : World) : Request → World → Prop
  | .upload _ => CancelsPending w
  | _ => Waited w

theorem stages_lone {q : Request} {txId : String} (hpays : q.paysWith = some txId) :
    Stages o txId (q.Keepable cfg o w.db) (q.Leaves w) w (lone cfg o q w) := by
  cases q with
  | upload b =>
    cases hpays
    exact comes_map ((stages_upload b).mono (fun _ => .map))
  | guardianPledge b =>
    cases hpays
    exact comes_map ((stages_guardianPledge "guardian" b).mono (fun _ => .map))
  | backstopPledge b =>
    cases hpays
    exact comes_map ((stages_guardianPledge "backstop" b).mono (fun _ => .map))
  | ownCopy b =>
    cases hpays
    exact comes_map ((stages_ownCopy b).mono (fun _ => .map))
  | extend b =>
    cases hpays
    exact comes_map ((stages_extend b).mono (fun _ => .map))
  | _ => cases hpays

end Handlers

/-! ## When a try leaves nothing behind -/

/-- An upload's reservation outlives a failed payment check if the lookup on Hive failed. -/
def Request.KeepsReservation {cfg : Config} (o : Outside (machine cfg)) : Request → Prop
  | .upload b => ∃ e, o.answer (.getTransaction b.txId) = .error e
  | _ => True

theorem retriable_of_waited {cfg : Config} {o : Outside (machine cfg)} {q : Request} {w : World}
    (hfailed : ∃ e, (lone cfg o q w).result = .error e) (hw : Waited w (lone cfg o q w).final) :
    Retriable cfg o q w where
  failed := hfailed
  same := hw.db_eq
  again := by
    intro txId t o' hpays _ hconf
    rw [hw.restart t]
    exact (stages_lone hpays).confirmed hconf.asked hconf.confirmed hconf.keepable

/-- A cancelled reservation is a change of the database. -/
theorem CancelsPending.db_ne {w w' : World} (h : CancelsPending w w') : w'.db ≠ w.db := by
  obtain ⟨r, hr, hpending, hdb⟩ := h
  intro hsame
  have hcancelled : { r with status := .cancelled } ∈ w'.db.reservations := by
    rw [hdb, markReservationCancelled, Table.mem_update]
    exact ⟨r, hr, by rw [if_pos (by simp [hpending])]⟩
  rw [hsame] at hcancelled
  have heq := congrArg Reservation.status (Table.eq_of_key hcancelled hr rfl)
  rw [hpending] at heq
  cases heq

/-- From every world, a request whose payment check ends without a verdict can be tried again
exactly if it is no upload or its transfer could not be looked up on Hive. -/
theorem retriable_iff (cfg : Config) (o : Outside (machine cfg)) (q : Request) (w : World)
    (h : Undecided cfg o q w) : Retriable cfg o q w ↔ q.KeepsReservation o := by
  cases h with
  | hive txId e hpays hasked hlost =>
    obtain ⟨hfailed, hw⟩ := (stages_lone hpays).lost hasked ⟨e, hlost⟩
    refine iff_of_true (retriable_of_waited hfailed hw) ?_
    cases q with
    | upload b =>
      cases hpays
      exact ⟨e, hlost⟩
    | _ => trivial
  | sidechain txId hpays hasked hopen =>
    have hstages : Stages o txId (q.Keepable cfg o w.db) (q.Leaves w) w (lone cfg o q w) :=
      stages_lone hpays
    obtain ⟨hfailed, hleft⟩ := hstages.undecided hasked hopen
    cases q with
    | upload b =>
      cases hpays
      refine iff_of_false (fun hr => CancelsPending.db_ne hleft hr.same) ?_
      rintro ⟨e, he⟩
      obtain ⟨operations, hans⟩ := hstages.found hasked
      rw [hans] at he
      cases he
    | guardianPledge b => exact iff_of_true (retriable_of_waited hfailed hleft) trivial
    | backstopPledge b => exact iff_of_true (retriable_of_waited hfailed hleft) trivial
    | ownCopy b => exact iff_of_true (retriable_of_waited hfailed hleft) trivial
    | extend b => exact iff_of_true (retriable_of_waited hfailed hleft) trivial
    | _ => cases hpays

section Sampled

open Sample

/-- Everything works. -/
def reachable : Outside (machine config) := { answer, delay := fun _ => 0 }

/-- The sidechain has not seen the transfer yet. -/
def lagging : Outside (machine config) where
  answer
    | .verifyHiveEngineSidechain _ => .ok .pending
    | c => answer c
  delay := fun _ => 1000

theorem retriable_pledge : Undecided config lagging (pledgeBy "bob")
    (serve config 0 hostedByAlice).world ∧
    (Retriable config lagging (pledgeBy "bob") (serve config 0 hostedByAlice).world ↔ True) := by
  have hundecided : Undecided config lagging (pledgeBy "bob")
      (serve config 0 hostedByAlice).world :=
    .sidechain "ipfs-gate:guardian:bafy" rfl (by decide +kernel) rfl
  exact ⟨hundecided, retriable_iff config lagging (pledgeBy "bob") _ hundecided⟩

/-- Alice has reserved and paid. -/
def reservedByAlice : World := (serve config 0 [.spawn (reserveBy "alice")]).world

/-- The answer asks her to try again in half a minute, when the sidechain has confirmed her
transfer and her reservation has been cancelled. -/
theorem reservation_spoiled :
    Undecided config lagging (uploadOf 1 "bafy") reservedByAlice ∧
    ¬ Retriable config lagging (uploadOf 1 "bafy") reservedByAlice ∧
    (lone config reachable (uploadOf 1 "bafy") reservedByAlice).result.isOk = true ∧
    (lone config reachable (uploadOf 1 "bafy")
      (lone config lagging (uploadOf 1 "bafy") reservedByAlice).final).result.isOk = false := by
  refine ⟨.sidechain (memoForReservation 1) rfl (by decide +kernel) rfl, fun h => ?_,
    by decide +kernel, by decide +kernel⟩
  have hsame : (lone config lagging (uploadOf 1 "bafy") reservedByAlice).final.db.reservations =
      reservedByAlice.db.reservations := congrArg Db.reservations h.same
  have hstatus : (lone config lagging (uploadOf 1 "bafy")
      reservedByAlice).final.db.reservations.rows.map Reservation.status ≠
      reservedByAlice.db.reservations.rows.map Reservation.status := by decide +kernel
  exact hstatus (congrArg (fun t => t.rows.map Reservation.status) hsame)

end Sampled

end IpfsGate.Server
