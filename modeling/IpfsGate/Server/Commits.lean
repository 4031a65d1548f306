import IpfsGate.Finality
import IpfsGate.Server.Closing

/-!
# Commits that take another commit

In box mode a pending refunds row takes a report in the queue, and a report that a definitive
receipt moves takes the settlement of its refunds row. Each pair is two commits. The handlers
make the second at once, in the world the first leaves, so that only a crash can part them.
-/
namespace IpfsGate.Server

open Quota
open Lib Lib.Prog
open Prog (Trace)

/-- How a receipt for a claim settles the refunds row that the claim's report names. -/
def settlement (db : Db) (ref : Nat) (receipt : BoxReceipt) : Option Stmt := do
  let row ← Escrow.get db ref
  let refundId ← row.refundId
  let (status, txId) ← Escrow.refundOutcome receipt
  return .markRefundSettled refundId status txId

/-- The commit that completes a commit, if it takes one. -/
def completion (cfg : Config) : Stmt × World → Option Stmt
  | (.recordRefund n, w) =>
    if cfg.escrowBoxMode && n.status = .pending then
      some (.enqueueReport n.claimId w.db.refunds.next)
    else none
  | (.markReport status ref receipt, w) =>
    if (Escrow.mark w.db status ref receipt).1 then settlement w.db ref receipt else none
  | (.updateReceipt ref receipt, w) => settlement w.db ref receipt
  | _ => none

/-- The commits that neither take another nor complete one. -/
def Stmt.selfContained : Stmt → Bool
  | .recordRefund _ | .enqueueReport .. | .markReport .. | .updateReceipt .. => false
  | _ => true

/-- The last commit of the process is complete. -/
def Complete (cfg : Config) (past : Trace (machine cfg)) : Prop :=
  ∀ a, past.getLast? = some a → completion cfg a = none

/-- A refund is recorded of a claim that has been cancelled, and a report is queued for a claim
whose refund is recorded. -/
def Stmt.Justified : Stmt → World → Prop
  | .recordRefund n, w => ∃ c, CancelledAs c w.db ∧ c.claimId = n.claimId ∧ c.owner = n.toAccount
  | .enqueueReport ref refundId, w =>
    ∃ f ∈ w.db.refunds, f.refundId = refundId ∧ f.claimId = ref
  | _, _ => True

/-- The statement keeps to the table, and completes the last one, at once, if that takes it. -/
structure Prompt (cfg : Config) (q : Request) (past : Trace (machine cfg)) (s : Stmt)
    (w : World) : Prop where
  tabled : tabled cfg q past s w
  completes : ∀ a, past.getLast? = some a → ∀ s', completion cfg a = some s' →
    s = s' ∧ w = (a.1.sem cfg a.2).2
  justified : s.Justified w

/-- In box mode a report can be built of the cancelled claim whose refund is being recorded, as it
was. -/
def Stmt.Reportable (cfg : Config) : Stmt → World → Prop
  | .recordRefund n, w => cfg.escrowBoxMode = true → n.status = .pending →
    ∀ c, CancelledAs c w.db → c.claimId = n.claimId →
      cfg.buildsReport c (getClaimPayments w.db c) n.reason w.now = true
  | _, _ => True

section Walk

variable {cfg : Config} {q : Request} {α β : Type} {past : Trace (machine cfg)} {s : Stmt}
  {w : World}

theorem Complete.nil : Complete cfg [] := fun _ ha => nomatch ha

theorem complete_concat : Complete cfg (past ++ [(s, w)]) ↔ completion cfg (s, w) = none := by
  unfold Complete
  simp only [List.getLast?_concat, Option.some.injEq, forall_eq']

theorem completion_recordRefund {n : NewRefund} : completion cfg (.recordRefund n, w) =
    if cfg.escrowBoxMode && n.status = .pending then
      some (.enqueueReport n.claimId w.db.refunds.next)
    else none := rfl

theorem completion_of_selfContained (hs : s.selfContained = true) :
    completion cfg (s, w) = none := by
  cases s <;> first | rfl | cases hs

theorem justified_of_selfContained (hs : s.selfContained = true) : s.Justified w := by
  cases s <;> trivial

/-- Nothing is to be completed. -/
theorem Complete.prompt (h : Complete cfg past) (ht : q.mayWrite s = true ∧ s.Checked w)
    (hj : s.Justified w) : Prompt cfg q past s w where
  tabled := ht
  completes := fun a ha s' hs' => absurd ((h a ha).symm.trans hs') (Option.some_ne_none s').symm
  justified := hj

/-- What has been cancelled stays as it is. -/
def Recalls (a b : World) : Prop := ∀ c, CancelledAs c a.db → CancelledAs c b.db

/-- The runs in which reports can be built. -/
abbrev reporting (cfg : Config) : Rely (machine cfg) where
  Inv := fun _ => True
  Later := Recalls
  Runs := Stmt.Reportable cfg
  Answers := fun _ _ => True

theorem reporting_valid (cfg : Config) : (reporting cfg).Valid (Prompt cfg) where
  refl := fun _ _ h => h
  trans := fun h₁ h₂ c h => h₂ c (h₁ c h)
  drift := fun _ _ _ => ⟨trivial, fun _ h => h⟩
  step := fun _ _ _ _ hg _ _ => ⟨trivial, fun _ h => cancelledAs_sem cfg hg.tabled.2 h⟩

/-- The program completes what it commits. -/
abbrev Careful (cfg : Config) (q : Request) (p : Handler cfg α) (w : World) : Prop :=
  ∀ past, Complete cfg past →
    p.Assures (reporting cfg) (Prompt cfg q) (fun _ past _ => Complete cfg past) past w

theorem Careful.bind {p : Handler cfg α} {f : α → Handler cfg β} (hp : Careful cfg q p w)
    (hf : ∀ a w', Recalls w w' → Careful cfg q (f a) w') :
    Careful cfg q (Prog.bind p f) w := by
  intro past h
  refine assures_bind (Assures.mono ?_
    (Rely.assures_grows (q := q) (reporting_valid cfg) trivial (hp past h)))
  rintro r past w' ⟨_, hlater, hr⟩
  cases r with
  | ok a => exact hf a w' hlater past hr
  | error e => exact hr

theorem Careful.map {p : Handler cfg α} (f : α → β) (hp : Careful cfg q p w) :
    Careful cfg q (f <$> p) w := hp.bind (fun _ _ _ _ h => h)

theorem Careful.require {b : Bool} {e : Fault} {f : Unit → Handler cfg β}
    (hf : b = true → Careful cfg q (f ()) w) :
    Careful cfg q (Prog.bind (Prog.require b e) f) w :=
  fun past h => assures_require (fun _ => h) (fun hb => hf hb past h)

theorem Careful.liftExcept {r : Except Fault α} {f : α → Handler cfg β}
    (hf : ∀ a, r = .ok a → Careful cfg q (f a) w) :
    Careful cfg q (Prog.bind (Prog.liftExcept r) f) w :=
  fun past h => assures_liftExcept (fun _ _ => h) (fun a ha => hf a ha past h)

theorem Careful.fold {f : β → α → Handler cfg β} {xs : List α}
    (hf : ∀ b, ∀ a ∈ xs, ∀ w', Recalls w w' → Careful cfg q (f b a) w') (b : β) :
    Careful cfg q (Prog.fold f xs b) w := by
  induction xs generalizing b w with
  | nil => exact fun _ h => h
  | cons a rest ih =>
    refine Careful.bind (hf b a List.mem_cons_self w (fun _ h => h)) (fun b' w' hlater => ?_)
    exact ih (fun b'' a' ha' w'' hlater' => hf b'' a' (List.mem_cons_of_mem _ ha') w''
      (fun c hc => hlater' c (hlater c hc))) b'

theorem Careful.transact {f : s.Out → Handler cfg β} (hs : s.selfContained = true)
    (ht : q.mayWrite s = true ∧ s.Checked w)
    (hf : Careful cfg q (f (s.sem cfg w).1) (s.sem cfg w).2) :
    Careful cfg q (Prog.bind (Server.transact s) f) w := by
  intro past h _
  refine ⟨h.prompt ht (justified_of_selfContained hs), fun _ => hf _ ?_⟩
  exact complete_concat.mpr (completion_of_selfContained hs)

theorem Careful.perform {c : Call} {f : c.Reply → Handler cfg β}
    (hf : ∀ r w', Careful cfg q (f r) w') : Careful cfg q (Prog.bind (Server.perform c) f) w :=
  fun past h w' _ _ r _ => hf r w' past h

theorem Careful.ask {g : Db → α} {f : α → Handler cfg β} (hf : Careful cfg q (f (g w.db)) w) :
    Careful cfg q (Prog.bind (Server.ask g) f) w := hf

/-- A program of commits that stand for themselves. -/
theorem Careful.of_keeps {p : Handler cfg α}
    (hp : Keeps cfg (fun s w => s.selfContained = true ∧ q.mayWrite s = true ∧ s.Checked w)
      (fun _ => True) p w) : Careful cfg q p w := by
  intro past h
  refine Assures.mono (fun _ _ _ hr => hr.1)
    (Emits.assures (M := machine cfg) (J := fun past _ => Complete cfg past) ?_
      (fun _ _ _ h _ _ => h) hp h)
  intro s w past hs _ h
  exact ⟨h.prompt hs.2 (justified_of_selfContained hs.1),
    fun _ => complete_concat.mpr (completion_of_selfContained hs.1)⟩

/-! ## Recording a refund -/

section Settling

variable (hq : q.settles = true)

include hq

theorem settles_mark {refundId : Nat} {status : RefundStatus} {txId : Option String}
    (hs : status ≠ .pending) : q.mayWrite (.markRefundSettled refundId status txId) = true ∧
      (Stmt.markRefundSettled refundId status txId).Checked w :=
  (settles_refunds hq).settle refundId status txId w hs

theorem careful_unpin {p : Handler cfg α}
    (hp : ∀ G : Stmt → World → Prop, (∀ cid w, G (.unpinFromKubo cid) w) →
      Keeps cfg G (fun _ => True) p w) : Careful cfg q p w :=
  .of_keeps (hp _ (fun cid _ => ⟨rfl, settles_unpinFromKubo hq cid, trivial⟩))

/-- Off box mode a pending row takes no report. -/
theorem careful_payRefund (hbox : cfg.escrowBoxMode = false) {claim : Claim} {amount : Coins}
    {memo reason : String} {refundId : Nat} :
    Careful cfg q (payRefund claim amount memo reason refundId) w := by
  unfold payRefund
  dsimp only
  rw [hbox, if_neg Bool.false_ne_true]
  refine Careful.bind (.of_keeps (keeps_sendRefund (fun _ _ => trivial))) (fun sent w _ => ?_)
  split
  · exact .transact rfl (settles_mark hq (by decide)) (fun _ h => h)
  · exact fun _ h => h
  · exact .transact rfl (settles_mark hq (by decide)) (fun _ h => h)

/-- The report that the row of a pending refund takes. -/
theorem settleClaim_completes {claim : Claim} {reason : String} {n : NewRefund}
    (hbox : cfg.escrowBoxMode = true) (hpending : n.status = .pending)
    (hid : n.claimId = claim.claimId)
    (hbuilt : cfg.buildsReport claim (getClaimPayments w.db claim) reason w.now = true) :
    (settleClaim claim reason w.db.refunds.next : Handler cfg Unit).Assures (reporting cfg)
      (Prompt cfg q) (fun _ past _ => Complete cfg past) (past ++ [(.recordRefund n, w)])
      ((Stmt.recordRefund n).sem cfg w).2 := by
  unfold settleClaim
  change Prog.Assures _ _ _
    (ite (cfg.buildsReport claim (getClaimPayments w.db claim) reason w.now = true) _ _) _ _
  rw [if_pos hbuilt]
  intro _
  refine ⟨⟨(settles_refunds hq).enqueue _ _ _, ?_, ?_⟩, fun _ => ?_⟩
  · intro a ha s' hs'
    rw [List.getLast?_concat] at ha
    cases ha
    rw [completion_recordRefund, hbox, hpending, hid] at hs'
    cases hs'
    exact ⟨rfl, rfl⟩
  · exact ⟨_, Table.mem_insert.mpr (Or.inr rfl), rfl, hid⟩
  · have hcomplete : ∀ (past : Trace (machine cfg)) ref refundId w,
        Complete cfg (past ++ [(.enqueueReport ref refundId, w)]) :=
      fun _ _ _ _ => complete_concat.mpr rfl
    change Prog.Assures _ _ _ (ite _ _ _) _ _
    split
    · exact fun _ _ _ _ _ _ _ _ _ _ => hcomplete _ _ _ _
    · exact fun _ _ _ _ _ => hcomplete _ _ _ _

theorem careful_broadcastRefund {claim : Claim} (hc : CancelledAs claim w.db) {amount : Coins}
    {reason : String} : Careful cfg q (broadcastRefund claim amount reason) w := by
  intro past h
  unfold broadcastRefund
  dsimp only
  split
  · intro _
    refine ⟨h.prompt ((settles_refunds hq).record _ _) ⟨claim, hc, rfl, rfl⟩, fun _ => ?_⟩
    exact complete_concat.mpr (if_neg (by simp))
  · intro hruns
    refine ⟨h.prompt ((settles_refunds hq).record _ _) ⟨claim, hc, rfl, rfl⟩, fun _ => ?_⟩
    change Prog.Assures _ _ _ (payRefund claim amount _ reason w.db.refunds.next) _ _
    cases hbox : cfg.escrowBoxMode with
    | false =>
      refine careful_payRefund hq hbox _ (complete_concat.mpr (if_neg ?_))
      rw [hbox]
      exact Bool.false_ne_true
    | true =>
      unfold payRefund
      dsimp only
      rw [if_pos hbox]
      refine assures_bind (Assures.mono ?_ (settleClaim_completes hq hbox rfl rfl
        (hruns hbox rfl claim hc rfl)))
      intro r past w hr
      cases r <;> exact hr

theorem careful_settleClaimRefund {claim : Claim} (hc : CancelledAs claim w.db)
    {reason : String} : Careful cfg q (settleClaimRefund claim reason) w := by
  unfold settleClaimRefund
  change Careful cfg q (Prog.bind (Prog.liftExcept _) _) w
  refine Careful.liftExcept (fun amount _ => ?_)
  exact Careful.bind (careful_broadcastRefund hq hc) (fun _ _ _ => .perform (fun _ _ _ h => h))

theorem careful_settleForcedRefund {claim : Claim} (hc : CancelledAs claim w.db)
    {policy : RefundPolicy} {innocent : Bool} :
    Careful cfg q (settleForcedRefund claim policy innocent) w := by
  unfold settleForcedRefund
  change Careful cfg q (Prog.bind (Prog.liftExcept _) _) w
  refine Careful.liftExcept (fun amount _ => ?_)
  exact Careful.bind (careful_broadcastRefund hq hc) (fun _ _ _ => .perform (fun _ _ _ h => h))

/-- The rows of the loop stay cancelled while the refunds before theirs are paid. -/
theorem careful_settleVoided {policy : RefundPolicy} {innocent : Claim → Bool}
    {voided : List Claim} (hvoided : ∀ c ∈ voided, CancelledAs c w.db) :
    Careful cfg q (settleVoided policy innocent voided) w := by
  unfold settleVoided
  refine Careful.fold (fun refunds claim hclaim w' hlater => ?_) _
  have hc : CancelledAs claim w'.db := hlater claim (hvoided claim hclaim)
  exact Careful.bind (careful_settleForcedRefund hq hc) (fun _ _ _ _ h => h)

end Settling

/-! ## The requests that refund -/

theorem careful_cancelClaim {claimId : Nat} {owner : Option Account} {asAdmin : Bool}
    {f : Ended → Handler cfg β} (ht : q.mayWrite (.cancelClaim claimId owner asAdmin) = true)
    (hf : ∀ e w', CancelledAs e.claim w'.db → Careful cfg q (f e) w') :
    Careful cfg q (Prog.bind (Server.transact (.cancelClaim claimId owner asAdmin))
      (fun o => Prog.bind (Prog.liftExcept o) f)) w := by
  refine Careful.transact rfl ⟨ht, trivial⟩ (Careful.liftExcept (fun e he => ?_))
  exact hf e _ (cancelledAs_cancelClaim (fallible_ok he))

theorem careful_verify {account : Account} {ts : Option Int} {pubkey sig message : String} :
    Careful cfg q (verifySignedUserRequest account ts pubkey sig message) w :=
  .of_keeps (keeps_verifySignedUserRequest (fun _ _ => trivial))

theorem careful_verifyAdmin {auth : AdminAuth} {action target : String} :
    Careful cfg q (verifyAdminAuth auth action target) w :=
  .of_keeps (keeps_verifyAdminAuth (fun _ _ => trivial))

theorem careful_unpinIfLast (hq : q.settles = true) {last : Bool} {cid : Cid} :
    Careful cfg q (unpinIfLast last cid) w :=
  careful_unpin hq (fun _ hG => keeps_unpinIfLast hG (fun _ _ => trivial))

theorem careful_cancel {b : CancelRequest} : Careful cfg (.cancel b) (cancel b) w := by
  unfold cancel
  dsimp only
  split
  · exact fun _ h => h
  · refine Careful.bind careful_verify (fun _ w _ => careful_cancelClaim rfl (fun e w hc => ?_))
    refine Careful.bind (careful_settleClaimRefund rfl hc) (fun _ w _ => ?_)
    exact Careful.bind (careful_unpinIfLast rfl) (fun _ _ _ _ h => h)

theorem careful_removeUploads {b : DeleteRequest} {cid : Cid} {account : Account} :
    Careful cfg (.uploadsDelete b) (removeUploads cid account) w := by
  unfold removeUploads
  change Careful cfg _ (ite (activeClaimsOf w.db cid account = []) _ _) w
  split
  · rename_i hnone
    exact Careful.transact rfl ⟨rfl, hnone⟩ (fun _ h => h)
  · refine Careful.fold (fun out c _ w _ => careful_cancelClaim rfl (fun e w hc => ?_)) _
    exact Careful.bind (careful_settleClaimRefund rfl hc) (fun _ _ _ _ h => h)

theorem careful_uploadsDelete {b : DeleteRequest} :
    Careful cfg (.uploadsDelete b) (uploadsDelete b) w := by
  unfold uploadsDelete
  refine Careful.require (fun _ => Careful.bind careful_verify (fun _ w _ => ?_))
  refine Careful.bind careful_removeUploads (fun out w _ => Careful.require (fun _ => ?_))
  exact Careful.bind (careful_unpinIfLast rfl) (fun _ _ _ _ h => h)

theorem careful_actOnDecision (hq : q.settles = true)
    (hend : ∀ id, q.mayWrite (.endActiveClaimForRelease id) = true)
    (hconsent : ∀ id a sig, q.mayWrite (.recordReleaseConsent id a sig) = true) {order : Order}
    {account : Account} {sig : String} {decision : Decision} {reason : String} :
    Careful cfg q (actOnDecision order account sig decision reason) w := by
  unfold actOnDecision
  refine Careful.bind ?_ (fun _ w _ => ?_)
  · unfold recordConsent
    split
    · exact Careful.transact rfl ⟨hconsent _ _ _, trivial⟩ (fun _ h => h)
    · exact fun _ h => h
  · split
    · exact fun _ h => h
    · unfold endOrder
      refine Careful.ask ?_
      split
      · exact fun _ h => h
      · refine Careful.transact rfl ⟨hend _, trivial⟩ (Careful.liftExcept (fun e he => ?_))
        have hc := cancelledAs_endActiveClaimForRelease (fallible_ok he)
        refine Careful.bind (careful_settleClaimRefund hq hc) (fun _ w _ => ?_)
        exact Careful.bind (careful_unpinIfLast hq) (fun _ _ _ _ h => h)

theorem careful_release {b : ReleaseRequest} : Careful cfg (.release b) (release b) w := by
  unfold release
  dsimp only
  split
  · exact fun _ h => h
  · refine Careful.bind careful_verify (fun _ w _ => ?_)
    refine Careful.ask ?_
    split
    · exact fun _ h => h
    · change Careful cfg _ (Prog.bind (Prog.liftExcept _) _) w
      refine Careful.liftExcept (fun decision _ => Careful.require (fun _ => ?_))
      exact Careful.bind (careful_actOnDecision rfl (fun _ => rfl) (fun _ _ _ => rfl))
        (fun _ _ _ _ h => h)

theorem careful_receipt {b : ReceiptRequest} : Careful cfg (.receipt b) (receipt b) w := by
  unfold receipt
  dsimp only
  split
  · exact fun _ h => h
  · refine Careful.require (fun _ => Careful.bind careful_verify (fun _ w _ => ?_))
    refine Careful.ask ?_
    split
    · exact fun _ h => h
    · split
      · exact fun _ h => h
      · refine Careful.require (fun _ => Careful.transact rfl ⟨rfl, trivial⟩ ?_)
        change Careful cfg _ (Prog.bind (Prog.liftExcept _) _) _
        refine Careful.liftExcept (fun decision _ => ?_)
        change Careful cfg _ (Prog.bind (actOnReceipt _ _ _ _) _) _
        refine Careful.bind ?_ (fun _ _ _ _ h => h)
        unfold actOnReceipt
        split
        · exact fun _ h => h
        · exact careful_actOnDecision rfl (fun _ => rfl) (fun _ _ _ => rfl)

theorem careful_ban {b : BanRequest} : Careful cfg (.ban b) (ban b) w := by
  unfold ban
  refine Careful.bind careful_verifyAdmin (fun adminId w _ => ?_)
  refine Careful.transact rfl ⟨rfl, trivial⟩ (Careful.liftExcept (fun result hresult => ?_))
  have hvoided := cancelledAs_banAccount (fallible_ok hresult)
  refine Careful.bind (careful_settleVoided rfl hvoided) (fun _ w _ => ?_)
  exact Careful.bind (careful_unpin rfl (fun _ hG => keeps_unpinAll hG (fun _ _ => trivial)))
    (fun _ _ _ _ h => h)

theorem careful_takedown {b : TakedownRequest} : Careful cfg (.takedown b) (takedown b) w := by
  unfold takedown
  refine Careful.bind careful_verifyAdmin (fun adminId w _ => ?_)
  refine Careful.transact rfl ⟨rfl, trivial⟩ (Careful.liftExcept (fun result hresult => ?_))
  have hvoided := cancelledAs_takedownCid (fallible_ok hresult)
  refine Careful.bind (careful_settleVoided rfl hvoided) (fun _ w _ => ?_)
  exact Careful.bind (careful_unpin rfl (fun _ hG => keeps_unpinAndGc hG (fun _ _ => trivial)))
    (fun _ _ _ _ h => h)

theorem careful_pinsDelete {b : PinsDeleteRequest} :
    Careful cfg (.pinsDelete b) (pinsDelete b) w := by
  unfold pinsDelete
  refine Careful.require (fun _ => Careful.bind careful_verifyAdmin (fun adminId w _ => ?_))
  change Careful cfg _ (Prog.bind (Prog.require _ _) _) w
  refine Careful.require (fun _ => Careful.bind ?_ (fun out w _ => ?_))
  · refine Careful.fold (fun out c _ w _ => careful_cancelClaim rfl (fun e w hc => ?_)) _
    exact Careful.bind (careful_settleForcedRefund rfl hc) (fun _ _ _ _ h => h)
  · refine Careful.bind (careful_unpinIfLast rfl) (fun _ w _ => ?_)
    exact Careful.transact rfl ⟨rfl, trivial⟩ (fun _ h => h)

/-! ## Receipts -/

section Receipts

variable {receipt : BoxReceipt} {ref : Nat} {row : PendingReport}

theorem settlement_of_get {db : Db} (hget : Escrow.get db ref = some row) :
    settlement db ref receipt = row.refundId.bind (fun refundId =>
      (Escrow.refundOutcome receipt).bind (fun out =>
        some (.markRefundSettled refundId out.1 out.2))) := by
  unfold settlement
  rw [hget]
  rfl

/-- Both branches of the handler end in the settlement that their commit takes. -/
theorem finalizeRefund_completes {a : Stmt × World} {refundId : Option Nat}
    (hset : completion cfg a = refundId.bind (fun refundId =>
      (Escrow.refundOutcome receipt).bind (fun out =>
        some (.markRefundSettled refundId out.1 out.2)))) :
    (do
      finalizeRefund refundId receipt
      let _ ← perform .returned : Handler cfg Unit).Assures (reporting cfg)
      (Prompt cfg (.boxReceipt receipt)) (fun _ past _ => Complete cfg past) (past ++ [a])
      (a.1.sem cfg a.2).2 := by
  cases refundId with
  | none => exact fun _ _ _ _ _ => complete_concat.mpr hset
  | some id =>
    cases hout : Escrow.refundOutcome receipt with
    | none =>
      rw [hout] at hset
      unfold finalizeRefund
      rw [hout]
      exact fun _ _ _ _ _ => complete_concat.mpr hset
    | some out =>
      obtain ⟨status, txId⟩ := out
      rw [hout] at hset
      unfold finalizeRefund
      rw [hout]
      intro _
      refine ⟨⟨⟨rfl, Escrow.refundOutcome_ne_pending hout⟩, ?_, trivial⟩, fun _ => ?_⟩
      · intro b hb s' hs'
        rw [List.getLast?_concat] at hb
        cases hb
        rw [hset] at hs'
        cases hs'
        exact ⟨rfl, rfl⟩
      · exact fun _ _ _ _ _ => complete_concat.mpr rfl

/-- A report that could not be marked has left pending, and marking it changed nothing. -/
theorem mark_lost {db : Db} {status : ReportStatus} (hget : Escrow.get db ref = some row)
    (h : (Escrow.mark db status ref receipt).1 ≠ true) :
    (Escrow.mark db status ref receipt).2 = db := by
  have hs : row.status ≠ .pending := fun hs => h (Finality.mark_of_pending hget hs)
  rw [Finality.mark_of_settled hget hs]

theorem careful_handleReceipt : Careful cfg (.boxReceipt receipt) (handleReceipt receipt) w := by
  unfold handleReceipt
  split
  · exact fun _ h => h
  · rename_i ref href
    split
    · exact fun _ h => h
    · refine Careful.ask ?_
      intro past h
      split
      · exact h
      · rename_i row hget
        unfold settleReport
        intro _
        refine ⟨h.prompt ⟨rfl, trivial⟩ trivial, fun _ => ?_⟩
        change Prog.Assures _ _ _
          (ite ((Escrow.mark w.db (Escrow.markedStatus receipt) ref receipt).1 = true) _ _) _ _
        have hmark : completion cfg (.markReport (Escrow.markedStatus receipt) ref receipt, w) =
            if (Escrow.mark w.db (Escrow.markedStatus receipt) ref receipt).1 then
              settlement w.db ref receipt
            else none := rfl
        by_cases hwon : (Escrow.mark w.db (Escrow.markedStatus receipt) ref receipt).1 = true
        · rw [if_pos hwon] at hmark ⊢
          exact finalizeRefund_completes (hmark.trans (settlement_of_get hget))
        · rw [if_neg hwon] at hmark ⊢
          have hrest : Complete cfg (past ++ [(.markReport (Escrow.markedStatus receipt) ref receipt,
              w)]) := complete_concat.mpr hmark
          split
          · intro _
            refine ⟨hrest.prompt ⟨rfl, trivial⟩ trivial, fun _ => ?_⟩
            refine finalizeRefund_completes (a := (.updateReceipt ref receipt, _)) ?_
            have hleft : Escrow.get (Escrow.mark w.db (Escrow.markedStatus receipt) ref receipt).2
                ref = some row := by
              rw [mark_lost hget hwon]
              exact hget
            exact settlement_of_get hleft
          · exact hrest

end Receipts

/-! ## Every request -/

/-- The requests that neither refund nor receive. -/
theorem selfContained_of_mayWrite (hq : q.settles = false) (hbox : ∀ b, q ≠ .boxReceipt b)
    (h : q.mayWrite s = true) : s.selfContained = true := by
  cases q <;> first
    | exact absurd hq.symm Bool.false_ne_true
    | exact absurd rfl (hbox _)
    | (cases s <;> first | rfl | exact absurd h Bool.false_ne_true)

/-- Every handler completes what it commits, at once. -/
theorem handle_careful (q : Request) : Careful cfg q (handle cfg q) w := by
  by_cases hq : q.settles = true
  · cases q with
    | cancel b => exact .map _ careful_cancel
    | uploadsDelete b => exact .map _ careful_uploadsDelete
    | release b => exact .map _ careful_release
    | receipt b => exact .map _ careful_receipt
    | ban b => exact .map _ careful_ban
    | takedown b => exact .map _ careful_takedown
    | pinsDelete b => exact .map _ careful_pinsDelete
    | _ => cases hq
  · by_cases hbox : ∃ b, q = .boxReceipt b
    · obtain ⟨b, rfl⟩ := hbox
      exact .map _ careful_handleReceipt
    · refine .of_keeps ((handle_follows cfg q w).weaken (fun s _ hs => ⟨?_, hs⟩)
        (fun _ _ => trivial))
      exact selfContained_of_mayWrite (Bool.not_eq_true _ ▸ hq) (fun b hb => hbox ⟨b, hb⟩) hs.1

end Walk

end IpfsGate.Server
