import IpfsGate.Server.Gate
import IpfsGate.Lib.Logic

/-!
# What each route writes

One table of the statements each request may run, the guards they run under, and the proof that
the handlers keep to it at every interleaving.
-/
namespace IpfsGate.Server

open Quota Pricing
open Lib Lib.Prog

/-- The requests that refund the claims they end. -/
def Request.settles : Request → Bool
  | .cancel _ | .uploadsDelete _ | .release _ | .receipt _ | .ban _ | .takedown _
  | .pinsDelete _ => true
  | _ => false

/-- The statements a request may run. -/
def Request.mayWrite : Request → Stmt → Bool
  | .reserve _, .createReservation .. => true
  | .upload _, .recordPayment _ => true
  | .upload _, .markReservationPaid .. => true
  | .upload _, .markReservationCancelled _ => true
  | .upload _, .finaliseUpload .. => true
  | .upload _, .pinInKubo _ => true
  | .upload _, .unpinFromKubo _ => true
  | .guardianPledge _, .recordPayment _ => true
  | .guardianPledge _, .pledge _ => true
  | .backstopPledge _, .recordPayment _ => true
  | .backstopPledge _, .pledge _ => true
  | .ownCopy _, .recordPayment _ => true
  | .ownCopy _, .createOwnCopyClaim _ => true
  | .extend _, .recordPayment _ => true
  | .extend _, .extendClaim .. => true
  | .cancel _, .cancelClaim .. => true
  | .uploadsDelete _, .cancelClaim .. => true
  | .uploadsDelete _, .removePinForUploader .. => true
  | .release _, .recordReleaseConsent .. => true
  | .release _, .endActiveClaimForRelease _ => true
  | .receipt _, .recordReceipt .. => true
  | .receipt _, .recordReleaseConsent .. => true
  | .receipt _, .endActiveClaimForRelease _ => true
  | .ban _, .banAccount .. => true
  | .unban _, .unbanAccount .. => true
  | .takedown _, .takedownCid .. => true
  | .untakedown _, .untakedownCid .. => true
  | .takedownsImport _, .importTakedowns _ => true
  | .whitelistAdd _, .addToWhitelist _ => true
  | .whitelistRemove _, .removeFromWhitelist .. => true
  | .pinsDelete _, .cancelClaim .. => true
  | .pinsDelete _, .audit _ => true
  | .sweep, .sweep => true
  | .sweep, .setSweeping _ => true
  | .sweep, .unpinFromKubo _ => true
  | q, .recordRefund _ => q.settles
  | .boxReceipt _, .markReport .. => true
  | .boxReceipt _, .updateReceipt .. => true
  | .boxReceipt _, .markRefundSettled .. => true
  | q, .markRefundSettled .. => q.settles
  | q, .enqueueReport .. => q.settles
  | q, .unpinFromKubo _ => q.settles
  | _, _ => false
def Call.isAdd : Call → Bool
  | .kuboAdd _ | .kuboAdded _ => true
  | _ => false

/-- The calls of a refund and of a clean-up. -/
def Call.isSettling : Call → Bool
  | .broadcast .. | .settleReport .. | .kuboRemove _ | .kuboRemoved _ | .kuboGc | .returned => true
  | _ => false

theorem Call.isAdd_of_isSettling {c : Call} (h : c.isSettling = true) : c.isAdd = false := by
  cases c <;> first | rfl | cases h

/-- Only an upload has Kubo add a file. -/
def Request.mayAwait : Request → Call → Bool
  | .upload _, _ => true
  | _, c => !c.isAdd

/-- What a handler has checked in the turn in which it runs a statement. -/
def Stmt.Checked : Stmt → World → Prop
  | .recordPayment n, _ => n.status = .confirmed
  | .finaliseUpload _ u, w => isCidBlocked w.db u.cid = false ∧ 0 < u.sizeBytes
  | .pledge g, _ => 0 < g.sizeBytes
  | .removePinForUploader cid account, w => activeClaimsOf w.db cid account = []
  | .markRefundSettled _ status _, _ => status ≠ .pending
  | _, _ => True

section Rules

variable {cfg : Config} {α β : Type} {G : Stmt → World → Prop} {A : Call → Prop} {w : World}

/-- Whatever a handler returns. -/
abbrev Any {α : Type} : Except Fault α → World → Prop := fun _ _ => True

/-- The handler only runs statements and awaits calls that are permitted. -/
abbrev Keeps (cfg : Config) (G : Stmt → World → Prop) (A : Call → Prop) (p : Handler cfg α)
    (w : World) : Prop :=
  p.Emits (M := machine cfg) G A Any w

theorem Keeps.bind {p : Handler cfg α} {f : α → Handler cfg β} (hp : Keeps cfg G A p w)
    (hf : ∀ a w', Keeps cfg G A (f a) w') : Keeps cfg G A (Prog.bind p f) w := by
  refine emits_bind (Emits.mono ?_ hp)
  intro r w' _
  cases r with
  | ok a => exact hf a w'
  | error e => trivial

theorem Keeps.map {p : Handler cfg α} (f : α → β) (hp : Keeps cfg G A p w) :
    Keeps cfg G A (f <$> p) w := hp.bind (fun _ _ => trivial)

theorem Keeps.require {b : Bool} {e : Fault} {f : Unit → Handler cfg β}
    (hf : b = true → Keeps cfg G A (f ()) w) : Keeps cfg G A (Prog.bind (Prog.require b e) f) w := by
  unfold Prog.require
  by_cases hb : b = true
  · rw [if_pos hb]
    exact hf hb
  · rw [if_neg hb]
    trivial

theorem Keeps.liftExcept {r : Except Fault α} {f : α → Handler cfg β}
    (hf : ∀ a, r = .ok a → Keeps cfg G A (f a) w) :
    Keeps cfg G A (Prog.bind (Prog.liftExcept r) f) w := by
  cases r with
  | ok a => exact hf a rfl
  | error e => trivial

theorem Keeps.fold {f : β → α → Handler cfg β} (hf : ∀ b a w, Keeps cfg G A (f b a) w)
    (xs : List α) (b : β) (w : World) : Keeps cfg G A (Prog.fold f xs b) w := by
  induction xs generalizing b w with
  | nil => trivial
  | cons a rest ih => exact Keeps.bind (hf b a w) (fun b' w' => ih b' w')

theorem Keeps.clock {f : Int → Handler cfg β} (hf : Keeps cfg G A (f w.now) w) :
    Keeps cfg G A (Prog.bind Server.clock f) w := hf

theorem Keeps.ask {g : Db → α} {f : α → Handler cfg β} (hf : Keeps cfg G A (f (g w.db)) w) :
    Keeps cfg G A (Prog.bind (Server.ask g) f) w := hf

theorem Keeps.transact {s : Stmt} {f : s.Out → Handler cfg β} (hs : G s w)
    (hf : ∀ o w', Keeps cfg G A (f o) w') : Keeps cfg G A (Prog.bind (Server.transact s) f) w :=
  ⟨hs, hf _ _⟩

theorem Keeps.perform {c : Call} {f : c.Reply → Handler cfg β} (hc : A c)
    (hf : ∀ r w', Keeps cfg G A (f r) w') : Keeps cfg G A (Prog.bind (Server.perform c) f) w :=
  ⟨hc, hf⟩

/-- Recording a refund, queueing its report and settling it are permitted. -/
structure PermitsRefunds (G : Stmt → World → Prop) : Prop where
  record : ∀ n w, G (.recordRefund n) w
  enqueue : ∀ ref refundId w, G (.enqueueReport ref refundId) w
  settle : ∀ id status txId w, status ≠ .pending → G (.markRefundSettled id status txId) w

/-! ## Shared parts of the handlers -/

theorem keeps_require {b : Bool} {e : Fault} :
    Keeps cfg G A (Prog.require b e : Handler cfg Unit) w := by
  unfold Prog.require
  split <;> trivial

theorem keeps_liftExcept {r : Except Fault α} :
    Keeps cfg G A (Prog.liftExcept r : Handler cfg α) w := by
  cases r <;> trivial

theorem keeps_verifySignedUserRequest {account : Account} {ts : Option Int}
    {pubkey sig message : String} (hA : ∀ c, c.isAdd = false → A c) :
    Keeps cfg G A (verifySignedUserRequest account ts pubkey sig message) w := by
  unfold verifySignedUserRequest
  refine Keeps.require (fun _ => ?_)
  cases ts with
  | none => trivial
  | some tsNum =>
    refine Keeps.require (fun _ => Keeps.clock ?_)
    refine Keeps.require (fun _ => Keeps.require (fun _ => ?_))
    refine Keeps.perform (hA _ rfl) (fun r w' => ?_)
    cases r with
    | error e => trivial
    | ok postingKeys => exact keeps_require

theorem keeps_verifyAdminAuth {auth : AdminAuth} {action target : String}
    (hA : ∀ c, c.isAdd = false → A c) :
    Keeps cfg G A (verifyAdminAuth auth action target) w := by
  unfold verifyAdminAuth
  by_cases h : isOperator cfg auth = true
  · rw [if_pos h]
    exact Keeps.perform (hA _ rfl) (fun _ _ => trivial)
  · rw [if_neg h]
    refine Keeps.require (fun _ => Keeps.require (fun _ => ?_))
    exact Keeps.bind (keeps_verifySignedUserRequest hA) (fun _ _ => trivial)

theorem keeps_verifyPayment {txId : String} {sender : Account} {memo : String} {amount : Number}
    (hA : ∀ c, c.isAdd = false → A c) :
    Keeps cfg G A (verifyPayment txId sender memo amount) w := by
  unfold verifyPayment
  refine Keeps.perform (hA _ rfl) (fun r w' => ?_)
  cases r with
  | error e => trivial
  | ok operations => exact Keeps.liftExcept (fun _ _ => keeps_liftExcept)

theorem keeps_confirmOnSidechain {txId : String} (hA : ∀ c, c.isAdd = false → A c) :
    Keeps cfg G A (confirmOnSidechain txId) w := by
  unfold confirmOnSidechain
  refine Keeps.perform (hA _ rfl) (fun r w' => ?_)
  split <;> trivial

theorem keeps_verifyOrSkipPayment {p : PaymentRequest}
    (hrecord : ∀ n w, n.memo = p.expectedMemo → n.status = .confirmed →
      G (.recordPayment n) w)
    (hA : ∀ c, c.isAdd = false → A c) : Keeps cfg G A (verifyOrSkipPayment p) w := by
  unfold verifyOrSkipPayment
  by_cases h : p.feeExempt = true
  · rw [if_pos h]
    refine Keeps.transact (hrecord _ _ rfl rfl) (fun o w' => Keeps.liftExcept (fun _ _ => ?_))
    exact Keeps.perform (hA _ rfl) (fun _ _ => trivial)
  · rw [if_neg h]
    refine Keeps.bind (keeps_verifyPayment hA) (fun paid w' => ?_)
    refine Keeps.bind (keeps_confirmOnSidechain hA) (fun _ w' => ?_)
    refine Keeps.transact (hrecord _ _ rfl rfl) (fun o w' => Keeps.liftExcept (fun _ _ => ?_))
    exact Keeps.perform (hA _ rfl) (fun _ _ => trivial)

theorem keeps_sendRefund {dest : Account} {amount : Coins} {currency memo : String}
    (hA : ∀ c, c.isSettling = true → A c) :
    Keeps cfg G A (sendRefund dest amount currency memo) w := by
  unfold sendRefund
  split
  · exact Keeps.perform (hA _ rfl) (fun _ _ => trivial)
  · dsimp only
    split
    · exact Keeps.perform (hA _ rfl) (fun _ _ => trivial)
    · refine Keeps.perform (hA _ rfl) (fun sent w' => ?_)
      cases sent <;> trivial

theorem keeps_settleClaim {claim : Claim} {trigger : String} {refundId : Nat}
    (hG : PermitsRefunds G) (hA : ∀ c, c.isSettling = true → A c) :
    Keeps cfg G A (settleClaim claim trigger refundId) w := by
  unfold settleClaim
  refine Keeps.ask (Keeps.clock ?_)
  dsimp only
  split
  · refine Keeps.transact (hG.enqueue _ _ _) (fun won w' => ?_)
    split
    · refine Keeps.perform (hA _ rfl) (fun _ w' => ?_)
      exact Keeps.perform (hA _ rfl) (fun _ _ => trivial)
    · exact Keeps.perform (hA _ rfl) (fun _ _ => trivial)
  · exact Keeps.perform (hA _ rfl) (fun _ _ => trivial)

theorem keeps_payRefund {claim : Claim} {amount : Coins} {memo reason : String} {refundId : Nat}
    (hG : PermitsRefunds G) (hA : ∀ c, c.isSettling = true → A c) :
    Keeps cfg G A (payRefund claim amount memo reason refundId) w := by
  unfold payRefund
  dsimp only
  split
  · exact Keeps.bind (keeps_settleClaim hG hA) (fun _ _ => trivial)
  · refine Keeps.bind (keeps_sendRefund hA) (fun sent w' => ?_)
    split
    · exact Keeps.transact (hG.settle _ _ _ _ (by decide)) (fun _ _ => trivial)
    · trivial
    · exact Keeps.transact (hG.settle _ _ _ _ (by decide)) (fun _ _ => trivial)

theorem keeps_broadcastRefund {claim : Claim} {amount : Coins} {reason : String}
    (hG : PermitsRefunds G) (hA : ∀ c, c.isSettling = true → A c) :
    Keeps cfg G A (broadcastRefund claim amount reason) w := by
  unfold broadcastRefund
  dsimp only
  split
  · exact Keeps.transact (hG.record _ _) (fun _ _ => trivial)
  · exact Keeps.transact (hG.record _ _) (fun refundId w' => keeps_payRefund hG hA)

theorem keeps_unpin {cid : Cid} (hunpin : ∀ cid w, G (.unpinFromKubo cid) w)
    (hA : ∀ c, c.isSettling = true → A c) : Keeps cfg G A (unpin cid) w := by
  unfold unpin
  refine Keeps.perform (hA _ rfl) (fun reached w' => ?_)
  cases reached with
  | true => exact Keeps.transact (hunpin _ _) (fun _ _ => ⟨hA _ rfl, fun _ _ => trivial⟩)
  | false => exact ⟨hA _ rfl, fun _ _ => trivial⟩

theorem keeps_unpinAndGc {cid : Cid} (hunpin : ∀ cid w, G (.unpinFromKubo cid) w)
    (hA : ∀ c, c.isSettling = true → A c) : Keeps cfg G A (unpinAndGc cid) w := by
  unfold unpinAndGc
  refine Keeps.bind (keeps_unpin hunpin hA) (fun r w' => ?_)
  cases r with
  | error e => trivial
  | ok u =>
    refine Keeps.perform (hA _ rfl) (fun r w' => ?_)
    cases r <;> trivial

theorem keeps_unpinIfLast {last : Bool} {cid : Cid} (hunpin : ∀ cid w, G (.unpinFromKubo cid) w)
    (hA : ∀ c, c.isSettling = true → A c) : Keeps cfg G A (unpinIfLast last cid) w := by
  unfold unpinIfLast
  split
  · exact Keeps.bind (keeps_unpinAndGc hunpin hA) (fun _ _ => trivial)
  · trivial

theorem keeps_unpinAll {cids : List Cid} (hunpin : ∀ cid w, G (.unpinFromKubo cid) w)
    (hA : ∀ c, c.isSettling = true → A c) : Keeps cfg G A (unpinAll cids) w := by
  unfold unpinAll
  refine Keeps.bind (Keeps.fold (fun n cid w => ?_) cids 0 w) (fun unpinned w' => ?_)
  · refine Keeps.bind (keeps_unpin hunpin hA) (fun r w' => ?_)
    cases r <;> trivial
  · split
    · exact Keeps.perform (hA _ rfl) (fun _ _ => trivial)
    · trivial

theorem keeps_settleClaimRefund {claim : Claim} {reason : String}
    (hG : PermitsRefunds G) (hA : ∀ c, c.isSettling = true → A c) :
    Keeps cfg G A (settleClaimRefund claim reason) w := by
  unfold settleClaimRefund
  refine Keeps.clock (Keeps.liftExcept (fun amount _ => ?_))
  refine Keeps.bind (keeps_broadcastRefund hG hA) (fun _ w' => ?_)
  exact Keeps.perform (hA _ rfl) (fun _ _ => trivial)

theorem keeps_settleForcedRefund {claim : Claim} {policy : RefundPolicy} {innocent : Bool}
    (hG : PermitsRefunds G) (hA : ∀ c, c.isSettling = true → A c) :
    Keeps cfg G A (settleForcedRefund claim policy innocent) w := by
  unfold settleForcedRefund
  refine Keeps.clock (Keeps.liftExcept (fun amount _ => ?_))
  refine Keeps.bind (keeps_broadcastRefund hG hA) (fun _ w' => ?_)
  exact Keeps.perform (hA _ rfl) (fun _ _ => trivial)

end Rules

/-! ## The routes -/

section Routes

variable {cfg : Config} {w : World}

/-- The handler of a request keeps to the table and to the guards. -/
abbrev Follows (cfg : Config) {α : Type} (q : Request) (p : Handler cfg α) (w : World) : Prop :=
  Keeps cfg (fun s w => q.mayWrite s = true ∧ s.Checked w) (fun c => q.mayAwait c = true) p w

theorem follows_reserve {b : ReserveRequest} : Follows cfg (.reserve b) (reserve b) w := by
  unfold reserve
  refine Keeps.require (fun _ => Keeps.require (fun _ => ?_))
  split
  · trivial
  · refine Keeps.require (fun _ => Keeps.ask (Keeps.liftExcept (fun quote _ => ?_)))
    exact Keeps.transact ⟨rfl, trivial⟩ (fun o w' => Keeps.liftExcept (fun _ _ => trivial))

theorem keeps_verifyTransfer {r : Reservation} {txId : String}
    (hcancel : ∀ id w, G (.markReservationCancelled id) w) (hA : ∀ c, c.isAdd = false → A c) :
    Keeps cfg G A (verifyTransfer r txId) w := by
  unfold verifyTransfer
  refine Keeps.bind (keeps_verifyPayment hA) (fun paid w' => ?_)
  refine Keeps.perform (hA _ rfl) (fun side w' => ?_)
  split
  · exact Keeps.transact (hcancel _ _) (fun _ _ => trivial)
  · exact Keeps.transact (hcancel _ _) (fun _ _ => trivial)
  · exact Keeps.transact (hcancel _ _) (fun _ _ => trivial)
  · exact Keeps.perform (hA _ rfl) (fun _ _ => trivial)

/-- The payment of an upload. -/
theorem keeps_uploadPayment {c : Checked} {txId : String}
    (hcancel : ∀ id w, G (.markReservationCancelled id) w) (hA : ∀ c, c.isAdd = false → A c) :
    Keeps cfg G A (uploadPayment c txId) w := by
  unfold uploadPayment
  split
  · trivial
  · exact keeps_verifyTransfer hcancel hA

theorem keeps_bindUploaderKey {c : Checked} {pubkey : String}
    (hA : ∀ c, c.isAdd = false → A c) : Keeps cfg G A (bindUploaderKey c pubkey) w := by
  unfold bindUploaderKey
  split
  · refine Keeps.perform (hA _ rfl) (fun r w' => ?_)
    cases r with
    | error e => trivial
    | ok postingKeys => exact keeps_require
  · trivial

/-- What an upload runs is permitted. -/
structure PermitsUpload (cfg : Config) (G : Stmt → World → Prop) (b : UploadRequest)
    (c : Checked) : Prop where
  cancel : ∀ id w, G (.markReservationCancelled id) w
  record : ∀ n w, n.memo = memoForReservation c.reservation.id → n.status = .confirmed →
    G (.recordPayment n) w
  paid : ∀ id txId w, G (.markReservationPaid id txId) w
  pin : ∀ cid w, G (.pinInKubo cid) w
  unpin : ∀ cid w, G (.unpinFromKubo cid) w
  finalise : ∀ id u w, u.cid = b.file → isCidBlocked w.db b.file = false → 0 < u.sizeBytes →
    u.permanent = cfg.hostingPermanent → G (.finaliseUpload id u) w

theorem keeps_finishUpload {b : UploadRequest} {c : Checked} {paymentId : Nat} {paid : Coins}
    {currency : String} (hG : PermitsUpload cfg G b c) (hblocked : isCidBlocked w.db b.file = false) :
    Keeps cfg G A (finishUpload b c paymentId paid currency) w := by
  unfold finishUpload
  refine Keeps.liftExcept (fun sizeMB hmb => Keeps.clock ?_)
  refine Keeps.transact (hG.finalise _ _ _ rfl hblocked (billableMB_ok hmb).1 rfl) (fun out w' => ?_)
  exact Keeps.ask trivial

theorem keeps_storeUpload {b : UploadRequest} {c : Checked} (hG : PermitsUpload cfg G b c)
    (hA : ∀ c, A c) : Keeps cfg G A (storeUpload b c) w := by
  unfold storeUpload
  refine Keeps.perform (hA _) (fun hashed w' => ?_)
  cases hashed with
  | error e => trivial
  | ok u =>
    refine Keeps.require (fun _ => Keeps.require (fun _ => ?_))
    refine Keeps.bind (keeps_bindUploaderKey (fun c _ => hA c)) (fun _ w' => ?_)
    refine Keeps.ask (Keeps.require (fun _ => ?_))
    refine Keeps.bind (keeps_uploadPayment hG.cancel (fun c _ => hA c)) (fun paid w' => ?_)
    refine Keeps.transact (hG.record _ _ rfl rfl) (fun o w' => Keeps.liftExcept (fun paymentId _ => ?_))
    refine Keeps.transact (hG.paid _ _ _) (fun _ w' => ?_)
    refine Keeps.bind (p := pinFile b.file) ?_ (fun pinned w' => ?_)
    · refine Keeps.perform (hA _) (fun reached w' => ?_)
      cases reached with
      | true => exact Keeps.transact (hG.pin _ _) (fun _ _ => ⟨hA _, fun _ _ => trivial⟩)
      | false => trivial
    cases pinned with
    | error e => exact Keeps.transact (hG.cancel _ _) (fun _ _ => trivial)
    | ok u =>
      refine Keeps.ask ?_
      split
      · refine Keeps.bind (keeps_unpin hG.unpin (fun c _ => hA c)) (fun _ w' => ?_)
        exact Keeps.transact (hG.cancel _ _) (fun _ _ => trivial)
      · rename_i hblocked
        exact keeps_finishUpload hG (Bool.not_eq_true _ ▸ hblocked)

theorem keeps_upload {b : UploadRequest}
    (hG : ∀ db now c, checkUpload cfg db now b = .ok c → PermitsUpload cfg G b c) (hA : ∀ c, A c) :
    Keeps cfg G A (upload b) w :=
  Keeps.clock (Keeps.ask (Keeps.liftExcept (fun _ hc => keeps_storeUpload (hG _ _ _ hc) hA)))

theorem follows_upload {b : UploadRequest} : Follows cfg (.upload b) (upload b) w := by
  refine keeps_upload (fun _ _ c _ => ?_) (fun _ => rfl)
  exact ⟨fun _ _ => ⟨rfl, trivial⟩, fun _ _ _ hstatus => ⟨rfl, hstatus⟩,
    fun _ _ _ => ⟨rfl, trivial⟩, fun _ _ => ⟨rfl, trivial⟩, fun _ _ => ⟨rfl, trivial⟩,
    fun _ _ _ hcid hblocked hsize _ => ⟨rfl, hcid ▸ hblocked, hsize⟩⟩

theorem mayAwait_of_not_add (q : Request) : ∀ c, c.isAdd = false → q.mayAwait c = true := by
  intro c hc
  cases q with
  | upload b => rfl
  | _ => simp [Request.mayAwait, hc]

theorem mayAwait_of_settling (q : Request) : ∀ c, c.isSettling = true → q.mayAwait c = true :=
  fun c hc => mayAwait_of_not_add q c (Call.isAdd_of_isSettling hc)

theorem quoteHosted_ok {db : Db} {role : String} {account : Account} {cid : Cid} {txId : String}
    {hours copies : Number} {allows : Nat → Except Fault Unit} {notHosted : String} {q : HostedQuote}
    (h : quoteHosted cfg db role account cid txId hours copies allows notHosted = .ok q) :
    ∃ hosted, alreadyHostedForCid db cid = some hosted ∧ q.sizeBytes = hosted.sizeBytes ∧
      calculateCost cfg hosted.sizeBytes hours copies (rateFor cfg q.feeExempt) = .ok q.quote := by
  unfold quoteHosted at h
  obtain ⟨_, _, h⟩ := ok_of_bind h
  obtain ⟨_, _, h⟩ := ok_of_bind h
  obtain ⟨_, _, h⟩ := ok_of_bind h
  obtain ⟨_, _, h⟩ := ok_of_bind h
  cases hh : alreadyHostedForCid db cid with
  | none => rw [hh] at h; cases h
  | some hosted =>
    rw [hh] at h
    obtain ⟨_, _, h⟩ := ok_of_bind h
    obtain ⟨quote, hquote, h⟩ := ok_of_bind h
    obtain ⟨_, _, h⟩ := ok_of_bind h
    cases h
    exact ⟨hosted, rfl, rfl, hquote⟩

theorem calculateCost_ok {sizeBytes : Nat} {hours copies : Number} {rate : ℚ} {q : Quote}
    (h : calculateCost cfg sizeBytes hours copies rate = .ok q) :
    billableMB cfg sizeBytes = .ok q.billableMB ∧ billableHours cfg hours = .ok q.billableHrs ∧
      q.copies = cappedCopies cfg copies ∧
      q.total = roundCoinsNum cfg ((((Number.fin q.billableMB).mul (.fin q.billableHrs)).mul
        (.fin rate)).mul (.fin q.copies)) := by
  unfold calculateCost at h
  cases hmb : billableMB cfg sizeBytes with
  | error e => rw [hmb] at h; cases h
  | ok mb =>
    cases hhrs : billableHours cfg hours with
    | error e => rw [hmb, hhrs] at h; cases h
    | ok hrs =>
      rw [hmb, hhrs] at h
      cases h
      exact ⟨rfl, rfl, rfl, rfl⟩

theorem quoteHosted_size {db : Db} {role : String} {account : Account} {cid : Cid}
    {txId : String} {hours copies : Number} {allows : Nat → Except Fault Unit} {notHosted : String}
    {q : HostedQuote}
    (h : quoteHosted cfg db role account cid txId hours copies allows notHosted = .ok q) :
    0 < q.sizeBytes := by
  obtain ⟨hosted, _, hsize, hquote⟩ := quoteHosted_ok h
  rw [hsize]
  exact (billableMB_ok (calculateCost_ok hquote).1).1

/-- Both pledge routes, whichever memo they verify. -/
theorem keeps_guardianPledge {purpose : String} {b : PledgeRequest}
    (hrecord : ∀ n w, n.memo = s!"ipfs-gate:{purpose}:{b.cid}" → n.status = .confirmed →
      G (.recordPayment n) w)
    (hpledge : ∀ g w, 0 < g.sizeBytes → G (.pledge g) w) (hA : ∀ c, c.isAdd = false → A c) :
    Keeps cfg G A (guardianPledge purpose b) w := by
  unfold guardianPledge
  refine Keeps.require (fun _ => Keeps.ask (Keeps.liftExcept (fun quoted hq => ?_)))
  refine Keeps.clock (Keeps.bind ?_ (fun settled w' => ?_))
  · exact keeps_verifyOrSkipPayment hrecord hA
  · exact Keeps.transact (hpledge _ _ (quoteHosted_size hq)) (fun claim w' => Keeps.ask trivial)

theorem follows_guardianPledge {q : Request} {purpose : String} {b : PledgeRequest}
    (hq : q = .guardianPledge b ∨ q = .backstopPledge b) :
    Follows cfg q (guardianPledge purpose b) w := by
  refine keeps_guardianPledge (fun n _ _ hstatus => ⟨?_, hstatus⟩) (fun g _ hsize => ⟨?_, hsize⟩)
    (mayAwait_of_not_add q)
  · rcases hq with rfl | rfl <;> rfl
  · rcases hq with rfl | rfl <;> rfl

theorem keeps_ownCopy {b : OwnCopyBody}
    (hrecord : ∀ n w, n.memo = s!"ipfs-gate:owncopy:{b.cid}" → n.status = .confirmed →
      G (.recordPayment n) w)
    (hcopy : ∀ n w, (cfg.hostingPermanent = false → n.expiryOverride = none) →
      G (.createOwnCopyClaim n) w) (hA : ∀ c, c.isAdd = false → A c) :
    Keeps cfg G A (ownCopy b) w := by
  unfold ownCopy
  refine Keeps.require (fun _ => Keeps.clock (Keeps.ask (Keeps.liftExcept (fun q _ => ?_))))
  refine Keeps.bind (keeps_verifyOrSkipPayment hrecord hA) (fun settled w' => ?_)
  refine Keeps.transact (hcopy _ _ (fun htimed => ?_))
    (fun o w' => Keeps.liftExcept (fun _ _ => trivial))
  exact if_neg (ne_true_of_eq_false htimed)

theorem follows_ownCopy {b : OwnCopyBody} : Follows cfg (.ownCopy b) (ownCopy b) w :=
  keeps_ownCopy (fun _ _ _ hstatus => ⟨rfl, hstatus⟩) (fun _ _ _ => ⟨rfl, trivial⟩) (mayAwait_of_not_add _)

theorem keeps_extend {b : ExtendRequest}
    (hrecord : ∀ n w, n.memo = s!"ipfs-gate:extend:{b.claimId}" → n.status = .confirmed →
      G (.recordPayment n) w)
    (hextend : ∀ owner extraHours w, G (.extendClaim b.claimId owner extraHours) w)
    (hA : ∀ c, c.isAdd = false → A c) : Keeps cfg G A (extend b) w := by
  unfold extend
  refine Keeps.liftExcept (fun extraHrs _ => Keeps.ask (Keeps.liftExcept (fun q _ => ?_)))
  dsimp only
  split
  · refine Keeps.clock (Keeps.transact (hrecord _ _ rfl rfl) (fun o w' => ?_))
    refine Keeps.liftExcept (fun _ _ => Keeps.transact (hextend _ _ _) (fun o w' => ?_))
    exact Keeps.liftExcept (fun _ _ => trivial)
  · refine Keeps.bind (keeps_verifyPayment hA) (fun paid w' => ?_)
    refine Keeps.bind (keeps_confirmOnSidechain hA) (fun _ w' => ?_)
    refine Keeps.transact (hrecord _ _ rfl rfl) (fun o w' => Keeps.liftExcept (fun _ _ => ?_))
    exact Keeps.transact (hextend _ _ _) (fun o w' => Keeps.liftExcept (fun _ _ => trivial))

theorem follows_extend {b : ExtendRequest} : Follows cfg (.extend b) (extend b) w :=
  keeps_extend (fun _ _ _ hstatus => ⟨rfl, hstatus⟩) (fun _ _ _ => ⟨rfl, trivial⟩) (mayAwait_of_not_add _)

/-! ### Routes that settle refunds -/

theorem settles_refunds {q : Request} (hq : q.settles = true) :
    PermitsRefunds (fun s w => q.mayWrite s = true ∧ s.Checked w) := by
  constructor
  · intro n w
    refine ⟨?_, trivial⟩
    cases q <;> first | rfl | cases hq
  · intro ref refundId w
    refine ⟨?_, trivial⟩
    cases q <;> first | rfl | cases hq
  · intro id status txId w hs
    refine ⟨?_, hs⟩
    cases q <;> first | rfl | cases hq

theorem settles_unpinFromKubo {q : Request} (hq : q.settles = true) (cid : Cid) :
    q.mayWrite (.unpinFromKubo cid) = true := by
  cases q <;> first | rfl | cases hq

section Settling

variable {q : Request} (hq : q.settles = true)

include hq

theorem follows_unpinAndGc {cid : Cid} : Follows cfg q (unpinAndGc cid) w :=
  keeps_unpinAndGc (fun cid _ => ⟨settles_unpinFromKubo hq cid, trivial⟩)
    (mayAwait_of_settling q)

theorem follows_unpinIfLast {last : Bool} {cid : Cid} :
    Follows cfg q (unpinIfLast last cid) w :=
  keeps_unpinIfLast (fun cid _ => ⟨settles_unpinFromKubo hq cid, trivial⟩) (mayAwait_of_settling q)

theorem follows_unpinAll {cids : List Cid} : Follows cfg q (unpinAll cids) w :=
  keeps_unpinAll (fun cid _ => ⟨settles_unpinFromKubo hq cid, trivial⟩) (mayAwait_of_settling q)

theorem follows_settleClaimRefund {claim : Claim} {reason : String} :
    Follows cfg q (settleClaimRefund claim reason) w :=
  keeps_settleClaimRefund (settles_refunds hq) (mayAwait_of_settling q)

theorem follows_settleForcedRefund {claim : Claim} {policy : RefundPolicy} {innocent : Bool} :
    Follows cfg q (settleForcedRefund claim policy innocent) w :=
  keeps_settleForcedRefund (settles_refunds hq) (mayAwait_of_settling q)

theorem follows_settleVoided {policy : RefundPolicy} {innocent : Claim → Bool}
    {voided : List Claim} : Follows cfg q (settleVoided policy innocent voided) w := by
  unfold settleVoided
  refine Keeps.fold (fun refunds claim w => ?_) _ _ _
  exact Keeps.bind (follows_settleForcedRefund hq) (fun _ _ => trivial)

end Settling

theorem follows_cancel {b : CancelRequest} : Follows cfg (.cancel b) (cancel b) w := by
  unfold cancel
  dsimp only
  split
  · trivial
  · refine Keeps.bind (keeps_verifySignedUserRequest (mayAwait_of_not_add _)) (fun _ w' => ?_)
    refine Keeps.transact ⟨rfl, trivial⟩ (fun o w' => Keeps.liftExcept (fun e _ => ?_))
    refine Keeps.bind (follows_settleClaimRefund rfl) (fun _ w' => ?_)
    exact Keeps.bind (follows_unpinIfLast rfl) (fun _ _ => trivial)

theorem follows_removeUploads {b : DeleteRequest} {cid : Cid} {account : Account} :
    Follows cfg (.uploadsDelete b) (removeUploads cid account) w := by
  unfold removeUploads
  refine Keeps.ask ?_
  split
  · rename_i hnone
    exact Keeps.transact ⟨rfl, hnone⟩ (fun _ _ => trivial)
  · refine Keeps.fold (fun out c w => ?_) _ _ _
    refine Keeps.transact ⟨rfl, trivial⟩ (fun o w' => Keeps.liftExcept (fun e _ => ?_))
    exact Keeps.bind (follows_settleClaimRefund rfl) (fun _ _ => trivial)

theorem follows_uploadsDelete {b : DeleteRequest} :
    Follows cfg (.uploadsDelete b) (uploadsDelete b) w := by
  unfold uploadsDelete
  refine Keeps.require (fun _ => ?_)
  refine Keeps.bind (keeps_verifySignedUserRequest (mayAwait_of_not_add _)) (fun _ w' => ?_)
  refine Keeps.bind follows_removeUploads (fun out w' => Keeps.require (fun _ => ?_))
  exact Keeps.bind (follows_unpinIfLast rfl) (fun _ _ => trivial)

theorem follows_endOrder {q : Request} (hq : q.settles = true)
    (hend : ∀ id, q.mayWrite (.endActiveClaimForRelease id) = true) {orderId : Nat}
    {reason : String} : Follows cfg q (endOrder orderId reason) w := by
  unfold endOrder
  refine Keeps.ask ?_
  split
  · trivial
  · refine Keeps.transact ⟨hend _, trivial⟩ (fun o w' => Keeps.liftExcept (fun e _ => ?_))
    refine Keeps.bind (follows_settleClaimRefund hq) (fun _ w' => ?_)
    exact Keeps.bind (follows_unpinIfLast hq) (fun _ _ => trivial)

theorem follows_actOnDecision {q : Request} (hq : q.settles = true)
    (hend : ∀ id, q.mayWrite (.endActiveClaimForRelease id) = true)
    (hconsent : ∀ id a sig, q.mayWrite (.recordReleaseConsent id a sig) = true) {order : Order}
    {account : Account} {sig : String} {decision : Decision} {reason : String} :
    Follows cfg q (actOnDecision order account sig decision reason) w := by
  unfold actOnDecision
  refine Keeps.bind ?_ (fun _ w' => ?_)
  · unfold recordConsent
    split
    · exact ⟨⟨hconsent _ _ _, trivial⟩, trivial⟩
    · trivial
  · split
    · exact Keeps.ask trivial
    · exact follows_endOrder hq hend

theorem follows_release {b : ReleaseRequest} : Follows cfg (.release b) (release b) w := by
  unfold release
  dsimp only
  split
  · trivial
  · refine Keeps.bind (keeps_verifySignedUserRequest (mayAwait_of_not_add _)) (fun _ w' => ?_)
    refine Keeps.ask ?_
    split
    · trivial
    · refine Keeps.ask (Keeps.liftExcept (fun decision _ => Keeps.require (fun _ => ?_)))
      exact Keeps.bind (follows_actOnDecision rfl (fun _ => rfl) (fun _ _ _ => rfl))
        (fun _ _ => trivial)

theorem follows_receipt {b : ReceiptRequest} : Follows cfg (.receipt b) (receipt b) w := by
  unfold receipt
  dsimp only
  split
  · trivial
  · refine Keeps.require (fun _ => ?_)
    refine Keeps.bind (keeps_verifySignedUserRequest (mayAwait_of_not_add _)) (fun _ w' => ?_)
    refine Keeps.ask ?_
    split
    · trivial
    · split
      · trivial
      · refine Keeps.require (fun _ => Keeps.transact ⟨rfl, trivial⟩ (fun _ w' => ?_))
        refine Keeps.ask (Keeps.liftExcept (fun decision _ => Keeps.ask ?_))
        refine Keeps.bind ?_ (fun _ _ => trivial)
        unfold actOnReceipt
        split
        · trivial
        · exact follows_actOnDecision rfl (fun _ => rfl) (fun _ _ _ => rfl)

theorem follows_ban {b : BanRequest} : Follows cfg (.ban b) (ban b) w := by
  unfold ban
  refine Keeps.bind (keeps_verifyAdminAuth (mayAwait_of_not_add _)) (fun adminId w' => ?_)
  refine Keeps.transact ⟨rfl, trivial⟩ (fun o w' => Keeps.liftExcept (fun result _ => ?_))
  refine Keeps.bind (follows_settleVoided rfl) (fun _ w' => ?_)
  exact Keeps.bind (follows_unpinAll rfl) (fun _ _ => trivial)

theorem follows_takedown {b : TakedownRequest} :
    Follows cfg (.takedown b) (takedown b) w := by
  unfold takedown
  refine Keeps.bind (keeps_verifyAdminAuth (mayAwait_of_not_add _)) (fun adminId w' => ?_)
  refine Keeps.transact ⟨rfl, trivial⟩ (fun o w' => Keeps.liftExcept (fun result _ => ?_))
  refine Keeps.bind (follows_settleVoided rfl) (fun _ w' => ?_)
  exact Keeps.bind (follows_unpinAndGc rfl) (fun _ _ => trivial)

theorem follows_pinsDelete {b : PinsDeleteRequest} :
    Follows cfg (.pinsDelete b) (pinsDelete b) w := by
  unfold pinsDelete
  refine Keeps.require (fun _ => ?_)
  refine Keeps.bind (keeps_verifyAdminAuth (mayAwait_of_not_add _)) (fun adminId w' => ?_)
  refine Keeps.ask (Keeps.require (fun _ => Keeps.bind ?_ (fun out w' => ?_)))
  · refine Keeps.fold (fun out c w => ?_) _ _ _
    refine Keeps.transact ⟨rfl, trivial⟩ (fun o w' => Keeps.liftExcept (fun e _ => ?_))
    exact Keeps.bind (follows_settleForcedRefund rfl) (fun _ _ => trivial)
  · refine Keeps.bind (follows_unpinIfLast rfl) (fun _ w' => ?_)
    exact Keeps.transact ⟨rfl, trivial⟩ (fun _ _ => trivial)

/-! ### The other moderation routes and the sweeper -/

theorem follows_runOnce : Follows cfg .sweep (runOnce) w := by
  have hunpin : ∀ cids w, Follows cfg .sweep (unpinAll cids) w := fun _ _ =>
    keeps_unpinAll (fun _ _ => ⟨rfl, trivial⟩) (mayAwait_of_settling _)
  unfold runOnce
  change Follows cfg .sweep (if w.sweeping then _ else _) w
  split
  · trivial
  · refine Keeps.transact ⟨rfl, trivial⟩ (fun _ w' => ?_)
    refine Keeps.transact ⟨rfl, trivial⟩ (fun result w' => ?_)
    refine Keeps.bind (hunpin _ _) (fun _ w' => ?_)
    exact Keeps.transact ⟨rfl, trivial⟩ (fun _ _ => trivial)

theorem keeps_finalizeRefund {G : Stmt → World → Prop} {A : Call → Prop}
    {refundId : Option Nat} {receipt : BoxReceipt}
    (hG : ∀ id status txId w, status ≠ .pending → G (.markRefundSettled id status txId) w) :
    Keeps cfg G A (finalizeRefund refundId receipt) w := by
  unfold finalizeRefund
  split
  · rename_i id status txId hout
    exact ⟨hG _ _ _ _ (Escrow.refundOutcome_ne_pending hout), trivial⟩
  · trivial

theorem follows_handleReceipt {b : BoxReceipt} :
    Follows cfg (.boxReceipt b) (handleReceipt b) w := by
  have hfinal : ∀ refundId w, Follows cfg (.boxReceipt b) (finalizeRefund refundId b) w :=
    fun _ _ => keeps_finalizeRefund (fun _ _ _ _ hs => ⟨rfl, hs⟩)
  unfold handleReceipt
  split
  · trivial
  · split
    · trivial
    · refine Keeps.ask ?_
      split
      · trivial
      · unfold settleReport
        refine Keeps.transact ⟨rfl, trivial⟩ (fun marked w' => ?_)
        split
        · refine Keeps.bind (hfinal _ _) (fun _ w' => ?_)
          exact Keeps.perform rfl (fun _ _ => trivial)
        · split
          · refine Keeps.transact ⟨rfl, trivial⟩ (fun _ w' => ?_)
            refine Keeps.bind (hfinal _ _) (fun _ w' => ?_)
            exact Keeps.perform rfl (fun _ _ => trivial)
          · trivial

/-- Every handler keeps to the table, whatever happens while it is suspended. -/
theorem handle_follows (cfg : Config) (q : Request) (w : World) : Follows cfg q (handle cfg q) w := by
  cases q with
  | reserve b => exact Keeps.map _ follows_reserve
  | upload b => exact Keeps.map _ follows_upload
  | guardianPledge b => exact Keeps.map _ (follows_guardianPledge (Or.inl rfl))
  | backstopPledge b => exact Keeps.map _ (follows_guardianPledge (Or.inr rfl))
  | ownCopy b => exact Keeps.map _ follows_ownCopy
  | extend b => exact Keeps.map _ follows_extend
  | cancel b => exact Keeps.map _ follows_cancel
  | uploadsDelete b => exact Keeps.map _ follows_uploadsDelete
  | release b => exact Keeps.map _ follows_release
  | receipt b => exact Keeps.map _ follows_receipt
  | ban b => exact Keeps.map _ follows_ban
  | unban b =>
    refine Keeps.map _ (Keeps.bind (keeps_verifyAdminAuth (mayAwait_of_not_add _)) (fun a w' => ?_))
    exact Keeps.transact ⟨rfl, trivial⟩ (fun _ _ => Keeps.liftExcept (fun _ _ => trivial))
  | takedown b => exact Keeps.map _ follows_takedown
  | untakedown b =>
    refine Keeps.map _ (Keeps.bind (keeps_verifyAdminAuth (mayAwait_of_not_add _)) (fun a w' => ?_))
    exact Keeps.transact ⟨rfl, trivial⟩ (fun _ _ => Keeps.liftExcept (fun _ _ => trivial))
  | takedownsImport b =>
    refine Keeps.map _ (Keeps.require (fun _ => ?_))
    exact ⟨⟨rfl, trivial⟩, trivial⟩
  | whitelistAdd b =>
    refine Keeps.map _ (Keeps.bind (keeps_verifyAdminAuth (mayAwait_of_not_add _)) (fun a w' => ?_))
    exact Keeps.transact ⟨rfl, trivial⟩ (fun _ _ => Keeps.liftExcept (fun _ _ => trivial))
  | whitelistRemove b =>
    refine Keeps.map _ (Keeps.bind (keeps_verifyAdminAuth (mayAwait_of_not_add _)) (fun a w' => ?_))
    exact Keeps.transact ⟨rfl, trivial⟩ (fun _ _ => Keeps.liftExcept (fun _ _ => trivial))
  | pinsDelete b => exact Keeps.map _ follows_pinsDelete
  | boxReceipt b => exact Keeps.map _ follows_handleReceipt
  | sweep => exact Keeps.map _ follows_runOnce

end Routes

end IpfsGate.Server
