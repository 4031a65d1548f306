import IpfsGate.Server.Relisting

/-!
# The whitelist, while the mode is off

With whitelist mode off no endpoint but those of the whitelist itself looks at the whitelisted
accounts: every read that names them is guarded by the mode. Two databases that differ in nothing
else are served alike.
-/
namespace IpfsGate.Server

open Quota Pricing Moderation
open Lib (Number Pool Prog Register)
open Lib.Prog (Blind Commutes blind_call blind_fold blind_liftExcept blind_query blind_require
  blind_tx)

section Rules

variable {X : Register WhitelistedAccount} {cfg : Config} {α β : Type}

/-- The program does not see which accounts are whitelisted. -/
abbrev Overlooks (X : Register WhitelistedAccount) (p : Handler cfg α) : Prop :=
  p.Blind (M := machine cfg) (World.relist X)

theorem Overlooks.bind {p : Handler cfg α} {f : α → Handler cfg β} (hp : Overlooks X p)
    (hf : ∀ a, Overlooks X (f a)) : Overlooks X (Prog.bind p f) := Blind.bind hp hf

theorem Overlooks.require {b : Bool} {e : Fault} {f : Unit → Handler cfg β}
    (hf : Overlooks X (f ())) : Overlooks X (Prog.bind (Prog.require b e) f) :=
  blind_require.bind (fun _ => hf)

theorem Overlooks.liftExcept {r : Except Fault α} {f : α → Handler cfg β}
    (hf : ∀ a, Overlooks X (f a)) : Overlooks X (Prog.bind (Prog.liftExcept r) f) :=
  blind_liftExcept.bind hf

theorem Overlooks.clock {f : Int → Handler cfg β} (hf : ∀ t, Overlooks X (f t)) :
    Overlooks X (Prog.bind Server.clock f) := ⟨fun _ => rfl, fun _ => hf _⟩

theorem Overlooks.ask {g : Db → α} {f : α → Handler cfg β} (hg : ∀ db, g (relist X db) = g db)
    (hf : ∀ a, Overlooks X (f a)) : Overlooks X (Prog.bind (Server.ask g) f) :=
  ⟨fun w => congrArg f (hg w.db), fun _ => hf _⟩

theorem Overlooks.perform {c : Call} {f : c.Reply → Handler cfg β} (hf : ∀ r, Overlooks X (f r)) :
    Overlooks X (Prog.bind (Server.perform c) f) := hf

theorem Overlooks.transact (hoff : cfg.whitelistMode = false) {s : Stmt}
    (hs : s.isListing = false) {f : s.Out → Handler cfg β} (hf : ∀ o, Overlooks X (f o)) :
    Overlooks X (Prog.bind (Server.transact s) f) := ⟨commutes_relist hoff hs, hf⟩

/-! ## Reads behind the mode -/

theorem feeExemptEntryFor_off (hoff : cfg.whitelistMode = false) (db : Db) (account : Account) :
    feeExemptEntryFor cfg db account = none := by
  unfold feeExemptEntryFor
  rw [hoff]
  rfl

theorem admits_off (hoff : cfg.whitelistMode = false) (db : Db) (account : Account) :
    admits cfg db account = true := by
  unfold admits
  rw [hoff]
  rfl

theorem assertWhitelistAllows_off (hoff : cfg.whitelistMode = false) (db : Db) (t : Int)
    (account : Account) (addedBytes : Nat) :
    assertWhitelistAllows cfg db t account addedBytes = .ok () := by
  unfold assertWhitelistAllows
  rw [hoff]
  rfl

variable (hoff : cfg.whitelistMode = false)

include hoff

theorem checkUpload_relist (db : Db) (now : Int) (b : UploadRequest) :
    checkUpload cfg (relist X db) now b = checkUpload cfg db now b := by
  unfold checkUpload isFeeExemptUpload
  simp only [admits_off hoff, feeExemptEntryFor_off hoff]
  rfl

theorem quoteHosted_relist (db : Db) (role : String) (account : Account) (cid : Cid)
    (txId : String) (hours copies : Number) {allows allows' : Nat → Except Fault Unit}
    (hallows : allows = allows') (notHosted : String) :
    quoteHosted cfg (relist X db) role account cid txId hours copies allows notHosted =
      quoteHosted cfg db role account cid txId hours copies allows' notHosted := by
  unfold quoteHosted
  rw [hallows]
  simp only [admits_off hoff, feeExemptEntryFor_off hoff]
  rfl

theorem checkExtend_relist (db : Db) (b : ExtendRequest) (extraHrs : Int) :
    checkExtend cfg (relist X db) b extraHrs = checkExtend cfg db b extraHrs := by
  unfold checkExtend
  simp only [feeExemptEntryFor_off hoff]
  rfl

theorem quoteRoute_relist (db : Db) (b : QuoteRequest) (hours : Number) (memo notHosted : String) :
    quoteRoute cfg (relist X db) b hours memo notHosted =
      quoteRoute cfg db b hours memo notHosted := by
  unfold quoteRoute
  simp only [feeExemptEntryFor_off hoff]
  rfl

theorem ownCopyQuote_relist (db : Db) (b : QuoteRequest) :
    ownCopyQuote cfg (relist X db) b = ownCopyQuote cfg db b := by
  unfold ownCopyQuote
  rw [quoteRoute_relist hoff]

theorem quotaReply_relist (db : Db) (now : Int) (account : Account) :
    quotaReply cfg (relist X db) now account = quotaReply cfg db now account := by
  unfold quotaReply
  rw [hoff]
  rfl

theorem uploadsReply_relist (db : Db) (now : Int) (account : Account) :
    uploadsReply cfg account (relist X db) now = uploadsReply cfg account db now := by
  unfold uploadsReply
  rw [quotaReply_relist hoff]
  rfl

end Rules

section Shared

variable {X : Register WhitelistedAccount} {cfg : Config}

theorem overlooks_require {b : Bool} {e : Fault} :
    Overlooks X (Prog.require b e : Handler cfg Unit) := blind_require

theorem overlooks_verifySignedUserRequest {account : Account} {ts : Option Int}
    {pubkey sig message : String} :
    Overlooks X (verifySignedUserRequest account ts pubkey sig message : Handler cfg Unit) := by
  unfold verifySignedUserRequest
  refine Overlooks.require ?_
  cases ts with
  | none => trivial
  | some tsNum =>
    refine Overlooks.require (Overlooks.clock (fun now => ?_))
    refine Overlooks.require (Overlooks.require (Overlooks.perform (fun r => ?_)))
    cases r with
    | error e => trivial
    | ok postingKeys => exact overlooks_require

theorem overlooks_verifyAdminAuth {auth : AdminAuth} {action target : String} :
    Overlooks X (verifyAdminAuth auth action target : Handler cfg String) := by
  unfold verifyAdminAuth
  split
  · exact Overlooks.perform (fun _ => trivial)
  · refine Overlooks.require (Overlooks.require ?_)
    exact overlooks_verifySignedUserRequest.bind (fun _ => trivial)

theorem overlooks_verifyPayment {txId : String} {sender : Account} {memo : String}
    {amount : Number} : Overlooks X (verifyPayment txId sender memo amount : Handler cfg Paid) := by
  unfold verifyPayment
  refine Overlooks.perform (fun r => ?_)
  cases r with
  | error e => trivial
  | ok operations => exact Overlooks.liftExcept (fun _ => blind_liftExcept)

theorem overlooks_confirmOnSidechain {txId : String} :
    Overlooks X (confirmOnSidechain txId : Handler cfg Unit) := by
  unfold confirmOnSidechain
  refine Overlooks.perform (fun r => ?_)
  split <;> trivial

theorem overlooks_sendRefund {dest : Account} {amount : Coins} {currency memo : String} :
    Overlooks X (sendRefund dest amount currency memo :
      Handler cfg (Except SendError String)) := by
  unfold sendRefund
  split
  · exact Overlooks.perform (fun _ => trivial)
  · dsimp only
    split
    · exact Overlooks.perform (fun _ => trivial)
    · refine Overlooks.perform (fun sent => ?_)
      cases sent <;> trivial

variable (hoff : cfg.whitelistMode = false)

include hoff

theorem overlooks_verifyOrSkipPayment {p : PaymentRequest} :
    Overlooks X (verifyOrSkipPayment p : Handler cfg Settled) := by
  unfold verifyOrSkipPayment
  split
  · refine Overlooks.transact hoff rfl (fun o => Overlooks.liftExcept (fun _ => ?_))
    exact Overlooks.perform (fun _ => trivial)
  · refine overlooks_verifyPayment.bind (fun paid => ?_)
    refine overlooks_confirmOnSidechain.bind (fun _ => ?_)
    refine Overlooks.transact hoff rfl (fun o => Overlooks.liftExcept (fun _ => ?_))
    exact Overlooks.perform (fun _ => trivial)

theorem overlooks_settleClaim {claim : Claim} {trigger : String} {refundId : Nat} :
    Overlooks X (settleClaim claim trigger refundId : Handler cfg Unit) := by
  unfold settleClaim
  refine Overlooks.ask (fun _ => rfl) (fun payRows => Overlooks.clock (fun now => ?_))
  dsimp only
  split
  · refine Overlooks.transact hoff rfl (fun won => ?_)
    split
    · exact Overlooks.perform (fun _ => Overlooks.perform (fun _ => trivial))
    · exact Overlooks.perform (fun _ => trivial)
  · exact Overlooks.perform (fun _ => trivial)

theorem overlooks_payRefund {claim : Claim} {amount : Coins} {memo reason : String}
    {refundId : Nat} :
    Overlooks X (payRefund claim amount memo reason refundId : Handler cfg RefundSummary) := by
  unfold payRefund
  dsimp only
  split
  · exact (overlooks_settleClaim hoff).bind (fun _ => trivial)
  · refine overlooks_sendRefund.bind (fun sent => ?_)
    split
    · exact Overlooks.transact hoff rfl (fun _ => trivial)
    · trivial
    · exact Overlooks.transact hoff rfl (fun _ => trivial)

theorem overlooks_broadcastRefund {claim : Claim} {amount : Coins} {reason : String} :
    Overlooks X (broadcastRefund claim amount reason : Handler cfg RefundSummary) := by
  unfold broadcastRefund
  dsimp only
  split
  · exact Overlooks.transact hoff rfl (fun _ => trivial)
  · exact Overlooks.transact hoff rfl (fun _ => overlooks_payRefund hoff)

theorem overlooks_settleClaimRefund {claim : Claim} {reason : String} :
    Overlooks X (settleClaimRefund claim reason : Handler cfg RefundSummary) := by
  unfold settleClaimRefund
  refine Overlooks.clock (fun now => Overlooks.liftExcept (fun amount => ?_))
  exact (overlooks_broadcastRefund hoff).bind (fun _ => Overlooks.perform (fun _ => trivial))

theorem overlooks_settleForcedRefund {claim : Claim} {policy : RefundPolicy} {innocent : Bool} :
    Overlooks X (settleForcedRefund claim policy innocent : Handler cfg RefundSummary) := by
  unfold settleForcedRefund
  refine Overlooks.clock (fun now => Overlooks.liftExcept (fun amount => ?_))
  exact (overlooks_broadcastRefund hoff).bind (fun _ => Overlooks.perform (fun _ => trivial))

theorem overlooks_settleVoided {policy : RefundPolicy} {innocent : Claim → Bool}
    {voided : List Claim} :
    Overlooks X (settleVoided policy innocent voided : Handler cfg RefundTally) := by
  unfold settleVoided
  refine blind_fold (fun refunds claim => ?_) voided _
  exact (overlooks_settleForcedRefund hoff).bind (fun _ => trivial)

theorem overlooks_unpin {cid : Cid} :
    Overlooks X (unpin cid : Handler cfg (Except String Unit)) := by
  unfold unpin
  refine Overlooks.perform (fun reached => ?_)
  cases reached with
  | true => exact Overlooks.transact hoff rfl (fun _ => blind_call)
  | false => exact blind_call

theorem overlooks_unpinAndGc {cid : Cid} :
    Overlooks X (unpinAndGc cid : Handler cfg Bool) := by
  unfold unpinAndGc
  refine (overlooks_unpin hoff).bind (fun r => ?_)
  cases r with
  | error e => trivial
  | ok u =>
    refine Overlooks.perform (fun r => ?_)
    cases r <;> trivial

theorem overlooks_unpinIfLast {last : Bool} {cid : Cid} :
    Overlooks X (unpinIfLast last cid : Handler cfg Unit) := by
  unfold unpinIfLast
  split
  · exact (overlooks_unpinAndGc hoff).bind (fun _ => trivial)
  · trivial

theorem overlooks_unpinAll {cids : List Cid} :
    Overlooks X (unpinAll cids : Handler cfg Nat) := by
  unfold unpinAll
  refine Overlooks.bind (blind_fold (fun n cid => ?_) cids 0) (fun unpinned => ?_)
  · refine (overlooks_unpin hoff).bind (fun r => ?_)
    cases r <;> trivial
  · split
    · exact Overlooks.perform (fun _ => trivial)
    · trivial

end Shared

/-! ## The routes of the gate -/

section Routes

variable {X : Register WhitelistedAccount} {cfg : Config} (hoff : cfg.whitelistMode = false)

include hoff

theorem overlooks_reserve {b : ReserveRequest} :
    Overlooks X (reserve b : Handler cfg ReserveReply) := by
  unfold reserve
  refine Overlooks.require (Overlooks.require ?_)
  split
  · trivial
  · refine Overlooks.require (Overlooks.ask (fun db => ?_) (fun feeExempt => ?_))
    · rw [feeExemptEntryFor_off hoff, feeExemptEntryFor_off hoff]
    · refine Overlooks.liftExcept (fun quote => ?_)
      exact Overlooks.transact hoff rfl (fun o => Overlooks.liftExcept (fun _ => trivial))

theorem overlooks_verifyTransfer {r : Reservation} {txId : String} :
    Overlooks X (verifyTransfer r txId : Handler cfg Paid) := by
  unfold verifyTransfer
  refine overlooks_verifyPayment.bind (fun paid => Overlooks.perform (fun side => ?_))
  split
  · exact Overlooks.transact hoff rfl (fun _ => trivial)
  · exact Overlooks.transact hoff rfl (fun _ => trivial)
  · exact Overlooks.transact hoff rfl (fun _ => trivial)
  · exact Overlooks.perform (fun _ => trivial)

theorem overlooks_uploadPayment {c : Checked} {txId : String} :
    Overlooks X (uploadPayment c txId : Handler cfg Paid) := by
  unfold uploadPayment
  split
  · trivial
  · exact overlooks_verifyTransfer hoff

omit hoff in
theorem overlooks_bindUploaderKey {c : Checked} {pubkey : String} :
    Overlooks X (bindUploaderKey c pubkey : Handler cfg Unit) := by
  unfold bindUploaderKey
  split
  · refine Overlooks.perform (fun r => ?_)
    cases r with
    | error e => trivial
    | ok postingKeys => exact overlooks_require
  · trivial

theorem overlooks_pinFile {file : Cid} :
    Overlooks X (pinFile file : Handler cfg (Except String Unit)) := by
  unfold pinFile
  refine Overlooks.perform (fun reached => ?_)
  cases reached with
  | true => exact Overlooks.transact hoff rfl (fun _ => blind_call)
  | false => trivial

theorem overlooks_finishUpload {b : UploadRequest} {c : Checked} {paymentId : Nat} {paid : Coins}
    {currency : String} :
    Overlooks X (finishUpload b c paymentId paid currency : Handler cfg UploadReply) := by
  unfold finishUpload
  refine Overlooks.liftExcept (fun sizeMB => Overlooks.clock (fun startTs => ?_))
  refine Overlooks.transact hoff rfl (fun out => ?_)
  exact Overlooks.ask (fun _ => rfl) (fun _ => trivial)

theorem overlooks_storeUpload {b : UploadRequest} {c : Checked} :
    Overlooks X (storeUpload b c : Handler cfg UploadReply) := by
  unfold storeUpload
  refine Overlooks.perform (fun hashed => ?_)
  cases hashed with
  | error e => trivial
  | ok u =>
    refine Overlooks.require (Overlooks.require ?_)
    refine overlooks_bindUploaderKey.bind (fun _ => ?_)
    refine Overlooks.ask (fun _ => rfl) (fun unused => Overlooks.require ?_)
    refine (overlooks_uploadPayment hoff).bind (fun payResult => ?_)
    refine Overlooks.transact hoff rfl (fun o => Overlooks.liftExcept (fun paymentId => ?_))
    refine Overlooks.transact hoff rfl (fun _ => (overlooks_pinFile hoff).bind (fun pinned => ?_))
    cases pinned with
    | error e => exact Overlooks.transact hoff rfl (fun _ => trivial)
    | ok u =>
      refine Overlooks.ask (fun _ => rfl) (fun blocked => ?_)
      split
      · refine (overlooks_unpin hoff).bind (fun _ => ?_)
        exact Overlooks.transact hoff rfl (fun _ => trivial)
      · exact overlooks_finishUpload hoff

theorem overlooks_upload {b : UploadRequest} :
    Overlooks X (upload b : Handler cfg UploadReply) := by
  unfold upload
  refine Overlooks.clock (fun now => Overlooks.ask (fun db => checkUpload_relist hoff db now b) ?_)
  exact fun checked => Overlooks.liftExcept (fun c => overlooks_storeUpload hoff)

theorem overlooks_guardianPledge {purpose : String} {b : PledgeRequest} :
    Overlooks X (guardianPledge purpose b : Handler cfg PledgeReply) := by
  unfold guardianPledge
  refine Overlooks.require (Overlooks.ask (fun db => ?_) (fun quoted => ?_))
  · exact quoteHosted_relist hoff db _ _ _ _ _ _ rfl _
  · refine Overlooks.liftExcept (fun q => Overlooks.clock (fun now => ?_))
    refine (overlooks_verifyOrSkipPayment hoff).bind (fun settled => ?_)
    exact Overlooks.transact hoff rfl (fun claim => Overlooks.ask (fun _ => rfl) (fun _ => trivial))

theorem overlooks_ownCopy {b : OwnCopyBody} :
    Overlooks X (ownCopy b : Handler cfg OwnCopyReply) := by
  unfold ownCopy
  refine Overlooks.require (Overlooks.clock (fun now => Overlooks.ask (fun db => ?_) ?_))
  · refine quoteHosted_relist hoff db _ _ _ _ _ _ (funext (fun sizeBytes => ?_)) _
    rw [assertWhitelistAllows_off hoff, assertWhitelistAllows_off hoff]
  · refine fun quoted => Overlooks.liftExcept (fun q => ?_)
    refine (overlooks_verifyOrSkipPayment hoff).bind (fun settled => ?_)
    exact Overlooks.transact hoff rfl (fun o => Overlooks.liftExcept (fun _ => trivial))

theorem overlooks_extend {b : ExtendRequest} :
    Overlooks X (extend b : Handler cfg ExtendReply) := by
  unfold extend
  refine Overlooks.liftExcept (fun extraHrs => ?_)
  refine Overlooks.ask (fun db => checkExtend_relist hoff db b extraHrs) (fun checked => ?_)
  refine Overlooks.liftExcept (fun q => ?_)
  dsimp only
  split
  · refine Overlooks.clock (fun now => Overlooks.transact hoff rfl (fun o => ?_))
    refine Overlooks.liftExcept (fun _ => Overlooks.transact hoff rfl (fun o => ?_))
    exact Overlooks.liftExcept (fun _ => trivial)
  · refine overlooks_verifyPayment.bind (fun paid => ?_)
    refine overlooks_confirmOnSidechain.bind (fun _ => ?_)
    refine Overlooks.transact hoff rfl (fun o => Overlooks.liftExcept (fun _ => ?_))
    exact Overlooks.transact hoff rfl (fun o => Overlooks.liftExcept (fun _ => trivial))

theorem overlooks_cancel {b : CancelRequest} :
    Overlooks X (cancel b : Handler cfg CancelReply) := by
  unfold cancel
  dsimp only
  split
  · trivial
  · refine overlooks_verifySignedUserRequest.bind (fun _ => ?_)
    refine Overlooks.transact hoff rfl (fun o => Overlooks.liftExcept (fun e => ?_))
    refine (overlooks_settleClaimRefund hoff).bind (fun _ => ?_)
    exact (overlooks_unpinIfLast hoff).bind (fun _ => trivial)

theorem overlooks_removeUploads {cid : Cid} {account : Account} :
    Overlooks X (removeUploads cid account : Handler cfg DeleteReply) := by
  unfold removeUploads
  refine Overlooks.ask (fun _ => rfl) (fun mine => ?_)
  split
  · exact Overlooks.transact hoff rfl (fun _ => trivial)
  · refine blind_fold (fun out c => ?_) _ _
    refine Overlooks.transact hoff rfl (fun o => Overlooks.liftExcept (fun e => ?_))
    exact (overlooks_settleClaimRefund hoff).bind (fun _ => trivial)

theorem overlooks_uploadsDelete {b : DeleteRequest} :
    Overlooks X (uploadsDelete b : Handler cfg DeleteReply) := by
  unfold uploadsDelete
  refine Overlooks.require (overlooks_verifySignedUserRequest.bind (fun _ => ?_))
  refine (overlooks_removeUploads hoff).bind (fun out => Overlooks.require ?_)
  exact (overlooks_unpinIfLast hoff).bind (fun _ => trivial)

theorem overlooks_endOrder {orderId : Nat} {reason : String} :
    Overlooks X (endOrder orderId reason : Handler cfg ReleaseOutcome) := by
  unfold endOrder
  refine Overlooks.ask (fun _ => rfl) (fun active => ?_)
  split
  · trivial
  · refine Overlooks.transact hoff rfl (fun o => Overlooks.liftExcept (fun e => ?_))
    refine (overlooks_settleClaimRefund hoff).bind (fun _ => ?_)
    exact (overlooks_unpinIfLast hoff).bind (fun _ => trivial)

theorem overlooks_actOnDecision {order : Order} {account : Account} {sig : String}
    {decision : Decision} {reason : String} :
    Overlooks X (actOnDecision order account sig decision reason : Handler cfg ReleaseOutcome) := by
  unfold actOnDecision
  refine Overlooks.bind ?_ (fun _ => ?_)
  · unfold recordConsent
    split
    · exact blind_tx (commutes_relist hoff rfl)
    · trivial
  · split
    · exact Overlooks.ask (fun _ => rfl) (fun _ => trivial)
    · exact overlooks_endOrder hoff

theorem overlooks_release {b : ReleaseRequest} :
    Overlooks X (release b : Handler cfg ReleaseReply) := by
  unfold release
  dsimp only
  split
  · trivial
  · refine overlooks_verifySignedUserRequest.bind (fun _ => ?_)
    refine Overlooks.ask (fun _ => rfl) (fun order => ?_)
    split
    · trivial
    · refine Overlooks.ask (fun _ => rfl) (fun consented => Overlooks.liftExcept (fun d => ?_))
      exact Overlooks.require ((overlooks_actOnDecision hoff).bind (fun _ => trivial))

theorem overlooks_receipt {b : ReceiptRequest} :
    Overlooks X (receipt b : Handler cfg ReleaseReply) := by
  unfold receipt
  dsimp only
  split
  · trivial
  · refine Overlooks.require (overlooks_verifySignedUserRequest.bind (fun _ => ?_))
    refine Overlooks.ask (fun _ => rfl) (fun order => ?_)
    split
    · trivial
    · split
      · trivial
      · refine Overlooks.require (Overlooks.transact hoff rfl (fun _ => ?_))
        refine Overlooks.ask (fun _ => rfl) (fun consented => Overlooks.liftExcept (fun d => ?_))
        refine Overlooks.ask (fun _ => rfl) (fun receipts => Overlooks.bind ?_ (fun _ => trivial))
        unfold actOnReceipt
        split
        · trivial
        · exact overlooks_actOnDecision hoff

theorem overlooks_ban {b : BanRequest} : Overlooks X (ban b : Handler cfg BanReply) := by
  unfold ban
  refine overlooks_verifyAdminAuth.bind (fun adminId => ?_)
  refine Overlooks.transact hoff rfl (fun o => Overlooks.liftExcept (fun result => ?_))
  refine (overlooks_settleVoided hoff).bind (fun _ => ?_)
  exact (overlooks_unpinAll hoff).bind (fun _ => trivial)

theorem overlooks_takedown {b : TakedownRequest} :
    Overlooks X (takedown b : Handler cfg TakedownReply) := by
  unfold takedown
  refine overlooks_verifyAdminAuth.bind (fun adminId => ?_)
  refine Overlooks.transact hoff rfl (fun o => Overlooks.liftExcept (fun result => ?_))
  refine (overlooks_settleVoided hoff).bind (fun _ => ?_)
  exact (overlooks_unpinAndGc hoff).bind (fun _ => trivial)

theorem overlooks_pinsDelete {b : PinsDeleteRequest} :
    Overlooks X (pinsDelete b : Handler cfg PinsDeleteReply) := by
  unfold pinsDelete
  refine Overlooks.require (overlooks_verifyAdminAuth.bind (fun adminId => ?_))
  refine Overlooks.ask (fun _ => rfl) (fun targetClaims => Overlooks.require ?_)
  refine Overlooks.bind (blind_fold (fun out c => ?_) _ _) (fun out => ?_)
  · refine Overlooks.transact hoff rfl (fun o => Overlooks.liftExcept (fun e => ?_))
    exact (overlooks_settleForcedRefund hoff).bind (fun _ => trivial)
  · refine (overlooks_unpinIfLast hoff).bind (fun _ => ?_)
    exact Overlooks.transact hoff rfl (fun _ => trivial)

theorem overlooks_runOnce : Overlooks X (runOnce : Handler cfg Unit) := by
  unfold runOnce
  refine Overlooks.bind (blind_query (fun _ => rfl)) (fun sweeping => ?_)
  split
  · trivial
  · refine Overlooks.transact hoff rfl (fun _ => Overlooks.transact hoff rfl (fun result => ?_))
    refine (overlooks_unpinAll hoff).bind (fun _ => ?_)
    exact Overlooks.transact hoff rfl (fun _ => trivial)

theorem overlooks_finalizeRefund {refundId : Option Nat} {receipt : BoxReceipt} :
    Overlooks X (finalizeRefund refundId receipt : Handler cfg Unit) := by
  unfold finalizeRefund
  split
  · exact blind_tx (commutes_relist hoff rfl)
  · trivial

theorem overlooks_handleReceipt {b : BoxReceipt} :
    Overlooks X (handleReceipt b : Handler cfg Unit) := by
  unfold handleReceipt
  split
  · trivial
  · split
    · trivial
    · refine Overlooks.ask (fun _ => rfl) (fun row => ?_)
      split
      · trivial
      · unfold settleReport
        refine Overlooks.transact hoff rfl (fun marked => ?_)
        split
        · refine (overlooks_finalizeRefund hoff).bind (fun _ => ?_)
          exact Overlooks.perform (fun _ => trivial)
        · split
          · refine Overlooks.transact hoff rfl (fun _ => ?_)
            refine (overlooks_finalizeRefund hoff).bind (fun _ => ?_)
            exact Overlooks.perform (fun _ => trivial)
          · trivial

theorem overlooks_unban {b : NameRequest} : Overlooks X (unban b : Handler cfg LoggedReply) := by
  unfold unban
  refine overlooks_verifyAdminAuth.bind (fun adminId => ?_)
  exact Overlooks.transact hoff rfl (fun o => Overlooks.liftExcept (fun _ => trivial))

theorem overlooks_untakedown {b : NameRequest} :
    Overlooks X (untakedown b : Handler cfg LoggedReply) := by
  unfold untakedown
  refine overlooks_verifyAdminAuth.bind (fun adminId => ?_)
  exact Overlooks.transact hoff rfl (fun o => Overlooks.liftExcept (fun _ => trivial))

theorem overlooks_takedownsImport {b : ImportRequest} :
    Overlooks X (takedownsImport b : Handler cfg Imported) := by
  unfold takedownsImport requireAdmin
  exact Overlooks.require (blind_tx (commutes_relist hoff rfl))

/-- The requests that change the whitelist. -/
def Request.isListing : Request → Bool
  | .whitelistAdd _ | .whitelistRemove _ => true
  | _ => false

theorem overlooks_handle {q : Request} (hq : q.isListing = false) :
    Overlooks X (handle cfg q) := by
  cases q with
  | reserve b => exact (overlooks_reserve hoff).map _
  | upload b => exact (overlooks_upload hoff).map _
  | guardianPledge b => exact (overlooks_guardianPledge hoff).map _
  | backstopPledge b => exact (overlooks_guardianPledge hoff).map _
  | ownCopy b => exact (overlooks_ownCopy hoff).map _
  | extend b => exact (overlooks_extend hoff).map _
  | cancel b => exact (overlooks_cancel hoff).map _
  | uploadsDelete b => exact (overlooks_uploadsDelete hoff).map _
  | release b => exact (overlooks_release hoff).map _
  | receipt b => exact (overlooks_receipt hoff).map _
  | ban b => exact (overlooks_ban hoff).map _
  | unban b => exact (overlooks_unban hoff).map _
  | takedown b => exact (overlooks_takedown hoff).map _
  | untakedown b => exact (overlooks_untakedown hoff).map _
  | takedownsImport b => exact (overlooks_takedownsImport hoff).map _
  | whitelistAdd b => cases hq
  | whitelistRemove b => cases hq
  | pinsDelete b => exact (overlooks_pinsDelete hoff).map _
  | boxReceipt b => exact (overlooks_handleReceipt hoff).map _
  | sweep => exact (overlooks_runOnce hoff).map _

end Routes

/-! ## The routes around the gate -/

section Around

variable {X : Register WhitelistedAccount} {cfg : Config} {α β : Type}

theorem overlooks_respond {f : Db → Int → Except Fault α}
    (hf : ∀ db t, f (relist X db) t = f db t) : Overlooks X (respond f : Handler cfg α) :=
  ⟨fun w => congrArg Prog.liftExcept (hf w.db w.now), fun _ => blind_liftExcept⟩

theorem overlooks_adminView {auth : AdminAuth} {f : Db → Int → Except Fault α}
    (hf : ∀ db t, f (relist X db) t = f db t) :
    Overlooks X (adminView auth f : Handler cfg α) := by
  unfold adminView requireAdmin
  exact Overlooks.require (overlooks_respond hf)

theorem overlooks_claimsMine {s : Signed} :
    Overlooks X (claimsMine s : Handler cfg ClaimsReply) := by
  unfold claimsMine
  exact overlooks_verifySignedUserRequest.bind (fun _ => overlooks_respond (fun _ _ => rfl))

theorem overlooks_uploadsByUser (hoff : cfg.whitelistMode = false) {s : Signed} :
    Overlooks X (uploadsByUser s : Handler cfg UploadsReply) := by
  unfold uploadsByUser
  refine overlooks_verifySignedUserRequest.bind (fun _ => overlooks_respond (fun db t => ?_))
  rw [uploadsReply_relist hoff]

/-- The program of the site does not see which accounts are whitelisted. -/
abbrev SiteOverlooks (X : Register WhitelistedAccount) (p : SiteHandler cfg α) : Prop :=
  p.Blind (M := siteMachine cfg) (Site.relist X)

theorem siteOverlooks_inGate {tell : α → β} {p : Handler cfg α} (h : Overlooks X p) :
    SiteOverlooks X (inGate tell p) := by
  refine Blind.lift (siteExtension cfg) tell (fun _ => rfl) (fun s hs w => ?_) h
  have hsem : s.sem cfg (w.world.relist X) =
      ((s.sem cfg w.world).1, (s.sem cfg w.world).2.relist X) := hs w.world
  exact congrArg (fun r : s.Out × World =>
    (r.1, ({ world := r.2, marks := marksAfter w.marks s r.1 } : Site))) hsem

theorem siteOverlooks_survey {f : Site → Except Fault α} (hf : ∀ w, f (w.relist X) = f w) :
    SiteOverlooks X (survey f : SiteHandler cfg α) :=
  ⟨fun w => congrArg Prog.liftExcept (hf w), fun _ => blind_liftExcept⟩

theorem siteOverlooks_requireAdmin {auth : AdminAuth} :
    SiteOverlooks X (inGate id (requireAdmin auth) : SiteHandler cfg Unit) :=
  siteOverlooks_inGate overlooks_require

theorem siteOverlooks_checkFile {file : Cid} :
    SiteOverlooks X (checkFile file : SiteHandler cfg CheckReply) := by
  unfold checkFile
  refine Blind.bind blind_require (fun _ => Blind.bind blind_call (fun reply => ?_))
  cases reply with
  | error e => trivial
  | ok u => exact siteOverlooks_survey (fun _ => rfl)

theorem siteOverlooks_ipfs {method : Method} {cid : Cid} {range : Option String} :
    SiteOverlooks X (ipfs method cid range : SiteHandler cfg Response) := by
  refine ⟨fun _ => rfl, fun w => ?_⟩
  dsimp only
  split
  · trivial
  · exact blind_call.map _

theorem siteOverlooks_stats {auth : AdminAuth} :
    SiteOverlooks X (stats auth : SiteHandler cfg StatsReply) := by
  unfold stats
  refine siteOverlooks_requireAdmin.bind (fun _ => ⟨fun _ => rfl, fun w => ?_⟩)
  exact blind_call.map _

theorem siteOverlooks_orphanPayments {auth : AdminAuth} :
    SiteOverlooks X (orphanPayments auth : SiteHandler cfg (List OrphanItem)) := by
  unfold orphanPayments
  exact siteOverlooks_requireAdmin.bind (fun _ => siteOverlooks_survey (fun _ => rfl))

/-- The note of a refund by hand commutes with a change of the whitelist. -/
theorem commutes_logManualRefund (paymentId : PaymentRef) (refundTxId reason : Arg) :
    Commutes (M := siteMachine cfg) (Site.relist X)
      (.logManualRefund paymentId refundTxId reason) := by
  intro w
  have hfind : refundedPayment (w.relist X) paymentId refundTxId =
      refundedPayment w paymentId refundTxId := rfl
  change logManualRefund (w.relist X) paymentId refundTxId reason =
    ((logManualRefund w paymentId refundTxId reason).1,
      (logManualRefund w paymentId refundTxId reason).2.relist X)
  unfold logManualRefund
  rw [hfind]
  cases refundedPayment w paymentId refundTxId with
  | error fault => rfl
  | ok found =>
    dsimp only
    cases reason.orNull.bound with
    | error fault => rfl
    | ok reason' => rfl

theorem siteOverlooks_logRefund {b : LogRefundRequest} :
    SiteOverlooks X (logRefund b : SiteHandler cfg LogRefundReply) := by
  unfold logRefund
  refine siteOverlooks_requireAdmin.bind (fun _ => ?_)
  refine Blind.bind (blind_tx (commutes_logManualRefund _ _ _)) (fun o => ?_)
  exact Blind.bind blind_liftExcept (fun _ => trivial)

/-- The endpoints of the whitelist itself. -/
def SiteRequest.isListing : SiteRequest → Bool
  | .gate q => q.isListing
  | .adminWhitelist _ => true
  | _ => false

theorem siteOverlooks_visit (hoff : cfg.whitelistMode = false) {q : SiteRequest}
    (hq : q.isListing = false) : SiteOverlooks X (visit cfg q) := by
  cases q with
  | gate q => exact siteOverlooks_inGate (overlooks_handle hoff hq)
  | info => trivial
  | status cid => exact siteOverlooks_inGate (overlooks_respond (fun _ _ => rfl))
  | check file => exact siteOverlooks_checkFile.map _
  | ipfs method cid range => exact siteOverlooks_ipfs.map _
  | uploadsByUser s => exact siteOverlooks_inGate (overlooks_uploadsByUser hoff)
  | claimsMine s => exact siteOverlooks_inGate overlooks_claimsMine
  | guardianQuote b =>
    exact siteOverlooks_inGate
      (overlooks_respond (fun db _ => quoteRoute_relist hoff db b _ _ _))
  | guardianQueue cid => exact siteOverlooks_inGate (overlooks_respond (fun _ _ => rfl))
  | backstopQuote b =>
    exact siteOverlooks_inGate
      (overlooks_respond (fun db _ => quoteRoute_relist hoff db b _ _ _))
  | backstopQueue cid => exact siteOverlooks_inGate (overlooks_respond (fun _ _ => rfl))
  | ownCopyQuote b =>
    exact siteOverlooks_inGate (overlooks_respond (fun db _ => ownCopyQuote_relist hoff db b))
  | extendQuote claimId hours => exact siteOverlooks_inGate (overlooks_respond (fun _ _ => rfl))
  | adminWhitelist auth => cases hq
  | adminUploads auth account p => exact siteOverlooks_inGate (overlooks_adminView (fun _ _ => rfl))
  | adminBans auth => exact siteOverlooks_inGate (overlooks_adminView (fun _ _ => rfl))
  | adminTakedowns auth => exact siteOverlooks_inGate (overlooks_adminView (fun _ _ => rfl))
  | moderationLog auth p => exact siteOverlooks_inGate (overlooks_adminView (fun _ _ => rfl))
  | stats auth => exact siteOverlooks_stats.map _
  | orphanPayments auth => exact siteOverlooks_orphanPayments.map _
  | logRefund b => exact siteOverlooks_logRefund.map _

end Around

/-- The answers given so far, in the order they were given. -/
def answers {cfg : Config} (S : SitePool cfg) : List (SiteRequest × Except Fault SiteBody) :=
  S.finished.map (fun f => (f.request, f.result))

/-- What the requests under way wait for. -/
def awaited {cfg : Config} (S : SitePool cfg) : List (SiteRequest × SiteCall) :=
  S.parked.map (fun p => (p.request, p.call))

/-- An event that calls no endpoint of the whitelist. -/
def ListsNothing {cfg : Config} : SiteEvent cfg → Prop
  | .spawn q => q.isListing = false
  | .resume _ _ => True
  | .drift _ => True

theorem relist_of_unlisted {w w' : Site} (h : w.unlisted = w'.unlisted) :
    w' = w.relist w'.world.db.whitelistedAccounts := by
  have hback : w'.unlisted.relist w'.world.db.whitelistedAccounts = w' := rfl
  rw [← h] at hback
  exact hback.symm

theorem host_relist {cfg : Config} (hoff : cfg.whitelistMode = false) (w : Site)
    (X : Register WhitelistedAccount) {events : List (SiteEvent cfg)}
    (hevents : ∀ e ∈ events, ListsNothing e) :
    host cfg (w.relist X) events = (host cfg w events).changed (Site.relist X) := by
  refine Pool.run_changed (M := siteMachine cfg) (fun _ _ => rfl) w (fun e he => ?_)
  have hlists := hevents e he
  cases e with
  | spawn q => exact siteOverlooks_visit hoff hlists
  | resume i answer => trivial
  | drift d => trivial

/-- With whitelist mode off, from two databases that differ in the whitelisted accounts only, the
same events get the same answers, in every run that leaves the whitelist's own endpoints alone;
the requests under way wait for the same calls, and the databases differ in nothing else. -/
theorem whitelist_unseen (cfg : Config) (hoff : cfg.whitelistMode = false) (w w' : Site)
    (hsame : w.unlisted = w'.unlisted) (events : List (SiteEvent cfg))
    (hevents : ∀ e ∈ events, ListsNothing e) :
    answers (host cfg w events) = answers (host cfg w' events) ∧
      awaited (host cfg w events) = awaited (host cfg w' events) ∧
      (host cfg w events).world.unlisted = (host cfg w' events).world.unlisted := by
  rw [relist_of_unlisted hsame, host_relist hoff w _ hevents]
  refine ⟨?_, ?_, rfl⟩
  · unfold answers
    change _ = ((host cfg w events).finished.map (Lib.Finished.changed _)).map _
    rw [List.map_map]
    rfl
  · unfold awaited
    change _ = ((host cfg w events).parked.map (Lib.Process.changed _)).map _
    rw [List.map_map]
    rfl

section Sampled

open Sample

/-- An empty site with the given members. -/
def siteOf (members : Register WhitelistedAccount) : Site where
  world := { World.boot 0 with db := relist members Db.empty }
  marks := fun _ => { status := .confirmed, refundTxId := none, refundAt := none }

/-- Alice is a member who pays no fee. -/
def aliceOnly : Register WhitelistedAccount :=
  Register.empty.replace
    { hiveAccount := "alice", addedAt := 0, addedBy := "operator", quotaBytes := some 0,
      feeExempt := true, note := none, removedAt := none, removedBy := none }

/-- Alice reserves, lists her uploads, and asks for a quote. -/
def visitsOfAlice : List (SiteEvent config) :=
  [.spawn (.gate (reserveBy "alice")), .spawn (.uploadsByUser (signedBy "alice")),
    .spawn (.guardianQuote
      { cid := "bafy", hours := none, copies := none, hiveAccount := "alice" })]

theorem whitelist_unseen_alice :
    answers (host config (siteOf Register.empty) visitsOfAlice) =
        answers (host config (siteOf aliceOnly) visitsOfAlice) ∧
      awaited (host config (siteOf Register.empty) visitsOfAlice) =
        awaited (host config (siteOf aliceOnly) visitsOfAlice) ∧
      (host config (siteOf Register.empty) visitsOfAlice).world.unlisted =
        (host config (siteOf aliceOnly) visitsOfAlice).world.unlisted := by
  refine whitelist_unseen config rfl (siteOf Register.empty) (siteOf aliceOnly) rfl visitsOfAlice ?_
  intro e he
  simp only [visitsOfAlice, List.mem_cons, List.not_mem_nil, or_false] at he
  rcases he with rfl | rfl | rfl <;> rfl

end Sampled

end IpfsGate.Server
