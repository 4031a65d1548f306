import IpfsGate.Server.Authority
import IpfsGate.Server.Consents
import IpfsGate.Server.Imports
import IpfsGate.Server.Recovery
import IpfsGate.Server.Targets

/-!
# On whose word hosting ends

A claim is ended early, a consent or a receipt recorded, an account or a CID moderated, only for
a request that shows a warrant: the account's signature over what it asks for, fresh when the
request arrived and under one of its posting keys, or the authority of an admin. The statement
then does what was asked for, in the name of whoever asked.
-/
namespace IpfsGate.Server

open Quota Moderation LedgerRun
open Lib Lib.Prog
open Lib (Pool Table)

/-- The account signed the message, at a time that is fresh by the clock. -/
structure HasSigned (cfg : Config) (chain : Chain) (now : Int) (account : Account)
    (ts : Option Int) (pubkey sig message : String) : Prop where
  named : isAccountName account = true
  fresh : ∃ tsNum, ts = some tsNum ∧ |now / 1000 - tsNum| ≤ cfg.signedRequestMaxSkewSec
  signed : cfg.verifyHiveSig message sig pubkey = true
  key : ∃ keys, chain.postingKeys account keys ∧ keys.contains pubkey = true

/-- The id is the operator's, or that of an account of the roster that signed the action. -/
def AdminBy (cfg : Config) (chain : Chain) (now : Int) (auth : AdminAuth)
    (action target adminId : String) : Prop :=
  (isOperator cfg auth = true ∧ adminId = "operator") ∨
    ∃ account ∈ cfg.serverAdminHiveAccounts, account = cfg.toLowerCase auth.adminAccount ∧
      adminId = s!"hive:{account}" ∧
      HasSigned cfg chain now account auth.adminTs auth.adminPubkey auth.adminSig
        s!"ipfs-gate:admin-action:v1:{action}:{target}:{account}:{tsText auth.adminTs}"

/-- The fields that a user signs, and the message for an account and a time stamp. -/
def Request.signature (cfg : Config) : Request → Option (Signed × (Account → String → String))
  | .cancel b => b.claimId.map (fun claimId =>
      (b.signed, fun account ts => s!"ipfs-gate:cancel-claim:v1:{claimId}:{account}:{ts}"))
  | .uploadsDelete b =>
    some (b.signed, fun account ts => s!"ipfs-gate:delete-pin:v1:{b.cid}:{account}:{ts}")
  | .release b => b.orderId.map (fun orderId =>
      (b.signed, fun account ts => s!"ipfs-gate:release:v1:{orderId}:{account}:{ts}"))
  | .receipt b => b.orderId.map (fun orderId =>
      (b.signed, fun account ts =>
        s!"ipfs-gate:receipt:v1:{orderId}:{account}:{ts}:{cfg.toLowerCase b.proofHash}"))
  | _ => none

/-- The action and the target that an admin is asked to vouch for. -/
def Request.adminAct (cfg : Config) : Request → Option (AdminAuth × String × String)
  | .ban b => some (b.auth, "ban", cfg.toLowerCase b.hiveAccount)
  | .unban b => some (b.auth, "unban", cfg.toLowerCase b.name)
  | .takedown b => some (b.auth, "takedown", b.cid)
  | .untakedown b => some (b.auth, "untakedown", b.name)
  | .whitelistAdd b => some (b.auth, "whitelist-add", cfg.toLowerCase b.targetAccount)
  | .whitelistRemove b => some (b.auth, "whitelist-remove", cfg.toLowerCase b.name)
  | .pinsDelete b => some (b.auth, "pin-delete", s!"{b.cid}:{cfg.toLowerCase b.targetAccount}")
  | _ => none

/-- Who the request shows a warrant of: a user, an admin, or the operator where only the
operator will do. -/
def Vouched (cfg : Config) (chain : Chain) (q : Request) (now : Int) (who : String) : Prop :=
  (∃ signed message, q.signature cfg = some (signed, message) ∧
    who = cfg.toLowerCase signed.hiveAccount ∧
    HasSigned cfg chain now who signed.ts signed.pubkey signed.sig
      (message who (tsText signed.ts))) ∨
  (∃ auth action target, q.adminAct cfg = some (auth, action, target) ∧
    AdminBy cfg chain now auth action target who) ∨
  ∃ b, q = .takedownsImport b ∧ isOperator cfg b.auth = true ∧ who = "operator"

/-- The claim was an active one of the account on the CID at some time in between. -/
def Listed (w₀ w : World) (cid : Cid) (owner : Account) (claimId : Nat) : Prop :=
  ∃ w₁, Evolves w₀ w₁ ∧ Evolves w₁ w ∧ ∃ c ∈ activeClaimsOf w₁.db cid owner, c.claimId = claimId

/-- The claim is the one that hosts the order the request names. -/
def Hosting (db : Db) (orderId : Option Nat) (claimId : Nat) : Prop :=
  ∃ id c, orderId = some id ∧ getActiveClaimForOrder db id = some c ∧ c.claimId = claimId

/-- The statement does what the request, which arrived in `w₀`, asks for in that name. -/
def Request.Asks (cfg : Config) (who : String) (w₀ w : World) : Request → Stmt → Prop
  | .cancel b, .cancelClaim claimId owner asAdmin =>
    b.claimId = some claimId ∧ owner = some who ∧ asAdmin = false
  | .uploadsDelete b, .cancelClaim claimId owner asAdmin =>
    Listed w₀ w b.cid who claimId ∧ owner = some who ∧ asAdmin = false
  | .uploadsDelete b, .removePinForUploader cid uploader => cid = b.cid ∧ uploader = who
  | .release b, .recordReleaseConsent orderId releaser sig =>
    b.orderId = some orderId ∧ releaser = who ∧ sig = b.signed.sig
  | .release b, .endActiveClaimForRelease claimId => Hosting w.db b.orderId claimId
  | .receipt b, .recordReceipt orderId recipient proofHash sig =>
    b.orderId = some orderId ∧ recipient = who ∧ proofHash = cfg.toLowerCase b.proofHash ∧
      sig = b.signed.sig
  | .receipt b, .recordReleaseConsent orderId releaser sig =>
    b.orderId = some orderId ∧ releaser = who ∧ sig = b.signed.sig
  | .receipt b, .endActiveClaimForRelease claimId => Hosting w.db b.orderId claimId
  | .ban b, .banAccount account reason policy admin =>
    account = b.hiveAccount ∧ reason = b.reason ∧ policy = b.refundPolicy ∧ admin = who
  | .unban b, .unbanAccount account admin => account = b.name ∧ admin = who
  | .takedown b, .takedownCid cid reason policy admin =>
    cid = b.cid ∧ reason = b.reason ∧ policy = b.refundPolicy ∧ admin = who
  | .untakedown b, .untakedownCid cid admin => cid = b.name ∧ admin = who
  | .takedownsImport b, .importTakedowns list => list = b.takedowns
  | .whitelistAdd b, .addToWhitelist r => r.hiveAccount = b.targetAccount ∧ r.addedBy = .text who
  | .whitelistRemove b, .removeFromWhitelist account removedBy =>
    account = b.name ∧ removedBy = who
  | .pinsDelete b, .cancelClaim claimId owner asAdmin =>
    Listed w₀ w b.cid (cfg.toLowerCase b.targetAccount) claimId ∧ owner = none ∧ asAdmin = true
  | .pinsDelete b, .audit e => e.target = b.cid ∧ e.adminId = who
  | _, _ => False

/-- The statements that need a warrant. -/
def Stmt.warranted : Stmt → Bool
  | .cancelClaim .. | .removePinForUploader .. | .endActiveClaimForRelease _ => true
  | .recordReleaseConsent .. | .recordReceipt .. => true
  | .banAccount .. | .unbanAccount .. | .takedownCid .. | .untakedownCid .. => true
  | .importTakedowns _ | .addToWhitelist _ | .removeFromWhitelist .. | .audit _ => true
  | _ => false

/-- A warrant stands behind the statement, from the arrival of its request on. -/
def Warranted (cfg : Config) (chain : Chain) (Arrives : Request → World → Prop) (q : Request)
    (s : Stmt) (w : World) : Prop :=
  s.warranted = true → ∃ w₀ who, Arrives q w₀ ∧ Evolves w₀ w ∧ Vouched cfg chain q w₀.now who ∧
    q.Asks cfg who w₀ w s

/-- The handlers keep to the table, and to the warrants. -/
def warrants (cfg : Config) (chain : Chain) (Arrives : Request → World → Prop) (q : Request) :
    Guarantee (machine cfg) :=
  fun past s w => tabled cfg q past s w ∧ Warranted cfg chain Arrives q s w

/-- Lookups are honest; nothing else is assumed. -/
abbrev looked (cfg : Config) (chain : Chain) : Rely (machine cfg) :=
  evolving cfg (fun _ => True) (fun _ _ => True) chain.answers

section Verifying

variable {cfg : Config} {chain : Chain} {G : Guarantee (machine cfg)} {w : World}

/-- What a check leaves: the world has moved on, and the result is known. -/
abbrev Verified {cfg : Config} {α : Type} (w : World) (P : α → Prop) : Outcome (machine cfg) α :=
  fun r _ w' => Evolves w w' ∧ ∀ a, r = .ok a → P a

theorem Verified.error {α : Type} {P : α → Prop} {e : Fault} {w w' : World} (h : Evolves w w')
    (past : Trace (machine cfg)) : Verified w P (.error e) past w' :=
  ⟨h, fun _ he => nomatch he⟩

theorem verifySignedUserRequest_verified {account : Account} {ts : Option Int}
    {pubkey sig message : String} {past : Trace (machine cfg)} :
    (verifySignedUserRequest account ts pubkey sig message).Assures (looked cfg chain) G
      (Verified w (fun _ => HasSigned cfg chain w.now account ts pubkey sig message)) past w := by
  unfold verifySignedUserRequest
  refine assures_require (fun _ => .error (.refl w) _) (fun hname => ?_)
  cases ts with
  | none => exact .error (.refl w) past
  | some tsNum =>
    refine assures_require (fun _ => .error (.refl w) _) (fun _ => ?_)
    refine assures_require (fun _ => .error (.refl w) _) (fun hskew => ?_)
    refine assures_require (fun _ => .error (.refl w) _) (fun hsig => ?_)
    intro w' hl _ r hr
    cases r with
    | error e => exact .error hl past
    | ok keys =>
      show (require _ _).Assures _ _ _ _ _
      unfold require
      split
      · rename_i hkey
        exact ⟨hl, fun _ _ => ⟨hname, ⟨tsNum, rfl, of_decide_eq_true hskew⟩, hsig, keys, hr, hkey⟩⟩
      · exact .error hl past

theorem verifyAdminAuth_verified {auth : AdminAuth} {action target : String}
    {past : Trace (machine cfg)} :
    (verifyAdminAuth auth action target).Assures (looked cfg chain) G
      (Verified w (AdminBy cfg chain w.now auth action target)) past w := by
  unfold verifyAdminAuth
  by_cases hop : isOperator cfg auth = true
  · rw [if_pos hop]
    intro w' hl _ _ _
    refine ⟨hl, fun a ha => ?_⟩
    cases ha
    exact Or.inl ⟨hop, rfl⟩
  · rw [if_neg hop]
    refine assures_require (fun _ => .error (.refl w) _) (fun _ => ?_)
    refine assures_require (fun _ => .error (.refl w) _) (fun hroster => ?_)
    refine assures_bind (Assures.mono ?_ verifySignedUserRequest_verified)
    intro r past' w' h
    cases r with
    | error e => exact .error h.1 past'
    | ok u =>
      refine ⟨h.1, fun a ha => ?_⟩
      cases ha
      exact Or.inr ⟨_, List.contains_iff_mem.mp hroster, rfl, rfl, h.2 u rfl⟩

end Verifying

/-! ## The routes -/

section Routes

/-- A loop, whose elements are known. -/
theorem Keeps.fold_mem {cfg : Config} {α β : Type} {G : Stmt → World → Prop} {A : Call → Prop}
    {f : β → α → Handler cfg β} {xs : List α} (hf : ∀ a ∈ xs, ∀ b w, Keeps cfg G A (f b a) w)
    (b : β) (w : World) : Keeps cfg G A (Prog.fold f xs b) w := by
  induction xs generalizing b w with
  | nil => trivial
  | cons a rest ih =>
    exact Keeps.bind (hf a List.mem_cons_self b w)
      (fun b' w' => ih (fun a' ha' => hf a' (List.mem_cons_of_mem a ha')) b' w')

variable {cfg : Config} {chain : Chain} {Arrives : Request → World → Prop} {q : Request}
  {who : String} {w₀ w₁ w : World} {α β : Type} {past : Trace (machine cfg)}

/-- What is permitted once a warrant is shown: the statements of the table that are asked for,
in the worlds that come after the one in which the warrant was checked. -/
abbrev Obeys (cfg : Config) (q : Request) (who : String) (w₀ w₁ : World) (s : Stmt) (w : World) :
    Prop :=
  (q.mayWrite s = true ∧ s.Checked w) ∧
    (s.warranted = true → Evolves w₁ w → q.Asks cfg who w₀ w s)

theorem warranted_of_plain {s : Stmt} (hs : s.warranted = false) :
    Warranted cfg chain Arrives q s w := by
  intro h
  rw [hs] at h
  cases h

theorem obeys_of_plain {s : Stmt} (h : q.mayWrite s = true ∧ s.Checked w)
    (hs : s.warranted = false) : Obeys cfg q who w₀ w₁ s w := by
  refine ⟨h, fun hw => ?_⟩
  rw [hs] at hw
  cases hw

/-- A handler that runs what is permitted, after a check that has shown the warrant. -/
theorem vouched_assures {p : Handler cfg α} {f : α → Handler cfg β} {P : α → Prop}
    (harrives : Arrives q w)
    (hp : p.Assures (looked cfg chain) (warrants cfg chain Arrives q) (Verified w P) [] w)
    (hwho : ∀ a, P a → ∃ who, Vouched cfg chain q w.now who ∧ ∀ w₁, Evolves w w₁ →
      Keeps cfg (Obeys cfg q who w w₁) (fun _ => True) (f a) w₁) :
    (p.bind f).Assures (looked cfg chain) (warrants cfg chain Arrives q) (fun _ _ _ => True) []
      w := by
  refine assures_bind (Assures.mono ?_ hp)
  rintro r past' w₁ ⟨hev, hP⟩
  cases r with
  | error e => trivial
  | ok a =>
    obtain ⟨who, hvouched, hkeeps⟩ := hwho a (hP a rfl)
    refine Assures.mono (fun _ _ _ _ => trivial) (Emits.assures (M := machine cfg)
      (J := fun _ w' => Evolves w₁ w') ?_ (fun _ _ _ h hl _ => h.trans hl) (hkeeps w₁ hev)
      (.refl w₁))
    intro s w' _ hs _ hj
    refine ⟨⟨hs.1, fun hwar => ⟨w, who, harrives, hev.trans hj, hvouched, hs.2 hwar hj⟩⟩, fun _ => ?_⟩
    exact hj.trans (evolves_sem cfg hs.1.2)

theorem vouched_of_signature {signed : Signed} {message : Account → String → String} {t : Int}
    (hq : q.signature cfg = some (signed, message))
    (h : HasSigned cfg chain t (cfg.toLowerCase signed.hiveAccount) signed.ts signed.pubkey
      signed.sig (message (cfg.toLowerCase signed.hiveAccount) (tsText signed.ts))) :
    Vouched cfg chain q t (cfg.toLowerCase signed.hiveAccount) :=
  Or.inl ⟨signed, message, hq, rfl, h⟩

theorem vouched_of_admin {auth : AdminAuth} {action target adminId : String} {t : Int}
    (hq : q.adminAct cfg = some (auth, action, target))
    (h : AdminBy cfg chain t auth action target adminId) : Vouched cfg chain q t adminId :=
  Or.inr (Or.inl ⟨auth, action, target, hq, h⟩)

/-! ### What the settling parts run needs no warrant -/

section Settling

variable (hq : q.settles = true)

include hq

theorem obeys_refunds : PermitsRefunds (Obeys cfg q who w₀ w₁) where
  record := fun n w => obeys_of_plain ((settles_refunds hq).record n w) rfl
  enqueue := fun ref refundId w => obeys_of_plain ((settles_refunds hq).enqueue ref refundId w) rfl
  settle := fun id status txId w h => obeys_of_plain ((settles_refunds hq).settle id status txId w h) rfl

theorem obeys_unpin (cid : Cid) (w : World) : Obeys cfg q who w₀ w₁ (.unpinFromKubo cid) w :=
  obeys_of_plain ⟨settles_unpinFromKubo hq cid, trivial⟩ rfl

theorem obeying_settleClaimRefund {claim : Claim} {reason : String} :
    Keeps cfg (Obeys cfg q who w₀ w₁) (fun _ => True) (settleClaimRefund claim reason) w :=
  keeps_settleClaimRefund (obeys_refunds hq) (fun _ _ => trivial)

theorem obeying_settleVoided {policy : RefundPolicy} {innocent : Claim → Bool}
    {voided : List Claim} :
    Keeps cfg (Obeys cfg q who w₀ w₁) (fun _ => True) (settleVoided policy innocent voided) w := by
  unfold settleVoided
  refine Keeps.fold (fun refunds claim w => ?_) _ _ _
  exact Keeps.bind (keeps_settleForcedRefund (obeys_refunds hq) (fun _ _ => trivial))
    (fun _ _ => trivial)

theorem obeying_unpinIfLast {last : Bool} {cid : Cid} :
    Keeps cfg (Obeys cfg q who w₀ w₁) (fun _ => True) (unpinIfLast last cid) w :=
  keeps_unpinIfLast (obeys_unpin hq) (fun _ _ => trivial)

/-- Ending the order that the request names. -/
theorem obeying_endOrder {orderId : Nat} {reason : String}
    (hend : ∀ claimId w, Hosting w.db (some orderId) claimId →
      Obeys cfg q who w₀ w₁ (.endActiveClaimForRelease claimId) w) :
    Keeps cfg (Obeys cfg q who w₀ w₁) (fun _ => True) (endOrder orderId reason) w := by
  unfold endOrder
  refine Keeps.ask ?_
  split
  · trivial
  · rename_i active hactive
    refine Keeps.transact (hend _ _ ⟨orderId, active, rfl, hactive, rfl⟩) (fun o w' => ?_)
    refine Keeps.liftExcept (fun e _ => ?_)
    refine Keeps.bind (obeying_settleClaimRefund hq) (fun _ w' => ?_)
    exact Keeps.bind (obeying_unpinIfLast hq) (fun _ _ => trivial)

theorem obeying_actOnDecision {order : Order} {account : Account} {sig : String}
    {decision : Decision} {reason : String}
    (hconsent : ∀ w, Obeys cfg q who w₀ w₁ (.recordReleaseConsent order.orderId account sig) w)
    (hend : ∀ claimId w, Hosting w.db (some order.orderId) claimId →
      Obeys cfg q who w₀ w₁ (.endActiveClaimForRelease claimId) w) :
    Keeps cfg (Obeys cfg q who w₀ w₁) (fun _ => True)
      (actOnDecision order account sig decision reason) w := by
  unfold actOnDecision
  refine Keeps.bind ?_ (fun _ w' => ?_)
  · unfold recordConsent
    split
    · exact Keeps.transact (f := Prog.ret) (hconsent _) (fun _ _ => trivial)
    · trivial
  · split
    · exact Keeps.ask trivial
    · exact obeying_endOrder hq hend

end Settling

/-! ### Signed requests -/

theorem cancel_warranted {b : CancelRequest} (harrives : Arrives (.cancel b) w) :
    (cancel b).Assures (looked cfg chain) (warrants cfg chain Arrives (.cancel b))
      (fun _ _ _ => True) [] w := by
  unfold cancel
  dsimp only
  split
  · trivial
  · rename_i claimId hid
    refine vouched_assures harrives verifySignedUserRequest_verified (fun _ hsigned => ?_)
    refine ⟨_, vouched_of_signature (by rw [Request.signature, hid]; rfl) hsigned, fun w₁ _ => ?_⟩
    refine Keeps.transact ⟨⟨rfl, trivial⟩, fun _ _ => ⟨hid, rfl, rfl⟩⟩ (fun o w' => ?_)
    refine Keeps.liftExcept (fun e _ => ?_)
    refine Keeps.bind (obeying_settleClaimRefund rfl) (fun _ w' => ?_)
    exact Keeps.bind (obeying_unpinIfLast rfl) (fun _ _ => trivial)

/-- The claims are read when the warrant is checked. -/
theorem obeying_removeUploads {b : DeleteRequest} (hev : Evolves w₀ w₁) :
    Keeps cfg (Obeys cfg (.uploadsDelete b) who w₀ w₁) (fun _ => True)
      (removeUploads b.cid who) w₁ := by
  unfold removeUploads
  refine Keeps.ask ?_
  split
  · rename_i hnone
    exact Keeps.transact ⟨⟨rfl, hnone⟩, fun _ _ => ⟨rfl, rfl⟩⟩ (fun _ _ => trivial)
  · refine Keeps.fold_mem (fun c hc out w => ?_) _ _
    unfold deleteClaim
    refine Keeps.transact ⟨⟨rfl, trivial⟩, fun _ hlater =>
      ⟨⟨w₁, hev, hlater, c, hc, rfl⟩, rfl, rfl⟩⟩ (fun o w' => ?_)
    refine Keeps.liftExcept (fun e _ => ?_)
    exact Keeps.bind (obeying_settleClaimRefund rfl) (fun _ _ => trivial)

theorem uploadsDelete_warranted {b : DeleteRequest} (harrives : Arrives (.uploadsDelete b) w) :
    (uploadsDelete b).Assures (looked cfg chain) (warrants cfg chain Arrives (.uploadsDelete b))
      (fun _ _ _ => True) [] w := by
  unfold uploadsDelete
  refine assures_require (fun _ => trivial) (fun _ => ?_)
  refine vouched_assures harrives verifySignedUserRequest_verified (fun _ hsigned => ?_)
  refine ⟨_, vouched_of_signature rfl hsigned, fun w₁ hev => ?_⟩
  refine Keeps.bind (obeying_removeUploads hev) (fun out w' => Keeps.require (fun _ => ?_))
  exact Keeps.bind (obeying_unpinIfLast rfl) (fun _ _ => trivial)

theorem release_warranted {b : ReleaseRequest} (harrives : Arrives (.release b) w) :
    (release b).Assures (looked cfg chain) (warrants cfg chain Arrives (.release b))
      (fun _ _ _ => True) [] w := by
  unfold release
  dsimp only
  split
  · trivial
  · rename_i orderId hid
    refine vouched_assures harrives verifySignedUserRequest_verified (fun _ hsigned => ?_)
    refine ⟨_, vouched_of_signature (by rw [Request.signature, hid]; rfl) hsigned, fun w₁ _ => ?_⟩
    refine Keeps.ask ?_
    split
    · trivial
    · rename_i order horder
      obtain rfl : order.orderId = orderId := getOrder_id horder
      refine Keeps.ask (Keeps.liftExcept (fun decision _ => Keeps.require (fun _ => ?_)))
      refine Keeps.bind (obeying_actOnDecision rfl (fun _ => ?_) (fun claimId w' hhost => ?_))
        (fun _ _ => trivial)
      · exact ⟨⟨rfl, trivial⟩, fun _ _ => ⟨hid, rfl, rfl⟩⟩
      · exact ⟨⟨rfl, trivial⟩, fun _ _ => show Hosting w'.db b.orderId claimId from hid.symm ▸ hhost⟩

theorem receipt_warranted {b : ReceiptRequest} (harrives : Arrives (.receipt b) w) :
    (receipt b).Assures (looked cfg chain) (warrants cfg chain Arrives (.receipt b))
      (fun _ _ _ => True) [] w := by
  unfold receipt
  dsimp only
  split
  · trivial
  · rename_i orderId hid
    refine assures_require (fun _ => trivial) (fun _ => ?_)
    refine vouched_assures harrives verifySignedUserRequest_verified (fun _ hsigned => ?_)
    refine ⟨_, vouched_of_signature (by rw [Request.signature, hid]; rfl) hsigned, fun w₁ _ => ?_⟩
    refine Keeps.ask ?_
    split
    · trivial
    · rename_i order horder
      obtain rfl : order.orderId = orderId := getOrder_id horder
      split
      · trivial
      · refine Keeps.require (fun _ => Keeps.transact ?_ (fun _ w' => ?_))
        · exact ⟨⟨rfl, trivial⟩, fun _ _ => ⟨hid, rfl, rfl, rfl⟩⟩
        refine Keeps.ask (Keeps.liftExcept (fun decision _ => Keeps.ask ?_))
        refine Keeps.bind ?_ (fun _ _ => trivial)
        unfold actOnReceipt
        split
        · trivial
        · refine obeying_actOnDecision rfl (fun _ => ?_) (fun claimId w' hhost => ?_)
          · exact ⟨⟨rfl, trivial⟩, fun _ _ => ⟨hid, rfl, rfl⟩⟩
          · exact ⟨⟨rfl, trivial⟩, fun _ _ => show Hosting w'.db b.orderId claimId from hid.symm ▸ hhost⟩

/-! ### Moderation -/

theorem ban_warranted {b : BanRequest} (harrives : Arrives (.ban b) w) :
    (ban b).Assures (looked cfg chain) (warrants cfg chain Arrives (.ban b))
      (fun _ _ _ => True) [] w := by
  unfold ban
  refine vouched_assures harrives verifyAdminAuth_verified (fun adminId hadmin => ?_)
  refine ⟨adminId, vouched_of_admin rfl hadmin, fun w₁ _ => ?_⟩
  refine Keeps.transact ⟨⟨rfl, trivial⟩, fun _ _ => ⟨rfl, rfl, rfl, rfl⟩⟩ (fun o w' => ?_)
  refine Keeps.liftExcept (fun result _ => ?_)
  refine Keeps.bind (obeying_settleVoided rfl) (fun _ w' => ?_)
  exact Keeps.bind (keeps_unpinAll (obeys_unpin rfl) (fun _ _ => trivial)) (fun _ _ => trivial)

theorem takedown_warranted {b : TakedownRequest} (harrives : Arrives (.takedown b) w) :
    (takedown b).Assures (looked cfg chain) (warrants cfg chain Arrives (.takedown b))
      (fun _ _ _ => True) [] w := by
  unfold takedown
  refine vouched_assures harrives verifyAdminAuth_verified (fun adminId hadmin => ?_)
  refine ⟨adminId, vouched_of_admin rfl hadmin, fun w₁ _ => ?_⟩
  refine Keeps.transact ⟨⟨rfl, trivial⟩, fun _ _ => ⟨rfl, rfl, rfl, rfl⟩⟩ (fun o w' => ?_)
  refine Keeps.liftExcept (fun result _ => ?_)
  refine Keeps.bind (obeying_settleVoided rfl) (fun _ w' => ?_)
  exact Keeps.bind (keeps_unpinAndGc (obeys_unpin rfl) (fun _ _ => trivial)) (fun _ _ => trivial)

theorem pinsDelete_warranted {b : PinsDeleteRequest} (harrives : Arrives (.pinsDelete b) w) :
    (pinsDelete b).Assures (looked cfg chain) (warrants cfg chain Arrives (.pinsDelete b))
      (fun _ _ _ => True) [] w := by
  unfold pinsDelete
  refine assures_require (fun _ => trivial) (fun _ => ?_)
  refine vouched_assures harrives verifyAdminAuth_verified (fun adminId hadmin => ?_)
  refine ⟨adminId, vouched_of_admin rfl hadmin, fun w₁ hev => ?_⟩
  refine Keeps.ask (Keeps.require (fun _ => Keeps.bind ?_ (fun out w' => ?_)))
  · refine Keeps.fold_mem (fun c hc out w => ?_) _ _
    unfold voidClaim
    refine Keeps.transact ⟨⟨rfl, trivial⟩, fun _ hlater =>
      ⟨⟨w₁, hev, hlater, c, hc, rfl⟩, rfl, rfl⟩⟩ (fun o w' => ?_)
    refine Keeps.liftExcept (fun e _ => ?_)
    exact Keeps.bind (keeps_settleForcedRefund (obeys_refunds rfl) (fun _ _ => trivial))
      (fun _ _ => trivial)
  · refine Keeps.bind (obeying_unpinIfLast rfl) (fun _ w' => ?_)
    exact Keeps.transact ⟨⟨rfl, trivial⟩, fun _ _ => ⟨rfl, rfl⟩⟩ (fun _ _ => trivial)

/-- The admin routes that run one transaction. -/
theorem acted_assures {γ : Type} {auth : AdminAuth} {action target : String}
    {f : String → Handler cfg γ} (harrives : Arrives q w)
    (hq : q.adminAct cfg = some (auth, action, target))
    (hf : ∀ adminId w₁, Keeps cfg (Obeys cfg q adminId w w₁) (fun _ => True) (f adminId) w₁) :
    (Prog.bind (verifyAdminAuth auth action target) f).Assures (looked cfg chain)
      (warrants cfg chain Arrives q) (fun _ _ _ => True) [] w :=
  vouched_assures harrives verifyAdminAuth_verified
    (fun adminId hadmin => ⟨adminId, vouched_of_admin hq hadmin, fun w₁ _ => hf adminId w₁⟩)

theorem warranted_map {p : Handler cfg α} {f : α → Body}
    (h : p.Assures (looked cfg chain) (warrants cfg chain Arrives q) (fun _ _ _ => True) [] w) :
    (f <$> p).Assures (looked cfg chain) (warrants cfg chain Arrives q) (fun _ _ _ => True) []
      w := by
  refine assures_bind (Assures.mono ?_ h)
  intro r past w _
  cases r <;> trivial

/-- Whether the request shows a warrant at all. -/
def Request.shows : Request → Bool
  | .cancel _ | .uploadsDelete _ | .release _ | .receipt _ | .ban _ | .unban _ | .takedown _
  | .untakedown _ | .takedownsImport _ | .whitelistAdd _ | .whitelistRemove _
  | .pinsDelete _ => true
  | _ => false

theorem not_warranted_of_mayWrite {s : Stmt} (hq : q.shows = false) (h : q.mayWrite s = true) :
    s.warranted = false := by
  cases q <;> first
    | exact absurd hq.symm Bool.false_ne_true
    | (cases s <;> first | rfl | exact absurd h Bool.false_ne_true)

/-- Every handler shows a warrant for what needs one. -/
theorem handle_warranted (q : Request) (harrives : Arrives q w) :
    (handle cfg q).Assures (looked cfg chain) (warrants cfg chain Arrives q) (fun _ _ _ => True) []
      w := by
  by_cases hq : q.shows = true
  · cases q with
    | cancel b => exact warranted_map (cancel_warranted harrives)
    | uploadsDelete b => exact warranted_map (uploadsDelete_warranted harrives)
    | release b => exact warranted_map (release_warranted harrives)
    | receipt b => exact warranted_map (receipt_warranted harrives)
    | ban b => exact warranted_map (ban_warranted harrives)
    | takedown b => exact warranted_map (takedown_warranted harrives)
    | pinsDelete b => exact warranted_map (pinsDelete_warranted harrives)
    | unban b =>
      refine warranted_map (acted_assures harrives rfl (fun adminId w₁ => ?_))
      refine Keeps.transact ⟨⟨rfl, trivial⟩, fun _ _ => ⟨rfl, rfl⟩⟩ (fun _ _ => ?_)
      exact Keeps.liftExcept (fun _ _ => trivial)
    | untakedown b =>
      refine warranted_map (acted_assures harrives rfl (fun adminId w₁ => ?_))
      refine Keeps.transact ⟨⟨rfl, trivial⟩, fun _ _ => ⟨rfl, rfl⟩⟩ (fun _ _ => ?_)
      exact Keeps.liftExcept (fun _ _ => trivial)
    | whitelistAdd b =>
      refine warranted_map (acted_assures harrives rfl (fun adminId w₁ => ?_))
      refine Keeps.transact ⟨⟨rfl, trivial⟩, fun _ _ => ⟨rfl, rfl⟩⟩ (fun _ _ => ?_)
      exact Keeps.liftExcept (fun _ _ => trivial)
    | whitelistRemove b =>
      refine warranted_map (acted_assures harrives rfl (fun adminId w₁ => ?_))
      refine Keeps.transact ⟨⟨rfl, trivial⟩, fun _ _ => ⟨rfl, rfl⟩⟩ (fun _ _ => ?_)
      exact Keeps.liftExcept (fun _ _ => trivial)
    | takedownsImport b =>
      refine warranted_map (assures_require (fun _ => trivial) (fun hop _ => ?_))
      refine ⟨⟨⟨rfl, trivial⟩, fun _ => ⟨w, "operator", harrives, .refl w, ?_, rfl⟩⟩, fun _ => trivial⟩
      exact Or.inr (Or.inr ⟨b, rfl, hop, rfl⟩)
    | _ => cases hq
  · refine Assures.mono (fun _ _ _ _ => trivial) (Emits.assures (M := machine cfg)
      (J := fun _ _ => True) ?_ (fun _ _ _ _ _ _ => trivial) (handle_follows cfg q w) trivial)
    intro s w' _ hs _ _
    have hplain := not_warranted_of_mayWrite (Bool.not_eq_true _ ▸ hq) hs.1
    exact ⟨⟨hs, warranted_of_plain hplain⟩, fun _ => trivial⟩

end Routes

/-! ## Whose claims are cancelled -/

/-- The request, in that name, is about the claim. -/
def Request.Concerns (cfg : Config) (who : String) (w₀ w : World) (c : Claim) : Request → Prop
  | .cancel b => b.claimId = some c.claimId ∧ c.owner = who
  | .uploadsDelete b => Listed w₀ w b.cid who c.claimId ∧ c.owner = who
  | .release b => b.orderId = some c.orderId ∧ c.state = .active
  | .receipt b => b.orderId = some c.orderId ∧ c.state = .active
  | .ban b => c.owner = cfg.toLowerCase b.hiveAccount
  | .takedown b => c.cid = b.cid
  | .takedownsImport b => ∃ entry ∈ b.takedowns, entry.cid = c.cid
  | .pinsDelete b => Listed w₀ w b.cid (cfg.toLowerCase b.targetAccount) c.claimId ∧
      c.owner = cfg.toLowerCase b.targetAccount
  | _ => False

section Concerned

variable {cfg : Config} {q : Request} {who : String} {w₀ w : World} {s : Stmt} {c : Claim}

/-- A statement that failed cancels nothing. -/
theorem not_cancels_of_same (h : (s.sem cfg w).2 = w) : ¬ Cancels cfg s w c := by
  rintro ⟨hc, hopen, d, hd, hid, hst⟩
  rw [h] at hd
  have hdc : d = c := Table.eq_of_key hd hc hid
  exact hopen (hdc ▸ hst)

/-- Only statements that need a warrant cancel claims. -/
theorem warranted_of_cancels (hs : s.Checked w) (h : Cancels cfg s w c) : s.warranted = true := by
  by_cases hq : s.quiet = true
  · exact absurd (h.mem (voids_of_quiet cfg hq hs)) List.not_mem_nil
  · cases s with
    | recordRefund n =>
      exact absurd (h.mem (V := []) (.of_eq rfl rfl)) List.not_mem_nil
    | _ => first | rfl | exact absurd rfl hq

/-- What a fallible transaction cancels is what it returns as cancelled. -/
theorem mem_of_cancels {α : Type} {r : Except Fault (α × Db)} {V : α → List Claim}
    (hsem : (s.sem cfg w).2 = (Stmt.fallible w r).2)
    (hvoids : ∀ a after, r = .ok (a, after) → Voids w.db after (V a))
    (h : Cancels cfg s w c) : ∃ a after, r = .ok (a, after) ∧ c ∈ V a := by
  cases r with
  | error e => exact absurd h (not_cancels_of_same hsem)
  | ok out =>
    refine ⟨out.1, out.2, rfl, h.mem ?_⟩
    rw [hsem]
    exact hvoids out.1 out.2 rfl

theorem cancels_cancelClaim {claimId : Nat} {owner : Option Account} {asAdmin : Bool}
    (h : Cancels cfg (.cancelClaim claimId owner asAdmin) w c) :
    c ∈ w.db.claims ∧ c.claimId = claimId ∧ (asAdmin = true ∨ owner = some c.owner) := by
  obtain ⟨e, after, hrun, hmem⟩ := mem_of_cancels (V := fun e : Ended => [e.claim]) rfl
    (fun _ _ => Voids.cancelClaim) h
  rw [List.mem_singleton.mp hmem]
  exact (cancelClaim_ok hrun).1

theorem cancels_endActiveClaimForRelease {claimId : Nat}
    (h : Cancels cfg (.endActiveClaimForRelease claimId) w c) : c.claimId = claimId := by
  obtain ⟨e, after, hrun, hmem⟩ := mem_of_cancels (V := fun e : Ended => [e.claim]) rfl
    (fun _ _ => Voids.endActiveClaimForRelease) h
  rw [List.mem_singleton.mp hmem]
  exact (endActiveClaimForRelease_ok hrun).1.2

theorem cancels_banAccount {account reason : String} {policy : Option RefundPolicy}
    {admin : String} (h : Cancels cfg (.banAccount account reason policy admin) w c) :
    c.owner = cfg.toLowerCase account := by
  have hvoids : ∀ b after, banAccount cfg w.db w.now account reason policy admin = .ok (b, after) →
      Voids w.db after b.voidedClaims := by
    intro b after hok
    obtain ⟨p, _, heq⟩ := banAccount_result hok
    have hvoid := Voids.banTransaction w.db w.now (cfg.toLowerCase account) reason p admin
    rw [heq] at hvoid
    exact hvoid
  obtain ⟨b, after, hok, hmem⟩ := mem_of_cancels rfl hvoids h
  obtain ⟨p, _, heq⟩ := banAccount_result hok
  have hbans := bansOnly w.db w.now (cfg.toLowerCase account) reason p admin
  rw [heq] at hbans
  exact ((hbans.collects.rows c).mp hmem).2.1

theorem cancels_takedownCid {cid reason : String} {policy : Option RefundPolicy}
    {admin : String} (h : Cancels cfg (.takedownCid cid reason policy admin) w c) :
    c.cid = cid := by
  have hvoids : ∀ d after, takedownCid cfg w.db w.now cid reason policy admin = .ok (d, after) →
      Voids w.db after d.voidedClaims := by
    intro d after hok
    have hvoid := Voids.takedownTransaction w.db w.now cid reason
      (policy.getD cfg.defaultRefundPolicy) admin
    rw [takedownCid_result hok] at hvoid
    exact hvoid
  obtain ⟨d, after, hok, hmem⟩ := mem_of_cancels rfl hvoids h
  have htakes := takesDownOnly w.db w.now cid reason (policy.getD cfg.defaultRefundPolicy) admin
  rw [takedownCid_result hok] at htakes
  exact ((htakes.collects.rows c).mp hmem).2.1

/-- An import leaves alone what hosts a CID that it does not list. -/
theorem sameOn_importLoop (cfg : Config) (t : Int) {cid : Cid} (list : List ImportEntry) (out : Imported)
    (db : Db) (hlist : ∀ entry ∈ list, entry.cid ≠ cid) :
    SameOn cid db (importLoop cfg t list out db).2 := by
  induction list generalizing out db with
  | nil => exact .refl cid db
  | cons entry rest ih =>
    rw [importLoop_cons]
    have hrest := fun out db => ih out db (fun e he => hlist e (List.mem_cons_of_mem _ he))
    have hstep := importEntry_step cfg db t out entry
    generalize importEntry cfg db t out entry = after at hstep ⊢
    cases hstep with
    | incomplete _ => exact hrest _ db
    | registered _ _ => exact hrest _ db
    | fresh _ _ policy =>
      have hne : cid ≠ entry.cid := (hlist entry List.mem_cons_self).symm
      exact (sameOn_takedown db t entry.cid entry.reason policy adminId hne).trans (hrest _ _)

theorem cancels_importTakedowns {list : List ImportEntry}
    (h : Cancels cfg (.importTakedowns list) w c) : ∃ entry ∈ list, entry.cid = c.cid := by
  by_contra hnone
  obtain ⟨hc, hopen, d, hd, hid, hst⟩ := h
  have hlist : ∀ entry ∈ list, entry.cid ≠ c.cid := fun entry he heq => hnone ⟨entry, he, heq⟩
  have hsame := sameOn_importLoop cfg w.now list
    { imported := 0, skippedExisting := 0, errors := [] } w.db hlist
  have hkept : c ∈ (importTakedowns cfg w.db w.now list).2.claims :=
    (hsame.claims c rfl).mp hc
  have hdc : d = c := Table.eq_of_key hd hkept hid
  exact hopen (hdc ▸ hst)

/-- A claim that was listed as the account's is the account's. -/
theorem Listed.owner {cid : Cid} {account : Account} (h : Listed w₀ w cid account c.claimId)
    (hc : c ∈ w.db.claims) : c.owner = account := by
  obtain ⟨w₁, _, hev, d, hd, hid⟩ := h
  obtain ⟨hactive, howner⟩ := List.mem_filter.mp hd
  have hd₁ : d ∈ w₁.db.claims := (Table.mem_filter.mp hactive).1
  obtain ⟨e, he, hide, howne⟩ := hev.claims d hd₁
  have hec : e = c := Table.eq_of_key he hc (hide.trans hid)
  rw [← hec, howne]
  exact of_decide_eq_true howner

/-- The claim that hosts an order is an active one of the order. -/
theorem Hosting.active {orderId : Option Nat} (h : Hosting w.db orderId c.claimId)
    (hc : c ∈ w.db.claims) : orderId = some c.orderId ∧ c.state = .active := by
  obtain ⟨id, d, rfl, hactive, hid⟩ := h
  obtain ⟨hd, horder, hstate⟩ := getActiveClaimForOrder_some hactive
  have hdc : d = c := Table.eq_of_key hd hc hid
  rw [← hdc, horder]
  exact ⟨rfl, hstate⟩

/-- What a statement cancels is what its request is about. -/
theorem concerns_of_asks (hs : s.Checked w) (h : Cancels cfg s w c)
    (hasks : q.Asks cfg who w₀ w s) : q.Concerns cfg who w₀ w c := by
  have hc : c ∈ w.db.claims := h.1
  have hloud : s.quiet ≠ true := fun hquiet =>
    absurd (h.mem (voids_of_quiet cfg hquiet hs)) List.not_mem_nil
  cases s with
  | cancelClaim claimId owner asAdmin =>
    obtain ⟨_, rfl, hown⟩ := cancels_cancelClaim h
    cases q with
    | cancel b =>
      obtain ⟨hid, rfl, rfl⟩ := hasks
      exact ⟨hid, (Option.some.inj (hown.resolve_left Bool.false_ne_true)).symm⟩
    | uploadsDelete b =>
      obtain ⟨hlisted, _, _⟩ := hasks
      exact ⟨hlisted, hlisted.owner hc⟩
    | pinsDelete b =>
      obtain ⟨hlisted, _, _⟩ := hasks
      exact ⟨hlisted, hlisted.owner hc⟩
    | _ => exact hasks.elim
  | endActiveClaimForRelease claimId =>
    obtain rfl := cancels_endActiveClaimForRelease h
    cases q with
    | release b => exact Hosting.active hasks hc
    | receipt b => exact Hosting.active hasks hc
    | _ => exact hasks.elim
  | banAccount account reason policy admin =>
    have howner := cancels_banAccount h
    cases q with
    | ban b =>
      obtain ⟨rfl, _⟩ := hasks
      exact howner
    | _ => exact hasks.elim
  | takedownCid cid reason policy admin =>
    have hcid := cancels_takedownCid h
    cases q with
    | takedown b =>
      obtain ⟨rfl, _⟩ := hasks
      exact hcid
    | _ => exact hasks.elim
  | importTakedowns list =>
    obtain ⟨entry, hentry, hcid⟩ := cancels_importTakedowns h
    cases q with
    | takedownsImport b =>
      obtain rfl := hasks
      exact ⟨entry, hentry, hcid⟩
    | _ => exact hasks.elim
  | recordRefund n => exact absurd (h.mem (V := []) (.of_eq rfl rfl)) List.not_mem_nil
  | _ => exact absurd rfl hloud

end Concerned

section Runs

variable (cfg : Config) (chain : Chain) (t : Int) (events : List (GateEvent cfg))

/-- The requests of the run, with the worlds they arrived in. -/
abbrev arrivedIn : List (Request × World) :=
  Pool.arrivals (handle cfg) (Pool.start (World.boot t)) events

/-- Every process of a run with honest lookups has kept to the table and to its warrant. -/
theorem warranted_of_ran (hanswered : Answered cfg chain.answers events) {q : Request}
    {past : Trace (machine cfg)} (hran : (serve cfg t events).Ran q past) :
    (warrants cfg chain (ArrivesIn (fun _ => True)
      (fun q w => (q, w) ∈ arrivedIn cfg t events ∧ True)) q).Kept past := by
  have hvalid : (looked cfg chain).Valid (warrants cfg chain (ArrivesIn (fun _ => True)
      (fun q w => (q, w) ∈ arrivedIn cfg t events ∧ True))) :=
    evolving_valid cfg chain.answers (fun _ _ _ _ h => h.1) (fun _ _ _ => trivial)
      (fun _ _ _ _ _ _ _ => trivial)
  have hadm := Pool.admissible_arrivals
    (Pool.admissible_true (handle cfg) (Pool.start (World.boot t)) events)
  exact (Rely.run_stands (D := fun _ _ _ _ => True) hvalid trivial
    (fun q w _ harrives => handle_warranted q ⟨harrives, trivial⟩) hadm hanswered).kept_of_ran hran

/-- In every run with honest lookups, whatever ends hosting early, records a consent or a
receipt, or moderates was run for a request that showed a warrant on arrival, and does what that
request asked for in the name of whoever gave the warrant. -/
theorem writes_warranted (hanswered : Answered cfg chain.answers events) {q : Request}
    {past : Trace (machine cfg)} (hran : (serve cfg t events).Ran q past) {a : Stmt × World}
    (ha : a ∈ past) (hwarranted : a.1.warranted = true) :
    ∃ w₀ who, (q, w₀) ∈ arrivedIn cfg t events ∧ Evolves w₀ a.2 ∧
      Vouched cfg chain q w₀.now who ∧ q.Asks cfg who w₀ a.2 a.1 := by
  obtain ⟨past', rest, _, hkept⟩ := (warranted_of_ran cfg chain t events hanswered hran).of_mem ha
  obtain ⟨w₀, who, harrives, hev, hvouched, hasks⟩ := hkept.2 hwarranted
  exact ⟨w₀, who, harrives.1.1, hev, hvouched, hasks⟩

/-- In every state of such a run, a cancelled claim was cancelled for a request that is about it
and showed a warrant: its owner's, an account's that asked to release its order, or an admin's. -/
theorem cancelled_on_warrant (hanswered : Answered cfg chain.answers events) :
    ∀ c ∈ (serve cfg t events).world.db.claims, c.state = .cancelled →
      ∃ q past s w d, (serve cfg t events).Ran q past ∧ (s, w) ∈ past ∧ Cancels cfg s w d ∧
        d.claimId = c.claimId ∧ ∃ w₀ who, (q, w₀) ∈ arrivedIn cfg t events ∧
          Vouched cfg chain q w₀.now who ∧ q.Concerns cfg who w₀ w d := by
  intro c hc hstate
  have hleads : Leads (machine cfg) (World.boot t)
      (Pool.history (handle cfg) (Pool.start (World.boot t)) events)
      (serve cfg t events).world := Pool.leads_run (M := machine cfg) (Pool.start (World.boot t)) events
  obtain ⟨⟨s, w⟩, ha, hold, hnew⟩ := hleads.origin (F := CancelledId c.claimId) (fun _ _ h => h)
    (fun ⟨d, hd, _⟩ => Table.not_mem_empty d hd) ⟨c, hc, rfl, hstate⟩
  obtain ⟨d, hcancels, hid⟩ := cancels_of_new hold hnew
  have hran := (Pool.traces_start (handle cfg) (World.boot t) events).mem_iff.mpr ha
  obtain ⟨past, hpast, hmem⟩ := List.mem_flatten.mp hran
  obtain ⟨q, hran⟩ := Pool.mem_traces_iff.mp hpast
  obtain ⟨past', rest, _, hkept⟩ :=
    (warranted_of_ran cfg chain t events hanswered hran).of_mem hmem
  obtain ⟨w₀, who, harrives, _, hvouched, hasks⟩ :=
    hkept.2 (warranted_of_cancels hkept.1.2 hcancels)
  exact ⟨q, past, s, w, d, hran, hmem, hcancels, hid, w₀, who, harrives.1.1, hvouched,
    concerns_of_asks hkept.1.2 hcancels hasks⟩

end Runs

section Sampled

open Sample

/-- Alice uploads a file and cancels her claim. -/
def cancelledByAlice : List (GateEvent config) :=
  hostedByAlice ++ [.spawn (cancelBy "alice" 1)] ++ resumed 6 0

theorem answered_cancelledByAlice : Answered config ledgerChain.answers cancelledByAlice :=
  answered_append (answered_append answered_hosted (answered_spawn _)) (answered_resumed 6 0)

theorem cancelled_on_warrant_cancel :
    (∃ c ∈ (serve config 0 cancelledByAlice).world.db.claims, c.state = .cancelled) ∧
    ∀ c ∈ (serve config 0 cancelledByAlice).world.db.claims, c.state = .cancelled →
      ∃ q past s w d, (serve config 0 cancelledByAlice).Ran q past ∧ (s, w) ∈ past ∧
        Cancels config s w d ∧ d.claimId = c.claimId ∧
        ∃ w₀ who, (q, w₀) ∈ arrivedIn config 0 cancelledByAlice ∧
          Vouched config ledgerChain q w₀.now who ∧ q.Concerns config who w₀ w d :=
  ⟨by decide +kernel,
    cancelled_on_warrant config ledgerChain 0 cancelledByAlice answered_cancelledByAlice⟩

end Sampled

end IpfsGate.Server
