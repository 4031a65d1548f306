import IpfsGate.Lib.Places
import IpfsGate.Server.Backing
import Mathlib.Order.Interval.Set.Defs

/-!
# On whose authority claims are made

A claim is created or extended for an account on the account's own transfer, or, where an upload
is free, on a signature under one of its keys. Where a fee exemption waives the payment of
another route, the whitelist entry stands in for both.
-/
namespace IpfsGate.Server

open Quota Pricing LedgerRun
open Lib Lib.Prog
open Lib (Table Number Pool)

/-- What the chain holds: the operations of a transaction and the sets of posting keys that an
account has. -/
structure Chain where
  operations : String → Option (List Operation)
  postingKeys : Account → List String → Prop

namespace Chain

/-- Honest lookups. -/
def answers (chain : Chain) : Answers := fun c r =>
  match c, r with
  | .getTransaction txId, .ok operations => chain.operations txId = some operations
  | .getAccountPostingPubkeys account, .ok keys => chain.postingKeys account keys
  | _, _ => True

/-- The transaction moves tokens of the sender to the gate, under the memo. -/
def Shows (chain : Chain) (cfg : Config) (txId : String) (sender : Account) (memo : String) :
    Prop :=
  ∃ operations payload, chain.operations txId = some operations ∧
    extractTokenTransferOp operations sender = .ok (some payload) ∧ payload.memo = memo ∧
    cfg.toLowerCase payload.toAccount = cfg.gateAccount ∧ payload.symbol = cfg.paymentCurrency

end Chain

/-- Each answer of the run is that of the chain at the time, by the place of its event. -/
def AnsweredBy (cfg : Config) (chains : ℕ → Chain) (events : List (GateEvent cfg)) : Prop :=
  ∀ m e, events[m]? = some e →
    (evolving cfg (fun _ => True) (fun _ _ => True) (chains m).answers).Honest e

/-- What the chain answers in a time. -/
def answersIn (chains : ℕ → Chain) (time : Set ℕ) : Answers := fun c r =>
  ∃ m ∈ time, (chains m).answers c r

/-- The transaction a request names and the memo it is asked for. -/
def Request.payment : Request → Option (String × String)
  | .upload b => some (b.txId, memoForReservation b.reservationId)
  | .guardianPledge b => some (b.txId, s!"ipfs-gate:guardian:{b.cid}")
  | .backstopPledge b => some (b.txId, s!"ipfs-gate:backstop:{b.cid}")
  | .ownCopy b => some (b.txId, s!"ipfs-gate:owncopy:{b.cid}")
  | .extend b => some (b.txId, s!"ipfs-gate:extend:{b.claimId}")
  | _ => none

/-- The request carries the account's signature of the upload, under one of its posting keys. -/
def SignedFor (cfg : Config) (chain : Chain) (owner : Account) : Request → Prop
  | .upload b => ∃ r keys, r.id = b.reservationId ∧ r.uploader = owner ∧
      cfg.verifyHiveSig (uploadProofMessage cfg b.file r) b.uploadProofSig b.uploaderPubkey = true ∧
      chain.postingKeys owner keys ∧ keys.contains b.uploaderPubkey = true
  | _ => False

/-- The request shows the account's authority: its transfer or its signature. -/
def Authorised (cfg : Config) (chain : Chain) (q : Request) (owner : Account) : Prop :=
  (∃ txId memo, q.payment = some (txId, memo) ∧ chain.Shows cfg txId owner memo) ∨
    SignedFor cfg chain owner q

/-- The owner of the claim that a statement creates or extends. -/
def grantee : Stmt × World → Option Account
  | (.finaliseUpload _ u, _) => some u.owner
  | (.pledge g, _) => some g.owner
  | (.createOwnCopyClaim n, w) =>
    (Quota.createOwnCopyClaim w.db w.now n).toOption.map (fun _ => n.owner)
  | (.extendClaim claimId owner extraHours, w) =>
    (Quota.extendClaim w.db claimId owner extraHours).toOption.map (fun _ => owner)
  | _ => none

/-- Claims are created and extended on their owner's authority. -/
def GrantsAuthorised {cfg : Config} (chain : Chain) (S : Gate cfg) : Prop :=
  ∀ q past, S.Ran q past → ∀ a ∈ past, ∀ owner, grantee a = some owner →
    Authorised cfg chain q owner

/-- The payment of a pledge or an own copy is waived, the account being fee-exempt. -/
def Waived (cfg : Config) (w : World) (owner : Account) : Request → Prop
  | .guardianPledge _ | .backstopPledge _ | .ownCopy _ =>
    (feeExemptEntryFor cfg w.db owner).isSome = true
  | _ => False

/-- The extension is of a claim that costs nothing, and its owner is fee-exempt. -/
def FreeExtension (cfg : Config) (w : World) (owner : Account) : Request → Prop
  | .extend b => (feeExemptEntryFor cfg w.db owner).isSome = true ∧
      ∃ extraHours, billableHours cfg b.extraHours = .ok extraHours ∧
        ∃ c ∈ w.db.claims, c.claimId = b.claimId ∧ extensionCost cfg c extraHours = .fin 0
  | _ => False

section Grants

variable {cfg : Config} {chains : ℕ → Chain} {time : Set ℕ} {q : Request}
  {past : Trace (machine cfg)} {s : Stmt} {w w₀ : World} {owner : Account}

theorem validateTransferPayload_ok {payload : Option TransferPayload} {memo : String} {due : Number}
    {paid : Paid} (h : validateTransferPayload cfg payload memo due = .ok paid) :
    ∃ p, payload = some p ∧ p.memo = memo ∧ cfg.toLowerCase p.toAccount = cfg.gateAccount ∧
      p.symbol = cfg.paymentCurrency ∧ covers paid.amount.value due = true := by
  unfold validateTransferPayload at h
  split at h
  · cases h
  · rename_i p
    split at h
    · cases h
    · rename_i haccount
      split at h
      · cases h
      · rename_i hsymbol
        split at h
        · cases h
        · split at h
          · cases h
          · rename_i hcovers
            split at h
            · cases h
            · rename_i hmemo
              cases h
              refine ⟨p, rfl, not_not.mp hmemo, not_not.mp haccount, not_not.mp hsymbol, ?_⟩
              simpa using hcovers

/-- A verified transfer was on the chain when it was looked up. -/
theorem shows_of_transferred {txId : String} {sender : Account} {memo : String} {due : Number}
    {paid : Paid} (h : Transferred cfg (answersIn chains time) txId sender memo due paid) :
    ∃ m ∈ time, (chains m).Shows cfg txId sender memo := by
  obtain ⟨operations, payload, ⟨m, hm, hlookup⟩, hextract, hvalid⟩ := h
  obtain ⟨p, rfl, hmemo, haccount, hsymbol, _⟩ := validateTransferPayload_ok hvalid
  exact ⟨m, hm, operations, p, hlookup, hextract, hmemo, haccount, hsymbol⟩

theorem authorised_of_paid {p : PaymentRequest} {amount : Coins}
    (hp : PaidFor cfg (answersIn chains time) p amount) (hfree : p.feeExempt = false)
    (hq : q.payment = some (p.txId, p.expectedMemo)) :
    ∃ m ∈ time, Authorised cfg (chains m) q p.sender := by
  obtain ⟨paid, htransfer, _⟩ := hp.transferred hfree
  obtain ⟨m, hm, hshows⟩ := shows_of_transferred htransfer
  exact ⟨m, hm, Or.inl ⟨_, _, hq, hshows⟩⟩

/-- A request that arrived in a world is authorised at some time, or was waived there. -/
abbrev Cleared (cfg : Config) (chains : ℕ → Chain) (time : Set ℕ) (q : Request) (w₀ : World)
    (owner : Account) : Prop :=
  Waived cfg w₀ owner q ∨ FreeExtension cfg w₀ owner q ∨
    ∃ m ∈ time, Authorised cfg (chains m) q owner

/-- What was not exempt was paid for. -/
theorem waived_or_authorised {free : Bool} (hwaived : free = true → Waived cfg w₀ owner q)
    (hpaid : free = false → ∃ m ∈ time, Authorised cfg (chains m) q owner) :
    Cleared cfg chains time q w₀ owner := by
  cases free with
  | true => exact Or.inl (hwaived rfl)
  | false => exact Or.inr (Or.inr (hpaid rfl))

/-- Whatever the request has granted, the owner has authorised it, unless it was waived. -/
theorem cleared_of_backed (hq : q.mayWrite s = true)
    (h : Backed cfg (answersIn chains time) (fun _ w => w = w₀) q past s w)
    (hgrant : grantee (s, w) = some owner) : Cleared cfg chains time q w₀ owner := by
  cases s with
  | finaliseUpload id u =>
    cases q with
    | upload b =>
      obtain ⟨_, c, rfl, _, hback⟩ := h
      obtain ⟨hfound, _, _⟩ := checkUpload_ok hback.checked
      have hid : c.reservation.id = b.reservationId := (Table.find?_eq_some.mp hfound).2
      obtain rfl : u.owner = owner := Option.some.inj hgrant
      refine Or.inr (Or.inr ?_)
      rw [hback.owner]
      by_cases hfree : c.feeExempt = true
      · obtain ⟨keys, ⟨m, hm, hkeys⟩, hkey⟩ := hback.bound hfree
        exact ⟨m, hm, Or.inr ⟨c.reservation, keys, hid, rfl, hback.signed, hkeys, hkey⟩⟩
      · refine authorised_of_paid hback.paid (Bool.not_eq_true _ ▸ hfree) ?_
        rw [hid]
        rfl
    | _ => cases hq
  | pledge g =>
    obtain rfl : g.owner = owner := Option.some.inj hgrant
    cases q with
    | guardianPledge b =>
      obtain ⟨_, quote, rfl, _, hback⟩ := h
      rw [hback.owner]
      have hexempt := quoteHosted_feeExempt hback.quoted
      obtain ⟨synthetic, hpaid⟩ := hback.paid
      exact waived_or_authorised (fun hfree => hexempt.symm.trans hfree)
        (fun hfree => authorised_of_paid hpaid hfree rfl)
    | backstopPledge b =>
      obtain ⟨_, quote, rfl, _, hback⟩ := h
      rw [hback.owner]
      have hexempt := quoteHosted_feeExempt hback.quoted
      obtain ⟨synthetic, hpaid⟩ := hback.paid
      exact waived_or_authorised (fun hfree => hexempt.symm.trans hfree)
        (fun hfree => authorised_of_paid hpaid hfree rfl)
    | _ => cases hq
  | createOwnCopyClaim n =>
    have howner : n.owner = owner := by
      obtain ⟨_, _, howner⟩ := Option.map_eq_some_iff.mp hgrant
      exact howner
    subst howner
    cases q with
    | ownCopy b =>
      obtain ⟨_, quote, rfl, _, hback⟩ := h
      rw [hback.owner]
      have hexempt := quoteHosted_feeExempt hback.quoted
      obtain ⟨synthetic, hpaid⟩ := hback.paid
      exact waived_or_authorised (fun hfree => hexempt.symm.trans hfree)
        (fun hfree => authorised_of_paid hpaid hfree rfl)
    | _ => cases hq
  | extendClaim claimId o extraHours =>
    have howner : o = owner := by
      obtain ⟨_, _, howner⟩ := Option.map_eq_some_iff.mp hgrant
      exact howner
    subst howner
    cases q with
    | extend b =>
      obtain ⟨_, quote, rfl, _, hback⟩ := h
      refine Or.inr ?_
      rw [hback.owner]
      obtain ⟨hmem, hid, hquoted, hexempt⟩ := checkExtend_ok hback.checked
      obtain ⟨amount, hpaid⟩ := hback.paid
      by_cases hfree : quote.feeExempt = true
      · left
        rw [hfree] at hexempt
        obtain ⟨hcost, hentry⟩ := Bool.and_eq_true_iff.mp hexempt.symm
        exact ⟨hentry, extraHours, hback.hours, quote.claim, hmem, hid,
          hquoted.symm.trans (of_decide_eq_true hcost)⟩
      · exact Or.inr (authorised_of_paid hpaid (Bool.not_eq_true _ ▸ hfree) rfl)
    | _ => cases hq
  | _ => cases hgrant

end Grants

/-- After a place of the run the chain answers as it does at the later places. -/
theorem honest_after {cfg : Config} {chains : ℕ → Chain} {before after : List (GateEvent cfg)}
    {q : Request} (hanswered : AnsweredBy cfg chains (before ++ .spawn q :: after)) :
    ∀ e ∈ after, (evolving cfg (fun _ => True) (fun _ _ => True) (answersIn chains
      (Set.Ioo before.length (before ++ .spawn q :: after).length))).Honest e := by
  intro e he
  obtain ⟨k, hk⟩ := List.mem_iff_getElem?.mp he
  have hat : (before ++ .spawn q :: after)[before.length + 1 + k]? = some e := by
    rw [List.getElem?_append_right (by omega), Nat.add_assoc, Nat.add_sub_cancel_left,
      Nat.add_comm, List.getElem?_cons_succ]
    exact hk
  obtain ⟨hlt, _⟩ := List.getElem?_eq_some_iff.mp hat
  have hhonest := hanswered _ e hat
  cases e with
  | resume i answer => exact fun c => ⟨_, ⟨by omega, hlt⟩, hhonest c⟩
  | _ => trivial

/-- In every run on an honest chain every process comes from a place of the run, and whatever it
grants an account is authorised by the account's transfer or by its signature under a posting key
of that time, unless the account was fee-exempt when the request arrived there and the request was
a pledge, an own copy or an extension that costs nothing. -/
theorem grants_authorised (cfg : Config) (chains : ℕ → Chain) (t : Int)
    (events : List (GateEvent cfg)) (hanswered : AnsweredBy cfg chains events) :
    (∀ q past, (serve cfg t events).Ran q past → ∃ before after,
      events = before ++ .spawn q :: after ∧
        Pool.RanAt (handle cfg) (World.boot t) events before.length q past) ∧
    ∀ before q after past, events = before ++ .spawn q :: after →
      Pool.RanAt (handle cfg) (World.boot t) events before.length q past →
      ∀ a ∈ past, ∀ owner, grantee a = some owner →
        Cleared cfg chains (Set.Ioo before.length events.length) q (serve cfg t before).world
          owner := by
  refine ⟨fun q past hran => Pool.place_of_ran hran, ?_⟩
  rintro before q after past rfl hran a ha owner hgrant
  have hkept : Guarantee.Kept (Justified cfg (answersIn chains
      (Set.Ioo before.length (before ++ .spawn q :: after).length))
      (fun _ w => w = (serve cfg t before).world) q) past := by
    have hvalid : (evolving cfg (fun _ => True) (fun _ _ => True) (fun _ _ => True)).Valid
        (tabled cfg) :=
      evolving_valid cfg _ (fun _ _ _ _ hg => hg) (fun _ _ _ => trivial)
        (fun _ _ _ _ _ _ _ => trivial)
    refine Rely.kept_of_ranAt hvalid (fun _ _ => trivial) (fun _ _ => trivial) trivial
      (fun q w _ => handle_assures cfg _ q w) (fun _ _ _ hj => hj.tabled) ?_
      (honest_after hanswered) hran
    exact Assures.mono (fun _ _ _ _ => trivial) (handle_walk q rfl)
  obtain ⟨past', rest, _, hj⟩ := hkept.of_mem ha
  exact cleared_of_backed hj.tabled.1 hj.backed hgrant

section Sampled

open Sample

/-- The chain that the sample answers come from. -/
def ledgerChain : Chain where
  operations := fun txId => some [transferOf txId]
  postingKeys := fun _ keys => keys = ["posting-key"]

theorem answer_honest (c : Call) : ledgerChain.answers c (answer c) := by
  cases c <;> first | rfl | trivial

theorem answered_append {cfg : Config} {A : Answers} {a b : List (GateEvent cfg)}
    (ha : Answered cfg A a) (hb : Answered cfg A b) : Answered cfg A (a ++ b) :=
  List.forall_mem_append.mpr ⟨ha, hb⟩

theorem answered_spawn {cfg : Config} {A : Answers} (q : Request) : Answered cfg A [.spawn q] := by
  intro e he
  rw [List.mem_singleton.mp he]
  trivial

theorem answered_resumed {cfg : Config} (n i : Nat) :
    Answered cfg ledgerChain.answers (resumed n i) := by
  intro e he
  rw [List.eq_of_mem_replicate he]
  exact answer_honest

theorem answered_hosted {cfg : Config} : Answered cfg ledgerChain.answers hostedByAlice :=
  answered_append (answered_append (answered_spawn (reserveBy "alice"))
    (answered_spawn (uploadOf 1 "bafy"))) (answered_resumed 6 0)

/-- Alice's upload, on a chain that stays as it is. -/
theorem grants_authorised_hosted :
    ((serve config 0 hostedByAlice).finished.flatMap Finished.past).filterMap grantee =
      ["alice"] ∧
    ∀ (before : List (GateEvent config)) q after past, hostedByAlice = before ++ .spawn q :: after →
      Pool.RanAt (handle config) (World.boot 0) hostedByAlice before.length q past →
      ∀ a ∈ past, ∀ owner, grantee a = some owner →
        Cleared config (fun _ => ledgerChain)
          (Set.Ioo before.length (hostedByAlice : List (GateEvent config)).length) q
          (serve config 0 before).world owner :=
  ⟨by decide +kernel, (grants_authorised config (fun _ => ledgerChain) 0 hostedByAlice
    (fun _ e he => answered_hosted e (List.mem_of_getElem? he))).2⟩

/-- A gate for members. -/
def membersOnly : Config := { config with whitelistMode := true }

def exempted (account : Account) : Request :=
  .whitelistAdd
    { targetAccount := account, quotaBytes := none, feeExempt := true, note := none,
      auth := operator }

/-- Alice, who is fee-exempt, uploads a file. -/
def freeUpload : List (GateEvent membersOnly) :=
  [.spawn (exempted "alice")] ++ resumed 1 0 ++
    [.spawn (reserveBy "alice"), .spawn (uploadOf 1 "bafy")] ++ resumed 4 0

/-- Somebody asks for an own copy in the name of Carol, who is fee-exempt too. -/
def copiedForCarol : List (GateEvent membersOnly) :=
  freeUpload ++ [.spawn (exempted "carol")] ++ resumed 1 0 ++
    [.spawn (.ownCopy { owner := "carol", cid := "bafy", hoursRequested := none, copies := none,
                        txId := "" })] ++ resumed 1 0

/-- Somebody asks for more hours for Alice's claim. -/
def extendedForAlice : List (GateEvent membersOnly) :=
  freeUpload ++ [.spawn (.extend { claimId := 1, extraHours := .fin 2, txId := "" })]

/-- A request without a transaction that is no upload shows no authority. -/
theorem not_authorised_of_blank {q : Request} {memo : String} {owner : Account}
    (hpayment : q.payment = some ("", memo)) (hmemo : memo ≠ "") (hq : ∀ b, q ≠ .upload b)
    (howner : owner ∈ ["alice", "carol"]) : ¬ Authorised membersOnly ledgerChain q owner := by
  rintro (⟨txId, memo', hpaid, operations, payload, hshown, hextract, hmatch, _⟩ | hsigned)
  · rw [hpayment] at hpaid
    cases hpaid
    cases hshown
    have hblank : ∀ a ∈ ["alice", "carol"], (extractTokenTransferOp [transferOf ""] a).toOption.map
        (Option.map TransferPayload.memo) = some (some "") := by decide +kernel
    have hmemo' := hblank owner howner
    rw [hextract] at hmemo'
    have hempty : payload.memo = "" := Option.some.inj (Option.some.inj hmemo')
    exact hmemo (hmatch.symm.trans hempty)
  · cases q with
    | upload b => exact hq b rfl
    | _ => exact hsigned

theorem answered_freeUpload : Answered membersOnly ledgerChain.answers freeUpload :=
  answered_append (answered_append (answered_append (answered_spawn _) (answered_resumed 1 0))
    (answered_append (answered_spawn _) (answered_spawn _))) (answered_resumed 4 0)

/-- Neither Carol nor Alice has asked for what they are given. -/
theorem grants_unasked :
    (Answered membersOnly ledgerChain.answers copiedForCarol ∧
      ¬ GrantsAuthorised ledgerChain (serve membersOnly 0 copiedForCarol)) ∧
    (Answered membersOnly ledgerChain.answers extendedForAlice ∧
      ¬ GrantsAuthorised ledgerChain (serve membersOnly 0 extendedForAlice)) := by
  have hrefute : ∀ (S : Gate membersOnly) (memo : String) (owner : Account), memo ≠ "" →
      owner ∈ ["alice", "carol"] →
      (∃ f ∈ S.finished, f.request.payment = some ("", memo) ∧ f.request.buys = true ∧
        ∃ a ∈ f.past, grantee a = some owner) → ¬ GrantsAuthorised ledgerChain S := by
    rintro S memo owner hmemo howner ⟨f, hf, hpayment, hbuys, a, ha, hgrant⟩ h
    refine not_authorised_of_blank hpayment hmemo (fun b hb => ?_) howner
      (h f.request f.past (Or.inl ⟨f, hf, rfl, rfl⟩) a ha owner hgrant)
    rw [hb] at hbuys
    cases hbuys
  refine ⟨⟨?_, ?_⟩, ?_, ?_⟩
  · exact answered_append (answered_append (answered_append (answered_append answered_freeUpload
      (answered_spawn _)) (answered_resumed 1 0)) (answered_spawn _)) (answered_resumed 1 0)
  · exact hrefute _ "ipfs-gate:owncopy:bafy" "carol" (by decide) (by decide) (by decide +kernel)
  · exact answered_append answered_freeUpload (answered_spawn _)
  · exact hrefute _ "ipfs-gate:extend:1" "alice" (by decide) (by decide) (by decide +kernel)

end Sampled

end IpfsGate.Server
