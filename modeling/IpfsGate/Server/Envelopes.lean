import IpfsGate.Server.Replay
import IpfsGate.Lib.Separated

/-!
# The payments of a claim

A claim's envelope is the row it was created on and the rows under the memo of its extensions.
Only an extension records a row under such a memo, whatever CIDs the other memos quote, and no
claim rests on one; so the envelopes of two claims have nothing in common.
-/
namespace IpfsGate.Server

open Quota LedgerRun
open Lib Lib.Prog
open Lib (Table)

/-! ## Memos -/

/-- The memo of a top-up. -/
def extendMemo (claimId : Nat) : String := s!"ipfs-gate:extend:{claimId}"

theorem extendMemo_inj {a b : Nat} (h : extendMemo a = extendMemo b) : a = b := by
  apply Lib.Separated.repr_inj
  have hlist := congrArg String.toList h
  change ("ipfs-gate:extend:" ++ a.repr).toList = ("ipfs-gate:extend:" ++ b.repr).toList at hlist
  rw [String.toList_append, String.toList_append] at hlist
  exact String.toList_inj.mp (List.append_cancel_left hlist)

/-- A memo that begins otherwise is not a top-up's, whatever it goes on to quote. -/
theorem ne_extendMemo (tag : String) (c : Char) {memo rest : String} (hmemo : memo = tag ++ rest)
    (htag : tag.toList[10]? = some c) (hc : c ≠ 'e') (claimId : Nat) :
    memo ≠ extendMemo claimId := by
  intro h
  obtain ⟨hlong, _⟩ := List.getElem?_eq_some_iff.mp htag
  have hat : (tag.toList ++ rest.toList)[10]? = (extendMemo claimId).toList[10]? := by
    rw [← h, hmemo, String.toList_append]
  rw [List.getElem?_append_left hlong, htag] at hat
  have hextend : (extendMemo claimId).toList[10]? = some 'e' := by
    change ("ipfs-gate:extend:" ++ claimId.repr).toList[10]? = some 'e'
    rw [String.toList_append, List.getElem?_append_left (by decide)]
    decide
  rw [hextend] at hat
  exact hc (Option.some.inj hat)

/-- An extension records its payment under the memo of a top-up, and nothing else does. -/
def Request.Memoed (q : Request) : Stmt → Prop
  | .recordPayment n =>
    match q with
    | .extend b => n.memo = extendMemo b.claimId
    | _ => ∀ claimId, n.memo ≠ extendMemo claimId
  | _ => True

theorem handle_memoed (cfg : Config) (q : Request) (w : World) :
    Keeps cfg (fun s _ => q.Memoed s) (fun _ => True) (handle cfg q) w := by
  cases q with
  | upload b =>
    refine Keeps.map _ (keeps_upload (fun _ _ c _ => ?_) (fun _ => trivial))
    refine ⟨fun _ _ => trivial, fun n _ hmemo _ => ?_, fun _ _ _ => trivial, fun _ _ => trivial,
      fun _ _ => trivial, fun _ _ _ _ _ _ _ => trivial⟩
    exact ne_extendMemo "ipfs-gate:upload:" 'u' hmemo (by decide) (by decide)
  | guardianPledge b =>
    refine Keeps.map _ (keeps_guardianPledge (fun n _ hmemo _ => ?_) (fun _ _ _ => trivial)
      (fun _ _ => trivial))
    exact ne_extendMemo "ipfs-gate:guardian:" 'g' hmemo (by decide) (by decide)
  | backstopPledge b =>
    refine Keeps.map _ (keeps_guardianPledge (fun n _ hmemo _ => ?_) (fun _ _ _ => trivial)
      (fun _ _ => trivial))
    exact ne_extendMemo "ipfs-gate:backstop:" 'b' hmemo (by decide) (by decide)
  | ownCopy b =>
    refine Keeps.map _ (keeps_ownCopy (fun n _ hmemo _ => ?_) (fun _ _ _ => trivial)
      (fun _ _ => trivial))
    exact ne_extendMemo "ipfs-gate:owncopy:" 'o' hmemo (by decide) (by decide)
  | extend b =>
    exact Keeps.map _ (keeps_extend (fun n _ hmemo _ => hmemo) (fun _ _ _ => trivial)
      (fun _ _ => trivial))
  | _ =>
    -- the other requests record no payment
    refine (handle_follows cfg _ w).weaken (fun s _ hs => ?_) (fun _ _ => trivial)
    cases s with
    | recordPayment n => cases hs.1
    | _ => trivial

/-! ## Runs -/

/-- The payment is the one that a request recorded last before it extended the claim. -/
def ToppedUp {cfg : Config} (S : Gate cfg) (claimId paymentId : Nat) : Prop :=
  ∃ past ∈ S.traces, ∃ before rest owner extraHours w,
    past = before ++ (.extendClaim claimId owner extraHours, w) :: rest ∧
      lengthens (.extendClaim claimId owner extraHours, w) = true ∧
      (purse before).recorded.getLast? = some paymentId

/-- The envelopes of the claims partition what was paid for them. -/
structure Partitioned {cfg : Config} (S : Gate cfg) : Prop where
  deposit : ∀ c ∈ S.world.db.claims, ∃ p ∈ getClaimPayments S.world.db c, p.id = c.paymentId
  topUps : ∀ c ∈ S.world.db.claims, ∀ id, ToppedUp S c.claimId id →
    ∃ p ∈ getClaimPayments S.world.db c, p.id = id
  /-- Every extension that succeeded has such a payment. -/
  paid : ∀ past ∈ S.traces, ∀ before rest claimId owner extraHours w,
    past = before ++ (.extendClaim claimId owner extraHours, w) :: rest →
      lengthens (.extendClaim claimId owner extraHours, w) = true → ∃ id, ToppedUp S claimId id
  apart : ∀ c ∈ S.world.db.claims, ∀ d ∈ S.world.db.claims, c ≠ d →
    ∀ p ∈ getClaimPayments S.world.db c, p.id ≠ d.paymentId ∧ ¬ ToppedUp S d.claimId p.id
  disjoint : ∀ c ∈ S.world.db.claims, ∀ d ∈ S.world.db.claims, c ≠ d →
    ∀ p ∈ getClaimPayments S.world.db c, p ∉ getClaimPayments S.world.db d

section Runs

variable {cfg : Config} {t : Int} {events : List (GateEvent cfg)} {q : Request}
  {past : Trace (machine cfg)} {x : Payment}

theorem mem_getClaimPayments {db : Db} {c : Claim} : x ∈ getClaimPayments db c ↔
    x ∈ db.payments ∧ (x.id = c.paymentId ∨ x.memo = extendMemo c.claimId) := by
  unfold getClaimPayments
  rw [Table.mem_filter, Bool.or_eq_true, decide_eq_true_eq, decide_eq_true_eq]
  rfl

/-- A payment of the run has the memo under which its request recorded it. -/
theorem recorded_memo (hran : (serve cfg t events).Ran q past)
    (hx : x ∈ (serve cfg t events).world.db.payments) (hid : x.id ∈ (purse past).recorded) :
    ∃ n : NewPayment, x.memo = n.memo ∧ q.Memoed (.recordPayment n) := by
  rw [purse_recorded] at hid
  obtain ⟨⟨s, w⟩, ha, hpaid⟩ := List.mem_flatMap.mp hid
  rw [Option.mem_toList, paymentOf_eq] at hpaid
  obtain ⟨y, hy, hyid⟩ := Option.map_eq_some_iff.mp hpaid
  have hmem : y ∈ (serve cfg t events).world.db.payments := by
    refine payments_serve.subset (List.mem_flatMap.mpr ⟨past, ?_, ?_⟩)
    · exact Pool.mem_traces_iff.mpr ⟨q, hran⟩
    · exact List.mem_flatMap.mpr ⟨(s, w), ha, Option.mem_toList.mpr hy⟩
  have hsame : x = y := Table.eq_of_key hx hmem hyid.symm
  cases s with
  | recordPayment n =>
    obtain ⟨r, _, hrow⟩ := Option.map_eq_some_iff.mp hy
    refine ⟨n, ?_, Rely.emits_of_ran (fun q w => handle_memoed cfg q w) hran _ ha⟩
    rw [hsame, ← hrow]
  | _ => cases hy

/-- Nothing that a claim was created on has the memo of a top-up. -/
theorem deposit_memo {c : Claim} (hc : c ∈ (serve cfg t events).world.db.claims)
    (hx : x ∈ (serve cfg t events).world.db.payments) (hid : x.id = c.paymentId)
    (claimId : Nat) : x.memo ≠ extendMemo claimId := by
  have hcreated : c.paymentId ∈ paymentIds (serve cfg t events).world.db := List.mem_map_of_mem hc
  obtain ⟨past, hpast, hmem⟩ := List.mem_flatMap.mp (created_serve.symm.subset hcreated)
  obtain ⟨q, hran⟩ := Pool.mem_traces_iff.mp hpast
  have hrecorded : c.paymentId ∈ (purse past).recorded := by
    have hspent : some c.paymentId ∈ (purse past).created.map some ++ (purse past).extended :=
      List.mem_append_left _ (List.mem_map_of_mem hmem)
    obtain ⟨id, hin, heq⟩ := List.mem_map.mp ((balanced_serve hpast).sublist.subset hspent)
    exact Option.some.inj heq ▸ hin
  rw [purse_created] at hmem
  obtain ⟨⟨s, w⟩, ha, hfunded⟩ := List.mem_flatMap.mp hmem
  rw [Option.mem_toList] at hfunded
  have htab : q.mayWrite s = true :=
    (Rely.emits_of_ran (fun q w => handle_follows cfg q w) hran (s, w) ha).1
  obtain ⟨n, hmemo, hmemoed⟩ := recorded_memo hran hx (hid ▸ hrecorded)
  rw [hmemo]
  cases q with
  | extend b =>
    -- an extension creates no claim
    cases s with
    | finaliseUpload id u => cases htab
    | pledge g => cases htab
    | createOwnCopyClaim n => cases htab
    | _ => cases hfunded
  | _ => exact hmemoed claimId

/-- What a claim was topped up with has its memo. -/
theorem topUp_memo {claimId : Nat} (hx : x ∈ (serve cfg t events).world.db.payments)
    (h : ToppedUp (serve cfg t events) claimId x.id) : x.memo = extendMemo claimId := by
  obtain ⟨past, hpast, before, rest, owner, extraHours, w, rfl, hok, hlast⟩ := h
  obtain ⟨q, hran⟩ := Pool.mem_traces_iff.mp hpast
  have hstands := serve_justified (Kept.any cfg (fun _ _ => True) (fun _ _ => True)
    (fun _ _ => True) t) (Pool.admissible_true _ _ _) (answered_any events)
  have hj := hstands.kept_of_ran hran before _ w rest rfl
  have hrecorded : x.id ∈ (purse (before ++ (Stmt.extendClaim claimId owner extraHours, w) ::
      rest)).recorded := by
    rw [purse_recorded, List.flatMap_append, ← purse_recorded]
    exact List.mem_append_left _ (List.mem_of_getLast? hlast)
  obtain ⟨n, hmemo, hmemoed⟩ := recorded_memo hran hx hrecorded
  have htab := hj.tabled.1
  cases q with
  | extend b =>
    obtain ⟨_, _, _, _, hback⟩ := hj.backed
    rw [hback.claimId, hmemo]
    exact hmemoed
  | _ => cases htab

/-- An extension that succeeded rests on a payment that its request has recorded. -/
theorem exists_topUp (hpast : past ∈ (serve cfg t events).traces) {before rest : Trace (machine cfg)}
    {claimId : Nat} {owner : Account} {extraHours : Int} {w : World}
    (hsplit : past = before ++ (.extendClaim claimId owner extraHours, w) :: rest)
    (hok : lengthens (.extendClaim claimId owner extraHours, w) = true) :
    ∃ id, ToppedUp (serve cfg t events) claimId id := by
  obtain ⟨q, hran⟩ := Pool.mem_traces_iff.mp hpast
  have hstands := serve_justified (Kept.any cfg (fun _ _ => True) (fun _ _ => True)
    (fun _ _ => True) t) (Pool.admissible_true _ _ _) (answered_any events)
  have hj := hstands.kept_of_ran hran before _ w rest hsplit
  have htab := hj.tabled.1
  cases q with
  | extend b =>
    obtain ⟨_, _, _, _, hback⟩ := hj.backed
    obtain ⟨id, hheld⟩ := hback.held
    refine ⟨id, past, hpast, before, rest, owner, extraHours, w, hsplit, hok, ?_⟩
    rw [hheld]
    rfl
  | _ => cases htab

/-- A top-up is among the payments of the run. -/
theorem exists_payment {claimId id : Nat} (h : ToppedUp (serve cfg t events) claimId id) :
    ∃ p ∈ (serve cfg t events).world.db.payments, p.id = id := by
  obtain ⟨past, hpast, before, rest, owner, extraHours, w, rfl, _, hlast⟩ := h
  have hmem : id ∈ (serve cfg t events).traces.flatMap (fun past => (purse past).recorded) := by
    refine List.mem_flatMap.mpr ⟨_, hpast, ?_⟩
    rw [purse_recorded, List.flatMap_append, ← purse_recorded]
    exact List.mem_append_left _ (List.mem_of_getLast? hlast)
  obtain ⟨p, hp, hid⟩ := List.mem_map.mp (recorded_serve.subset hmem)
  exact ⟨p, hp, hid⟩

/-- No payment is in the envelopes of two claims. -/
theorem envelope_eq {c d : Claim} (hc : c ∈ (serve cfg t events).world.db.claims)
    (hd : d ∈ (serve cfg t events).world.db.claims)
    (hxc : x ∈ getClaimPayments (serve cfg t events).world.db c)
    (hxd : x ∈ getClaimPayments (serve cfg t events).world.db d) : c = d := by
  obtain ⟨hx, hxc⟩ := mem_getClaimPayments.mp hxc
  obtain ⟨_, hxd⟩ := mem_getClaimPayments.mp hxd
  rcases hxc with hxc | hxc
  · rcases hxd with hxd | hxd
    · exact (funded_once cfg t events).claims c hc d hd (hxc.symm.trans hxd)
    · exact absurd hxd (deposit_memo hc hx hxc d.claimId)
  · rcases hxd with hxd | hxd
    · exact absurd hxc (deposit_memo hd hx hxd c.claimId)
    · exact Table.eq_of_key hc hd (extendMemo_inj (hxc.symm.trans hxd))

end Runs

/-- In every state of every run, whatever CIDs the memos quote, the envelope of a claim holds what
it was created on and what it was topped up with, and nothing of any other claim. -/
theorem envelopes_partition (cfg : Config) (t : Int) (events : List (GateEvent cfg)) :
    Partitioned (serve cfg t events) where
  deposit := by
    intro c hc
    obtain ⟨p, hp, hid⟩ := (funded_once cfg t events).claimsPaid c hc
    exact ⟨p, mem_getClaimPayments.mpr ⟨hp, Or.inl hid⟩, hid⟩
  topUps := by
    intro c _ id h
    obtain ⟨p, hp, rfl⟩ := exists_payment h
    exact ⟨p, mem_getClaimPayments.mpr ⟨hp, Or.inr (topUp_memo hp h)⟩, rfl⟩
  paid := fun past hpast _ _ _ _ _ _ hsplit hok => exists_topUp hpast hsplit hok
  apart := by
    intro c hc d hd hne p hp
    obtain ⟨hmem, _⟩ := mem_getClaimPayments.mp hp
    constructor
    · intro hid
      exact hne (envelope_eq hc hd hp (mem_getClaimPayments.mpr ⟨hmem, Or.inl hid⟩))
    · intro htop
      exact hne (envelope_eq hc hd hp
        (mem_getClaimPayments.mpr ⟨hmem, Or.inr (topUp_memo hmem htop)⟩))
  disjoint := fun c hc d hd hne p hpc hpd => hne (envelope_eq hc hd hpc hpd)

end IpfsGate.Server
