import IpfsGate.LedgerRun

/-!
# Claim-pin correspondence over whole runs

Lockstep holds in every state a run reaches, and so does the timer equation of the claims
that were created with one.
-/
namespace IpfsGate.Correspondence

open Quota Moderation LedgerRun
open Lib (Table)

/-- Active claims outside `untimed` end exactly their paid hours after they started. -/
def Timed (untimed : List Nat) (db : Db) : Prop :=
  ∀ c ∈ db.claims, c.state = .active → c.claimId ∉ untimed →
    c.expiryTs = c.startTs + c.paidHours * Pricing.hourMs

structure Corresponds (s : Ledger) : Prop where
  active_iff : ∀ c ∈ s.db.claims, c.state = .active ↔
    ∃ p ∈ s.db.pins, c.pinId = some p.id ∧ p.status = .active ∧ p.cid = c.cid ∧
      p.uploader = c.owner ∧ p.expiresAt = c.expiryTs
  funded_once : ∀ p ∈ s.db.pins, p.status = .active →
    ∃! c, c ∈ s.db.claims ∧ c.state = .active ∧ c.pinId = some p.id
  unshared : ∀ c ∈ s.db.claims, ∀ d ∈ s.db.claims, ∀ n, c.pinId = some n → d.pinId = some n →
    c = d
  dormant : ∀ c ∈ s.db.claims, c.state = .dormant → c.pinId = none
  timed : ∀ c ∈ s.db.claims, c.state = .active → c.claimId ∉ s.untimed →
    c.expiryTs = c.startTs + c.paidHours * 3600000

theorem corresponds_of_lockstep {s : Ledger} (h : Lockstep s.db) (ht : Timed s.untimed s.db) :
    Corresponds s where
  active_iff := by
    intro c hc
    constructor
    · exact h.pin_of_active hc
    · rintro ⟨p, hp, hn, ha, _⟩
      exact (h.status c hc p hp hn).mp ha
  funded_once := by
    intro p hp ha
    obtain ⟨c, hc, hn, hca, _⟩ := h.claim_of_active hp ha
    refine ⟨c, ⟨hc, hca, hn⟩, ?_⟩
    rintro d ⟨hd, _, hdn⟩
    exact h.unshared d hd c hc p.id hdn hn
  unshared := h.unshared
  dormant := h.dormant
  timed := by
    intro c hc ha hid
    exact ht c hc ha hid

namespace Timed

variable {untimed : List Nat} {db after : Db}

theorem congr (h : Timed untimed db) (hc : after.claims = db.claims) : Timed untimed after := by
  unfold Timed
  rw [hc]
  exact h

theorem mono (h : Timed untimed db) {untimed' : List Nat} (hsub : ∀ n ∈ untimed, n ∈ untimed') :
    Timed untimed' db := fun c hc ha hid => h c hc ha (fun hm => hid (hsub _ hm))

/-- Closing claims leaves the rows that stay active unchanged. -/
theorem closing (h : Timed untimed db) {state : ClaimState} {select : Claim → Bool}
    (hactive : state ≠ .active)
    (hclaims : ∀ c, c ∈ after.claims ↔ ∃ d ∈ db.claims, c = closedClaim state select d) :
    Timed untimed after := by
  intro c hc ha hid
  obtain ⟨d, hd, rfl⟩ := (hclaims c).mp hc
  obtain ⟨hda, hsel⟩ := (closedClaim_state hactive).mp ha
  rw [closedClaim_of_skip hsel] at hid ⊢
  exact h d hd hda hid

theorem promotion (h : Timed untimed db) {t : Int} {g : Claim} {cid : Cid}
    (hg : DormantGuardian db cid g) : Timed untimed (promote db t g) := by
  intro c hc ha hid
  rcases (claims_promote_cases hg).mp hc with ⟨hold, _⟩ | rfl
  · exact h c hold ha hid
  · rfl

theorem reconcileAll (h : Timed untimed db) (t : Int) (cids : List Cid) :
    Timed untimed (Quota.reconcileAll db t cids).2 :=
  reconcileAll_preserves (Timed untimed) t (fun _ _ _ hdb _ hg _ => hdb.promotion hg) cids db h

/-- A new claim is dormant, or timed, or listed as untimed. -/
theorem creating (h : Timed untimed db) {c : Claim} {untimed' : List Nat}
    (hsub : ∀ n ∈ untimed, n ∈ untimed')
    (hclaims : ∀ d, d ∈ after.claims ↔ d ∈ db.claims ∨ d = c)
    (hnew : c.state = .active → c.claimId ∉ untimed' →
      c.expiryTs = c.startTs + c.paidHours * Pricing.hourMs) : Timed untimed' after := by
  intro d hd ha hid
  rcases (hclaims d).mp hd with hd | rfl
  · exact h d hd ha (fun hm => hid (hsub _ hm))
  · exact hnew ha hid

theorem extending (h : Timed untimed db) {claimId : Nat} {owner : Account} {extraHours : Int}
    {r : Claim} (hrun : Quota.extendClaim db claimId owner extraHours = .ok (r, after)) :
    Timed untimed after := by
  obtain ⟨claim, hm, hid, _, hact, hclaims, _⟩ := extendClaim_ok hrun
  intro c hc ha hnot
  obtain ⟨d, hd, rfl⟩ := (hclaims c).mp hc
  rw [extendedClaim_claimId] at hnot
  rw [extendedClaim_state] at ha
  have hold := h d hd ha hnot
  by_cases hd' : d.claimId = claimId
  · have hdc : d = claim := Table.eq_of_key hd hm (hd'.trans hid.symm)
    subst hdc
    rw [extendedClaim, if_pos hd']
    simp only [hold, Pricing.hourMs]
    ring
  · rw [extendedClaim, if_neg hd']
    exact hold

theorem retire (h : Timed untimed db) (t : Int) (claim : Claim) (reason : String) :
    Timed untimed (Quota.retire db t claim reason).2 := by
  have hended : Timed untimed (endClaim db t claim reason) :=
    h.closing (by decide) (fun _ => mem_closeClaims)
  rw [retire_eq]
  exact hended.reconcileAll t _

theorem cancelClaim (h : Timed untimed db) {t : Int} {claimId : Nat} {owner : Option Account}
    {asAdmin : Bool} {e : Ended}
    (hrun : Quota.cancelClaim db t claimId owner asAdmin = .ok (e, after)) :
    Timed untimed after := by
  rcases (cancelClaim_ok hrun).2 with ⟨_, _, rfl⟩ | ⟨_, _, rfl⟩
  · exact h.closing (by decide) (fun _ => mem_closeClaims)
  · exact h.retire t e.claim _

theorem sweep (h : Timed untimed db) (t : Int) : Timed untimed (Quota.sweep db t).2 := by
  have hclosed : Timed untimed (expireOverdue (expireReservations db t) t) :=
    h.closing (by decide) (fun _ => mem_closeClaims)
  exact hclosed.reconcileAll t _

theorem banTransaction (h : Timed untimed db) (t : Int) (account : Account) (reason : String)
    (policy : RefundPolicy) (admin : String) :
    Timed untimed (Moderation.banTransaction db t account reason policy admin).2 := by
  have hvoid : Timed untimed (voidAccount db t account reason policy admin) :=
    h.closing (by decide) (fun _ => mem_closeClaims)
  exact (hvoid.reconcileAll t _).congr rfl

end Timed

theorem timed_apply {cfg : Config} {s : Ledger} {t : Int} {op : LedgerOp}
    (h : Timed s.untimed s.db) (hu : op.isUntimed = false) :
    Timed s.untimed (op.apply cfg s.db t) := by
  cases op with
  | upload u =>
    refine h.creating (fun _ hn => hn) (fun _ => mem_createOrderWithClaim) ?_
    intro _ _
    change u.expiryTs = u.startTs + _
    rw [Upload.expiryTs, if_neg (by simpa [LedgerOp.isUntimed] using hu)]
    rfl
  | ownCopy n =>
    refine committed_ind h (fun r after hok => ?_)
    obtain ⟨info, _, _, rfl⟩ := createOwnCopyClaim_ok hok
    refine h.creating (fun _ hn => hn) (fun _ => mem_createOrderWithClaim) ?_
    intro _ _
    change n.expiryTs t = t + n.paidHours * Pricing.hourMs
    have hnone : n.expiryOverride = none := by simpa [LedgerOp.isUntimed] using hu
    rw [OwnCopyRequest.expiryTs, hnone]
    rfl
  | pledge g =>
    exact h.creating (fun _ hn => hn) (fun _ => mem_createOrderWithClaim)
      (fun ha _ => ClaimState.noConfusion ha)
  | extend claimId owner extraHours => exact committed_ind h (fun _ _ hok => h.extending hok)
  | cancel claimId owner asAdmin => exact committed_ind h (fun _ _ hok => h.cancelClaim hok)
  | release claimId =>
    refine committed_ind h (fun e after hok => ?_)
    obtain ⟨_, _, _, rfl⟩ := endActiveClaimForRelease_ok hok
    exact h.retire t e.claim _
  | removePin cid uploader => exact h.congr rfl
  | ban hiveAccount reason policy admin =>
    refine committed_ind h (fun b after hok => ?_)
    obtain ⟨p, rfl⟩ := banAccount_ok hok
    exact h.banTransaction t _ reason p admin
  | takedown cid reason policy admin =>
    refine committed_ind h (fun d after hok => ?_)
    obtain ⟨p, rfl⟩ := takedownCid_ok hok
    exact h.closing (by decide) (fun _ => mem_closeClaims)
  | sweep => exact h.sweep t

/-- The claim an untimed operation creates is the one the step lists. -/
theorem timed_untimed {cfg : Config} {s : Ledger} {t : Int} {op : LedgerOp}
    (h : Timed s.untimed s.db) (hu : op.isUntimed = true) :
    Timed (s.db.claims.next :: s.untimed) (op.apply cfg s.db t) := by
  have hsub : ∀ n ∈ s.untimed, n ∈ s.db.claims.next :: s.untimed :=
    fun _ hn => List.mem_cons_of_mem _ hn
  cases op with
  | upload u =>
    exact h.creating hsub (fun _ => mem_createOrderWithClaim)
      (fun _ hid => absurd List.mem_cons_self hid)
  | ownCopy n =>
    refine committed_ind (h.mono hsub) (fun r after hok => ?_)
    obtain ⟨info, _, _, rfl⟩ := createOwnCopyClaim_ok hok
    exact h.creating hsub (fun _ => mem_createOrderWithClaim)
      (fun _ hid => absurd List.mem_cons_self hid)
  | _ => cases hu

/-- An untimed operation that creates no claim changes nothing. -/
theorem timed_failed {cfg : Config} {s : Ledger} {t : Int} {op : LedgerOp}
    (h : Timed s.untimed s.db) (hu : op.isUntimed = true)
    (hnext : ¬ s.db.claims.next < (op.apply cfg s.db t).claims.next) :
    Timed s.untimed (op.apply cfg s.db t) := by
  cases op with
  | upload u => exact absurd (Nat.lt_succ_self _) hnext
  | ownCopy n =>
    cases hrun : createOwnCopyClaim s.db t n with
    | error e => simpa only [LedgerOp.apply, hrun, committed] using h
    | ok r =>
      obtain ⟨info, _, _, hafter⟩ := createOwnCopyClaim_ok hrun
      refine absurd ?_ hnext
      simp only [LedgerOp.apply, hrun, committed, hafter]
      exact Nat.lt_succ_self _
  | _ => cases hu

theorem step_preserves {cfg : Config} {s : Ledger} {t : Int} {op : LedgerOp}
    (h : Lockstep s.db) (ht : Timed s.untimed s.db) (ha : op.Admitted s) :
    Lockstep (op.step cfg s t).db ∧ Timed (op.step cfg s t).untimed (op.step cfg s t).db := by
  rw [LedgerOp.step, if_pos ha]
  by_cases hnew : op.isUntimed = true ∧ s.db.claims.next < (op.apply cfg s.db t).claims.next
  · rw [if_pos hnew]
    exact ⟨lockstep_apply h ha, timed_untimed ht hnew.1⟩
  · rw [if_neg hnew]
    refine ⟨lockstep_apply h ha, ?_⟩
    by_cases hu : op.isUntimed = true
    · exact timed_failed ht hu (fun hnext => hnew ⟨hu, hnext⟩)
    · exact timed_apply ht (Bool.not_eq_true _ ▸ hu)

/-- Claims and pins correspond after every run. -/
theorem run_corresponds (cfg : Config) (ops : List (Int × LedgerOp)) :
    Corresponds (run cfg ops) := by
  have hinv := run_induction cfg (fun s => Lockstep s.db ∧ Timed s.untimed s.db)
    ⟨Lockstep.empty, fun c hc => absurd hc (Table.not_mem_empty c)⟩ ?_ ops
  · exact corresponds_of_lockstep hinv.1 hinv.2
  · intro s t op h ha
    exact step_preserves h.1 h.2 ha

end IpfsGate.Correspondence
