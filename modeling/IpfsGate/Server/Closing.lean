import IpfsGate.Server.Durable
import IpfsGate.Server.Evolution

/-!
# Cancelled rows

A transaction that cancels a claim hands its row, as it was, to the handler, which refunds it
later. Whatever other requests write in between, the row on record stays that row, cancelled.
-/
namespace IpfsGate.Server

open Quota Moderation LedgerRun
open Lib (Table)

/-- The claim has been cancelled, and its row is as it was otherwise. -/
def CancelledAs (c : Claim) (db : Db) : Prop := { c with state := .cancelled } ∈ db.claims

/-- The claim is over, and its row is as it was otherwise. -/
def ClosedAs (c : Claim) (db : Db) : Prop :=
  ∃ state, state ≠ .active ∧ state ≠ .dormant ∧ { c with state } ∈ db.claims

section Rows

variable {c : Claim} {db after : Db} {t : Int}

/-- A promotion rewrites a dormant row only. -/
theorem promote_keeps {g : Claim} (hc : c ∈ db.claims) (hs : c.state ≠ .dormant) :
    c ∈ (promote db t g).claims := by
  refine mem_claims_promote.mpr ⟨c, hc, ?_⟩
  rw [if_neg]
  simp [hs]

theorem durable_closedAs (c : Claim) : Durable (ClosedAs c) where
  same := fun _ _ _ hclaims h => by
    obtain ⟨state, ha, hd, hc⟩ := h
    exact ⟨state, ha, hd, hclaims ▸ hc⟩
  endPins := fun _ _ _ _ _ _ h => h
  closeClaims := by
    rintro db state' select ha' hd' ⟨state, ha, hd, hc⟩
    by_cases hsel : select { c with state } = true
    · exact ⟨state', ha', hd', mem_closeClaims.mpr ⟨_, hc, by rw [closedClaim, if_pos hsel]⟩⟩
    · exact ⟨state, ha, hd, mem_closeClaims.mpr ⟨_, hc, by rw [closedClaim, if_neg hsel]⟩⟩
  promote := by
    rintro db t cid g _ ⟨state, ha, hd, hc⟩
    exact ⟨state, ha, hd, promote_keeps hc hd⟩
  extend := by
    rintro db claimId owner extraHours r after hrun ⟨state, ha, hd, hc⟩
    obtain ⟨claim, hclaim, hid, _, hactive, hclaims, _⟩ := extendClaim_ok hrun
    refine ⟨state, ha, hd, (hclaims _).mpr ⟨_, hc, ?_⟩⟩
    rw [extendedClaim, if_neg]
    intro hsame
    have hrow : claim = { c with state } := Table.eq_of_key hclaim hc (hid.trans hsame.symm)
    rw [hrow] at hactive
    exact ha hactive

theorem ClosedAs.create (h : ClosedAs c db) (hclaims : after.claims = db.claims) (n : NewClaim) :
    ClosedAs c (createOrderWithClaim after t n).2 := by
  obtain ⟨state, ha, hd, hc⟩ := h
  exact ⟨state, ha, hd, mem_createOrderWithClaim.mpr (Or.inl (hclaims ▸ hc))⟩

theorem closedAs_sem (cfg : Config) (s : Stmt) {w : World} (h : ClosedAs c w.db) :
    ClosedAs c (s.sem cfg w).2.db :=
  ((durable_closedAs c).at w.now).sem_creating (fun _ _ _ => h.create rfl _)
    (fun _ _ _ _ _ => h.create rfl _) (fun _ _ => h.create rfl _) h

/-- A cancelled claim is on record as cancelled for its owner. -/
theorem CancelledAs.cancelledFor (h : CancelledAs c db) : CancelledFor db c.claimId c.owner :=
  ⟨_, h, rfl, rfl, rfl⟩

/-- What is over and was cancelled is cancelled. -/
theorem CancelledAs.of_closed (h : ClosedAs c db) {owner : Account}
    (hc : CancelledFor db c.claimId owner) : CancelledAs c db := by
  obtain ⟨state, _, _, hrow⟩ := h
  obtain ⟨d, hd, hid, _, hstate⟩ := hc
  obtain rfl : d = { c with state } := Table.eq_of_key hd hrow hid
  obtain rfl : state = .cancelled := hstate
  exact hrow

/-- A cancelled row stays. -/
theorem cancelledAs_sem (cfg : Config) {s : Stmt} {w : World} (hs : s.Checked w)
    (h : CancelledAs c w.db) : CancelledAs c (s.sem cfg w).2.db := by
  have hclosed : ClosedAs c w.db :=
    ⟨.cancelled, ClaimState.noConfusion, ClaimState.noConfusion, h⟩
  exact .of_closed (closedAs_sem cfg s hclosed) (h.cancelledFor.mono (retains_sem cfg hs))

/-! ## The transactions that cancel -/

theorem cancelledAs_closeClaims {select : Claim → Bool} (hc : c ∈ db.claims)
    (hsel : select c = true) : CancelledAs c (closeClaims db .cancelled select) :=
  mem_closeClaims.mpr ⟨c, hc, by rw [closedClaim, if_pos hsel]⟩

theorem CancelledAs.reconcileAll (cids : List Cid) (h : CancelledAs c db) :
    CancelledAs c (Quota.reconcileAll db t cids).2 :=
  reconcileAll_preserves (CancelledAs c) t
    (fun _ _ _ h _ _ _ => promote_keeps h ClaimState.noConfusion) cids db h

theorem cancelledAs_retire (hc : c ∈ db.claims) (ha : c.state = .active) (reason : String) :
    CancelledAs c (retire db t c reason).2 := by
  rw [retire_eq]
  refine CancelledAs.reconcileAll _ ?_
  exact cancelledAs_closeClaims hc (by simp [ha])

theorem cancelledAs_cancelClaim {claimId : Nat} {owner : Option Account} {asAdmin : Bool}
    {e : Ended} (hrun : cancelClaim db t claimId owner asAdmin = .ok (e, after)) :
    CancelledAs e.claim after := by
  obtain ⟨⟨hc, hid, _⟩, ⟨hdormant, _, rfl⟩ | ⟨hactive, _, rfl⟩⟩ := cancelClaim_ok hrun
  · exact cancelledAs_closeClaims hc (by simp [hid, hdormant])
  · exact cancelledAs_retire hc hactive _

theorem cancelledAs_endActiveClaimForRelease {claimId : Nat} {e : Ended}
    (hrun : endActiveClaimForRelease db t claimId = .ok (e, after)) :
    CancelledAs e.claim after := by
  obtain ⟨⟨hc, _⟩, hactive, _, rfl⟩ := endActiveClaimForRelease_ok hrun
  exact cancelledAs_retire hc hactive _

theorem cancelledAs_banAccount {cfg : Config} {hiveAccount reason : String}
    {policy : Option RefundPolicy} {admin : String} {b : Banned}
    (hrun : banAccount cfg db t hiveAccount reason policy admin = .ok (b, after)) :
    ∀ c ∈ b.voidedClaims, CancelledAs c after := by
  obtain ⟨p, _, heq⟩ := banAccount_result hrun
  obtain ⟨rfl, rfl⟩ := Prod.mk.inj heq
  intro c hc
  obtain ⟨hmem, hown⟩ := Table.mem_filter.mp hc
  have hvoid : CancelledAs c (voidAccount db t (cfg.toLowerCase hiveAccount) reason p admin) :=
    cancelledAs_closeClaims hmem hown
  exact hvoid.reconcileAll _

theorem cancelledAs_takedownCid {cfg : Config} {cid reason : String}
    {policy : Option RefundPolicy} {admin : String} {d : TakenDown}
    (hrun : takedownCid cfg db t cid reason policy admin = .ok (d, after)) :
    ∀ c ∈ d.voidedClaims, CancelledAs c after := by
  obtain ⟨rfl, rfl⟩ := Prod.mk.inj (takedownCid_result hrun)
  intro c hc
  obtain ⟨hmem, hon⟩ := Table.mem_filter.mp hc
  have hsel : isHostedOn cid c = true := hon
  exact cancelledAs_closeClaims hmem hsel

end Rows

end IpfsGate.Server
