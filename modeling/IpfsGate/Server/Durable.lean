import IpfsGate.Server.Ledger

/-!
# What the rows keep

The ledger operations are made of a few writes: end pins, close claims, promote a guardian, put
an extension on a claim, add rows. A property that these writes keep is kept by every operation
and by every statement.
-/
namespace IpfsGate.Server

open Quota Moderation LedgerRun
open Lib (Table)

/-- A property of the rows that the writes to existing rows and a promotion keep. -/
structure Durable (P : Db → Prop) : Prop where
  same : ∀ a b : Db, b.pins = a.pins → b.claims = a.claims → P a → P b
  endPins : ∀ db t status reason select, status ≠ .active → P db →
    P (Quota.endPins db t status reason select)
  closeClaims : ∀ db state select, state ≠ .active → state ≠ .dormant → P db →
    P (Quota.closeClaims db state select)
  promote : ∀ db t cid g, DormantGuardian db cid g → P db → P (Quota.promote db t g)
  extend : ∀ db claimId owner extraHours c after,
    Quota.extendClaim db claimId owner extraHours = .ok (c, after) → P db → P after

/-- A property that the writes of a transaction keep whose clock reading is `t`. -/
structure DurableAt (t : Int) (P : Db → Prop) : Prop where
  same : ∀ a b : Db, b.pins = a.pins → b.claims = a.claims → P a → P b
  endPins : ∀ db status reason select, status ≠ .active → P db →
    P (Quota.endPins db t status reason select)
  closeClaims : ∀ db state select, state ≠ .active → state ≠ .dormant → P db →
    P (Quota.closeClaims db state select)
  promote : ∀ db cid g, DormantGuardian db cid g → P db → P (Quota.promote db t g)
  extend : ∀ db claimId owner extraHours c after,
    Quota.extendClaim db claimId owner extraHours = .ok (c, after) → P db → P after

/-- What the writes other than an extension keep, in a transaction whose clock reading is `t`. -/
structure Enduring (t : Int) (P : Db → Prop) : Prop where
  same : ∀ a b : Db, b.pins = a.pins → b.claims = a.claims → P a → P b
  endPins : ∀ db status reason select, status ≠ .active → P db →
    P (Quota.endPins db t status reason select)
  closeClaims : ∀ db state select, state ≠ .active → state ≠ .dormant → P db →
    P (Quota.closeClaims db state select)
  promote : ∀ db cid g, DormantGuardian db cid g → P db → P (Quota.promote db t g)

theorem DurableAt.enduring {t : Int} {P : Db → Prop} (hP : DurableAt t P) : Enduring t P :=
  ⟨hP.same, hP.endPins, hP.closeClaims, hP.promote⟩

theorem Durable.at {P : Db → Prop} (hP : Durable P) (t : Int) : DurableAt t P :=
  ⟨hP.same, fun db => hP.endPins db t, hP.closeClaims, fun db => hP.promote db t, hP.extend⟩

/-- The statements that create a claim. -/
def Stmt.creates : Stmt → Bool
  | .finaliseUpload .. | .createOwnCopyClaim _ | .pledge _ => true
  | _ => false

namespace Enduring

variable {P : Db → Prop} {cfg : Config} {db : Db} {t : Int}

theorem reconcileAll (hP : Enduring t P) (cids : List Cid) (h : P db) :
    P (Quota.reconcileAll db t cids).2 :=
  reconcileAll_preserves P t (fun db cid g hdb _ hg _ => hP.promote db cid g hg hdb) cids db h

theorem endClaim (hP : Enduring t P) (claim : Claim) (reason : String) (h : P db) :
    P (Quota.endClaim db t claim reason) :=
  hP.endPins _ _ _ _ PinStatus.noConfusion
    (hP.closeClaims _ _ _ ClaimState.noConfusion ClaimState.noConfusion h)

theorem retire (hP : Enduring t P) (claim : Claim) (reason : String) (h : P db) :
    P (Quota.retire db t claim reason).2 := by
  rw [retire_eq]
  exact hP.reconcileAll _ (hP.endClaim claim reason h)

theorem expireOverdue (hP : Enduring t P) (h : P db) : P (Quota.expireOverdue db t) := by
  unfold Quota.expireOverdue
  refine hP.endPins _ _ _ _ PinStatus.noConfusion ?_
  refine hP.endPins _ _ _ _ PinStatus.noConfusion ?_
  exact hP.closeClaims _ _ _ ClaimState.noConfusion ClaimState.noConfusion h

theorem cancelClaim (hP : Enduring t P) {claimId : Nat} {owner : Option Account} {asAdmin : Bool}
    {e : Ended} {after : Db} (hrun : Quota.cancelClaim db t claimId owner asAdmin = .ok (e, after))
    (h : P db) : P after := by
  obtain ⟨_, hcases⟩ := cancelClaim_ok hrun
  rcases hcases with ⟨_, _, rfl⟩ | ⟨_, _, rfl⟩
  · exact hP.closeClaims _ _ _ ClaimState.noConfusion ClaimState.noConfusion h
  · exact hP.retire _ _ h

theorem banTransaction (hP : Enduring t P) (account : Account) (reason : String)
    (policy : RefundPolicy) (admin : String) (h : P db) :
    P (Moderation.banTransaction db t account reason policy admin).2 := by
  have hvoid : P (voidAccount db t account reason policy admin) :=
    hP.endPins _ _ _ _ PinStatus.noConfusion
      (hP.closeClaims _ _ _ ClaimState.noConfusion ClaimState.noConfusion (hP.same db _ rfl rfl h))
  refine hP.same (Quota.reconcileAll _ t ((((db.claims.filter (isOwnedBy account)).filter
    (fun c => c.state = .active)).map Claim.cid).eraseDups)).2 _ rfl rfl ?_
  exact hP.reconcileAll _ hvoid

theorem takedownTransaction (hP : Enduring t P) (cid : Cid) (reason : String)
    (policy : RefundPolicy) (admin : String) (h : P db) :
    P (Moderation.takedownTransaction db t cid reason policy admin).2 := by
  have hvoid : P (voidCid db t cid reason admin) :=
    hP.endPins _ _ _ _ PinStatus.noConfusion
      (hP.closeClaims _ _ _ ClaimState.noConfusion ClaimState.noConfusion (hP.same db _ rfl rfl h))
  exact hP.same (voidCid db t cid reason admin) _ rfl rfl hvoid

theorem takedown (hP : Enduring t P) (cid reason : String) (policy : Option RefundPolicy)
    (admin : String) (h : P db) :
    P ((LedgerOp.takedown cid reason policy admin).apply cfg db t) := by
  refine committed_ind h (fun _ _ hok => ?_)
  obtain ⟨p, rfl⟩ := takedownCid_ok hok
  exact hP.takedownTransaction _ _ _ _ h

theorem sweep (hP : Enduring t P) (h : P db) : P (Quota.sweep db t).2 :=
  hP.reconcileAll _ (hP.expireOverdue (hP.same db (expireReservations db t) rfl rfl h))

/-- A statement that neither creates nor extends a claim keeps such a property. -/
theorem sem {w : World} (hP : Enduring w.now P) {s : Stmt} (hs : s.creates = false)
    (hx : ∀ claimId owner extraHours, s ≠ .extendClaim claimId owner extraHours)
    (h : P w.db) : P (s.sem cfg w).2.db := by
  refine sem_keeps cfg (fun a b hab => hP.same a b hab.pins hab.claims) (fun op hop hw => ?_)
    (fun _ cid reason policy admin => hP.takedown cid reason policy admin) h
  cases s <;> cases hop
  case finaliseUpload => cases hs
  case createOwnCopyClaim => cases hs
  case pledge => cases hs
  case extendClaim claimId owner extraHours => exact absurd rfl (hx claimId owner extraHours)
  case cancelClaim => exact committed_ind hw (fun _ _ hrun => hP.cancelClaim hrun hw)
  case endActiveClaimForRelease =>
    refine committed_ind hw (fun _ _ hrun => ?_)
    obtain ⟨_, _, _, rfl⟩ := endActiveClaimForRelease_ok hrun
    exact hP.retire _ _ hw
  case removePinForUploader => exact hP.endPins _ _ _ _ PinStatus.noConfusion hw
  case banAccount =>
    refine committed_ind hw (fun _ _ hok => ?_)
    obtain ⟨p, rfl⟩ := banAccount_ok hok
    exact hP.banTransaction _ _ _ _ hw
  case takedownCid => exact hP.takedown _ _ _ _ hw
  case sweep => exact hP.sweep hw

end Enduring

namespace DurableAt

variable {P : Db → Prop} {cfg : Config}

/-- A statement that creates no claim keeps a durable property. -/
theorem sem {w : World} (hP : DurableAt w.now P) {s : Stmt} (hs : s.creates = false)
    (h : P w.db) : P (s.sem cfg w).2.db := by
  by_cases hx : ∃ claimId owner extraHours, s = .extendClaim claimId owner extraHours
  · obtain ⟨claimId, owner, extraHours, rfl⟩ := hx
    exact fallible_ind h (fun c after hrun => hP.extend _ _ _ _ c after hrun h)
  · exact hP.enduring.sem hs (fun claimId owner extraHours he =>
      hx ⟨claimId, owner, extraHours, he⟩) h

/-- A statement that creates a claim adds its row, after the row of its pin if it has one. -/
theorem sem_creating {w : World} (hP : DurableAt w.now P) {s : Stmt}
    (hupload : ∀ id u, s = .finaliseUpload id u →
      P (createOrderWithClaim (insertPin w.db w.now u.pin) w.now
        (u.claim (alreadyHostedForCid w.db u.cid).isSome w.db.pins.next)).2)
    (hcopy : ∀ n info, s = .createOwnCopyClaim n → getLatestPinInfoForCid w.db n.cid = some info →
      (∃ p, ActivePin w.db n.cid p) →
      P (createOrderWithClaim (insertPin w.db w.now (n.pin w.now info)) w.now
        (n.claim w.now info w.db.pins.next)).2)
    (hpledge : ∀ g, s = .pledge g → P (createOrderWithClaim w.db w.now (g.claim w.now)).2)
    (h : P w.db) : P (s.sem cfg w).2.db := by
  cases s with
  | finaliseUpload id u =>
    exact hP.same (LedgerRun.finaliseUpload w.db w.now u).2 _ rfl rfl (hupload id u rfl)
  | createOwnCopyClaim n =>
    refine fallible_ind h (fun _ _ hrun => ?_)
    obtain ⟨info, hinfo, hactive, rfl⟩ := createOwnCopyClaim_ok hrun
    exact hcopy n info rfl hinfo hactive
  | pledge g => exact hpledge g rfl
  | _ => exact hP.sem rfl h

end DurableAt

/-- No guardian waits. -/
def Unguarded (db : Db) : Prop := ∀ c ∈ db.claims, c.state ≠ .dormant

/-- Where no guardian waits, nothing is promoted. -/
theorem durable_of_unguarded {P : Db → Prop}
    (hsame : ∀ a b : Db, b.pins = a.pins → b.claims = a.claims → P a → P b)
    (hend : ∀ db t status reason select, status ≠ .active → P db →
      P (Quota.endPins db t status reason select))
    (hclose : ∀ db state select, state ≠ .active → state ≠ .dormant → P db →
      P (Quota.closeClaims db state select))
    (hextend : ∀ db claimId owner extraHours c after,
      Quota.extendClaim db claimId owner extraHours = .ok (c, after) → P db → P after) :
    Durable (fun db => P db ∧ Unguarded db) where
  same := fun a b hp hc h => ⟨hsame a b hp hc h.1, fun c hcb => h.2 c (hc ▸ hcb)⟩
  endPins := fun db t status reason select hs h => ⟨hend db t status reason select hs h.1, h.2⟩
  closeClaims := by
    intro db state select hact hdorm h
    refine ⟨hclose db state select hact hdorm h.1, fun c hc => ?_⟩
    obtain ⟨d, hd, rfl⟩ := mem_closeClaims.mp hc
    unfold closedClaim
    split
    · exact hdorm
    · exact h.2 d hd
  promote := fun _ _ _ g hg h => absurd hg.dormant (h.2 g hg.mem)
  extend := by
    intro db claimId owner extraHours c after hrun h
    refine ⟨hextend db claimId owner extraHours c after hrun h.1, fun e he => ?_⟩
    obtain ⟨claim, _, _, _, _, hclaims, _⟩ := extendClaim_ok hrun
    obtain ⟨d, hd, rfl⟩ := (hclaims e).mp he
    have hstate : (extendedClaim claimId (claim.paidHours + extraHours)
        (claim.expiryTs + extraHours * Pricing.hourMs) d).state = d.state := by
      unfold extendedClaim
      split <;> rfl
    rw [hstate]
    exact h.2 d hd

end IpfsGate.Server
