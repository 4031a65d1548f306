import IpfsGate.LedgerRun

/-!
# Which claims a transaction cancels

Claims rows are never deleted and never change hands. `Voids` lists the open claims that a
transaction cancels; it cancels no others and reopens none. Along the way every pin and claim
keeps a positive size, so that a claim can always be priced.
-/
namespace IpfsGate.Quota

open Moderation LedgerRun
open Lib (Table)

/-- Every pin and every claim is of a file that is not empty. -/
structure Sized (db : Db) : Prop where
  pins : ∀ p ∈ db.pins, 0 < p.sizeBytes
  claims : ∀ c ∈ db.claims, 0 < c.sizeBytes

theorem Sized.empty : Sized Db.empty :=
  ⟨fun p hp => absurd hp (Table.not_mem_empty p), fun c hc => absurd hc (Table.not_mem_empty c)⟩

structure Voids (before after : Db) (voided : List Claim) : Prop where
  kept : ∀ c ∈ before.claims, ∃ d ∈ after.claims, d.claimId = c.claimId ∧ d.owner = c.owner ∧
    (d.state = .cancelled ↔ c.state = .cancelled ∨ c ∈ voided)
  opened : ∀ c ∈ voided, c ∈ before.claims ∧ isOpen c = true
  nodup : voided.Nodup
  sized : Sized before → Sized after

namespace Voids

variable {db mid after : Db} {t : Int} {V : List Claim}

/-- Nothing is cancelled and nothing is rewritten. -/
theorem of_eq (hpins : after.pins = db.pins) (hclaims : after.claims = db.claims) :
    Voids db after [] where
  kept := fun c hc => ⟨c, hclaims ▸ hc, rfl, rfl, by simp⟩
  opened := fun c hc => absurd hc List.not_mem_nil
  nodup := List.nodup_nil
  sized := fun h => ⟨hpins ▸ h.pins, hclaims ▸ h.claims⟩

/-- Followed by a step that cancels nothing. -/
theorem trans (h : Voids db mid V) (hquiet : Voids mid after []) : Voids db after V where
  kept := by
    intro c hc
    obtain ⟨d, hd, hid, hown, hst⟩ := h.kept c hc
    obtain ⟨e, he, hid', hown', hst'⟩ := hquiet.kept d hd
    refine ⟨e, he, hid'.trans hid, hown'.trans hown, ?_⟩
    rw [hst', ← hst]
    simp
  opened := h.opened
  nodup := h.nodup
  sized := fun hs => hquiet.sized (h.sized hs)

/-- Cancelling a selection of open claims. -/
theorem closing {select : Claim → Bool}
    (hclaims : ∀ c, c ∈ after.claims ↔ ∃ d ∈ db.claims, c = closedClaim .cancelled select d)
    (hpins : ∀ p ∈ after.pins, ∃ q ∈ db.pins, p.sizeBytes = q.sizeBytes)
    (hV : ∀ c, c ∈ V ↔ c ∈ db.claims ∧ select c = true)
    (hopen : ∀ c ∈ db.claims, select c = true → isOpen c = true) (hnodup : V.Nodup) :
    Voids db after V where
  kept := by
    intro c hc
    refine ⟨_, (hclaims _).mpr ⟨c, hc, rfl⟩, closedClaim_claimId, closedClaim_owner, ?_⟩
    rw [closedClaim_state_eq, hV]
    simp [hc]
  opened := fun c hc => ⟨((hV c).mp hc).1, hopen c ((hV c).mp hc).1 ((hV c).mp hc).2⟩
  nodup := hnodup
  sized := by
    intro hs
    constructor
    · intro p hp
      obtain ⟨q, hq, hsize⟩ := hpins p hp
      rw [hsize]
      exact hs.pins q hq
    · intro c hc
      obtain ⟨d, hd, rfl⟩ := (hclaims c).mp hc
      rw [closedClaim_sizeBytes]
      exact hs.claims d hd

theorem leftPin_from {status : PinStatus} {reason : Pin → Option String} {select : Pin → Bool}
    (hpins : ∀ p, p ∈ after.pins ↔ ∃ q ∈ db.pins, p = leftPin t status reason select q) :
    ∀ p ∈ after.pins, ∃ q ∈ db.pins, p.sizeBytes = q.sizeBytes := by
  intro p hp
  obtain ⟨q, hq, rfl⟩ := (hpins p).mp hp
  exact ⟨q, hq, leftPin_sizeBytes⟩

/-- Rewriting rows without touching owner, size or a cancelled state. -/
theorem rewriting {f : Claim → Claim} (hid : ∀ c, (f c).claimId = c.claimId)
    (howner : ∀ c, (f c).owner = c.owner) (hsize : ∀ c, (f c).sizeBytes = c.sizeBytes)
    (hstate : ∀ c ∈ db.claims, (f c).state = .cancelled ↔ c.state = .cancelled)
    (hclaims : ∀ c, c ∈ after.claims ↔ ∃ d ∈ db.claims, c = f d)
    (hpins : Sized db → ∀ p ∈ after.pins, 0 < p.sizeBytes) : Voids db after [] where
  kept := by
    intro c hc
    refine ⟨f c, (hclaims _).mpr ⟨c, hc, rfl⟩, hid c, howner c, ?_⟩
    rw [hstate c hc]
    simp
  opened := fun c hc => absurd hc List.not_mem_nil
  nodup := List.nodup_nil
  sized := by
    intro hs
    refine ⟨hpins hs, fun c hc => ?_⟩
    obtain ⟨d, hd, rfl⟩ := (hclaims c).mp hc
    rw [hsize]
    exact hs.claims d hd

theorem endPins {status : PinStatus} {reason : Pin → Option String} {select : Pin → Bool} :
    Voids db (Quota.endPins db t status reason select) [] := by
  refine rewriting (f := id) (fun _ => rfl) (fun _ => rfl) (fun _ => rfl) (fun _ _ => Iff.rfl)
    ?_ ?_
  · intro c
    simp only [id, exists_eq_right']
    rfl
  · intro hs p hp
    obtain ⟨q, hq, rfl⟩ := mem_endPins.mp hp
    rw [leftPin_sizeBytes]
    exact hs.pins q hq

theorem insertPin {p : NewPin} (hsize : Sized db → 0 < p.sizeBytes) :
    Voids db (Quota.insertPin db t p) [] where
  kept := fun c hc => ⟨c, hc, rfl, rfl, by simp⟩
  opened := fun c hc => absurd hc List.not_mem_nil
  nodup := List.nodup_nil
  sized := by
    intro hs
    refine ⟨fun q hq => ?_, hs.claims⟩
    rcases mem_insertPin.mp hq with hq | rfl
    · exact hs.pins q hq
    · exact hsize hs

theorem creating {n : NewClaim} (hsize : Sized db → 0 < n.sizeBytes) :
    Voids db (createOrderWithClaim db t n).2 [] where
  kept := fun c hc => ⟨c, mem_createOrderWithClaim.mpr (Or.inl hc), rfl, rfl, by simp⟩
  opened := fun c hc => absurd hc List.not_mem_nil
  nodup := List.nodup_nil
  sized := by
    intro hs
    refine ⟨hs.pins, fun c hc => ?_⟩
    rcases mem_createOrderWithClaim.mp hc with hc | rfl
    · exact hs.claims c hc
    · exact hsize hs

/-- A promotion cancels nothing; its pin has the size of an earlier pin or of the claim. -/
theorem promote {g : Claim} {cid : Cid} (hg : DormantGuardian db cid g) :
    Voids db (Quota.promote db t g) [] where
  kept := by
    intro c hc
    refine ⟨_, mem_claims_promote.mpr ⟨c, hc, rfl⟩, ?_⟩
    split
    · rename_i hsel
      simp only [Bool.and_eq_true, decide_eq_true_eq] at hsel
      exact ⟨rfl, rfl, by simp [promotedClaim, hsel.2]⟩
    · exact ⟨rfl, rfl, by simp⟩
  opened := fun c hc => absurd hc List.not_mem_nil
  nodup := List.nodup_nil
  sized := by
    intro hs
    constructor
    · intro p hp
      rcases mem_pins_promote.mp hp with hp | rfl
      · exact hs.pins p hp
      · cases hinfo : getLatestPinInfoForCid db g.cid with
        | none =>
          simp only [promotedPin, hinfo, NewPin.row, Option.getD_none]
          exact hs.claims g hg.mem
        | some info =>
          obtain ⟨p, hp, _, hsize⟩ := getLatestPinInfoForCid_mem hinfo
          simp only [promotedPin, hinfo, NewPin.row, Option.getD_some, hsize]
          exact hs.pins p hp
    · intro c hc
      obtain ⟨d, hd, rfl⟩ := mem_claims_promote.mp hc
      have hsize := hs.claims d hd
      split
      · exact hsize
      · exact hsize

theorem reconcileAll (h : Voids db mid V) (cids : List Cid) :
    Voids db (Quota.reconcileAll mid t cids).2 V :=
  reconcileAll_preserves (fun after => Voids db after V) t
    (fun _ _ _ hdb _ hg _ => hdb.trans (promote hg)) cids mid h

/-- The flip of one open claim. -/
theorem flip {claim : Claim} (hm : claim ∈ db.claims) (ho : isOpen claim = true)
    (hclaims : ∀ c, c ∈ after.claims ↔ ∃ d ∈ db.claims, c = closedClaim .cancelled
      (fun c => c.claimId = claim.claimId && (c.state = .active || c.state = .dormant)) d)
    (hpins : ∀ p ∈ after.pins, ∃ q ∈ db.pins, p.sizeBytes = q.sizeBytes) :
    Voids db after [claim] := by
  refine closing hclaims hpins ?_ ?_ (List.nodup_singleton _)
  · intro c
    rw [List.mem_singleton]
    constructor
    · rintro rfl
      simp only [isOpen] at ho
      exact ⟨hm, by simp [ho]⟩
    · rintro ⟨hc, hsel⟩
      simp only [Bool.and_eq_true, decide_eq_true_eq] at hsel
      exact Table.eq_of_key hc hm hsel.1
  · intro c _ hsel
    simp only [Bool.and_eq_true] at hsel
    exact hsel.2

theorem retire {claim : Claim} (hm : claim ∈ db.claims) (ha : claim.state = .active)
    (reason : String) : Voids db (Quota.retire db t claim reason).2 [claim] := by
  rw [retire_eq]
  have hend : Voids db (endClaim db t claim reason) [claim] :=
    flip hm (by simp [isOpen, ha]) (fun _ => mem_closeClaims) (leftPin_from (fun _ => mem_endPins))
  exact hend.reconcileAll _

/-! ## The transactions -/

theorem cancelClaim {claimId : Nat} {owner : Option Account} {asAdmin : Bool} {e : Ended}
    (hrun : Quota.cancelClaim db t claimId owner asAdmin = .ok (e, after)) :
    Voids db after [e.claim] := by
  obtain ⟨⟨hm, rfl, _⟩, hcases⟩ := cancelClaim_ok hrun
  rcases hcases with ⟨hdor, _, rfl⟩ | ⟨hact, _, rfl⟩
  · exact flip hm (by simp [isOpen, hdor]) (fun _ => mem_closeClaims) (fun p hp => ⟨p, hp, rfl⟩)
  · exact retire hm hact _

theorem endActiveClaimForRelease {claimId : Nat} {e : Ended}
    (hrun : Quota.endActiveClaimForRelease db t claimId = .ok (e, after)) :
    Voids db after [e.claim] := by
  obtain ⟨⟨hm, _⟩, hact, _, rfl⟩ := endActiveClaimForRelease_ok hrun
  exact retire hm hact _

theorem banTransaction (db : Db) (t : Int) (account : Account) (reason : String)
    (policy : RefundPolicy) (admin : String) :
    Voids db (Moderation.banTransaction db t account reason policy admin).2
      (Moderation.banTransaction db t account reason policy admin).1.voidedClaims := by
  have hvoid : Voids db (voidAccount db t account reason policy admin)
      (db.claims.filter (isOwnedBy account)) := by
    refine closing (fun _ => mem_closeClaims) (leftPin_from (fun _ => mem_endPins))
      (fun _ => Table.mem_filter) ?_ (db.claims.nodup.filter _)
    intro c _ hsel
    simp only [isOwnedBy, Bool.and_eq_true] at hsel
    exact hsel.2
  exact (hvoid.reconcileAll _).trans (of_eq rfl rfl)

theorem takedownTransaction (db : Db) (t : Int) (cid : Cid) (reason : String)
    (policy : RefundPolicy) (admin : String) :
    Voids db (Moderation.takedownTransaction db t cid reason policy admin).2
      (Moderation.takedownTransaction db t cid reason policy admin).1.voidedClaims := by
  refine closing (fun _ => mem_closeClaims) (leftPin_from (fun _ => mem_endPins))
    (fun _ => Table.mem_filter) ?_ (db.claims.nodup.filter _)
  intro c _ hsel
  simp only [isHostedOn, Bool.and_eq_true] at hsel
  exact hsel.2

theorem sweep (db : Db) (t : Int) : Voids db (Quota.sweep db t).2 [] := by
  have hclosed : Voids (expireReservations db t)
      (closeClaims (expireReservations db t) .expired (isOverdue t)) [] := by
    refine rewriting (fun _ => closedClaim_claimId) (fun _ => closedClaim_owner)
      (fun _ => closedClaim_sizeBytes) ?_ (fun _ => mem_closeClaims) (fun hs => hs.pins)
    intro c _
    rw [closedClaim_state (by decide)]
    refine ⟨And.left, fun hc => ⟨hc, ?_⟩⟩
    simp [isOverdue, hc]
  have hstart : Voids db (expireReservations db t) [] := of_eq rfl rfl
  have hend : Voids db (expireOverdue (expireReservations db t) t) [] :=
    ((hstart.trans hclosed).trans endPins).trans endPins
  exact hend.reconcileAll _

theorem extendClaim {claimId : Nat} {owner : Account} {extraHours : Int} {c : Claim}
    (hrun : Quota.extendClaim db claimId owner extraHours = .ok (c, after)) :
    Voids db after [] := by
  obtain ⟨claim, _, _, _, _, hclaims, hpins⟩ := extendClaim_ok hrun
  refine rewriting (fun _ => extendedClaim_claimId) (fun _ => extendedClaim_owner)
    (fun _ => extendedClaim_sizeBytes) (fun _ _ => by rw [extendedClaim_state]) hclaims ?_
  intro hs p hp
  obtain ⟨q, hq, rfl⟩ := (hpins p).mp hp
  rw [extendedPin_sizeBytes]
  exact hs.pins q hq

end Voids

end IpfsGate.Quota

namespace IpfsGate.LedgerRun

open Quota

/-- The operations that cancel claims. -/
def LedgerOp.cancels : LedgerOp → Bool
  | .cancel .. | .release _ | .ban .. | .takedown .. => true
  | _ => false

/-- The row an upload or a pledge writes is of a file that is not empty. -/
def LedgerOp.Nonempty : LedgerOp → Prop
  | .upload u => 0 < u.sizeBytes
  | .pledge g => 0 < g.sizeBytes
  | _ => True

/-- The other operations cancel nothing. -/
theorem voids_quiet (cfg : Config) (db : Db) (t : Int) {op : LedgerOp}
    (hop : op.cancels = false) (hsize : op.Nonempty) : Voids db (op.apply cfg db t) [] := by
  have hrefl : Voids db db [] := .of_eq rfl rfl
  cases op with
  | upload u =>
    have hpin : Voids db (insertPin db t u.pin) [] := .insertPin (fun _ => hsize)
    exact hpin.trans (.creating (fun _ => hsize))
  | ownCopy n =>
    refine committed_ind (P := fun after => Voids db after []) hrefl (fun _ _ hrun => ?_)
    obtain ⟨info, hinfo, _, rfl⟩ := createOwnCopyClaim_ok hrun
    obtain ⟨p, hp, _, hpsize⟩ := getLatestPinInfoForCid_mem hinfo
    have hsized : ∀ after : Db, p ∈ after.pins → Sized after → 0 < info.sizeBytes :=
      fun _ hmem hs => hpsize ▸ hs.pins p hmem
    have hpin : Voids db (insertPin db t (n.pin t info)) [] := .insertPin (hsized db hp)
    exact hpin.trans (.creating (hsized _ (mem_insertPin.mpr (Or.inl hp))))
  | pledge g => exact .creating (fun _ => hsize)
  | extend claimId owner extraHours =>
    exact committed_ind (P := fun after => Voids db after []) hrefl (fun _ _ => Voids.extendClaim)
  | removePin cid uploader => exact .endPins
  | sweep => exact .sweep db t
  | cancel claimId owner asAdmin => cases hop
  | release claimId => cases hop
  | ban hiveAccount reason policy admin => cases hop
  | takedown cid reason policy admin => cases hop

end IpfsGate.LedgerRun
