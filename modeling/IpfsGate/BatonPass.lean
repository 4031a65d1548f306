import IpfsGate.Reconcile

/-!
# The baton-pass law

A call that ends claims splits into an ending, which closes claims and ends pins, and a
reconcile loop over the CIDs whose pins ended. `Ends` says what an ending may do; the law
then follows from the one reconcile step that a CID gets.
-/
namespace IpfsGate.BatonPass

open Quota
open Lib (Table)

/-- The calls that end claims on request or by time. -/
inductive EndCall where
  | cancelClaim (claimId : Nat) (owner : Option Account) (asAdmin : Bool)
  | endActiveClaimForRelease (claimId : Nat)
  | sweep

def reported (e : Ended) : List Cid := if e.fullyUnpinned then [e.claim.cid] else []

/-- The CIDs a successful call reports for unpinning, and the database it leaves. -/
def EndCall.run (db : Db) (t : Int) : EndCall → Except Fault (List Cid × Db)
  | .cancelClaim claimId owner asAdmin =>
    (Quota.cancelClaim db t claimId owner asAdmin).map (fun r => (reported r.1, r.2))
  | .endActiveClaimForRelease claimId =>
    (Quota.endActiveClaimForRelease db t claimId).map (fun r => (reported r.1, r.2))
  | .sweep => .ok ((Quota.sweep db t).1.cidsToUnpin, (Quota.sweep db t).2)

/-- Each claim's pin, when set, is a pin of the claim's own CID. -/
def PinsOwnCid (db : Db) : Prop :=
  ∀ c ∈ db.claims, ∀ n ∈ c.pinId, ∃ p ∈ db.pins, p.id = n ∧ p.cid = c.cid

instance : DecidablePred PinsOwnCid := fun db => by unfold PinsOwnCid; infer_instance

/-- `p` is the one active pin of the CID; it is new, and its owner is the guardian `g`. -/
structure NewHost (before after : Db) (cid : Cid) (g : Claim) (p : Pin) : Prop where
  pin : ActivePin after cid p
  only : ∀ q, ActivePin after cid q → q = p
  fresh : ∀ q ∈ before.pins, q.id ≠ p.id
  linked : g.pinId = some p.id
  owned : p.uploader = g.owner
  guardian : g.kind = .guardian

structure BatonPassed (before after : Db) (unpins : List Cid) : Prop where
  unpinned : ∀ cid ∈ unpins,
    (∀ p, ¬ ActivePin after cid p) ∧ ∀ g, ¬ DormantGuardian after cid g
  succeeded : ∀ cid, (∃ p, ActivePin before cid p) →
    (∀ p, ActivePin before cid p → ∀ q ∈ after.pins, q.id = p.id → q.status ≠ .active) →
    (∃ g p, Promoted before after cid g ∧ NewHost before after cid g p) ∨ cid ∈ unpins
  alone : ∀ cid g, Promoted before after cid g →
    g.kind = .guardian ∧ ∀ q, ActivePin after cid q → g.pinId = some q.id
  once : ∀ cid g g', Promoted before after cid g → Promoted before after cid g' → g = g'

/-- What closing claims and ending pins may do, with the CIDs to reconcile afterwards. -/
structure Ends (before mid : Db) (cids : List Cid) : Prop extends Closes before mid where
  nodup : cids.Nodup
  next_eq : mid.pins.next = before.pins.next
  pin_from : ∀ p ∈ mid.pins, ∃ q ∈ before.pins, q.id = p.id ∧ q.cid = p.cid ∧
    (p.status = .active → p = q)
  pin_kept : ∀ p ∈ before.pins, p.status = .active → p.cid ∉ cids → p ∈ mid.pins

section Law

variable {before mid after : Db} {t : Int} {cids : List Cid} {cid : Cid} {U : Prop}

/-- After a promotion, the only active pin of the CID is the promoted one. -/
theorem only_promotedPin {a : Db} {g₀ : Claim} (hno : ∀ p, ¬ ActivePin a cid p)
    (hb : SameOn cid (promote a t g₀) after) {q : Pin} (hq : ActivePin after cid q) :
    q = promotedPin a t g₀ := by
  obtain ⟨hm, hc, ha⟩ := hb.activePin.mpr hq
  rcases mem_pins_promote.mp hm with hold | hnew
  · exact (hno q ⟨hold, hc, ha⟩).elim
  · exact hnew

theorem newHost_of_promote (he : Ends before mid cids) {a : Db} {g₀ : Claim}
    (hnext : mid.pins.next ≤ a.pins.next) (hno : ∀ p, ¬ ActivePin a cid p)
    (hg₀ : DormantGuardian a cid g₀) (hb : SameOn cid (promote a t g₀) after) :
    NewHost before after cid (promotedClaim a t g₀ g₀) (promotedPin a t g₀) where
  pin := hb.activePin.mp ⟨mem_pins_promote.mpr (Or.inr rfl), hg₀.cid_eq, rfl⟩
  only := fun q hq => only_promotedPin hno hb hq
  fresh := by
    intro q hq hid
    have hlt : q.id < before.pins.next := Table.key_lt_next hq
    have hnew : (promotedPin a t g₀).id = a.pins.next := rfl
    have heq := he.next_eq
    omega
  linked := rfl
  owned := rfl
  guardian := hg₀.guardian

theorem batonPassed_of_share {unpins : List Cid} (he : Ends before mid cids)
    (hs : ∀ cid, Share mid t cids cid (cid ∈ unpins) after) :
    BatonPassed before after unpins where
  unpinned := by
    intro cid hu
    cases hs cid with
    | skipped hn hsame hnu => exact absurd hu hnu
    | stepped a b r hin hma hnext hr hb hiff =>
      cases hr with
      | hosted p hp => exact absurd (hiff.mp hu) Bool.false_ne_true
      | dropped hno hq =>
        exact ⟨fun p hp => hno p (hb.activePin.mpr hp),
          fun g hg => hq g (hb.dormantGuardian.mpr hg)⟩
      | promoted g hno hg hfirst => exact absurd (hiff.mp hu) Bool.false_ne_true
  succeeded := by
    rintro cid ⟨p, hp⟩ hlost
    cases hs cid with
    | skipped hn hsame hnu =>
      have hmid := he.pin_kept p hp.mem hp.active (by rw [hp.cid_eq]; exact hn)
      exact absurd hp.active (hlost p hp p ((hsame.pins p hp.cid_eq).mp hmid) rfl)
    | stepped a b r hin hma hnext hr hb hiff =>
      cases hr with
      | hosted q hq =>
        have hafter := hb.activePin.mp hq
        have hqmid := hma.activePin.mpr hq
        obtain ⟨s, hs, _, _, heq⟩ := he.pin_from q hqmid.mem
        have hqs := heq hq.active
        subst hqs
        exact absurd hq.active (hlost q ⟨hs, hq.cid_eq, hq.active⟩ q hafter.mem rfl)
      | dropped hno hq => exact Or.inr (hiff.mpr rfl)
      | promoted g hno hg hfirst =>
        left
        have hmem := (hb.claims (promotedClaim a t g g) hg.cid_eq).mp (promoted_mem hg)
        refine ⟨promotedClaim a t g g, promotedPin a t g, ⟨hmem, hg.cid_eq, rfl, ?_⟩,
          newHost_of_promote he hnext hno hg hb⟩
        have hgmid := hma.dormantGuardian.mpr hg
        exact ⟨g, he.dormant_from g hgmid.mem hg.dormant, rfl, hg.dormant⟩
  alone := by
    intro cid g hg
    obtain ⟨a, g₀, _, hnext, hno, hg₀, _, hb, hall⟩ := promoted_inv he.toCloses (hs cid) hg
    rw [hall g hg]
    refine ⟨hg₀.guardian, ?_⟩
    intro q hq
    rw [only_promotedPin hno hb hq]
    rfl
  once := by
    intro cid g g' hg hg'
    obtain ⟨a, g₀, _, hnext, hno, hg₀, _, hb, hall⟩ := promoted_inv he.toCloses (hs cid) hg
    rw [hall g hg, hall g' hg']

end Law

/-! ## The endings of the three calls -/

/-- Cancelling a dormant guardian ends no pin, so nothing has to be reconciled. -/
theorem ends_dormantCancel (db : Db) (select : Claim → Bool) :
    Ends db (closeClaims db .cancelled select) [] where
  nodup := List.nodup_nil
  next_eq := rfl
  pin_from := fun p hp => ⟨p, hp, rfl, rfl, fun _ => rfl⟩
  pin_kept := fun p hp _ _ => hp
  toCloses := closes_of_closeClaims (by decide) (by decide) (fun _ => mem_closeClaims)

/-- Closing one active claim ends at most its own pin, which is on the claim's CID. -/
theorem ends_retire {db : Db} {t : Int} {claim : Claim} {reason : String} (hp : PinsOwnCid db)
    (hm : claim ∈ db.claims) : Ends db (endClaim db t claim reason) [claim.cid] where
  nodup := List.nodup_singleton _
  next_eq := rfl
  pin_from := fun p hpm => endPins_from (by decide) hpm
  pin_kept := by
    intro p hpm ha hcid
    refine endPins_keeps hpm ?_
    by_contra hsel
    simp only [Bool.not_eq_false, Bool.and_eq_true, decide_eq_true_eq] at hsel
    obtain ⟨q, hq, hid, hqc⟩ := hp claim hm p.id hsel.1
    have hpq : q = p := Table.eq_of_key hq hpm hid
    subst hpq
    exact hcid (List.mem_singleton.mpr hqc)
  toCloses := closes_of_closeClaims (by decide) (by decide) (fun _ => mem_closeClaims)

theorem mem_sweepCandidates {db : Db} {t : Int} {cid : Cid} :
    cid ∈ sweepCandidates db t ↔
      ∃ p ∈ db.pins, p.cid = cid ∧ p.status = .expired ∧ p.statusChangedAt = some t := by
  simp only [sweepCandidates, List.mem_eraseDups, List.mem_map, Table.mem_filter,
    Bool.and_eq_true, decide_eq_true_eq]
  constructor
  · rintro ⟨p, ⟨hp, hs, ht⟩, hc⟩
    exact ⟨p, hp, hc, hs, ht⟩
  · rintro ⟨p, hp, hc, hs, ht⟩
    exact ⟨p, ⟨hp, hs, ht⟩, hc⟩

/-- Every pin the sweep ends carries the sweep's clock reading, so the candidate query finds
its CID. -/
theorem ends_expireOverdue (before db : Db) (hpins : db.pins = before.pins)
    (hclaims : db.claims = before.claims) (t : Int) :
    Ends before (expireOverdue db t) (sweepCandidates (expireOverdue db t) t) where
  nodup := Lib.nodup_eraseDups _
  next_eq := by rw [← hpins]; rfl
  pin_from := by
    intro p hp
    rw [← hpins]
    obtain ⟨q, hq, hid, hc, hact⟩ := endPins_from (by decide) hp
    obtain ⟨s, hs, hid', hc', hact'⟩ := endPins_from (by decide) hq
    refine ⟨s, hs, hid'.trans hid, hc'.trans hc, ?_⟩
    intro ha
    have hpq := hact ha
    subst hpq
    exact hact' ha
  pin_kept := by
    intro p hp ha hcid
    rw [← hpins] at hp
    by_contra hlost
    refine hcid (mem_sweepCandidates.mpr ?_)
    unfold expireOverdue at hlost ⊢
    rcases endPins_kept_or_ended hp with hfirst | hfirst
    · rcases endPins_kept_or_ended hfirst with hsecond | hsecond
      · exact (hlost hsecond).elim
      · exact ⟨_, hsecond, rfl, rfl, rfl⟩
    · exact ⟨_, endPins_keeps hfirst (by simp [endedPin]), rfl, rfl, rfl⟩
  toCloses := closes_of_closeClaims (by decide) (by decide)
    (fun _ => hclaims ▸ mem_closeClaims)

theorem share_retire (db : Db) (t : Int) (cid x : Cid) :
    Share db t [cid] x (x ∈ if (reconcileCidAfterEnd db t cid).1.unpin then [cid] else [])
      (reconcileCidAfterEnd db t cid).2 := by
  by_cases hx : x = cid
  · subst hx
    refine .stepped db _ _ List.mem_cons_self (SameOn.refl _ _) (Nat.le_refl _)
      (reconciles db t x) (SameOn.refl _ _) ?_
    split <;> simp_all
  · refine .skipped (by simpa using hx) ((reconciles db t cid).sameOn hx) ?_
    split <;> simp [hx]

theorem batonPassed_retire {db : Db} {t : Int} {claim : Claim} {reason : String}
    (hp : PinsOwnCid db) (hm : claim ∈ db.claims) :
    BatonPassed db (retire db t claim reason).2 (reported (retire db t claim reason).1) :=
  batonPassed_of_share (ends_retire hp hm) (fun x => share_retire _ t claim.cid x)

/-- The baton-pass law for every call, from every database whose claims point to pins of their
own CID, at every clock reading. -/
theorem baton_pass (db : Db) (t : Int) (call : EndCall) {after : Db} {unpins : List Cid}
    (hp : PinsOwnCid db) (hrun : call.run db t = .ok (unpins, after)) :
    BatonPassed db after unpins := by
  cases call with
  | cancelClaim claimId owner asAdmin =>
    cases hcall : Quota.cancelClaim db t claimId owner asAdmin with
    | error e => rw [EndCall.run, hcall] at hrun; cases hrun
    | ok r =>
      rw [EndCall.run, hcall] at hrun
      cases hrun
      obtain ⟨⟨hm, _, _⟩, hcases⟩ := cancelClaim_ok hcall
      rcases hcases with ⟨_, hun, hafter⟩ | ⟨_, he, hafter⟩
      · rw [hafter, reported, hun]
        exact batonPassed_of_share (t := t) (ends_dormantCancel db _)
          (fun x => .skipped List.not_mem_nil (SameOn.refl _ _) List.not_mem_nil)
      · rw [hafter, he]
        exact batonPassed_retire hp hm
  | endActiveClaimForRelease claimId =>
    cases hcall : Quota.endActiveClaimForRelease db t claimId with
    | error e => rw [EndCall.run, hcall] at hrun; cases hrun
    | ok r =>
      rw [EndCall.run, hcall] at hrun
      cases hrun
      obtain ⟨⟨hm, _⟩, _, he, hafter⟩ := endActiveClaimForRelease_ok hcall
      rw [hafter, he]
      exact batonPassed_retire hp hm
  | sweep =>
    cases hrun
    have he := ends_expireOverdue db (expireReservations db t) rfl rfl t
    exact batonPassed_of_share he (fun x => reconcileAll_share t x _ he.nodup _)

/-- Alice hosts a file that Bob guards. -/
def guardedDb : Db :=
  let hosted := (createPin Db.empty 0
    { cid := "bafy", uploader := "alice", sizeBytes := 100, paymentId := 1,
      expiresAt := 7200000, mode := .public, mime := none }).2
  let claimed := (createOrderWithClaim hosted 0
    { cid := "bafy", owner := "alice", pinId := some 1, paymentId := 1, sizeBytes := 100,
      sizeMB := 1, rateLocked := 1, paidHours := 2, copies := 1, amountPaid := 2,
      currency := "CNOOBS", startTs := 0, expiryTs := 7200000, kind := .original,
      state := .active, releasePolicy := none, receiptHash := none }).2
  (createOrderWithClaim claimed 5
    { cid := "bafy", owner := "bob", pinId := none, paymentId := 2, sizeBytes := 100,
      sizeMB := 1, rateLocked := 1, paidHours := 3, copies := 1, amountPaid := 3,
      currency := "CNOOBS", startTs := 5, expiryTs := 5, kind := .guardian,
      state := .dormant, releasePolicy := none, receiptHash := none }).2

theorem baton_pass_guarded : BatonPassed guardedDb
    (retire guardedDb 10 ((getClaim guardedDb 1).get (by decide)) "claim_cancelled").2 [] :=
  baton_pass guardedDb 10 (.cancelClaim 1 (some "alice") false) (by decide) (by rfl)

end IpfsGate.BatonPass
