import IpfsGate.QuotaFacts

/-!
# Passing the baton, one CID at a time

`Reconciles` lists everything the reconcile step can do. The loop over many CIDs is local:
what it does to one CID is one reconcile step on a database that agrees with the start on
that CID, so properties of the loop are properties of the step.
-/
namespace IpfsGate.Quota

open Lib (Table Keyed)

theorem mem_pins_promote {db : Db} {t : Int} {g : Claim} {p : Pin} :
    p ∈ (promote db t g).pins ↔ p ∈ db.pins ∨ p = promotedPin db t g := by
  simp only [promote, Table.mem_insert]
  rfl

theorem mem_claims_promote {db : Db} {t : Int} {g c : Claim} :
    c ∈ (promote db t g).claims ↔
      ∃ d ∈ db.claims, c = if d.claimId = g.claimId && d.state = .dormant
        then promotedClaim db t g d else d :=
  Table.mem_update (f := promotedClaim db t g) (h := fun _ => rfl)

/-- The promoted guardian itself, linked to its new pin. -/
theorem promoted_mem {db : Db} {t : Int} {g : Claim} {cid : Cid} (hg : DormantGuardian db cid g) :
    promotedClaim db t g g ∈ (promote db t g).claims := by
  refine mem_claims_promote.mpr ⟨g, hg.mem, ?_⟩
  rw [hg.dormant]
  simp

/-- Every claim row after a promotion is an old row other than the guardian's, or the
guardian's new row. -/
theorem claims_promote_cases {db : Db} {t : Int} {g : Claim} {cid : Cid}
    (hg : DormantGuardian db cid g) {c : Claim} :
    c ∈ (promote db t g).claims ↔
      (c ∈ db.claims ∧ c.claimId ≠ g.claimId) ∨ c = promotedClaim db t g g := by
  constructor
  · intro hc
    obtain ⟨d, hd, rfl⟩ := mem_claims_promote.mp hc
    by_cases hid : d.claimId = g.claimId
    · have hdg : d = g := Table.eq_of_key hd hg.mem hid
      subst hdg
      right
      rw [hg.dormant]
      simp
    · left
      simp only [hid, decide_false, Bool.false_and, Bool.false_eq_true, ↓reduceIte, ne_eq,
        not_false_eq_true, and_true]
      exact hd
  · rintro (⟨hc, hid⟩ | rfl)
    · refine mem_claims_promote.mpr ⟨c, hc, ?_⟩
      simp [hid]
    · exact promoted_mem hg

/-- Everything a reconcile step can do. -/
inductive Reconciles (db : Db) (t : Int) (cid : Cid) : Reconciled → Db → Prop where
  | hosted (p : Pin) (hp : ActivePin db cid p) :
      Reconciles db t cid { unpin := false, activated := none } db
  | dropped (hno : ∀ p, ¬ ActivePin db cid p) (hq : ∀ g, ¬ DormantGuardian db cid g) :
      Reconciles db t cid { unpin := true, activated := none } db
  | promoted (g : Claim) (hno : ∀ p, ¬ ActivePin db cid p) (hg : DormantGuardian db cid g)
      (hfirst : ∀ c, DormantGuardian db cid c → QueuesBefore g c) :
      Reconciles db t cid { unpin := false, activated := some g.claimId } (promote db t g)

theorem reconciles (db : Db) (t : Int) (cid : Cid) :
    Reconciles db t cid (reconcileCidAfterEnd db t cid).1 (reconcileCidAfterEnd db t cid).2 := by
  unfold reconcileCidAfterEnd
  by_cases hh : hasActivePinForCid db cid = true
  · obtain ⟨p, hp⟩ := hasActivePinForCid_iff.mp hh
    rw [if_pos hh]
    exact .hosted p hp
  · have hno := hasActivePinForCid_false.mp (Bool.not_eq_true _ ▸ hh)
    rw [if_neg hh]
    cases hq : getDormantGuardiansForCid db cid with
    | nil =>
      refine .dropped hno ?_
      intro g hg
      rw [← mem_getDormantGuardiansForCid, hq] at hg
      exact List.not_mem_nil hg
    | cons g rest =>
      have hg : DormantGuardian db cid g :=
        mem_getDormantGuardiansForCid.mp (by rw [hq]; exact List.mem_cons_self)
      exact .promoted g hno hg (fun c hc => head_queuesBefore hq hc)

/-- The two databases hold the same pins and the same claims of the CID. -/
structure SameOn (cid : Cid) (a b : Db) : Prop where
  pins : ∀ p : Pin, p.cid = cid → (p ∈ a.pins ↔ p ∈ b.pins)
  claims : ∀ c : Claim, c.cid = cid → (c ∈ a.claims ↔ c ∈ b.claims)

namespace SameOn

variable {cid : Cid} {a b c : Db}

theorem refl (cid : Cid) (a : Db) : SameOn cid a a := ⟨fun _ _ => Iff.rfl, fun _ _ => Iff.rfl⟩

theorem trans (h₁ : SameOn cid a b) (h₂ : SameOn cid b c) : SameOn cid a c :=
  ⟨fun p hp => (h₁.pins p hp).trans (h₂.pins p hp),
   fun d hd => (h₁.claims d hd).trans (h₂.claims d hd)⟩

theorem activePin (h : SameOn cid a b) {p : Pin} : ActivePin a cid p ↔ ActivePin b cid p := by
  constructor
  · rintro ⟨hm, hc, ha⟩
    exact ⟨(h.pins p hc).mp hm, hc, ha⟩
  · rintro ⟨hm, hc, ha⟩
    exact ⟨(h.pins p hc).mpr hm, hc, ha⟩

theorem dormantGuardian (h : SameOn cid a b) {g : Claim} :
    DormantGuardian a cid g ↔ DormantGuardian b cid g := by
  constructor
  · rintro ⟨hm, hc, hd, hk⟩
    exact ⟨(h.claims g hc).mp hm, hc, hd, hk⟩
  · rintro ⟨hm, hc, hd, hk⟩
    exact ⟨(h.claims g hc).mpr hm, hc, hd, hk⟩

end SameOn

/-- A promotion touches only the guardian's CID. -/
theorem promote_sameOn {db : Db} {t : Int} {g : Claim} {cid other : Cid}
    (hg : DormantGuardian db cid g) (hne : other ≠ cid) : SameOn other db (promote db t g) := by
  constructor
  · intro p hp
    rw [mem_pins_promote]
    constructor
    · exact Or.inl
    · rintro (h | rfl)
      · exact h
      · exact absurd (hp.symm.trans hg.cid_eq) hne
  · intro c hc
    rw [claims_promote_cases hg]
    constructor
    · intro h
      refine Or.inl ⟨h, ?_⟩
      intro hid
      have hcg : c = g := Table.eq_of_key h hg.mem hid
      subst hcg
      exact hne (hc.symm.trans hg.cid_eq)
    · rintro (⟨h, _⟩ | rfl)
      · exact h
      · exact absurd (hc.symm.trans hg.cid_eq) hne

theorem Reconciles.sameOn {db after : Db} {t : Int} {cid other : Cid} {r : Reconciled}
    (h : Reconciles db t cid r after) (hne : other ≠ cid) : SameOn other db after := by
  cases h with
  | hosted p hp => exact SameOn.refl _ _
  | dropped hno hq => exact SameOn.refl _ _
  | promoted g hno hg hfirst => exact promote_sameOn hg hne

theorem Reconciles.pins_next {db after : Db} {t : Int} {cid : Cid} {r : Reconciled}
    (h : Reconciles db t cid r after) : db.pins.next ≤ after.pins.next := by
  cases h with
  | hosted p hp => exact Nat.le_refl _
  | dropped hno hq => exact Nat.le_refl _
  | promoted g hno hg hfirst => exact Nat.le_succ _

/-- The loop unfolds to one reconcile step and the loop over the rest. -/
theorem reconcileAll_cons (db : Db) (t : Int) (cid : Cid) (rest : List Cid) :
    (reconcileAll db t (cid :: rest)).2 =
      (reconcileAll (reconcileCidAfterEnd db t cid).2 t rest).2 := by
  simp only [reconcileAll]
  split
  · rfl
  · split <;> rfl

theorem mem_cidsToUnpin_cons (db : Db) (t : Int) (cid x : Cid) (rest : List Cid) :
    x ∈ (reconcileAll db t (cid :: rest)).1.cidsToUnpin ↔
      (x = cid ∧ (reconcileCidAfterEnd db t cid).1.unpin = true) ∨
      x ∈ (reconcileAll (reconcileCidAfterEnd db t cid).2 t rest).1.cidsToUnpin := by
  have hr := reconciles db t cid
  simp only [reconcileAll]
  generalize reconcileCidAfterEnd db t cid = r at hr
  obtain ⟨r, after⟩ := r
  cases hr with
  | hosted p hp => simp
  | dropped hno hq => simp
  | promoted g hno hg hfirst => simp

/-- Ending one claim is the loop over its one CID. -/
theorem retire_eq (db : Db) (t : Int) (claim : Claim) (reason : String) :
    (retire db t claim reason).2 =
      (reconcileAll (endClaim db t claim reason) t [claim.cid]).2 := by
  rw [reconcileAll_cons]
  rfl

/-- What every promotion keeps, the loop keeps. -/
theorem reconcileAll_preserves (P : Db → Prop) (t : Int)
    (hstep : ∀ db cid g, P db → (∀ p, ¬ ActivePin db cid p) → DormantGuardian db cid g →
      (∀ c, DormantGuardian db cid c → QueuesBefore g c) → P (promote db t g))
    (cids : List Cid) (db : Db) (h : P db) : P (reconcileAll db t cids).2 := by
  induction cids generalizing db with
  | nil => exact h
  | cons cid rest ih =>
    rw [reconcileAll_cons]
    refine ih _ ?_
    cases hr : reconcileCidAfterEnd db t cid with
    | mk r after =>
      have hrec := reconciles db t cid
      rw [hr] at hrec
      cases hrec with
      | hosted p hp => exact h
      | dropped hno hq => exact h
      | promoted g hno hg hfirst => exact hstep db cid g h hno hg hfirst

/-- One CID's share of the loop: untouched when it is not listed, and otherwise a single
reconcile step between databases that agree with the two ends on that CID. -/
inductive Share (db : Db) (t : Int) (cids : List Cid) (cid : Cid) (unpinned : Prop)
    (after : Db) : Prop where
  | skipped (hn : cid ∉ cids) (hs : SameOn cid db after) (hu : ¬ unpinned)
  | stepped (a b : Db) (r : Reconciled) (hm : cid ∈ cids) (ha : SameOn cid db a)
      (hnext : db.pins.next ≤ a.pins.next) (hr : Reconciles a t cid r b)
      (hb : SameOn cid b after) (hu : unpinned ↔ r.unpin = true)

theorem reconcileAll_share (t : Int) (cid : Cid) (cids : List Cid) (hnd : cids.Nodup) (db : Db) :
    Share db t cids cid (cid ∈ (reconcileAll db t cids).1.cidsToUnpin)
      (reconcileAll db t cids).2 := by
  induction cids generalizing db with
  | nil => exact .skipped List.not_mem_nil (SameOn.refl _ _) List.not_mem_nil
  | cons x rest ih =>
    rw [List.nodup_cons] at hnd
    have hstep := reconciles db t x
    have hrest := ih hnd.2 (reconcileCidAfterEnd db t x).2
    rw [mem_cidsToUnpin_cons, reconcileAll_cons]
    generalize reconcileAll (reconcileCidAfterEnd db t x).2 t rest = out at hrest ⊢
    generalize reconcileCidAfterEnd db t x = r at hstep hrest ⊢
    by_cases hx : cid = x
    · subst hx
      cases hrest with
      | skipped hn hs hu =>
        refine .stepped db r.2 r.1 List.mem_cons_self (SameOn.refl _ _) (Nat.le_refl _)
          hstep hs ?_
        simp [hu]
      | stepped a b q hm ha hnext hr hb hu => exact absurd hm hnd.1
    · have hsame : SameOn cid db r.2 := hstep.sameOn hx
      cases hrest with
      | skipped hn hs hu =>
        refine .skipped ?_ (hsame.trans hs) ?_
        · rw [List.mem_cons]
          rintro (h | h)
          · exact hx h
          · exact hn h
        · rintro (⟨h, _⟩ | h)
          · exact hx h
          · exact hu h
      | stepped a b q hm ha hnext hr hb hu =>
        refine .stepped a b q (List.mem_cons_of_mem _ hm) (hsame.trans ha)
          (hstep.pins_next.trans hnext) hr hb ?_
        rw [← hu]
        simp [hx]

/-! ## Promotions after an ending -/

/-- Closing claims makes no claim active and leaves dormant rows as they were. -/
structure Closes (before mid : Db) : Prop where
  claim_from : ∀ c ∈ mid.claims, ∃ d ∈ before.claims, d.claimId = c.claimId ∧
    (c.state = .active → d.state = .active)
  dormant_from : ∀ c ∈ mid.claims, c.state = .dormant → c ∈ before.claims

/-- A claim of the CID that went from dormant to active. -/
structure Promoted (before after : Db) (cid : Cid) (g : Claim) : Prop where
  mem : g ∈ after.claims
  cid_eq : g.cid = cid
  active : g.state = .active
  was_dormant : ∃ d ∈ before.claims, d.claimId = g.claimId ∧ d.state = .dormant

theorem Closes.not_promoted {before mid : Db} (h : Closes before mid) {g : Claim}
    (hm : g ∈ mid.claims) (ha : g.state = .active)
    (hd : ∃ d ∈ before.claims, d.claimId = g.claimId ∧ d.state = .dormant) : False := by
  obtain ⟨c, hc, hid, hact⟩ := h.claim_from g hm
  obtain ⟨d, hd, hdid, hdor⟩ := hd
  have hcd : c = d := Table.eq_of_key hc hd (hid.trans hdid.symm)
  subst hcd
  rw [hact ha] at hdor
  cases hdor

/-- Every promotion on a CID is the one its reconcile step made: of the head of the queue, on
a CID without an active pin. -/
theorem promoted_inv {before mid after : Db} {t : Int} {cids : List Cid} {cid : Cid} {U : Prop}
    (he : Closes before mid) (hs : Share mid t cids cid U after) {g : Claim}
    (hg : Promoted before after cid g) :
    ∃ a g₀, SameOn cid mid a ∧ mid.pins.next ≤ a.pins.next ∧ (∀ p, ¬ ActivePin a cid p) ∧
      DormantGuardian a cid g₀ ∧ (∀ c, DormantGuardian a cid c → QueuesBefore g₀ c) ∧
      SameOn cid (promote a t g₀) after ∧
      ∀ g', Promoted before after cid g' → g' = promotedClaim a t g₀ g₀ := by
  cases hs with
  | skipped hn hsame hu =>
    exact (he.not_promoted ((hsame.claims g hg.cid_eq).mpr hg.mem) hg.active
      hg.was_dormant).elim
  | stepped a b r hin hma hnext hr hb hu =>
    have hold : ∀ g', Promoted before after cid g' → ¬ g' ∈ a.claims := by
      intro g' hg' hm
      exact he.not_promoted ((hma.claims g' hg'.cid_eq).mpr hm) hg'.active hg'.was_dormant
    have hgb := (hb.claims g hg.cid_eq).mpr hg.mem
    cases hr with
    | hosted p hp => exact (hold g hg hgb).elim
    | dropped hno hq => exact (hold g hg hgb).elim
    | promoted g₀ hno hg₀ hfirst =>
      refine ⟨a, g₀, hma, hnext, hno, hg₀, hfirst, hb, ?_⟩
      intro g' hg'
      have hgb' := (hb.claims g' hg'.cid_eq).mpr hg'.mem
      rcases (claims_promote_cases hg₀).mp hgb' with ⟨h, _⟩ | h
      · exact (hold g' hg' h).elim
      · exact h

theorem closes_of_closeClaims {before mid : Db} {state : ClaimState} {select : Claim → Bool}
    (hs : state ≠ .active) (hd : state ≠ .dormant)
    (hmid : ∀ c, c ∈ mid.claims ↔ ∃ d ∈ before.claims, c = closedClaim state select d) :
    Closes before mid where
  claim_from := by
    intro c hc
    obtain ⟨d, hdm, rfl⟩ := (hmid c).mp hc
    exact ⟨d, hdm, closedClaim_claimId.symm, fun h => ((closedClaim_state hs).mp h).1⟩
  dormant_from := by
    intro c hc h
    obtain ⟨d, hdm, rfl⟩ := (hmid c).mp hc
    rw [closedClaim_of_skip ((closedClaim_state hd).mp h).2]
    exact hdm

end IpfsGate.Quota
