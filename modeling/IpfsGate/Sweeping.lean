import IpfsGate.Correspondence
import IpfsGate.PledgeOrder
import IpfsGate.BatonPass

/-!
# What a sweep does to one CID

It follows from a few facts about the CID: which active pins survive the clock, whether a pin
was expired at this clock reading, and who heads the guardian queue.
-/
namespace IpfsGate.Sweeping

open Quota Correspondence PledgeOrder
open Lib (Table Keyed)

/-! ## Rows and queries -/

theorem filter_eq_of_mem {ρ : Type} [Keyed ρ] {T U : Table ρ} {p : ρ → Bool}
    (h : ∀ r, p r = true → (r ∈ T ↔ r ∈ U)) : T.filter p = U.filter p := by
  have hperm : (T.filter p).Perm (U.filter p) := by
    refine (List.perm_ext_iff_of_nodup (T.nodup.filter p) (U.nodup.filter p)).mpr (fun r => ?_)
    rw [List.mem_filter, List.mem_filter]
    exact and_congr_left (h r)
  refine List.Perm.eq_of_pairwise (fun r s _ _ hrs hsr => ?_) (T.ordered.filter p)
    (U.ordered.filter p) hperm
  exact absurd hsr (Nat.not_lt.mpr (Nat.le_of_lt hrs))

theorem argmax_map {α β γ : Type} [Preorder γ] [DecidableLT γ] (g : α → β) (f : β → γ)
    (l : List α) : (l.map g).argmax f = (l.argmax (f ∘ g)).map g := by
  induction l using List.reverseRecOn with
  | nil => rfl
  | append_singleton l a ih =>
    rw [List.map_append, List.map_singleton, List.argmax_concat, List.argmax_concat, ih]
    cases l.argmax (f ∘ g) with
    | none => rfl
    | some b =>
      change (if f (g b) < f (g a) then _ else _) =
        Option.map g (if f (g b) < f (g a) then _ else _)
      split <;> rfl

/-- The newest pin of a CID depends on no column that an ending rewrites. -/
theorem latest_endPins (db : Db) (t : Int) (status : PinStatus) (reason : Pin → Option String)
    (select : Pin → Bool) (cid : Cid) :
    getLatestPinInfoForCid (endPins db t status reason select) cid =
      getLatestPinInfoForCid db cid := by
  have hrows : (endPins db t status reason select).pins.filter (fun p => p.cid = cid) =
      (db.pins.filter (fun p => p.cid = cid)).map (leftPin t status reason select) := by
    change (db.pins.rows.map (leftPin t status reason select)).filter _ = _
    rw [List.filter_map]
    refine congrArg (List.map _) (List.filter_congr (fun p _ => ?_))
    simp only [Function.comp_apply, leftPin_cid]
  unfold getLatestPinInfoForCid
  rw [hrows, argmax_map, Option.map_map]
  have hkey : Pin.createdAt ∘ leftPin t status reason select = Pin.createdAt := by
    funext p
    simp only [Function.comp_apply]
    unfold leftPin
    split <;> rfl
  have hinfo : (fun p : Pin => ({ sizeBytes := p.sizeBytes, mode := p.mode, mime := p.mime } :
      PinInfo)) ∘ leftPin t status reason select =
      fun p => { sizeBytes := p.sizeBytes, mode := p.mode, mime := p.mime } := by
    funext p
    simp only [Function.comp_apply]
    unfold leftPin
    split <;> rfl
  rw [hkey, hinfo]

theorem latest_sameOn {cid : Cid} {a b : Db} (h : SameOn cid a b) :
    getLatestPinInfoForCid a cid = getLatestPinInfoForCid b cid := by
  unfold getLatestPinInfoForCid
  rw [filter_eq_of_mem (fun p hp => h.pins p (of_decide_eq_true hp))]

theorem queue_eq_of_mem {a b : Db} {cid : Cid}
    (h : ∀ g, DormantGuardian a cid g ↔ DormantGuardian b cid g) :
    getDormantGuardiansForCid a cid = getDormantGuardiansForCid b cid := by
  unfold getDormantGuardiansForCid
  rw [filter_eq_of_mem (fun g hg => ?_)]
  simp only [isDormantGuardian, Bool.and_eq_true, decide_eq_true_eq] at hg
  obtain ⟨⟨hcid, hdormant⟩, hkind⟩ := hg
  constructor
  · intro hm
    exact ((h g).mp ⟨hm, hcid, hdormant, hkind⟩).mem
  · intro hm
    exact ((h g).mpr ⟨hm, hcid, hdormant, hkind⟩).mem

/-- The first of a queue is the guardian that comes before all of it. -/
theorem head_of_first {db : Db} {cid : Cid} {g : Claim} (hg : DormantGuardian db cid g)
    (hfirst : ∀ c, DormantGuardian db cid c → QueuesBefore g c) :
    (getDormantGuardiansForCid db cid).head? = some g := by
  cases hq : getDormantGuardiansForCid db cid with
  | nil =>
    rw [← mem_getDormantGuardiansForCid, hq] at hg
    exact absurd hg List.not_mem_nil
  | cons x rest =>
    have hx : DormantGuardian db cid x :=
      mem_getDormantGuardiansForCid.mp (by rw [hq]; exact List.mem_cons_self)
    have heq := queuesBefore_antisymm hx.mem hg.mem (head_queuesBefore hq hg) (hfirst x hx)
    rw [List.head?_cons, heq]

/-! ## What a sweep decides -/

/-- An active claim and its active pin have one expiry. -/
def Linked (db : Db) : Prop :=
  ∀ c ∈ db.claims, c.state = .active → ∀ p ∈ db.pins, p.status = .active →
    c.pinId = some p.id → p.expiresAt = c.expiryTs

/-- The active pins of a CID that a sweep at `t` leaves alone. -/
def survivors (db : Db) (t : Int) (cid : Cid) : List Pin :=
  db.pins.filter (fun p => p.cid = cid && p.status = .active && !decide (p.expiresAt < t))

/-- A sweep at `t` looks at the CID. -/
def Touched (db : Db) (t : Int) (cid : Cid) : Prop :=
  ∃ p ∈ db.pins, p.cid = cid ∧ ((p.status = .expired ∧ p.statusChangedAt = some t) ∨
    (p.status = .active ∧ p.expiresAt < t))

/-- A sweep at `t` finds the CID without a host. -/
def Vacated (db : Db) (t : Int) (cid : Cid) : Prop :=
  Touched db t cid ∧ survivors db t cid = []

instance (db : Db) (t : Int) (cid : Cid) : Decidable (Vacated db t cid) := by
  unfold Vacated Touched
  infer_instance

/-- The guardian that a sweep at `t` promotes on the CID. -/
def successor (db : Db) (t : Int) (cid : Cid) : Option Claim :=
  if Vacated db t cid then (getDormantGuardiansForCid db cid).head? else none

/-- A pin without its row id. -/
def anonymous (p : Pin) : Pin := { p with id := 0 }

/-- The active pins that a sweep at `t` leaves on the CID. -/
def pinsLeft (db : Db) (t : Int) (cid : Cid) : List Pin :=
  match successor db t cid with
  | some g => [anonymous (promotedPin db t g)]
  | none => (survivors db t cid).map anonymous

/-- The state in which a sweep at `t` leaves the claim. -/
def stateLeft (db : Db) (t : Int) (c : Claim) : ClaimState :=
  if isOverdue t c then .expired
  else if successor db t c.cid = some c then .active
  else c.state

/-- A sweep at `t` reports the CID for unpinning. -/
def Abandoned (db : Db) (t : Int) (cid : Cid) : Prop :=
  Vacated db t cid ∧ getDormantGuardiansForCid db cid = []

/-- The sweep does what was decided. -/
structure SweptTo (db : Db) (t : Int) (out : Swept × Db) : Prop where
  pins : ∀ cid, ((getActivePinsForCid out.2 cid).map anonymous).Perm (pinsLeft db t cid)
  states : ∀ c ∈ db.claims, ∃ c' ∈ out.2.claims, c'.claimId = c.claimId ∧ c'.owner = c.owner ∧
    c'.state = stateLeft db t c
  kept : ∀ c' ∈ out.2.claims, ∃ c ∈ db.claims, c.claimId = c'.claimId
  unpins : ∀ cid, cid ∈ out.1.cidsToUnpin ↔ Abandoned db t cid

theorem mem_survivors {db : Db} {t : Int} {cid : Cid} {p : Pin} :
    p ∈ survivors db t cid ↔ ActivePin db cid p ∧ ¬ p.expiresAt < t := by
  simp only [survivors, Table.mem_filter, Bool.and_eq_true, decide_eq_true_eq, Bool.not_eq_true',
    decide_eq_false_iff_not]
  constructor
  · rintro ⟨hm, ⟨hcid, hactive⟩, hlive⟩
    exact ⟨⟨hm, hcid, hactive⟩, hlive⟩
  · rintro ⟨⟨hm, hcid, hactive⟩, hlive⟩
    exact ⟨hm, ⟨hcid, hactive⟩, hlive⟩

section Expire

variable {db : Db} {t : Int} {cid : Cid}

/-- The linked pins of the overdue claims are overdue themselves. -/
theorem overdue_of_linked (h : Linked db) {p : Pin} (hp : p ∈ db.pins) (ha : p.status = .active)
    (hany : (db.claims.filter (isOverdue t)).any (fun c => c.pinId = some p.id) = true) :
    p.expiresAt < t := by
  obtain ⟨c, hc, hlink⟩ := List.any_eq_true.mp hany
  obtain ⟨hmem, hover⟩ := Table.mem_filter.mp hc
  simp only [isOverdue, Bool.and_eq_true, decide_eq_true_eq] at hover
  rw [h c hmem hover.1 p hp ha (of_decide_eq_true hlink)]
  exact hover.2

theorem active_expireOverdue (h : Linked db) {p : Pin} :
    ActivePin (expireOverdue (expireReservations db t) t) cid p ↔ p ∈ survivors db t cid := by
  unfold expireOverdue
  rw [mem_survivors, active_endPins (by decide), active_endPins (by decide)]
  have hpins : ActivePin (closeClaims (expireReservations db t) .expired (isOverdue t)) cid p ↔
      ActivePin db cid p := ⟨fun hp => ⟨hp.mem, hp.cid_eq, hp.active⟩,
        fun hp => ⟨hp.mem, hp.cid_eq, hp.active⟩⟩
  rw [hpins]
  constructor
  · rintro ⟨⟨hp, _⟩, hlive⟩
    exact ⟨hp, of_decide_eq_false hlive⟩
  · rintro ⟨hp, hlive⟩
    refine ⟨⟨hp, ?_⟩, decide_eq_false hlive⟩
    by_contra hany
    exact hlive (overdue_of_linked h hp.mem hp.active (Bool.not_eq_false _ ▸ hany))

/-- The pin was expired at this clock reading. -/
def LapsedAt (t : Int) (p : Pin) : Prop := p.status = .expired ∧ p.statusChangedAt = some t

theorem lapsedAt_leftPin {reason : Pin → Option String} {select : Pin → Bool} {p : Pin} :
    LapsedAt t (leftPin t .expired reason select p) ↔
      LapsedAt t p ∨ (p.status = .active ∧ select p = true) := by
  by_cases hsel : (select p && p.status = .active) = true
  · have hboth : p.status = .active ∧ select p = true := by
      simpa [Bool.and_eq_true, and_comm] using hsel
    unfold leftPin
    rw [if_pos hsel]
    exact iff_of_true ⟨rfl, rfl⟩ (.inr hboth)
  · rw [leftPin_of_skip (Bool.not_eq_true _ ▸ hsel)]
    simp only [Bool.and_eq_true, decide_eq_true_eq, not_and] at hsel
    constructor
    · exact .inl
    · rintro (hlapsed | ⟨hactive, hselected⟩)
      · exact hlapsed
      · exact absurd hactive (hsel hselected)

theorem candidate_iff (h : Linked db) :
    cid ∈ sweepCandidates (expireOverdue (expireReservations db t) t) t ↔ Touched db t cid := by
  have hrow : ∀ p ∈ db.pins, LapsedAt t
      (leftPin t .expired Pin.statusReason (fun p => p.expiresAt < t)
        (leftPin t .expired (fun _ => some "claim_expired") (fun p =>
          (db.claims.filter (isOverdue t)).any (fun c => c.pinId = some p.id)) p)) ↔
      LapsedAt t p ∨ (p.status = .active ∧ p.expiresAt < t) := by
    intro p hp
    rw [lapsedAt_leftPin, lapsedAt_leftPin, leftPin_active (by decide), leftPin_expiresAt,
      decide_eq_true_eq]
    constructor
    · rintro ((hlapsed | ⟨hactive, hany⟩) | ⟨⟨hactive, _⟩, hlt⟩)
      · exact .inl hlapsed
      · exact .inr ⟨hactive, overdue_of_linked h hp hactive hany⟩
      · exact .inr ⟨hactive, hlt⟩
    · rintro (hlapsed | ⟨hactive, hlt⟩)
      · exact .inl (.inl hlapsed)
      · by_cases hany : (db.claims.filter (isOverdue t)).any (fun c => c.pinId = some p.id) = true
        · exact .inl (.inr ⟨hactive, hany⟩)
        · exact .inr ⟨⟨hactive, Bool.not_eq_true _ ▸ hany⟩, hlt⟩
  rw [BatonPass.mem_sweepCandidates]
  unfold expireOverdue
  constructor
  · rintro ⟨p, hp, hcid, hlapsed⟩
    obtain ⟨q, hq, rfl⟩ := mem_endPins.mp hp
    obtain ⟨r, hr, rfl⟩ := mem_endPins.mp hq
    rw [leftPin_cid, leftPin_cid] at hcid
    exact ⟨r, hr, hcid, (hrow r hr).mp hlapsed⟩
  · rintro ⟨p, hp, hcid, hlapsed⟩
    refine ⟨_, mem_endPins.mpr ⟨_, mem_endPins.mpr ⟨p, hp, rfl⟩, rfl⟩, ?_,
      (hrow p hp).mpr hlapsed⟩
    rw [leftPin_cid, leftPin_cid]
    exact hcid

theorem latest_expireOverdue :
    getLatestPinInfoForCid (expireOverdue (expireReservations db t) t) cid =
      getLatestPinInfoForCid db cid := by
  unfold expireOverdue
  rw [latest_endPins, latest_endPins]
  rfl

theorem dormant_expireOverdue {g : Claim} :
    DormantGuardian (expireOverdue (expireReservations db t) t) cid g ↔
      DormantGuardian db cid g := by
  constructor
  · rintro ⟨hm, hcid, hdormant, hkind⟩
    obtain ⟨d, hd, rfl⟩ := mem_closeClaims.mp hm
    obtain ⟨_, hskip⟩ := (closedClaim_state (by decide)).mp hdormant
    rw [closedClaim_of_skip hskip] at hcid hdormant hkind ⊢
    exact ⟨hd, hcid, hdormant, hkind⟩
  · rintro ⟨hm, hcid, hdormant, hkind⟩
    have hskip : isOverdue t g = false := by
      simp only [isOverdue, hdormant, Bool.and_eq_false_imp, decide_eq_true_eq]
      intro habs
      cases habs
    refine ⟨mem_closeClaims.mpr ⟨g, hm, (closedClaim_of_skip hskip).symm⟩, hcid, hdormant, hkind⟩

end Expire

/-! ## The sweep, one CID at a time -/

theorem mem_anonymous_of_perm {db : Db} {cid : Cid} {l : List Pin} (hl : l.Nodup)
    (h : ∀ p, ActivePin db cid p ↔ p ∈ l) :
    ((getActivePinsForCid db cid).map anonymous).Perm (l.map anonymous) := by
  refine List.Perm.map anonymous ?_
  refine (List.perm_ext_iff_of_nodup (db.pins.nodup.filter _) hl).mpr (fun p => ?_)
  rw [← h]
  exact mem_getActivePinsForCid

theorem anonymous_promotedPin {a b : Db} {t : Int} {g : Claim}
    (h : getLatestPinInfoForCid a g.cid = getLatestPinInfoForCid b g.cid) :
    anonymous (promotedPin a t g) = anonymous (promotedPin b t g) := by
  unfold promotedPin
  rw [h]
  rfl

/-- The sweep up to its reconcile loop. -/
def ended (db : Db) (t : Int) : Db := expireOverdue (expireReservations db t) t

/-- What the loop of a sweep does to one CID: nothing, or the promotion that was decided. -/
inductive Decided (db : Db) (t : Int) (cid : Cid) (unpinned : Prop) (after : Db) : Prop where
  | stays (hnone : successor db t cid = none) (hsame : SameOn cid (ended db t) after)
      (hu : unpinned ↔ Abandoned db t cid)
  | passes (a : Db) (g : Claim) (hsome : successor db t cid = some g)
      (hsame : SameOn cid (ended db t) a) (hno : ∀ p, ¬ ActivePin a cid p)
      (hg : DormantGuardian a cid g) (hafter : SameOn cid (promote a t g) after)
      (hu : ¬ unpinned) (habandoned : ¬ Abandoned db t cid)

theorem decided_of_share {db after : Db} {t : Int} {cid : Cid} {cids : List Cid}
    {unpinned : Prop} (h : Linked db) (hcids : cid ∈ cids ↔ Touched db t cid)
    (hshare : Share (ended db t) t cids cid unpinned after) :
    Decided db t cid unpinned after := by
  cases hshare with
  | skipped hn hsame hu =>
    have hno : ¬ Vacated db t cid := fun hvacated => hn (hcids.mpr hvacated.1)
    exact .stays (if_neg hno) hsame (iff_of_false hu (fun habandoned => hno habandoned.1))
  | stepped a b r hm hsame hnext hr hb hu =>
    have hactive : ∀ p, ActivePin a cid p ↔ p ∈ survivors db t cid := by
      intro p
      rw [← hsame.activePin, ended, active_expireOverdue h]
    have hqueue : getDormantGuardiansForCid db cid = getDormantGuardiansForCid a cid := by
      refine queue_eq_of_mem (fun g => ?_)
      rw [← hsame.dormantGuardian, ended, dormant_expireOverdue]
    have hvacated : (∀ p, ¬ ActivePin a cid p) → Vacated db t cid := by
      intro hno
      refine ⟨hcids.mp hm, List.eq_nil_iff_forall_not_mem.mpr (fun p hp => ?_)⟩
      exact hno p ((hactive p).mpr hp)
    cases hr with
    | hosted p hp =>
      have hno : ¬ Vacated db t cid := by
        intro hvacated
        have hmem := (hactive p).mp hp
        rw [hvacated.2] at hmem
        exact List.not_mem_nil hmem
      refine .stays (if_neg hno) (hsame.trans hb) (hu.trans ?_)
      exact iff_of_false Bool.false_ne_true (fun habandoned => hno habandoned.1)
    | dropped hno hq =>
      have hempty : getDormantGuardiansForCid db cid = [] := by
        rw [hqueue]
        refine List.eq_nil_iff_forall_not_mem.mpr (fun g hg => ?_)
        exact hq g (mem_getDormantGuardiansForCid.mp hg)
      refine .stays ?_ (hsame.trans hb) (hu.trans (iff_of_true rfl ⟨hvacated hno, hempty⟩))
      rw [successor, if_pos (hvacated hno), hempty]
      rfl
    | promoted g hno hg hfirst =>
      have hhead : (getDormantGuardiansForCid db cid).head? = some g := by
        rw [hqueue]
        exact head_of_first hg hfirst
      refine .passes a g ?_ hsame hno hg hb (fun hunpin => Bool.false_ne_true (hu.mp hunpin)) ?_
      · rw [successor, if_pos (hvacated hno), hhead]
      · intro habandoned
        rw [habandoned.2] at hhead
        cases hhead

theorem Decided.pins {db after : Db} {t : Int} {cid : Cid} {unpinned : Prop} (h : Linked db)
    (hd : Decided db t cid unpinned after) :
    ((getActivePinsForCid after cid).map anonymous).Perm (pinsLeft db t cid) := by
  cases hd with
  | stays hnone hsame hu =>
    rw [pinsLeft, hnone]
    refine mem_anonymous_of_perm (db.pins.nodup.filter _) (fun p => ?_)
    rw [← hsame.activePin, ended, active_expireOverdue h]
  | passes a g hsome hsame hno hg hafter hu habandoned =>
    have hlatest : getLatestPinInfoForCid a g.cid = getLatestPinInfoForCid db g.cid := by
      rw [hg.cid_eq, ← latest_sameOn hsame, ended, latest_expireOverdue]
    rw [pinsLeft, hsome]
    change List.Perm _ [anonymous (promotedPin db t g)]
    rw [← anonymous_promotedPin hlatest, ← List.map_singleton]
    refine mem_anonymous_of_perm (List.nodup_singleton _) (fun p => ?_)
    rw [← hafter.activePin, List.mem_singleton]
    constructor
    · rintro ⟨hm, hcid, hactive⟩
      rcases mem_pins_promote.mp hm with hold | hnew
      · exact absurd ⟨hold, hcid, hactive⟩ (hno p)
      · exact hnew
    · rintro rfl
      exact ⟨mem_pins_promote.mpr (.inr rfl), hg.cid_eq, rfl⟩

theorem Decided.unpins {db after : Db} {t : Int} {cid : Cid} {unpinned : Prop}
    (hd : Decided db t cid unpinned after) : unpinned ↔ Abandoned db t cid := by
  cases hd with
  | stays hnone hsame hu => exact hu
  | passes a g hsome hsame hno hg hafter hu habandoned => exact iff_of_false hu habandoned

/-- Without a promotion the claim keeps its state or expires. -/
theorem stateLeft_of_ne {db : Db} {t : Int} {c : Claim} (h : successor db t c.cid ≠ some c) :
    stateLeft db t c = (closedClaim .expired (isOverdue t) c).state := by
  unfold stateLeft closedClaim
  rw [if_neg h]
  split <;> rfl

theorem Decided.state {db after : Db} {t : Int} {c : Claim} {unpinned : Prop}
    (hd : Decided db t c.cid unpinned after) (hc : c ∈ db.claims) :
    ∃ c' ∈ after.claims, c'.claimId = c.claimId ∧ c'.owner = c.owner ∧
      c'.state = stateLeft db t c := by
  have hmid : closedClaim .expired (isOverdue t) c ∈ (ended db t).claims :=
    mem_closeClaims.mpr ⟨c, hc, rfl⟩
  have hcid : (closedClaim .expired (isOverdue t) c).cid = c.cid := closedClaim_cid
  cases hd with
  | stays hnone hsame hu =>
    refine ⟨_, (hsame.claims _ hcid).mp hmid, closedClaim_claimId, closedClaim_owner,
      (stateLeft_of_ne ?_).symm⟩
    rw [hnone]
    exact nofun
  | passes a g hsome hsame hno hg hafter hu habandoned =>
    have hin := (hsame.claims _ hcid).mp hmid
    by_cases hid : c.claimId = g.claimId
    · have hrow : closedClaim .expired (isOverdue t) c = g :=
        Table.eq_of_key hin hg.mem (closedClaim_claimId.trans hid)
      have hskip : isOverdue t c = false := by
        have hdormant := hg.dormant
        rw [← hrow] at hdormant
        exact ((closedClaim_state (by decide)).mp hdormant).2
      rw [closedClaim_of_skip hskip] at hrow
      obtain rfl := hrow
      have hpromoted : (promotedClaim a t c c).cid = c.cid := rfl
      refine ⟨_, (hafter.claims _ hpromoted).mp (promoted_mem hg), rfl, rfl, ?_⟩
      rw [stateLeft, hskip, hsome, if_neg Bool.false_ne_true, if_pos rfl]
      rfl
    · have hpromote : closedClaim .expired (isOverdue t) c ∈ (promote a t g).claims :=
        (claims_promote_cases hg).mpr (.inl ⟨hin, fun h => hid (closedClaim_claimId.symm.trans h)⟩)
      refine ⟨_, (hafter.claims _ hcid).mp hpromote, closedClaim_claimId, closedClaim_owner,
        (stateLeft_of_ne ?_).symm⟩
      rw [hsome]
      intro heq
      rw [Option.some.inj heq] at hid
      exact hid rfl

/-- What a sweep does from a database whose claims and pins are linked. -/
theorem sweep_spec {db : Db} (h : Linked db) (t : Int) : SweptTo db t (sweep db t) := by
  have hdecided : ∀ cid, Decided db t cid (cid ∈ (sweep db t).1.cidsToUnpin) (sweep db t).2 :=
    fun cid => decided_of_share h (candidate_iff h)
      (reconcileAll_share t cid _ (Lib.nodup_eraseDups _) _)
  refine ⟨fun cid => (hdecided cid).pins h, fun c hc => (hdecided c.cid).state hc, ?_,
    fun cid => (hdecided cid).unpins⟩
  intro c' hc'
  have hloop := relabels_reconcileAll (ended db t) t (sweepCandidates (ended db t) t)
  obtain ⟨d, hd, hid, _⟩ := hloop c' hc'
  obtain ⟨c, hc, rfl⟩ := mem_closeClaims.mp hd
  exact ⟨c, hc, closedClaim_claimId.symm.trans hid⟩

end IpfsGate.Sweeping
