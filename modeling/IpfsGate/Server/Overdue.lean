import IpfsGate.Server.Guardians
import IpfsGate.Server.Terms
import IpfsGate.Sweeping

/-!
# Cancelling an overdue claim

A cancel of an overdue claim changes nothing of what a sweep at the same clock reading decides,
except that it may promote the guardian that the sweep would have promoted.
-/
namespace IpfsGate.Server.Overdue

open Quota Correspondence Sweeping
open Lib (Table)

/-! ## What a cancel changes of it -/

/-- A sweep at `t` decides the same for the CID on both databases. -/
structure Alike (a b : Db) (t : Int) (cid : Cid) : Prop where
  survivors : survivors a t cid = survivors b t cid
  touched : Touched a t cid ↔ Touched b t cid
  queue : getDormantGuardiansForCid a cid = getDormantGuardiansForCid b cid
  latest : getLatestPinInfoForCid a cid = getLatestPinInfoForCid b cid

theorem cid_of_successor {db : Db} {t : Int} {cid : Cid} {g : Claim}
    (h : successor db t cid = some g) : g.cid = cid := by
  unfold successor at h
  split at h
  · exact (mem_getDormantGuardiansForCid.mp (List.mem_of_head? h)).cid_eq
  · cases h

namespace Alike

variable {a b : Db} {t : Int} {cid : Cid} (h : Alike a b t cid)
include h

theorem vacated : Vacated a t cid ↔ Vacated b t cid := by
  unfold Vacated
  rw [h.touched, h.survivors]

theorem successor : Sweeping.successor a t cid = Sweeping.successor b t cid := by
  unfold Sweeping.successor
  rw [h.queue]
  exact if_congr h.vacated rfl rfl

theorem pinsLeft : Sweeping.pinsLeft a t cid = Sweeping.pinsLeft b t cid := by
  unfold Sweeping.pinsLeft
  rw [h.successor, h.survivors]
  cases hg : Sweeping.successor b t cid with
  | none => rfl
  | some g =>
    have hcid := cid_of_successor hg
    have hlatest : getLatestPinInfoForCid a g.cid = getLatestPinInfoForCid b g.cid := by
      rw [hcid, h.latest]
    exact congrArg (fun p => [p]) (anonymous_promotedPin hlatest)

theorem abandoned : Abandoned a t cid ↔ Abandoned b t cid := by
  unfold Abandoned
  rw [h.vacated, h.queue]

end Alike

theorem stateLeft_congr {a b : Db} {t : Int} {c : Claim} (h : Alike a b t c.cid) :
    stateLeft a t c = stateLeft b t c := by
  unfold stateLeft
  rw [h.successor]

theorem alike_of_sameOn {a b : Db} {t : Int} {cid : Cid} (h : SameOn cid a b) :
    Alike a b t cid where
  survivors := by
    refine filter_eq_of_mem (fun p hp => h.pins p ?_)
    simp only [Bool.and_eq_true, decide_eq_true_eq] at hp
    exact hp.1.1
  touched := by
    constructor
    · rintro ⟨p, hp, hcid, hstate⟩
      exact ⟨p, (h.pins p hcid).mp hp, hcid, hstate⟩
    · rintro ⟨p, hp, hcid, hstate⟩
      exact ⟨p, (h.pins p hcid).mpr hp, hcid, hstate⟩
  queue := queue_eq_of_mem (fun _ => h.dormantGuardian)
  latest := latest_sameOn h

section Cancel

variable {db : Db} {t : Int} {c : Claim} {reason : String}

theorem endClaim_skips (hc : c ∈ db.claims) (ha : c.state = .active) {g : Claim}
    (hg : g ∈ db.claims) (hne : g.state ≠ .active ∨ g.claimId ≠ c.claimId) :
    g ∈ (endClaim db t c reason).claims := by
  refine mem_closeClaims.mpr ⟨g, hg, (closedClaim_of_skip ?_).symm⟩
  have hid : g.claimId ≠ c.claimId := by
    rcases hne with hstate | hid
    · intro hid
      rw [Table.eq_of_key hg hc hid] at hstate
      exact hstate ha
    · exact hid
  rw [decide_eq_false hid, Bool.false_and]

/-- Ending a claim whose pin is overdue leaves every decision of the sweep as it was. -/
theorem alike_endClaim (hc : c ∈ db.claims) (ha : c.state = .active)
    (hover : ∀ q ∈ db.pins, c.pinId = some q.id → q.expiresAt < t) (cid : Cid) :
    Alike (endClaim db t c reason) db t cid where
  survivors := by
    refine filter_eq_of_mem (fun q hq => ?_)
    simp only [Bool.and_eq_true, decide_eq_true_eq, Bool.not_eq_true',
      decide_eq_false_iff_not] at hq
    obtain ⟨⟨_, hqa⟩, hlive⟩ := hq
    unfold endClaim
    rw [mem_endPins]
    constructor
    · rintro ⟨r, hr, rfl⟩
      obtain ⟨hra, hskip⟩ := (leftPin_active (by decide)).mp hqa
      rw [leftPin_of_skip (by rw [hskip, Bool.false_and])]
      exact hr
    · intro hq
      refine ⟨q, hq, (leftPin_of_skip ?_).symm⟩
      have hskip : c.pinId ≠ some q.id := fun hsel => hlive (hover q hq hsel)
      rw [decide_eq_false hskip, Bool.false_and]
  touched := by
    constructor
    · rintro ⟨q, hq, hcid, hstate⟩
      obtain ⟨r, hr, rfl⟩ := mem_endPins.mp hq
      refine ⟨r, hr, leftPin_cid.symm.trans hcid, ?_⟩
      rcases hstate with hlapsed | ⟨hactive, hlt⟩
      · rcases lapsedAt_leftPin.mp hlapsed with hlapsed | ⟨hactive, hsel⟩
        · exact .inl hlapsed
        · exact .inr ⟨hactive, hover r hr (of_decide_eq_true hsel)⟩
      · exact .inr ⟨((leftPin_active (by decide)).mp hactive).1, leftPin_expiresAt.symm ▸ hlt⟩
    · rintro ⟨r, hr, hcid, hstate⟩
      refine ⟨_, mem_endPins.mpr ⟨r, hr, rfl⟩, leftPin_cid.trans hcid, ?_⟩
      rcases hstate with hlapsed | ⟨hactive, hlt⟩
      · exact .inl (lapsedAt_leftPin.mpr (.inl hlapsed))
      · by_cases hsel : c.pinId = some r.id
        · exact .inl (lapsedAt_leftPin.mpr (.inr ⟨hactive, decide_eq_true hsel⟩))
        · refine .inr ⟨(leftPin_active (by decide)).mpr ⟨hactive, decide_eq_false hsel⟩, ?_⟩
          rw [leftPin_expiresAt]
          exact hlt
  queue := by
    refine queue_eq_of_mem (fun g => ?_)
    constructor
    · rintro ⟨hm, hcid, hdormant, hkind⟩
      obtain ⟨d, hd, rfl⟩ := mem_closeClaims.mp hm
      obtain ⟨_, hskip⟩ := (closedClaim_state (by decide)).mp hdormant
      rw [closedClaim_of_skip hskip] at hcid hdormant hkind ⊢
      exact ⟨hd, hcid, hdormant, hkind⟩
    · rintro ⟨hm, hcid, hdormant, hkind⟩
      have hne : g.state ≠ .active := by
        rw [hdormant]
        decide
      exact ⟨endClaim_skips hc ha hm (.inl hne), hcid, hdormant, hkind⟩
  latest := latest_endPins _ _ _ _ _ _

end Cancel

section Promote

variable {a : Db} {t : Int} {cid : Cid} {g : Claim}

/-- A promoted guardian is the only host, and it is not overdue. -/
theorem survivors_promote (hno : ∀ p, ¬ ActivePin a cid p) (hg : DormantGuardian a cid g)
    (hlive : t ≤ t + g.paidHours * Pricing.hourMs) :
    survivors (promote a t g) t cid = [promotedPin a t g] := by
  have hold : survivors a t cid = [] := by
    refine List.eq_nil_iff_forall_not_mem.mpr (fun p hp => ?_)
    exact hno p (mem_survivors.mp hp).1
  have hnew : (decide ((promotedPin a t g).cid = cid) &&
      decide ((promotedPin a t g).status = .active) &&
      !decide ((promotedPin a t g).expiresAt < t)) = true := by
    have hexp : ¬ (promotedPin a t g).expiresAt < t := by
      change ¬ t + g.paidHours * Pricing.hourMs < t
      omega
    have hcid : (promotedPin a t g).cid = cid := hg.cid_eq
    rw [decide_eq_true hcid, decide_eq_false hexp]
    rfl
  change (a.pins.rows ++ [promotedPin a t g]).filter _ = _
  rw [List.filter_append, List.filter_singleton, hnew]
  exact congrArg (· ++ [promotedPin a t g]) hold

theorem successor_promote (hno : ∀ p, ¬ ActivePin a cid p) (hg : DormantGuardian a cid g)
    (hlive : t ≤ t + g.paidHours * Pricing.hourMs) :
    ¬ Vacated (promote a t g) t cid ∧ successor (promote a t g) t cid = none := by
  have hhosted : ¬ Vacated (promote a t g) t cid := by
    intro hvacated
    have hnone := hvacated.2
    rw [survivors_promote hno hg hlive] at hnone
    cases hnone
  exact ⟨hhosted, if_neg hhosted⟩

theorem pinsLeft_promote (hno : ∀ p, ¬ ActivePin a cid p) (hg : DormantGuardian a cid g)
    (hlive : t ≤ t + g.paidHours * Pricing.hourMs) (hsome : successor a t cid = some g)
    (other : Cid) : pinsLeft (promote a t g) t other = pinsLeft a t other := by
  by_cases hother : other = cid
  · rw [hother, pinsLeft, pinsLeft, (successor_promote hno hg hlive).2, hsome,
      survivors_promote hno hg hlive]
    rfl
  · exact ((alike_of_sameOn (promote_sameOn hg hother)).pinsLeft).symm

theorem abandoned_promote (hno : ∀ p, ¬ ActivePin a cid p) (hg : DormantGuardian a cid g)
    (hlive : t ≤ t + g.paidHours * Pricing.hourMs) (other : Cid) :
    Abandoned (promote a t g) t other ↔ Abandoned a t other := by
  by_cases hother : other = cid
  · rw [hother]
    refine iff_of_false (fun h => (successor_promote hno hg hlive).1 h.1) (fun h => ?_)
    have hmem := mem_getDormantGuardiansForCid.mpr hg
    rw [h.2] at hmem
    exact List.not_mem_nil hmem
  · exact ((alike_of_sameOn (promote_sameOn hg hother)).abandoned).symm

theorem stateLeft_promote (hno : ∀ p, ¬ ActivePin a cid p) (hg : DormantGuardian a cid g)
    (hlive : t ≤ t + g.paidHours * Pricing.hourMs) (hsome : successor a t cid = some g)
    {d : Claim} (hd : d ∈ a.claims) :
    ∃ d' ∈ (promote a t g).claims, d'.claimId = d.claimId ∧
      stateLeft (promote a t g) t d' = stateLeft a t d := by
  have hnone := (successor_promote hno hg hlive).2
  by_cases hid : d.claimId = g.claimId
  · obtain rfl : d = g := Table.eq_of_key hd hg.mem hid
    refine ⟨_, promoted_mem hg, rfl, ?_⟩
    have hcid : (promotedClaim a t d d).cid = cid := hg.cid_eq
    have hdormant : isOverdue t d = false := by
      simp [isOverdue, hg.dormant]
    have hfresh : isOverdue t (promotedClaim a t d d) = false := by
      have hexp : ¬ (promotedClaim a t d d).expiryTs < t := by
        change ¬ t + d.paidHours * Pricing.hourMs < t
        omega
      rw [isOverdue, decide_eq_false hexp, Bool.and_false]
    rw [stateLeft, stateLeft, hfresh, hdormant, hcid, hnone, hg.cid_eq, hsome, if_pos rfl,
      if_neg Bool.false_ne_true, if_neg Bool.false_ne_true,
      if_neg (Option.some_ne_none _).symm]
    rfl
  · refine ⟨d, (claims_promote_cases hg).mpr (.inl ⟨hd, hid⟩), rfl, ?_⟩
    by_cases hcid : d.cid = cid
    · have hne : some g ≠ some d := by
        intro heq
        exact hid (congrArg Claim.claimId (Option.some.inj heq)).symm
      rw [stateLeft_of_ne, stateLeft_of_ne]
      · rw [hcid, hsome]
        exact hne
      · rw [hcid, hnone]
        exact (Option.some_ne_none _).symm
    · exact (stateLeft_congr (alike_of_sameOn (promote_sameOn hg hcid))).symm

end Promote

/-! ## Interchanging the two -/

def stateOf (db : Db) (claimId : Nat) : Option ClaimState := (getClaim db claimId).map Claim.state

/-- The claim went from dormant to active. -/
def Activated (before after : Db) (claimId : Nat) : Prop :=
  stateOf before claimId = some .dormant ∧ stateOf after claimId = some .active

def activePins (db : Db) : List Pin := db.pins.filter (fun p => p.status = .active)

/-- A cancel and a sweep against the sweep alone. -/
structure Interchangeable (db : Db) (c : Claim) (e : Ended) (both alone : Swept × Db) : Prop where
  pins : ((activePins both.2).map anonymous).Perm ((activePins alone.2).map anonymous)
  states : ∀ claimId, claimId ≠ c.claimId → stateOf both.2 claimId = stateOf alone.2 claimId
  promoted : ∀ claimId, Activated db both.2 claimId ↔ Activated db alone.2 claimId
  unpins : ∀ cid, (cid = c.cid ∧ e.fullyUnpinned = true) ∨ cid ∈ both.1.cidsToUnpin ↔
    cid ∈ alone.1.cidsToUnpin

/-- Sweeps from both databases decide the same, apart from one claim. -/
structure SameSweep (db mid : Db) (t : Int) (skip : Nat) : Prop where
  pins : ∀ cid, pinsLeft mid t cid = pinsLeft db t cid
  states : ∀ d ∈ db.claims, d.claimId ≠ skip → ∃ d' ∈ mid.claims, d'.claimId = d.claimId ∧
    stateLeft mid t d' = stateLeft db t d
  kept : ∀ d' ∈ mid.claims, ∃ d ∈ db.claims, d.claimId = d'.claimId
  abandoned : ∀ cid, Abandoned mid t cid ↔ Abandoned db t cid

theorem stateOf_eq_some {db : Db} {claimId : Nat} {s : ClaimState} :
    stateOf db claimId = some s ↔ ∃ c ∈ db.claims, c.claimId = claimId ∧ c.state = s := by
  unfold stateOf getClaim
  rw [Option.map_eq_some_iff]
  constructor
  · rintro ⟨c, hfind, hstate⟩
    obtain ⟨hm, hid⟩ := Table.find?_eq_some.mp hfind
    exact ⟨c, hm, hid, hstate⟩
  · rintro ⟨c, hm, hid, hstate⟩
    exact ⟨c, Table.find?_eq_some.mpr ⟨hm, hid⟩, hstate⟩

theorem perm_of_cids {l l' : List Pin}
    (h : ∀ cid, (l.filter (fun p => p.cid = cid)).Perm (l'.filter (fun p => p.cid = cid))) :
    l.Perm l' := by
  rw [List.perm_iff_count]
  intro p
  have hcount := (List.perm_iff_count.mp (h p.cid)) p
  have hself : ∀ l : List Pin,
      List.count p (l.filter (fun q => decide (q.cid = p.cid))) = List.count p l :=
    fun _ => List.count_filter (by simp)
  rwa [hself, hself] at hcount

theorem filter_activePins (db : Db) (cid : Cid) :
    ((activePins db).map anonymous).filter (fun p => p.cid = cid) =
      (getActivePinsForCid db cid).map anonymous := by
  rw [List.filter_map]
  refine congrArg (List.map anonymous) ?_
  unfold activePins getActivePinsForCid Table.filter
  rw [List.filter_filter]
  refine List.filter_congr (fun p _ => ?_)
  rfl

theorem interchangeable {db mid : Db} {t : Int} {c : Claim} {e : Ended}
    (hc : c ∈ db.claims) (ha : c.state = .active) (hdb : Linked db) (hmid : Linked mid)
    (h : SameSweep db mid t c.claimId)
    (hunpin : e.fullyUnpinned = true → Abandoned db t c.cid) :
    Interchangeable db c e (sweep mid t) (sweep db t) := by
  have hboth := sweep_spec hmid t
  have halone := sweep_spec hdb t
  have hstates : ∀ claimId, claimId ≠ c.claimId →
      stateOf (sweep mid t).2 claimId = stateOf (sweep db t).2 claimId := by
    intro claimId hne
    by_cases hrow : ∃ d ∈ db.claims, d.claimId = claimId
    · obtain ⟨d, hd, rfl⟩ := hrow
      obtain ⟨d', hd', hid', hstate'⟩ := h.states d hd hne
      obtain ⟨x, hx, hxid, _, hxstate⟩ := hboth.states d' hd'
      obtain ⟨y, hy, hyid, _, hystate⟩ := halone.states d hd
      rw [stateOf_eq_some.mpr ⟨x, hx, hxid.trans hid', hxstate.trans hstate'⟩,
        stateOf_eq_some.mpr ⟨y, hy, hyid, hystate⟩]
    · have hnone : ∀ out : Db, (∀ x ∈ out.claims, ∃ d ∈ db.claims, d.claimId = x.claimId) →
          stateOf out claimId = none := by
        intro out hkept
        rw [Option.eq_none_iff_forall_ne_some]
        intro s hs
        obtain ⟨x, hx, hxid, _⟩ := stateOf_eq_some.mp hs
        obtain ⟨d, hd, hdid⟩ := hkept x hx
        exact hrow ⟨d, hd, hdid.trans hxid⟩
      rw [hnone _ halone.kept, hnone _ ?_]
      intro x hx
      obtain ⟨d', hd', hid'⟩ := hboth.kept x hx
      obtain ⟨d, hd, hid⟩ := h.kept d' hd'
      exact ⟨d, hd, hid.trans hid'⟩
  refine ⟨perm_of_cids (fun cid => ?_), hstates, fun claimId => ?_, fun cid => ?_⟩
  · rw [filter_activePins, filter_activePins]
    have hleft := hboth.pins cid
    rw [h.pins] at hleft
    exact hleft.trans (halone.pins cid).symm
  · by_cases hid : claimId = c.claimId
    · have hactive : stateOf db claimId = some .active :=
        stateOf_eq_some.mpr ⟨c, hc, hid.symm, ha⟩
      unfold Activated
      rw [hactive]
      exact iff_of_false (fun h => nomatch h.1) (fun h => nomatch h.1)
    · unfold Activated
      rw [hstates claimId hid]
  · rw [hboth.unpins, halone.unpins, h.abandoned]
    constructor
    · rintro (⟨rfl, hfull⟩ | habandoned)
      · exact hunpin hfull
      · exact habandoned
    · exact .inr

/-! ## From the correspondence -/

theorem linked_of_corresponds {s : LedgerRun.Ledger} (h : Corresponds s) : Linked s.db := by
  intro c hc ha p hp hactive hlink
  obtain ⟨q, hq, hqlink, _, _, _, hexp⟩ := (h.active_iff c hc).mp ha
  have hid : p.id = q.id := Option.some.inj (hlink.symm.trans hqlink)
  rw [Table.eq_of_key hp hq hid]
  exact hexp

/-- Ending a claim links nothing new. -/
theorem linked_endClaim {db : Db} (h : Linked db) (t : Int) (c : Claim) (reason : String) :
    Linked (Quota.endClaim db t c reason) := by
  intro d hd hda p hp hpa hlink
  obtain ⟨d, hold, rfl⟩ := mem_closeClaims.mp hd
  obtain ⟨hactive, hskip⟩ := (closedClaim_state (by decide)).mp hda
  obtain ⟨q, hq, rfl⟩ := mem_endPins.mp hp
  obtain ⟨hqa, hqskip⟩ := (leftPin_active (by decide)).mp hpa
  rw [closedClaim_of_skip hskip, leftPin_id] at hlink
  rw [closedClaim_of_skip hskip, leftPin_expiresAt]
  exact h d hold hactive q hq hqa hlink

/-- A promotion links the guardian to its new pin, which no other active claim holds. -/
theorem linked_promote {db : Db} (h : Linked db) {t : Int} {cid : Cid} {g : Claim}
    (hg : DormantGuardian db cid g)
    (hplaced : ∀ c ∈ db.claims, c.state = .active → ∀ n, c.pinId = some n → n < db.pins.next) :
    Linked (Quota.promote db t g) := by
  intro c hc ha p hp hactive hlink
  rcases (claims_promote_cases hg).mp hc with ⟨hcold, _⟩ | rfl
  · rcases mem_pins_promote.mp hp with hpold | rfl
    · exact h c hcold ha p hpold hactive hlink
    · exact absurd (hplaced c hcold ha _ hlink) (Nat.lt_irrefl _)
  · rcases mem_pins_promote.mp hp with hpold | rfl
    · have hid : db.pins.next = p.id := Option.some.inj hlink
      exact absurd hid.symm (Table.ne_next hpold)
    · rfl

theorem placed_endClaim {db : Db} {t : Int} {c : Claim} {reason : String}
    (h : ∀ d ∈ db.claims, d.state = .active → ∀ n, d.pinId = some n → n < db.pins.next) :
    ∀ d ∈ (endClaim db t c reason).claims, d.state = .active → ∀ n, d.pinId = some n →
      n < (endClaim db t c reason).pins.next := by
  intro d hd hda n hn
  obtain ⟨d, hold, rfl⟩ := mem_closeClaims.mp hd
  rw [closedClaim_pinId] at hn
  exact h d hold ((closedClaim_state (by decide)).mp hda).1 n hn

theorem refund_exists (cfg : Config) {c : Claim} (now : Int) (hsize : 0 < c.sizeBytes) :
    ∃ r, Pricing.calculateRefund cfg c now = .ok r := by
  unfold Pricing.calculateRefund
  split
  · exact ⟨_, rfl⟩
  · obtain ⟨mb, hmb⟩ := Pricing.billableMB_of_pos cfg hsize
    rw [hmb]
    change ∃ r, (if Pricing.roundCoins cfg _ < cfg.minRefund then _ else _) = _
    split
    · exact ⟨_, rfl⟩
    · exact ⟨_, rfl⟩

/-- Once its hours are over, a claim is refunded nothing: the hours used are rounded up past the
hours that were paid. -/
theorem refund_overdue {cfg : Config} {c : Claim} {now : Int}
    (htimed : c.expiryTs = c.startTs + c.paidHours * 3600000) (hover : c.expiryTs < now)
    {r : Pricing.RefundQuote} (hr : Pricing.calculateRefund cfg c now = .ok r) : r.amount = 0 := by
  have hused : c.paidHours < ⌈((now - c.startTs : Int) : ℚ) / Pricing.hourMs⌉ := by
    rw [Int.lt_ceil, lt_div_iff₀ (by norm_num [Pricing.hourMs])]
    have hlt : c.paidHours * Pricing.hourMs < now - c.startTs := by
      simp only [Pricing.hourMs]
      omega
    exact_mod_cast hlt
  have hnone : max (c.paidHours - max 1 ⌈((now - c.startTs : Int) : ℚ) / Pricing.hourMs⌉) 0 = 0 := by
    omega
  unfold Pricing.calculateRefund at hr
  split at hr
  · cases hr
    rfl
  · cases hmb : Pricing.billableMB cfg c.sizeBytes with
    | error e =>
      rw [hmb] at hr
      cases hr
    | ok mb =>
      rw [hmb] at hr
      change (if _ then _ else _) = _ at hr
      split at hr
      · cases hr
        rfl
      · cases hr
        change Pricing.roundCoins cfg (((max (c.paidHours - max 1
          ⌈((now - c.startTs : Int) : ℚ) / Pricing.hourMs⌉) 0 : Int) : ℚ) * mb * c.rateLocked *
            Pricing.cappedCopies cfg (.fin c.copiesRequested)) = 0
        rw [hnone, Int.cast_zero, zero_mul, zero_mul, zero_mul]
        exact Lib.roundTo_zero _

theorem placed_of_corresponds {s : LedgerRun.Ledger} (h : Corresponds s) :
    ∀ d ∈ s.db.claims, d.state = .active → ∀ n, d.pinId = some n → n < s.db.pins.next := by
  intro d hd hda n hn
  obtain ⟨q, hq, hqlink, _⟩ := (h.active_iff d hd).mp hda
  rw [Option.some.inj (hn.symm.trans hqlink)]
  exact Table.key_lt_next hq

/-! ## What the cancel leaves to the sweep -/

section Leaves

variable {db before : Db} {t : Int} {c g : Claim} {cid : Cid} {skip : Nat}

theorem sameSweep_endClaim (hc : c ∈ db.claims) (ha : c.state = .active)
    (hover : ∀ q ∈ db.pins, c.pinId = some q.id → q.expiresAt < t) (reason : String) :
    SameSweep db (endClaim db t c reason) t c.claimId where
  pins := fun cid => (alike_endClaim hc ha hover cid).pinsLeft
  states := fun d hd hne =>
    ⟨d, endClaim_skips hc ha hd (.inr hne), rfl, stateLeft_congr (alike_endClaim hc ha hover d.cid)⟩
  kept := by
    intro d' hd'
    obtain ⟨d, hd, rfl⟩ := mem_closeClaims.mp hd'
    exact ⟨d, hd, closedClaim_claimId.symm⟩
  abandoned := fun cid => (alike_endClaim hc ha hover cid).abandoned

/-- A promotion that the sweep would make itself leaves it the other decisions. -/
theorem sameSweep_promote (h : SameSweep db before t skip)
    (hno : ∀ p, ¬ ActivePin before cid p) (hg : DormantGuardian before cid g)
    (hlive : t ≤ t + g.paidHours * Pricing.hourMs) (hsome : successor before t cid = some g) :
    SameSweep db (promote before t g) t skip where
  pins := fun other => (pinsLeft_promote hno hg hlive hsome other).trans (h.pins other)
  states := by
    intro d hd hne
    obtain ⟨d', hd', hid', hstate'⟩ := h.states d hd hne
    obtain ⟨x, hx, hxid, hxstate⟩ := stateLeft_promote hno hg hlive hsome hd'
    exact ⟨x, hx, hxid.trans hid', hxstate.trans hstate'⟩
  kept := by
    intro x hx
    rcases (claims_promote_cases hg).mp hx with ⟨hold, _⟩ | rfl
    · exact h.kept x hold
    · exact h.kept g hg.mem
  abandoned := fun other => (abandoned_promote hno hg hlive other).trans (h.abandoned other)

/-- A promoted guardian has its hours ahead of it. -/
theorem live_of_endClaim (hpaid : ∀ d ∈ db.claims, d.state = .dormant → 0 ≤ d.paidHours)
    {reason : String} (hg : DormantGuardian (endClaim db t c reason) cid g) :
    t ≤ t + g.paidHours * Pricing.hourMs := by
  obtain ⟨d, hd, rfl⟩ := mem_closeClaims.mp hg.mem
  have hhours := hpaid d hd ((closedClaim_state (by decide)).mp hg.dormant).1
  rw [closedClaim_paidHours]
  simp only [Pricing.hourMs]
  omega

end Leaves

/-- Ending an overdue claim and reconciling its CID leaves the sweep the same decisions, but
for the promotion it makes itself. -/
theorem sameSweep_retire {s : LedgerRun.Ledger} (h : Corresponds s)
    (hpaid : ∀ g ∈ s.db.claims, g.state = .dormant → 0 ≤ g.paidHours) {t : Int} {c : Claim}
    (hc : c ∈ s.db.claims) (ha : c.state = .active) (hover : c.expiryTs < t) (reason : String) :
    Linked (retire s.db t c reason).2 ∧ SameSweep s.db (retire s.db t c reason).2 t c.claimId ∧
      ((retire s.db t c reason).1.fullyUnpinned = true → Abandoned s.db t c.cid) := by
  obtain ⟨p, hp, hlink, hactive, hpcid, _, hexp⟩ := (h.active_iff c hc).mp ha
  have hselected : ∀ q ∈ s.db.pins, c.pinId = some q.id → q.expiresAt < t := by
    intro q hq hsel
    have hid : q.id = p.id := Option.some.inj (hsel.symm.trans hlink)
    rw [Table.eq_of_key hq hp hid, hexp]
    exact hover
  have halike : Alike (endClaim s.db t c reason) s.db t c.cid :=
    alike_endClaim hc ha hselected c.cid
  have hfirst : SameSweep s.db (endClaim s.db t c reason) t c.claimId :=
    sameSweep_endClaim hc ha hselected reason
  have hend : Linked (endClaim s.db t c reason) :=
    linked_endClaim (linked_of_corresponds h) t c reason
  have hrec := reconciles (endClaim s.db t c reason) t c.cid
  change Linked (reconcileCidAfterEnd (endClaim s.db t c reason) t c.cid).2 ∧
    SameSweep s.db (reconcileCidAfterEnd (endClaim s.db t c reason) t c.cid).2 t c.claimId ∧
    ((reconcileCidAfterEnd (endClaim s.db t c reason) t c.cid).1.unpin = true → _)
  -- the cancelled claim's own pin is what makes the sweep look at the CID
  have htouched : Touched (endClaim s.db t c reason) t c.cid :=
    halike.touched.mpr ⟨p, hp, hpcid, .inr ⟨hactive, hexp.trans_lt hover⟩⟩
  have hvacated : (∀ p, ¬ ActivePin (endClaim s.db t c reason) c.cid p) →
      Vacated (endClaim s.db t c reason) t c.cid := by
    intro hno
    refine ⟨htouched, List.eq_nil_iff_forall_not_mem.mpr (fun p hp => ?_)⟩
    exact hno p (mem_survivors.mp hp).1
  generalize reconcileCidAfterEnd (endClaim s.db t c reason) t c.cid = out at hrec ⊢
  obtain ⟨r, after⟩ := out
  cases hrec with
  | hosted p hp => exact ⟨hend, hfirst, fun hunpin => absurd hunpin Bool.false_ne_true⟩
  | dropped hno hq =>
    refine ⟨hend, hfirst, fun _ => halike.abandoned.mp ⟨hvacated hno, ?_⟩⟩
    refine List.eq_nil_iff_forall_not_mem.mpr (fun g hg => ?_)
    exact hq g (mem_getDormantGuardiansForCid.mp hg)
  | promoted g hno hg hfirstQueued =>
    have hsome : successor (endClaim s.db t c reason) t c.cid = some g := by
      rw [successor, if_pos (hvacated hno), head_of_first hg hfirstQueued]
    exact ⟨linked_promote hend hg (placed_endClaim (placed_of_corresponds h)),
      sameSweep_promote hfirst hno hg (live_of_endClaim hpaid hg) hsome,
      fun hunpin => absurd hunpin Bool.false_ne_true⟩

/-- Cancelling an overdue claim and then sweeping amounts to sweeping alone, after which the
cancel is refused; the cancelled claim is refunded nothing. -/
theorem cancel_overdue {s : LedgerRun.Ledger} (h : Corresponds s)
    (hpaid : ∀ g ∈ s.db.claims, g.state = .dormant → 0 ≤ g.paidHours) {t : Int} {c : Claim}
    (hc : c ∈ s.db.claims) (ha : c.state = .active) (htimed : c.claimId ∉ s.untimed)
    (hover : c.expiryTs < t) {owner : Option Account} {asAdmin : Bool}
    (hauth : asAdmin = true ∨ owner = some c.owner) :
    (∃ e cancelled, cancelClaim s.db t c.claimId owner asAdmin = .ok (e, cancelled) ∧
      e.claim = c ∧ Interchangeable s.db c e (sweep cancelled t) (sweep s.db t)) ∧
    (∀ t', ∃ message, cancelClaim (sweep s.db t).2 t' c.claimId owner asAdmin =
      .error ⟨"conflict", message⟩) ∧
    ∀ (cfg : Config), ∀ now ≥ t,
      (0 < c.sizeBytes → ∃ r, Pricing.calculateRefund cfg c now = .ok r) ∧
      ∀ r, Pricing.calculateRefund cfg c now = .ok r → r.amount = 0 := by
  have hallowed : (!asAdmin && owner ≠ some c.owner) = false := by
    rcases hauth with rfl | rfl
    · rfl
    · simp
  refine ⟨?_, fun t' => ?_, fun cfg now hnow => ?_⟩
  · obtain ⟨hlinked, hsame, hunpin⟩ := sameSweep_retire h hpaid hc ha hover "claim_cancelled"
    refine ⟨_, (retire s.db t c "claim_cancelled").2, ?_, rfl,
      interchangeable hc ha (linked_of_corresponds h) hlinked hsame hunpin⟩
    have hfound : getClaim s.db c.claimId = some c := Table.find?_eq_some.mpr ⟨hc, rfl⟩
    have hdormant : ¬ c.state = .dormant := by
      rw [ha]
      decide
    unfold cancelClaim
    rw [hfound]
    change (if (!asAdmin && owner ≠ some c.owner) = true then _ else
      if c.state = .dormant then _ else if c.state = .active then _ else _) = _
    rw [hallowed, if_neg Bool.false_ne_true, if_neg hdormant, if_pos ha]
  · have hspec := sweep_spec (linked_of_corresponds h) t
    obtain ⟨swept, hmem, hid, howner, hstate⟩ := hspec.states c hc
    have hoverdue : isOverdue t c = true := by
      simp [isOverdue, ha, hover]
    rw [stateLeft, if_pos hoverdue] at hstate
    have hfound : getClaim (sweep s.db t).2 c.claimId = some swept :=
      Table.find?_eq_some.mpr ⟨hmem, hid⟩
    refine ⟨s!"claim is {swept.state.text}, cannot cancel", ?_⟩
    unfold cancelClaim
    rw [hfound]
    change (if (!asAdmin && owner ≠ some swept.owner) = true then _ else
      if swept.state = .dormant then _ else if swept.state = .active then _ else _) = _
    rw [howner, hallowed, if_neg Bool.false_ne_true, if_neg (by rw [hstate]; decide),
      if_neg (by rw [hstate]; decide)]
  · have hsince := h.timed c hc ha htimed
    have hnow' : c.expiryTs < now := by omega
    exact ⟨refund_exists cfg now, fun r hr => refund_overdue hsince hnow' hr⟩

section Sampled

open Sample

/-- Alice has her file hosted for a day, and Bob guards it. -/
def guardedByBob : List (GateEvent config) :=
  hostedByAlice ++ [.spawn (pledgeBy "bob")] ++ resumed 3 0

/-- The rows at that point of the run, with every claim timed. -/
def guarded : LedgerRun.Ledger where
  db := (serve config 0 guardedByBob).world.db
  untimed := []

theorem guarded_corresponds : Corresponds guarded :=
  corresponds_of_lockstep (serve_lockstep config 0 guardedByBob) (by unfold Timed; decide +kernel)

/-- In a run of the gate nobody pledges for less than an hour. -/
theorem hours_of_guarded (g : Claim) (hg : g ∈ guarded.db.claims) : 0 ≤ g.paidHours := by
  have hhours := hourly_serve config 0 guardedByBob g hg
  omega

/-- Alice's claim is over after a day; Bob takes the file over either way. -/
theorem cancel_overdue_guarded :
    (∃ g ∈ guarded.db.claims, g.owner = "bob" ∧ g.state = .dormant) ∧
    ∃ c ∈ guarded.db.claims, c.owner = "alice" ∧
      ∃ e cancelled, cancelClaim guarded.db 90000000 c.claimId (some "alice") false =
        .ok (e, cancelled) ∧
      Interchangeable guarded.db c e (sweep cancelled 90000000) (sweep guarded.db 90000000) := by
  have hmem : ∃ c ∈ guarded.db.claims, c.owner = "alice" ∧ c.state = .active ∧
      c.expiryTs < 90000000 := by decide +kernel
  obtain ⟨c, hc, howner, ha, hover⟩ := hmem
  obtain ⟨⟨e, cancelled, hrun, _, hsame⟩, _⟩ := cancel_overdue guarded_corresponds
    (fun g hg _ => hours_of_guarded g hg) hc ha List.not_mem_nil hover
    (.inr (congrArg some howner.symm))
  exact ⟨by decide +kernel, c, hc, howner, e, cancelled, hrun, hsame⟩

end Sampled

end IpfsGate.Server.Overdue
