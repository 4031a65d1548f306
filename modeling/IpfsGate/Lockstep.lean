import IpfsGate.Reconcile

/-!
# Claims and pins in lockstep

The correspondence between the claims table and the pins table, as one invariant, and a
preservation lemma for each kind of write: ending, hosting, pledging, extending, promoting.
-/
namespace IpfsGate.Quota

open Lib (Table)

structure Lockstep (db : Db) : Prop where
  /-- A claim's pin exists and is of the claim's CID and owner. -/
  own : ∀ c ∈ db.claims, ∀ n, c.pinId = some n →
    ∃ p ∈ db.pins, p.id = n ∧ p.cid = c.cid ∧ p.uploader = c.owner
  /-- No two claims share a pin. -/
  unshared : ∀ c ∈ db.claims, ∀ d ∈ db.claims, ∀ n, c.pinId = some n → d.pinId = some n → c = d
  dormant : ∀ c ∈ db.claims, c.state = .dormant → c.pinId = none
  active : ∀ c ∈ db.claims, c.state = .active → c.pinId ≠ none
  status : ∀ c ∈ db.claims, ∀ p ∈ db.pins, c.pinId = some p.id →
    (p.status = .active ↔ c.state = .active)
  expiry : ∀ c ∈ db.claims, ∀ p ∈ db.pins, c.pinId = some p.id → c.state = .active →
    p.expiresAt = c.expiryTs
  funded : ∀ p ∈ db.pins, p.status = .active → ∃ c ∈ db.claims, c.pinId = some p.id

namespace Lockstep

variable {db : Db}

theorem empty : Lockstep Db.empty := by
  constructor
  · intro c hc; exact absurd hc (Table.not_mem_empty c)
  · intro c hc; exact absurd hc (Table.not_mem_empty c)
  · intro c hc; exact absurd hc (Table.not_mem_empty c)
  · intro c hc; exact absurd hc (Table.not_mem_empty c)
  · intro c hc; exact absurd hc (Table.not_mem_empty c)
  · intro c hc; exact absurd hc (Table.not_mem_empty c)
  · intro p hp; exact absurd hp (Table.not_mem_empty p)

/-- Only the claims and pins tables matter. -/
theorem congr {a b : Db} (h : Lockstep a) (hp : b.pins = a.pins) (hc : b.claims = a.claims) :
    Lockstep b := by
  obtain ⟨h₁, h₂, h₃, h₄, h₅, h₆, h₇⟩ := h
  rw [← hp, ← hc] at *
  exact ⟨h₁, h₂, h₃, h₄, h₅, h₆, h₇⟩

/-- The pin of an active claim. -/
theorem pin_of_active (h : Lockstep db) {c : Claim} (hc : c ∈ db.claims)
    (ha : c.state = .active) :
    ∃ p ∈ db.pins, c.pinId = some p.id ∧ p.status = .active ∧ p.cid = c.cid ∧
      p.uploader = c.owner ∧ p.expiresAt = c.expiryTs := by
  cases hn : c.pinId with
  | none => exact absurd hn (h.active c hc ha)
  | some n =>
    obtain ⟨p, hp, hid, hcid, hown⟩ := h.own c hc n hn
    subst hid
    exact ⟨p, hp, rfl, (h.status c hc p hp hn).mpr ha, hcid, hown, h.expiry c hc p hp hn ha⟩

/-- The claim of an active pin. -/
theorem claim_of_active (h : Lockstep db) {p : Pin} (hp : p ∈ db.pins)
    (ha : p.status = .active) :
    ∃ c ∈ db.claims, c.pinId = some p.id ∧ c.state = .active ∧ p.cid = c.cid ∧
      p.uploader = c.owner ∧ p.expiresAt = c.expiryTs := by
  obtain ⟨c, hc, hn⟩ := h.funded p hp ha
  have hca := (h.status c hc p hp hn).mp ha
  obtain ⟨q, hq, hid, hcid, hown⟩ := h.own c hc p.id hn
  have hqp : q = p := Table.eq_of_key hq hp hid
  subst hqp
  exact ⟨c, hc, hn, hca, hcid, hown, h.expiry c hc q hq hn hca⟩

theorem pinId_lt_next (h : Lockstep db) {c : Claim} (hc : c ∈ db.claims) {n : Nat}
    (hn : c.pinId = some n) : n < db.pins.next := by
  obtain ⟨p, hp, rfl, _⟩ := h.own c hc n hn
  exact Table.key_lt_next hp

/-- Closing claims and ending pins keeps the correspondence when the two selections agree on
every active claim and its pin. -/
theorem ending (h : Lockstep db) {after : Db} {t : Int} {state : ClaimState}
    {status : PinStatus} {reason : Pin → Option String} {selectClaim : Claim → Bool}
    {selectPin : Pin → Bool}
    (hclaims : ∀ c, c ∈ after.claims ↔ ∃ d ∈ db.claims, c = closedClaim state selectClaim d)
    (hpins : ∀ p, p ∈ after.pins ↔ ∃ q ∈ db.pins, p = leftPin t status reason selectPin q)
    (hactive : state ≠ .active) (hdormant : state ≠ .dormant) (hstatus : status ≠ .active)
    (hagree : ∀ c ∈ db.claims, ∀ p ∈ db.pins, c.state = .active → c.pinId = some p.id →
      selectClaim c = selectPin p) : Lockstep after := by
  constructor
  · intro c hc n hn
    obtain ⟨d, hd, rfl⟩ := (hclaims c).mp hc
    rw [closedClaim_pinId] at hn
    obtain ⟨q, hq, hid, hcid, hown⟩ := h.own d hd n hn
    exact ⟨_, (hpins _).mpr ⟨q, hq, rfl⟩, by simpa using ⟨hid, hcid, hown⟩⟩
  · intro c hc c' hc' n hn hn'
    obtain ⟨d, hd, rfl⟩ := (hclaims c).mp hc
    obtain ⟨d', hd', rfl⟩ := (hclaims c').mp hc'
    rw [closedClaim_pinId] at hn hn'
    rw [h.unshared d hd d' hd' n hn hn']
  · intro c hc hs
    obtain ⟨d, hd, rfl⟩ := (hclaims c).mp hc
    rw [closedClaim_pinId]
    exact h.dormant d hd ((closedClaim_state hdormant).mp hs).1
  · intro c hc hs
    obtain ⟨d, hd, rfl⟩ := (hclaims c).mp hc
    rw [closedClaim_pinId]
    exact h.active d hd ((closedClaim_state hactive).mp hs).1
  · intro c hc p hp hn
    obtain ⟨d, hd, rfl⟩ := (hclaims c).mp hc
    obtain ⟨q, hq, rfl⟩ := (hpins p).mp hp
    rw [closedClaim_pinId, leftPin_id] at hn
    rw [leftPin_active hstatus, closedClaim_state hactive, h.status d hd q hq hn]
    refine and_congr_right ?_
    intro ha
    rw [hagree d hd q hq ha hn]
  · intro c hc p hp hn hs
    obtain ⟨d, hd, rfl⟩ := (hclaims c).mp hc
    obtain ⟨q, hq, rfl⟩ := (hpins p).mp hp
    rw [closedClaim_pinId, leftPin_id] at hn
    rw [leftPin_expiresAt, closedClaim_expiryTs]
    exact h.expiry d hd q hq hn ((closedClaim_state hactive).mp hs).1
  · intro p hp hs
    obtain ⟨q, hq, rfl⟩ := (hpins p).mp hp
    obtain ⟨d, hd, hn⟩ := h.funded q hq ((leftPin_active hstatus).mp hs).1
    exact ⟨_, (hclaims _).mpr ⟨d, hd, rfl⟩, by simpa using hn⟩

/-- Closing and ending with the two update statements. -/
theorem closeAndEnd (h : Lockstep db) {t : Int} {state : ClaimState} {status : PinStatus}
    {reason : Pin → Option String} {selectClaim : Claim → Bool} {selectPin : Pin → Bool}
    (hactive : state ≠ .active) (hdormant : state ≠ .dormant) (hstatus : status ≠ .active)
    (hagree : ∀ c ∈ db.claims, ∀ p ∈ db.pins, c.state = .active → c.pinId = some p.id →
      selectClaim c = selectPin p) :
    Lockstep (endPins (closeClaims db state selectClaim) t status reason selectPin) :=
  h.ending (fun _ => mem_closeClaims) (fun _ => mem_endPins) hactive hdormant hstatus hagree

/-- Ending pins none of which is active keeps the correspondence. -/
theorem endPins_idle (h : Lockstep db) {t : Int} {status : PinStatus}
    {reason : Pin → Option String} {select : Pin → Bool} (hstatus : status ≠ .active)
    (hidle : ∀ p ∈ db.pins, p.status = .active → select p = false) :
    Lockstep (endPins db t status reason select) := by
  have hclaims : ∀ c, c ∈ (endPins db t status reason select).claims ↔
      ∃ d ∈ db.claims, c = closedClaim .cancelled (fun _ => false) d := by
    have hsame : ∀ d : Claim, closedClaim .cancelled (fun _ => false) d = d :=
      fun d => closedClaim_of_skip rfl
    intro c
    simp only [hsame, exists_eq_right']
    rfl
  refine h.ending hclaims (fun _ => mem_endPins) (by decide) (by decide) hstatus ?_
  intro c hc p hp ha hn
  exact (hidle p hp ((h.status c hc p hp hn).mpr ha)).symm

/-- Closing claims none of which is active keeps the correspondence. -/
theorem closeClaims_idle (h : Lockstep db) {state : ClaimState} {select : Claim → Bool}
    (hactive : state ≠ .active) (hdormant : state ≠ .dormant)
    (hidle : ∀ c ∈ db.claims, c.state = .active → select c = false) :
    Lockstep (closeClaims db state select) := by
  have hpins : ∀ p, p ∈ (closeClaims db state select).pins ↔
      ∃ q ∈ db.pins, p = leftPin 0 .expired (fun _ => none) (fun _ => false) q := by
    have hsame : ∀ q : Pin, leftPin 0 .expired (fun _ => none) (fun _ => false) q = q :=
      fun q => leftPin_of_skip rfl
    intro p
    simp only [hsame, exists_eq_right']
    rfl
  refine h.ending (fun _ => mem_closeClaims) hpins hactive hdormant (by decide) ?_
  intro c hc p hp ha hn
  exact hidle c hc ha

/-- A new active claim linked to a new pin of its CID, owner and expiry. It may take the
place of claims that had no pin. -/
theorem hosting (h : Lockstep db) {after : Db} (p : Pin) (c : Claim) (Kept : Claim → Prop)
    (hpins : ∀ q, q ∈ after.pins ↔ q ∈ db.pins ∨ q = p)
    (hclaims : ∀ d, d ∈ after.claims ↔ (d ∈ db.claims ∧ Kept d) ∨ d = c)
    (hgone : ∀ d ∈ db.claims, ¬ Kept d → d.pinId = none)
    (hid : p.id = db.pins.next) (hlink : c.pinId = some p.id) (hpa : p.status = .active)
    (hca : c.state = .active) (hcid : p.cid = c.cid) (hown : p.uploader = c.owner)
    (hexp : p.expiresAt = c.expiryTs) : Lockstep after := by
  have hold : ∀ d ∈ db.claims, d.pinId ≠ some p.id := by
    intro d hd hn
    have hlt := h.pinId_lt_next hd hn
    omega
  have hnew : ∀ q ∈ db.pins, c.pinId ≠ some q.id := by
    intro q hq hn
    have hlt : q.id < db.pins.next := Table.key_lt_next hq
    rw [hlink, Option.some.injEq] at hn
    omega
  constructor
  · intro d hd n hn
    rcases (hclaims d).mp hd with ⟨hd, _⟩ | rfl
    · obtain ⟨q, hq, hrest⟩ := h.own d hd n hn
      exact ⟨q, (hpins q).mpr (Or.inl hq), hrest⟩
    · rw [hlink, Option.some.injEq] at hn
      exact ⟨p, (hpins p).mpr (Or.inr rfl), hn, hcid, hown⟩
  · intro d hd d' hd' n hn hn'
    rcases (hclaims d).mp hd with ⟨hd, _⟩ | hd
    · rcases (hclaims d').mp hd' with ⟨hd', _⟩ | hd'
      · exact h.unshared d hd d' hd' n hn hn'
      · subst hd'
        exact absurd (hn.trans (hn'.symm.trans hlink)) (hold d hd)
    · rcases (hclaims d').mp hd' with ⟨hd', _⟩ | hd'
      · subst hd
        exact absurd (hn'.trans (hn.symm.trans hlink)) (hold d' hd')
      · rw [hd, hd']
  · intro d hd hs
    rcases (hclaims d).mp hd with ⟨hd, _⟩ | rfl
    · exact h.dormant d hd hs
    · rw [hca] at hs
      cases hs
  · intro d hd hs
    rcases (hclaims d).mp hd with ⟨hd, _⟩ | rfl
    · exact h.active d hd hs
    · rw [hlink]
      exact Option.some_ne_none _
  · intro d hd q hq hn
    rcases (hclaims d).mp hd with ⟨hd, _⟩ | rfl
    · rcases (hpins q).mp hq with hq | rfl
      · exact h.status d hd q hq hn
      · exact absurd hn (hold d hd)
    · rcases (hpins q).mp hq with hq | rfl
      · exact absurd hn (hnew q hq)
      · simp [hpa, hca]
  · intro d hd q hq hn hs
    rcases (hclaims d).mp hd with ⟨hd, _⟩ | rfl
    · rcases (hpins q).mp hq with hq | rfl
      · exact h.expiry d hd q hq hn hs
      · exact absurd hn (hold d hd)
    · rcases (hpins q).mp hq with hq | rfl
      · exact absurd hn (hnew q hq)
      · exact hexp
  · intro q hq hs
    rcases (hpins q).mp hq with hq | rfl
    · obtain ⟨d, hd, hn⟩ := h.funded q hq hs
      refine ⟨d, (hclaims d).mpr (Or.inl ⟨hd, ?_⟩), hn⟩
      by_contra hgo
      rw [hgone d hd hgo] at hn
      cases hn
    · exact ⟨c, (hclaims c).mpr (Or.inr rfl), hlink⟩

/-- A new dormant claim without a pin. -/
theorem pledging (h : Lockstep db) {after : Db} {c : Claim} (hpins : after.pins = db.pins)
    (hclaims : ∀ d, d ∈ after.claims ↔ d ∈ db.claims ∨ d = c) (hlink : c.pinId = none)
    (hca : c.state ≠ .active) : Lockstep after := by
  constructor
  · intro d hd n hn
    rcases (hclaims d).mp hd with hd | rfl
    · rw [hpins]
      exact h.own d hd n hn
    · rw [hlink] at hn
      cases hn
  · intro d hd d' hd' n hn hn'
    rcases (hclaims d).mp hd with hd | rfl
    · rcases (hclaims d').mp hd' with hd' | rfl
      · exact h.unshared d hd d' hd' n hn hn'
      · rw [hlink] at hn'
        cases hn'
    · rw [hlink] at hn
      cases hn
  · intro d hd hs
    rcases (hclaims d).mp hd with hd | rfl
    · exact h.dormant d hd hs
    · exact hlink
  · intro d hd hs
    rcases (hclaims d).mp hd with hd | rfl
    · exact h.active d hd hs
    · exact absurd hs hca
  · intro d hd q hq hn
    rw [hpins] at hq
    rcases (hclaims d).mp hd with hd | rfl
    · exact h.status d hd q hq hn
    · rw [hlink] at hn
      cases hn
  · intro d hd q hq hn hs
    rw [hpins] at hq
    rcases (hclaims d).mp hd with hd | rfl
    · exact h.expiry d hd q hq hn hs
    · exact absurd hs hca
  · intro q hq hs
    rw [hpins] at hq
    obtain ⟨d, hd, hn⟩ := h.funded q hq hs
    exact ⟨d, (hclaims d).mpr (Or.inl hd), hn⟩

theorem promotion (h : Lockstep db) {t : Int} {g : Claim} {cid : Cid}
    (hg : DormantGuardian db cid g) : Lockstep (promote db t g) := by
  refine h.hosting (promotedPin db t g) (promotedClaim db t g g) (·.claimId ≠ g.claimId)
    (fun q => mem_pins_promote) (fun d => claims_promote_cases hg) ?_ rfl rfl rfl rfl rfl rfl rfl
  intro d hd hgone
  have hdg : d = g := Table.eq_of_key hd hg.mem (not_not.mp hgone)
  rw [hdg]
  exact h.dormant g hg.mem hg.dormant

theorem reconcileAll (h : Lockstep db) (t : Int) (cids : List Cid) :
    Lockstep (Quota.reconcileAll db t cids).2 :=
  reconcileAll_preserves Lockstep t (fun _ _ _ hdb _ hg _ => hdb.promotion hg) cids db h

/-! ## The transactions -/

/-- `createPin` and `createOrderWithClaim` in one stretch, with a claim that mirrors the pin. -/
theorem finaliseUpload (h : Lockstep db) {t t' : Int} {pin : NewPin} {n : NewClaim}
    (hlink : n.pinId = some db.pins.next) (hs : n.state = .active) (hcid : pin.cid = n.cid)
    (hown : pin.uploader = n.owner) (hexp : pin.expiresAt = n.expiryTs) :
    Lockstep (createOrderWithClaim (insertPin db t pin) t' n).2 := by
  refine h.hosting (pin.row t db.pins.next) (newClaimRow (insertPin db t pin) t' n)
    (fun _ => True) (fun q => mem_insertPin) ?_ (fun d _ hn => absurd trivial hn) rfl hlink rfl
    hs hcid hown hexp
  intro d
  rw [and_true]
  exact mem_createOrderWithClaim

theorem createOwnCopyClaim (h : Lockstep db) {t : Int} {n : OwnCopyRequest} {r : OwnCopy}
    {after : Db} (hrun : Quota.createOwnCopyClaim db t n = .ok (r, after)) : Lockstep after := by
  obtain ⟨info, _, _, rfl⟩ := createOwnCopyClaim_ok hrun
  exact h.finaliseUpload rfl rfl rfl rfl rfl

theorem extendClaim (h : Lockstep db) {claimId : Nat} {owner : Account} {extraHours : Int}
    {c : Claim} {after : Db}
    (hrun : Quota.extendClaim db claimId owner extraHours = .ok (c, after)) : Lockstep after := by
  obtain ⟨claim, hm, hid, -, -, hclaims, hpins⟩ := extendClaim_ok hrun
  generalize claim.paidHours + extraHours = hours at hclaims
  generalize claim.expiryTs + extraHours * Pricing.hourMs = expiry at hclaims hpins
  constructor
  · intro c hc n hn
    obtain ⟨d, hd, rfl⟩ := (hclaims c).mp hc
    rw [extendedClaim_pinId] at hn
    obtain ⟨q, hq, hown⟩ := h.own d hd n hn
    exact ⟨_, (hpins _).mpr ⟨q, hq, rfl⟩, by simpa using hown⟩
  · intro c hc c' hc' n hn hn'
    obtain ⟨d, hd, rfl⟩ := (hclaims c).mp hc
    obtain ⟨d', hd', rfl⟩ := (hclaims c').mp hc'
    rw [extendedClaim_pinId] at hn hn'
    rw [h.unshared d hd d' hd' n hn hn']
  · intro c hc hs
    obtain ⟨d, hd, rfl⟩ := (hclaims c).mp hc
    rw [extendedClaim_state] at hs
    rw [extendedClaim_pinId]
    exact h.dormant d hd hs
  · intro c hc hs
    obtain ⟨d, hd, rfl⟩ := (hclaims c).mp hc
    rw [extendedClaim_state] at hs
    rw [extendedClaim_pinId]
    exact h.active d hd hs
  · intro c hc p hp hn
    obtain ⟨d, hd, rfl⟩ := (hclaims c).mp hc
    obtain ⟨q, hq, rfl⟩ := (hpins p).mp hp
    rw [extendedClaim_pinId, extendedPin_id] at hn
    rw [extendedClaim_state, extendedPin_status]
    exact h.status d hd q hq hn
  · intro c hc p hp hn hs
    obtain ⟨d, hd, rfl⟩ := (hclaims c).mp hc
    obtain ⟨q, hq, rfl⟩ := (hpins p).mp hp
    rw [extendedClaim_pinId, extendedPin_id] at hn
    rw [extendedClaim_state] at hs
    have hqa := (h.status d hd q hq hn).mpr hs
    by_cases hd' : d.claimId = claimId
    · have hdc : d = claim := Table.eq_of_key hd hm (hd'.trans hid.symm)
      subst hdc
      rw [extendedPin, if_pos ⟨hn, hqa⟩, extendedClaim, if_pos hd']
    · have hother : claim.pinId ≠ some q.id := by
        intro hn'
        exact hd' (by rw [h.unshared d hd claim hm q.id hn hn', hid])
      rw [extendedPin, if_neg (fun hc => hother hc.1), extendedClaim, if_neg hd']
      exact h.expiry d hd q hq hn hs
  · intro p hp hs
    obtain ⟨q, hq, rfl⟩ := (hpins p).mp hp
    rw [extendedPin_status] at hs
    obtain ⟨d, hd, hn⟩ := h.funded q hq hs
    exact ⟨_, (hclaims _).mpr ⟨d, hd, rfl⟩, by simpa using hn⟩

theorem endClaim (h : Lockstep db) {t : Int} {claim : Claim} {reason : String}
    (hm : claim ∈ db.claims) : Lockstep (Quota.endClaim db t claim reason) := by
  refine h.closeAndEnd (by decide) (by decide) (by decide) ?_
  intro c hc p hp ha hn
  by_cases hid : c.claimId = claim.claimId
  · have hcc : c = claim := Table.eq_of_key hc hm hid
    subst hcc
    simp [ha, hn]
  · have hne : claim.pinId ≠ some p.id := by
      intro hn'
      exact hid (by rw [h.unshared c hc claim hm p.id hn hn'])
    simp [hid, hne]

theorem retire (h : Lockstep db) {t : Int} {claim : Claim} {reason : String}
    (hm : claim ∈ db.claims) : Lockstep (Quota.retire db t claim reason).2 := by
  rw [retire_eq]
  exact (h.endClaim hm).reconcileAll t _

theorem cancelClaim (h : Lockstep db) {t : Int} {claimId : Nat} {owner : Option Account}
    {asAdmin : Bool} {e : Ended} {after : Db}
    (hrun : Quota.cancelClaim db t claimId owner asAdmin = .ok (e, after)) : Lockstep after := by
  obtain ⟨⟨hm, hid, _⟩, hcases⟩ := cancelClaim_ok hrun
  rcases hcases with ⟨hdor, _, rfl⟩ | ⟨_, _, rfl⟩
  · refine h.closeClaims_idle (by decide) (by decide) ?_
    intro c hc ha
    by_cases hcid : c.claimId = claimId
    · have hcc : c = e.claim := Table.eq_of_key hc hm (hcid.trans hid.symm)
      rw [hcc, hdor] at ha
      cases ha
    · simp [hcid]
  · exact h.retire hm

theorem endActiveClaimForRelease (h : Lockstep db) {t : Int} {claimId : Nat} {e : Ended}
    {after : Db} (hrun : Quota.endActiveClaimForRelease db t claimId = .ok (e, after)) :
    Lockstep after := by
  obtain ⟨⟨hm, _⟩, _, _, rfl⟩ := endActiveClaimForRelease_ok hrun
  exact h.retire hm

theorem expireOverdue (h : Lockstep db) (t : Int) : Lockstep (Quota.expireOverdue db t) := by
  unfold Quota.expireOverdue
  have hfirst : Lockstep (endPins (closeClaims db .expired (isOverdue t)) t .expired
      (fun _ => some "claim_expired")
      (fun p => (db.claims.filter (isOverdue t)).any (fun c => c.pinId = some p.id))) := by
    refine h.closeAndEnd (by decide) (by decide) (by decide) ?_
    intro c hc p hp ha hn
    rw [Bool.eq_iff_iff, List.any_eq_true]
    constructor
    · intro ho
      exact ⟨c, Table.mem_filter.mpr ⟨hc, ho⟩, by simpa using hn⟩
    · rintro ⟨d, hd, hdn⟩
      obtain ⟨hdm, hdo⟩ := Table.mem_filter.mp hd
      rw [h.unshared c hc d hdm p.id hn (by simpa using hdn)]
      exact hdo
  refine hfirst.endPins_idle (by decide) ?_
  intro p hp ha
  -- an active pin that is left belongs to an active claim, which is not overdue
  obtain ⟨c, hc, hn, hca, _, _, hexp⟩ := hfirst.claim_of_active hp ha
  obtain ⟨d, hd, rfl⟩ := mem_closeClaims.mp hc
  obtain ⟨hda, hdo⟩ := (closedClaim_state (by decide)).mp hca
  rw [closedClaim_expiryTs] at hexp
  simp only [isOverdue, hda, decide_true, Bool.true_and, decide_eq_false_iff_not] at hdo
  simp only [decide_eq_false_iff_not]
  omega

theorem sweep (h : Lockstep db) (t : Int) : Lockstep (Quota.sweep db t).2 := by
  have hstart : Lockstep (expireReservations db t) := Lockstep.congr h rfl rfl
  exact (hstart.expireOverdue t).reconcileAll t _

/-- A pin delete is idle when the account has no active claim on the CID. -/
theorem removePinForUploader (h : Lockstep db) (t : Int) {cid : Cid} {uploader : Account}
    (hno : ∀ c ∈ db.claims, c.cid = cid → c.owner = uploader → c.state ≠ .active) :
    Lockstep (Quota.removePinForUploader db t cid uploader).2 := by
  refine h.endPins_idle (by decide) ?_
  intro p hp ha
  obtain ⟨c, hc, _, hca, hcid, hown, _⟩ := h.claim_of_active hp ha
  by_contra hsel
  simp only [Bool.not_eq_false, Bool.and_eq_true, decide_eq_true_eq] at hsel
  exact hno c hc (hcid.symm.trans hsel.1) (hown.symm.trans hsel.2) hca

/-- Voiding by owner and ending pins by uploader select the same rows. -/
theorem voidAccount (h : Lockstep db) (t : Int) (account : Account) (reason : String)
    (policy : RefundPolicy) (admin : String) :
    Lockstep (Moderation.voidAccount db t account reason policy admin) := by
  refine h.ending (fun _ => mem_closeClaims) (fun _ => mem_endPins) (by decide) (by decide)
    (by decide) ?_
  intro c hc p hp ha hn
  obtain ⟨q, hq, hid, _, hown⟩ := h.own c hc p.id hn
  have hqp : q = p := Table.eq_of_key hq hp hid
  subst hqp
  simp [Moderation.isOwnedBy, Moderation.isOpen, ha, hown]

theorem banTransaction (h : Lockstep db) (t : Int) (account : Account) (reason : String)
    (policy : RefundPolicy) (admin : String) :
    Lockstep (Moderation.banTransaction db t account reason policy admin).2 :=
  ((h.voidAccount t account reason policy admin).reconcileAll t _).congr rfl rfl

/-- Voiding and ending by CID select the same rows. -/
theorem takedownTransaction (h : Lockstep db) (t : Int) (cid : Cid) (reason : String)
    (policy : RefundPolicy) (admin : String) :
    Lockstep (Moderation.takedownTransaction db t cid reason policy admin).2 := by
  refine h.ending (fun _ => mem_closeClaims) (fun _ => mem_endPins) (by decide) (by decide)
    (by decide) ?_
  intro c hc p hp ha hn
  obtain ⟨q, hq, hid, hcid, _⟩ := h.own c hc p.id hn
  have hqp : q = p := Table.eq_of_key hq hp hid
  subst hqp
  simp [Moderation.isHostedOn, Moderation.isOpen, ha, hcid]

end Lockstep

end IpfsGate.Quota
