import IpfsGate.Moderation

/-!
# What the transactions write

Membership facts for the row operations of the model, and one lemma for each step that later
proofs use instead of its definition.
-/
namespace IpfsGate.Quota

open Lib (Table)

/-- An active pins row of the CID. -/
structure ActivePin (db : Db) (cid : Cid) (p : Pin) : Prop where
  mem : p ∈ db.pins
  cid_eq : p.cid = cid
  active : p.status = .active

/-- A queued pledge on the CID. -/
structure DormantGuardian (db : Db) (cid : Cid) (g : Claim) : Prop where
  mem : g ∈ db.claims
  cid_eq : g.cid = cid
  dormant : g.state = .dormant
  guardian : g.kind = .guardian

theorem ActivePin.congr {a b : Db} {cid : Cid} {p : Pin} (h : ActivePin a cid p)
    (hpins : b.pins = a.pins) : ActivePin b cid p :=
  ⟨hpins ▸ h.mem, h.cid_eq, h.active⟩

theorem DormantGuardian.congr {a b : Db} {cid : Cid} {g : Claim}
    (h : DormantGuardian a cid g) (hclaims : b.claims = a.claims) : DormantGuardian b cid g :=
  ⟨hclaims ▸ h.mem, h.cid_eq, h.dormant, h.guardian⟩

theorem hasActivePinForCid_iff {db : Db} {cid : Cid} :
    hasActivePinForCid db cid = true ↔ ∃ p, ActivePin db cid p := by
  simp only [hasActivePinForCid, List.any_eq_true, Bool.and_eq_true, decide_eq_true_eq]
  constructor
  · rintro ⟨p, hp, hc, ha⟩
    exact ⟨p, hp, hc, ha⟩
  · rintro ⟨p, hp, hc, ha⟩
    exact ⟨p, hp, hc, ha⟩

theorem hasActivePinForCid_false {db : Db} {cid : Cid} :
    hasActivePinForCid db cid = false ↔ ∀ p, ¬ ActivePin db cid p := by
  rw [← Bool.not_eq_true, hasActivePinForCid_iff]
  exact not_exists

theorem mem_getActivePinsForCid {db : Db} {cid : Cid} {p : Pin} :
    p ∈ getActivePinsForCid db cid ↔ ActivePin db cid p := by
  simp only [getActivePinsForCid, Table.mem_filter, Bool.and_eq_true, decide_eq_true_eq]
  constructor
  · rintro ⟨hp, hc, ha⟩
    exact ⟨hp, hc, ha⟩
  · rintro ⟨hp, hc, ha⟩
    exact ⟨hp, hc, ha⟩

theorem alreadyHostedForCid_isSome {db : Db} {cid : Cid} :
    (alreadyHostedForCid db cid).isSome ↔ ∃ p, ActivePin db cid p := by
  unfold alreadyHostedForCid
  cases h : getActivePinsForCid db cid with
  | nil =>
    simp only [Option.isSome_none, Bool.false_eq_true, false_iff, not_exists]
    intro p hp
    rw [← mem_getActivePinsForCid, h] at hp
    exact List.not_mem_nil hp
  | cons p rest =>
    simp only [Option.isSome_some, true_iff]
    exact ⟨p, mem_getActivePinsForCid.mp (by rw [h]; exact List.mem_cons_self)⟩

/-! ## The guardian queue -/

instance : Std.Total QueuesBefore := ⟨by intro a b; unfold QueuesBefore; omega⟩

instance : IsTrans Claim QueuesBefore := ⟨by intro a b c; unfold QueuesBefore; omega⟩

theorem mem_getDormantGuardiansForCid {db : Db} {cid : Cid} {g : Claim} :
    g ∈ getDormantGuardiansForCid db cid ↔ DormantGuardian db cid g := by
  simp only [getDormantGuardiansForCid, List.mem_insertionSort, Table.mem_filter,
    isDormantGuardian, Bool.and_eq_true, decide_eq_true_eq]
  constructor
  · rintro ⟨hg, ⟨hc, hd⟩, hk⟩
    exact ⟨hg, hc, hd, hk⟩
  · rintro ⟨hg, hc, hd, hk⟩
    exact ⟨hg, ⟨hc, hd⟩, hk⟩

/-- The head of the queue comes before every other queued guardian. -/
theorem head_queuesBefore {db : Db} {cid : Cid} {g : Claim} {rest : List Claim}
    (h : getDormantGuardiansForCid db cid = g :: rest) {c : Claim}
    (hc : DormantGuardian db cid c) : QueuesBefore g c := by
  have hs := List.pairwise_insertionSort QueuesBefore (db.claims.filter (isDormantGuardian cid))
  have hm := mem_getDormantGuardiansForCid.mpr hc
  unfold getDormantGuardiansForCid at h hm
  rw [h, List.pairwise_cons] at hs
  rw [h, List.mem_cons] at hm
  rcases hm with rfl | hm
  · exact (Std.Total.total (r := QueuesBefore) c c).elim id id
  · exact hs.1 c hm

theorem queuesBefore_antisymm {db : Db} {a b : Claim} (ha : a ∈ db.claims) (hb : b ∈ db.claims)
    (hab : QueuesBefore a b) (hba : QueuesBefore b a) : a = b := by
  unfold QueuesBefore at hab hba
  have hid : a.claimId = b.claimId := by omega
  exact Table.eq_of_key ha hb hid

/-! ## Row updates -/

/-- The row `endPins` leaves for an active pin it selects. -/
def endedPin (t : Int) (status : PinStatus) (reason : Pin → Option String) (p : Pin) : Pin :=
  { p with status, statusChangedAt := some t, statusReason := reason p }

/-- The row `endPins` leaves for any pin. -/
def leftPin (t : Int) (status : PinStatus) (reason : Pin → Option String) (select : Pin → Bool)
    (p : Pin) : Pin :=
  if select p && p.status = .active then endedPin t status reason p else p

/-- The row `closeClaims` leaves. -/
def closedClaim (state : ClaimState) (select : Claim → Bool) (c : Claim) : Claim :=
  if select c then { c with state } else c

section Rows

variable {db : Db} {t : Int} {status : PinStatus} {reason : Pin → Option String}
  {select : Pin → Bool} {state : ClaimState} {selectClaim : Claim → Bool} {p : Pin} {c : Claim}

theorem mem_endPins :
    p ∈ (endPins db t status reason select).pins ↔
      ∃ q ∈ db.pins, p = leftPin t status reason select q := by
  simp only [endPins, Table.mem_update]
  rfl

theorem mem_closeClaims :
    c ∈ (closeClaims db state selectClaim).claims ↔
      ∃ d ∈ db.claims, c = closedClaim state selectClaim d := by
  simp only [closeClaims, Table.mem_update]
  rfl

theorem mem_insertPin {n : NewPin} :
    p ∈ (insertPin db t n).pins ↔ p ∈ db.pins ∨ p = n.row t db.pins.next :=
  Table.mem_insert (h := fun _ => rfl)

/-- The row `createOrderWithClaim` inserts. -/
def newClaimRow (db : Db) (t : Int) (n : NewClaim) : Claim :=
  n.row t db.orders.next (pledgeOrderFor db n) db.claims.next

theorem mem_createOrderWithClaim {n : NewClaim} :
    c ∈ (createOrderWithClaim db t n).2.claims ↔ c ∈ db.claims ∨ c = newClaimRow db t n :=
  Table.mem_insert (h := fun _ => rfl)

@[simp] theorem leftPin_id : (leftPin t status reason select p).id = p.id := by
  unfold leftPin; split <;> rfl

@[simp] theorem leftPin_cid : (leftPin t status reason select p).cid = p.cid := by
  unfold leftPin; split <;> rfl

@[simp] theorem leftPin_uploader : (leftPin t status reason select p).uploader = p.uploader := by
  unfold leftPin; split <;> rfl

@[simp] theorem leftPin_expiresAt :
    (leftPin t status reason select p).expiresAt = p.expiresAt := by
  unfold leftPin; split <;> rfl

@[simp] theorem leftPin_sizeBytes :
    (leftPin t status reason select p).sizeBytes = p.sizeBytes := by
  unfold leftPin; split <;> rfl

/-- The active pins are the ones the ending did not select. -/
theorem leftPin_active (hs : status ≠ .active) :
    (leftPin t status reason select p).status = .active ↔
      p.status = .active ∧ select p = false := by
  unfold leftPin
  split
  · rename_i h
    simp only [Bool.and_eq_true, decide_eq_true_eq] at h
    simp [endedPin, h, hs]
  · rename_i h
    simp only [Bool.and_eq_true, decide_eq_true_eq, not_and] at h
    constructor
    · intro ha
      refine ⟨ha, ?_⟩
      by_contra hsel
      exact h (Bool.not_eq_false _ ▸ hsel) ha
    · exact And.left

theorem leftPin_of_skip (h : (select p && p.status = .active) = false) :
    leftPin t status reason select p = p := by
  unfold leftPin
  rw [h]
  rfl

@[simp] theorem closedClaim_claimId : (closedClaim state selectClaim c).claimId = c.claimId := by
  unfold closedClaim; split <;> rfl

@[simp] theorem closedClaim_orderId : (closedClaim state selectClaim c).orderId = c.orderId := by
  unfold closedClaim; split <;> rfl

@[simp] theorem closedClaim_cid : (closedClaim state selectClaim c).cid = c.cid := by
  unfold closedClaim; split <;> rfl

@[simp] theorem closedClaim_owner : (closedClaim state selectClaim c).owner = c.owner := by
  unfold closedClaim; split <;> rfl

@[simp] theorem closedClaim_pinId : (closedClaim state selectClaim c).pinId = c.pinId := by
  unfold closedClaim; split <;> rfl

@[simp] theorem closedClaim_expiryTs :
    (closedClaim state selectClaim c).expiryTs = c.expiryTs := by
  unfold closedClaim; split <;> rfl

@[simp] theorem closedClaim_startTs :
    (closedClaim state selectClaim c).startTs = c.startTs := by
  unfold closedClaim; split <;> rfl

@[simp] theorem closedClaim_paidHours :
    (closedClaim state selectClaim c).paidHours = c.paidHours := by
  unfold closedClaim; split <;> rfl

@[simp] theorem closedClaim_sizeBytes :
    (closedClaim state selectClaim c).sizeBytes = c.sizeBytes := by
  unfold closedClaim; split <;> rfl

@[simp] theorem closedClaim_kind : (closedClaim state selectClaim c).kind = c.kind := by
  unfold closedClaim; split <;> rfl

@[simp] theorem closedClaim_pledgeOrder :
    (closedClaim state selectClaim c).pledgeOrder = c.pledgeOrder := by
  unfold closedClaim; split <;> rfl

/-- A state other than the one written is kept exactly by the rows that were not selected. -/
theorem closedClaim_state {s : ClaimState} (hs : state ≠ s) :
    (closedClaim state selectClaim c).state = s ↔ c.state = s ∧ selectClaim c = false := by
  unfold closedClaim
  split
  · rename_i h
    simp [h, hs]
  · rename_i h
    simp [h]

/-- The rows in the state written are those that were in it and those selected. -/
theorem closedClaim_state_eq :
    (closedClaim state selectClaim c).state = state ↔ c.state = state ∨ selectClaim c = true := by
  unfold closedClaim
  split
  · rename_i h
    simp [h]
  · rename_i h
    simp [h]

theorem closedClaim_of_skip (h : selectClaim c = false) :
    closedClaim state selectClaim c = c := by
  unfold closedClaim
  rw [h]
  rfl

/-- The active pins an ending leaves are those it did not select. -/
theorem active_endPins {cid : Cid} (hs : status ≠ .active) :
    ActivePin (endPins db t status reason select) cid p ↔
      ActivePin db cid p ∧ select p = false := by
  constructor
  · rintro ⟨hm, hc, ha⟩
    obtain ⟨q, hq, rfl⟩ := mem_endPins.mp hm
    obtain ⟨hqa, hsel⟩ := (leftPin_active hs).mp ha
    have hskip : leftPin t status reason select q = q := leftPin_of_skip (by simp [hsel])
    rw [hskip] at hc ⊢
    exact ⟨⟨hq, hc, hqa⟩, hsel⟩
  · rintro ⟨⟨hm, hc, ha⟩, hsel⟩
    exact ⟨mem_endPins.mpr ⟨p, hm, (leftPin_of_skip (by simp [hsel])).symm⟩, hc, ha⟩

/-- A pin row an ending leaves keeps its identity, and is unchanged while it is active. -/
theorem endPins_from (hs : status ≠ .active) (hp : p ∈ (endPins db t status reason select).pins) :
    ∃ q ∈ db.pins, q.id = p.id ∧ q.cid = p.cid ∧ (p.status = .active → p = q) := by
  obtain ⟨q, hq, rfl⟩ := mem_endPins.mp hp
  refine ⟨q, hq, leftPin_id.symm, leftPin_cid.symm, ?_⟩
  intro ha
  exact leftPin_of_skip (by simp [((leftPin_active hs).mp ha).2])

theorem endPins_keeps (hp : p ∈ db.pins) (hsel : (select p && p.status = .active) = false) :
    p ∈ (endPins db t status reason select).pins :=
  mem_endPins.mpr ⟨p, hp, (leftPin_of_skip hsel).symm⟩

/-- An ending either leaves a pin as it was or leaves its ended row. -/
theorem endPins_kept_or_ended (hp : p ∈ db.pins) :
    p ∈ (endPins db t status reason select).pins ∨
      endedPin t status reason p ∈ (endPins db t status reason select).pins := by
  by_cases hsel : (select p && p.status = .active) = true
  · right
    refine mem_endPins.mpr ⟨p, hp, ?_⟩
    unfold leftPin
    rw [hsel]
    rfl
  · left
    exact endPins_keeps hp (Bool.not_eq_true _ ▸ hsel)

section Extended

variable {claimId : Nat} {hours expiry : Int} {pinId : Option Nat}

@[simp] theorem extendedClaim_claimId :
    (extendedClaim claimId hours expiry c).claimId = c.claimId := by
  unfold extendedClaim; split <;> rfl

@[simp] theorem extendedClaim_cid : (extendedClaim claimId hours expiry c).cid = c.cid := by
  unfold extendedClaim; split <;> rfl

@[simp] theorem extendedClaim_owner :
    (extendedClaim claimId hours expiry c).owner = c.owner := by
  unfold extendedClaim; split <;> rfl

@[simp] theorem extendedClaim_pinId :
    (extendedClaim claimId hours expiry c).pinId = c.pinId := by
  unfold extendedClaim; split <;> rfl

@[simp] theorem extendedClaim_state :
    (extendedClaim claimId hours expiry c).state = c.state := by
  unfold extendedClaim; split <;> rfl

@[simp] theorem extendedClaim_kind : (extendedClaim claimId hours expiry c).kind = c.kind := by
  unfold extendedClaim; split <;> rfl

@[simp] theorem extendedClaim_pledgeOrder :
    (extendedClaim claimId hours expiry c).pledgeOrder = c.pledgeOrder := by
  unfold extendedClaim; split <;> rfl

@[simp] theorem extendedClaim_sizeBytes :
    (extendedClaim claimId hours expiry c).sizeBytes = c.sizeBytes := by
  unfold extendedClaim; split <;> rfl

@[simp] theorem extendedPin_id : (extendedPin pinId expiry p).id = p.id := by
  unfold extendedPin; split <;> rfl

@[simp] theorem extendedPin_cid : (extendedPin pinId expiry p).cid = p.cid := by
  unfold extendedPin; split <;> rfl

@[simp] theorem extendedPin_uploader : (extendedPin pinId expiry p).uploader = p.uploader := by
  unfold extendedPin; split <;> rfl

@[simp] theorem extendedPin_status : (extendedPin pinId expiry p).status = p.status := by
  unfold extendedPin; split <;> rfl

@[simp] theorem extendedPin_sizeBytes :
    (extendedPin pinId expiry p).sizeBytes = p.sizeBytes := by
  unfold extendedPin; split <;> rfl

/-- A successful extension is of an active claim of the owner, and rewrites the two rows. -/
theorem extendClaim_ok {owner : Account} {extraHours : Int} {r : Claim} {after : Db}
    (hrun : extendClaim db claimId owner extraHours = .ok (r, after)) :
    ∃ claim ∈ db.claims, claim.claimId = claimId ∧ claim.owner = owner ∧
      claim.state = .active ∧
      (∀ c, c ∈ after.claims ↔ ∃ d ∈ db.claims, c = extendedClaim claimId
        (claim.paidHours + extraHours) (claim.expiryTs + extraHours * Pricing.hourMs) d) ∧
      ∀ p, p ∈ after.pins ↔ ∃ q ∈ db.pins, p = extendedPin claim.pinId
        (claim.expiryTs + extraHours * Pricing.hourMs) q := by
  unfold extendClaim getClaim at hrun
  cases hfind : db.claims.find? claimId with
  | none => rw [hfind] at hrun; cases hrun
  | some claim =>
    obtain ⟨hm, hid⟩ := Table.find?_eq_some.mp hfind
    rw [hfind] at hrun
    simp only at hrun
    split at hrun
    · cases hrun
    · rename_i howner
      split at hrun
      · cases hrun
      · rename_i hstate
        cases hrun
        refine ⟨claim, hm, hid, not_not.mp howner, not_not.mp hstate, ?_, ?_⟩
        · intro c
          simp
        · intro p
          simp

end Extended

end Rows

/-- The pin info of a CID is that of one of its pins. -/
theorem getLatestPinInfoForCid_mem {db : Db} {cid : Cid} {info : PinInfo}
    (h : getLatestPinInfoForCid db cid = some info) :
    ∃ p ∈ db.pins, p.cid = cid ∧ info.sizeBytes = p.sizeBytes := by
  unfold getLatestPinInfoForCid at h
  rw [Option.map_eq_some_iff] at h
  obtain ⟨p, hp, rfl⟩ := h
  obtain ⟨hm, hc⟩ := Table.mem_filter.mp (List.argmax_mem hp)
  exact ⟨p, hm, by simpa using hc, rfl⟩

/-! ## What the fallible transactions do when they succeed -/

/-- An own copy is written only for a CID that has an active pin. -/
theorem createOwnCopyClaim_ok {db after : Db} {t : Int} {n : OwnCopyRequest} {r : OwnCopy}
    (hrun : createOwnCopyClaim db t n = .ok (r, after)) :
    ∃ info, getLatestPinInfoForCid db n.cid = some info ∧ (∃ p, ActivePin db n.cid p) ∧
      after = (createOrderWithClaim (insertPin db t (n.pin t info)) t
        (n.claim t info db.pins.next)).2 := by
  unfold createOwnCopyClaim at hrun
  split at hrun
  · cases hrun
  · rename_i info hinfo
    split at hrun
    · cases hrun
    · rename_i hactive
      refine ⟨info, hinfo, hasActivePinForCid_iff.mp ?_, ?_⟩
      · simpa using hactive
      · exact (congrArg Prod.snd (Except.ok.inj hrun)).symm

/-- A successful cancel is of an open claim, which it returns as it was. -/
theorem cancelClaim_ok {db after : Db} {t : Int} {claimId : Nat} {owner : Option Account}
    {asAdmin : Bool} {e : Ended}
    (hrun : cancelClaim db t claimId owner asAdmin = .ok (e, after)) :
    (e.claim ∈ db.claims ∧ e.claim.claimId = claimId ∧
      (asAdmin = true ∨ owner = some e.claim.owner)) ∧
    ((e.claim.state = .dormant ∧ e.fullyUnpinned = false ∧ after = closeClaims db .cancelled
        (fun c => c.claimId = claimId && (c.state = .active || c.state = .dormant))) ∨
      (e.claim.state = .active ∧ e = (retire db t e.claim "claim_cancelled").1 ∧
        after = (retire db t e.claim "claim_cancelled").2)) := by
  unfold cancelClaim getClaim at hrun
  cases hfind : db.claims.find? claimId with
  | none => rw [hfind] at hrun; cases hrun
  | some claim =>
    obtain ⟨hm, hid⟩ := Table.find?_eq_some.mp hfind
    rw [hfind] at hrun
    simp only at hrun
    split at hrun
    · cases hrun
    · rename_i howner
      have howner' : asAdmin = true ∨ owner = some claim.owner := by
        by_contra hno
        simp only [not_or, Bool.not_eq_true] at hno
        exact howner (by simp [hno])
      split at hrun
      · rename_i hdor
        cases hrun
        exact ⟨⟨hm, hid, howner'⟩, Or.inl ⟨hdor, rfl, rfl⟩⟩
      · split at hrun
        · rename_i hact
          have heq := Except.ok.inj hrun
          have hclaim : e.claim = claim := (congrArg (fun r => r.1.claim) heq).symm
          subst hclaim
          exact ⟨⟨hm, hid, howner'⟩, Or.inr ⟨hact, (congrArg Prod.fst heq).symm,
            (congrArg Prod.snd heq).symm⟩⟩
        · cases hrun

theorem endActiveClaimForRelease_ok {db after : Db} {t : Int} {claimId : Nat} {e : Ended}
    (hrun : endActiveClaimForRelease db t claimId = .ok (e, after)) :
    (e.claim ∈ db.claims ∧ e.claim.claimId = claimId) ∧ e.claim.state = .active ∧
      e = (retire db t e.claim "released").1 ∧
      after = (retire db t e.claim "released").2 := by
  unfold endActiveClaimForRelease getClaim at hrun
  cases hfind : db.claims.find? claimId with
  | none => rw [hfind] at hrun; cases hrun
  | some claim =>
    rw [hfind] at hrun
    simp only at hrun
    split at hrun
    · cases hrun
    · rename_i hact
      have heq := Except.ok.inj hrun
      have hclaim : e.claim = claim := (congrArg (fun r => r.1.claim) heq).symm
      subst hclaim
      exact ⟨Table.find?_eq_some.mp hfind, not_not.mp hact, (congrArg Prod.fst heq).symm,
        (congrArg Prod.snd heq).symm⟩

end IpfsGate.Quota
