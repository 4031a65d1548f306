import IpfsGate.LedgerRun

/-!
# First pledged, first activated

Slots are stamped from a maximum over rows in every state, so they grow with the order of
pledging whatever happened to earlier guardians; rows never change their slot. A promotion
takes the head of the queue, so no earlier guardian of the CID is left waiting.
-/
namespace IpfsGate.PledgeOrder

open Quota Moderation LedgerRun
open Lib (Table)

/-- Guardians of one CID, ordered by claim id, which is the order of pledging. -/
structure PledgeOrdered (db : Db) : Prop where
  stamped : ∀ c ∈ db.claims, c.kind = .guardian → ∃ n, c.pledgeOrder = some n
  increasing : ∀ c ∈ db.claims, ∀ d ∈ db.claims, c.kind = .guardian → d.kind = .guardian →
    c.cid = d.cid → c.claimId < d.claimId → pledgeSlot c < pledgeSlot d

/-- Two guardians of one CID have different slots. -/
theorem PledgeOrdered.distinct {db : Db} (h : PledgeOrdered db) {c d : Claim}
    (hc : c ∈ db.claims) (hd : d ∈ db.claims) (hck : c.kind = .guardian)
    (hdk : d.kind = .guardian) (hcid : c.cid = d.cid) (hne : c ≠ d) :
    c.pledgeOrder ≠ d.pledgeOrder := by
  intro heq
  have hslot : pledgeSlot c = pledgeSlot d := by rw [pledgeSlot, pledgeSlot, heq]
  rcases Nat.lt_trichotomy c.claimId d.claimId with hlt | hid | hlt
  · have h₁ := h.increasing c hc d hd hck hdk hcid hlt
    omega
  · exact hne (Table.eq_of_key hc hd hid)
  · have h₁ := h.increasing d hd c hc hdk hck hcid.symm hlt
    omega

/-- Every row after is a row before with the same id, CID, kind and slot. -/
def Relabels (before after : Db) : Prop :=
  ∀ c ∈ after.claims, ∃ d ∈ before.claims, d.claimId = c.claimId ∧ d.cid = c.cid ∧
    d.kind = c.kind ∧ d.pledgeOrder = c.pledgeOrder

theorem Relabels.refl (db : Db) : Relabels db db := fun c hc => ⟨c, hc, rfl, rfl, rfl, rfl⟩

theorem Relabels.trans {a b c : Db} (h₁ : Relabels a b) (h₂ : Relabels b c) : Relabels a c := by
  intro x hx
  obtain ⟨y, hy, hid, hcid, hkind, hslot⟩ := h₂ x hx
  obtain ⟨z, hz, hid', hcid', hkind', hslot'⟩ := h₁ y hy
  exact ⟨z, hz, hid'.trans hid, hcid'.trans hcid, hkind'.trans hkind, hslot'.trans hslot⟩

theorem PledgeOrdered.relabel {before after : Db} (h : PledgeOrdered before)
    (hr : Relabels before after) : PledgeOrdered after where
  stamped := by
    intro c hc hk
    obtain ⟨d, hd, _, _, hkind, hslot⟩ := hr c hc
    rw [← hslot]
    exact h.stamped d hd (hkind.trans hk)
  increasing := by
    intro c hc d hd hck hdk hcid hlt
    obtain ⟨c', hc', hid, hcc, hkind, hslot⟩ := hr c hc
    obtain ⟨d', hd', hid', hdc, hkind', hslot'⟩ := hr d hd
    rw [pledgeSlot, pledgeSlot, ← hslot, ← hslot']
    exact h.increasing c' hc' d' hd' (hkind.trans hck) (hkind'.trans hdk)
      (hcc.trans (hcid.trans hdc.symm)) (by omega)

theorem relabels_closing {before after : Db} {state : ClaimState} {select : Claim → Bool}
    (hclaims : ∀ c, c ∈ after.claims ↔ ∃ d ∈ before.claims, c = closedClaim state select d) :
    Relabels before after := by
  intro c hc
  obtain ⟨d, hd, rfl⟩ := (hclaims c).mp hc
  exact ⟨d, hd, by simp⟩

theorem relabels_reconcileAll (db : Db) (t : Int) (cids : List Cid) :
    Relabels db (reconcileAll db t cids).2 := by
  refine reconcileAll_preserves (Relabels db) t ?_ cids db (Relabels.refl db)
  intro mid cid g h _ hg _
  refine h.trans ?_
  intro c hc
  rcases (claims_promote_cases hg).mp hc with ⟨hold, _⟩ | rfl
  · exact ⟨c, hold, rfl, rfl, rfl, rfl⟩
  · exact ⟨g, hg.mem, rfl, rfl, rfl, rfl⟩

private theorem le_foldr_max {n : Nat} {l : List Nat} (h : n ∈ l) : n ≤ l.foldr max 0 := by
  induction l with
  | nil => exact absurd h List.not_mem_nil
  | cons a as ih =>
    rw [List.foldr_cons]
    rcases List.mem_cons.mp h with rfl | hin
    · exact Nat.le_max_left _ _
    · exact (ih hin).trans (Nat.le_max_right _ _)

/-- A stamped guardian's slot lies below the next one, whatever became of the guardian. -/
theorem pledgeSlot_lt_next {db : Db} {c : Claim} {n : Nat} (hc : c ∈ db.claims)
    (hk : c.kind = .guardian) (hn : c.pledgeOrder = some n) : n < nextPledgeOrder db c.cid := by
  refine Nat.lt_succ_of_le (le_foldr_max (List.mem_map.mpr ⟨c, ?_, by rw [hn]; rfl⟩))
  exact Table.mem_filter.mpr ⟨hc, by simp [hk]⟩

/-- Stamping keeps slots growing with the order of pledging. -/
theorem PledgeOrdered.creating {db after : Db} (h : PledgeOrdered db) {t : Int} {n : NewClaim}
    {orderId : Nat}
    (hclaims : ∀ c, c ∈ after.claims ↔
      c ∈ db.claims ∨ c = n.row t orderId (pledgeOrderFor db n) db.claims.next) :
    PledgeOrdered after where
  stamped := by
    intro c hc hk
    rcases (hclaims c).mp hc with hold | rfl
    · exact h.stamped c hold hk
    · exact ⟨_, if_pos hk⟩
  increasing := by
    intro c hc d hd hck hdk hcid hlt
    rcases (hclaims c).mp hc with hcold | rfl
    · rcases (hclaims d).mp hd with hdold | rfl
      · exact h.increasing c hcold d hdold hck hdk hcid hlt
      · obtain ⟨m, hm⟩ := h.stamped c hcold hck
        have hslot := pledgeSlot_lt_next hcold hck hm
        rw [hcid] at hslot
        have hnew : pledgeOrderFor db n = some (nextPledgeOrder db n.cid) := if_pos hdk
        rw [pledgeSlot, pledgeSlot, hm, NewClaim.row, hnew]
        exact hslot
    · rcases (hclaims d).mp hd with hdold | rfl
      · have hbound : d.claimId < db.claims.next := Table.key_lt_next hdold
        exact absurd hlt (Nat.not_lt.mpr (Nat.le_of_lt hbound))
      · exact absurd hlt (Nat.lt_irrefl _)

/-- No guardian pledged before an activated one is left dormant on its CID. -/
def OrderedActivation (before after : Db) : Prop :=
  ∀ cid g, Promoted before after cid g → ∀ g' ∈ after.claims, g'.kind = .guardian →
    g'.cid = cid → g'.claimId < g.claimId → g'.state ≠ .dormant

theorem orderedActivation_of_share {before mid after : Db} {t : Int} {cids : List Cid}
    {U : Cid → Prop} (h : PledgeOrdered before) (he : Closes before mid)
    (hs : ∀ cid, Share mid t cids cid (U cid) after) : OrderedActivation before after := by
  intro cid g hg g' hg' hk hcid hlt hdor
  obtain ⟨a, g₀, hma, _, _, hg₀, hfirst, hb, hall⟩ := promoted_inv he (hs cid) hg
  have hid : g.claimId = g₀.claimId := by rw [hall g hg]; rfl
  -- the guardians still dormant were dormant before the call, with the slots of that moment
  have hfrom : ∀ x, DormantGuardian a cid x → x ∈ before.claims := by
    intro x hx
    have hmid := hma.dormantGuardian.mpr hx
    exact he.dormant_from x hmid.mem hmid.dormant
  have hwait : DormantGuardian a cid g' := by
    obtain ⟨hm, _, _, _⟩ := hb.dormantGuardian.mpr ⟨hg', hcid, hdor, hk⟩
    rcases (claims_promote_cases hg₀).mp hm with ⟨hold, _⟩ | rfl
    · exact ⟨hold, hcid, hdor, hk⟩
    · cases hdor
  have hslot := h.increasing g' (hfrom g' hwait) g₀ (hfrom g₀ hg₀) hk hg₀.guardian
    (hcid.trans hg₀.cid_eq.symm) (by omega)
  have hqueue := hfirst g' hwait
  unfold QueuesBefore at hqueue
  omega

/-- Where no claim becomes active that was there before, nothing was activated. -/
theorem orderedActivation_idle {before after : Db}
    (h : ∀ c ∈ after.claims, c.state = .active →
      ∀ d ∈ before.claims, d.claimId = c.claimId → d.state ≠ .dormant) :
    OrderedActivation before after := by
  intro cid g hg
  obtain ⟨d, hd, hid, hdor⟩ := hg.was_dormant
  exact absurd hdor (h g hg.mem hg.active d hd hid)

theorem orderedActivation_closes {before after : Db} (h : Closes before after) :
    OrderedActivation before after := by
  refine orderedActivation_idle ?_
  intro c hc ha d hd hid hdor
  exact h.not_promoted hc ha ⟨d, hd, hid, hdor⟩

theorem orderedActivation_creating {db after : Db} {row : Claim}
    (hid : row.claimId = db.claims.next)
    (hclaims : ∀ c, c ∈ after.claims ↔ c ∈ db.claims ∨ c = row) :
    OrderedActivation db after := by
  refine orderedActivation_idle ?_
  intro c hc ha d hd hdc
  rcases (hclaims c).mp hc with hold | rfl
  · have heq : d = c := Table.eq_of_key hd hold hdc
    rw [heq, ha]
    decide
  · exact absurd (hdc.trans hid) (Table.ne_next hd)

/-! ## One operation -/

/-- What one operation does for the queues of all CIDs. -/
structure KeepsOrder (before after : Db) : Prop where
  ordered : PledgeOrdered after
  activation : OrderedActivation before after

theorem KeepsOrder.refl {db : Db} (h : PledgeOrdered db) : KeepsOrder db db where
  ordered := h
  activation := by
    refine orderedActivation_idle ?_
    intro c hc ha d hd hid
    have heq : d = c := Table.eq_of_key hd hc hid
    rw [heq, ha]
    decide

/-- Slots and activations are read off the claims. -/
theorem KeepsOrder.congr {before mid after : Db} (h : KeepsOrder before mid)
    (hc : after.claims = mid.claims) : KeepsOrder before after where
  ordered := h.ordered.relabel (fun c hm => ⟨c, hc ▸ hm, rfl, rfl, rfl, rfl⟩)
  activation := by
    intro cid g hg g' hg'
    rw [hc] at hg'
    exact h.activation cid g ⟨hc ▸ hg.mem, hg.cid_eq, hg.active, hg.was_dormant⟩ g' hg'

section Operations

variable {db after : Db} {t : Int}

theorem keepsOrder_creating (h : PledgeOrdered db) {n : NewClaim} {orderId : Nat}
    (hclaims : ∀ c, c ∈ after.claims ↔
      c ∈ db.claims ∨ c = n.row t orderId (pledgeOrderFor db n) db.claims.next) :
    KeepsOrder db after :=
  ⟨h.creating hclaims, orderedActivation_creating rfl hclaims⟩

/-- Ending claims and passing the baton on any list of distinct CIDs. -/
theorem keepsOrder_ending {mid : Db} {cids : List Cid} {state : ClaimState}
    {select : Claim → Bool} (h : PledgeOrdered db) (hactive : state ≠ .active)
    (hdormant : state ≠ .dormant) (hnd : cids.Nodup)
    (hmid : ∀ c, c ∈ mid.claims ↔ ∃ d ∈ db.claims, c = closedClaim state select d) :
    KeepsOrder db (reconcileAll mid t cids).2 where
  ordered := h.relabel ((relabels_closing hmid).trans (relabels_reconcileAll mid t cids))
  activation := orderedActivation_of_share h (closes_of_closeClaims hactive hdormant hmid)
    (fun cid => reconcileAll_share t cid cids hnd mid)

theorem keepsOrder_retire (h : PledgeOrdered db) (claim : Claim) (reason : String) :
    KeepsOrder db (retire db t claim reason).2 := by
  have hmid : ∀ c, c ∈ (endClaim db t claim reason).claims ↔ ∃ d ∈ db.claims,
      c = closedClaim .cancelled (fun c =>
        c.claimId = claim.claimId && (c.state = .active || c.state = .dormant)) d :=
    fun _ => mem_closeClaims
  rw [retire_eq]
  exact keepsOrder_ending h (by decide) (by decide) (List.nodup_singleton _) hmid

theorem keepsOrder_closing (h : PledgeOrdered db) {state : ClaimState} {select : Claim → Bool}
    (hactive : state ≠ .active) (hdormant : state ≠ .dormant)
    (hclaims : ∀ c, c ∈ after.claims ↔ ∃ d ∈ db.claims, c = closedClaim state select d) :
    KeepsOrder db after :=
  ⟨h.relabel (relabels_closing hclaims),
    orderedActivation_closes (closes_of_closeClaims hactive hdormant hclaims)⟩

theorem keepsOrder_cancelClaim (h : PledgeOrdered db) {claimId : Nat} {owner : Option Account}
    {asAdmin : Bool} {e : Ended} (hrun : cancelClaim db t claimId owner asAdmin = .ok (e, after)) :
    KeepsOrder db after := by
  obtain ⟨_, hcases⟩ := cancelClaim_ok hrun
  rcases hcases with ⟨_, _, rfl⟩ | ⟨_, _, rfl⟩
  · exact keepsOrder_closing h (by decide) (by decide) (fun _ => mem_closeClaims)
  · exact keepsOrder_retire h e.claim _

theorem keepsOrder_extendClaim (h : PledgeOrdered db) {claimId : Nat} {owner : Account}
    {extraHours : Int} {r : Claim}
    (hrun : extendClaim db claimId owner extraHours = .ok (r, after)) : KeepsOrder db after := by
  obtain ⟨claim, _, _, _, _, hclaims, _⟩ := extendClaim_ok hrun
  constructor
  · refine h.relabel ?_
    intro c hc
    obtain ⟨d, hd, rfl⟩ := (hclaims c).mp hc
    exact ⟨d, hd, by simp⟩
  · refine orderedActivation_idle ?_
    intro c hc ha d hd hid
    obtain ⟨e, he, rfl⟩ := (hclaims c).mp hc
    have heq : d = e := Table.eq_of_key hd he (by simpa using hid)
    rw [heq, ← extendedClaim_state, ha]
    decide

theorem keepsOrder_banTransaction (h : PledgeOrdered db) (account : Account) (reason : String)
    (policy : RefundPolicy) (admin : String) :
    KeepsOrder db (banTransaction db t account reason policy admin).2 := by
  have hmid : ∀ c, c ∈ (voidAccount db t account reason policy admin).claims ↔
      ∃ d ∈ db.claims, c = closedClaim .cancelled (isOwnedBy account) d :=
    fun _ => mem_closeClaims
  have hend := keepsOrder_ending (t := t) h (by decide) (by decide)
    (Lib.nodup_eraseDups
      (((db.claims.filter (isOwnedBy account)).filter (fun c => c.state = .active)).map Claim.cid))
    hmid
  exact hend.congr rfl

end Operations

theorem keepsOrder_apply (cfg : Config) {s : Ledger} {t : Int} (op : LedgerOp)
    (h : PledgeOrdered s.db) : KeepsOrder s.db (op.apply cfg s.db t) := by
  cases op with
  | upload u =>
    exact keepsOrder_creating h (fun _ => mem_createOrderWithClaim)
  | ownCopy n =>
    refine committed_ind (P := KeepsOrder s.db) (.refl h) (fun r after hok => ?_)
    obtain ⟨info, _, _, rfl⟩ := createOwnCopyClaim_ok hok
    exact keepsOrder_creating h (fun _ => mem_createOrderWithClaim)
  | pledge g => exact keepsOrder_creating h (fun _ => mem_createOrderWithClaim)
  | extend claimId owner extraHours =>
    exact committed_ind (P := KeepsOrder s.db) (.refl h) (fun _ _ => keepsOrder_extendClaim h)
  | cancel claimId owner asAdmin =>
    exact committed_ind (P := KeepsOrder s.db) (.refl h) (fun _ _ => keepsOrder_cancelClaim h)
  | release claimId =>
    refine committed_ind (P := KeepsOrder s.db) (.refl h) (fun e after hok => ?_)
    obtain ⟨_, _, _, rfl⟩ := endActiveClaimForRelease_ok hok
    exact keepsOrder_retire h e.claim _
  | removePin cid uploader => exact (KeepsOrder.refl h).congr rfl
  | ban hiveAccount reason policy admin =>
    refine committed_ind (P := KeepsOrder s.db) (.refl h) (fun b after hok => ?_)
    obtain ⟨p, rfl⟩ := banAccount_ok hok
    exact keepsOrder_banTransaction h _ reason p admin
  | takedown cid reason policy admin =>
    refine committed_ind (P := KeepsOrder s.db) (.refl h) (fun d after hok => ?_)
    obtain ⟨p, rfl⟩ := takedownCid_ok hok
    exact keepsOrder_closing h (by decide) (by decide) (fun _ => mem_closeClaims)
  | sweep =>
    exact keepsOrder_ending h (by decide) (by decide) (Lib.nodup_eraseDups _)
      (fun _ => mem_closeClaims)

/-! ## Whole runs -/

theorem pledgeOrdered_empty : PledgeOrdered Db.empty where
  stamped := fun c hc => absurd hc (Table.not_mem_empty c)
  increasing := fun c hc => absurd hc (Table.not_mem_empty c)

theorem LedgerOp.step_db (cfg : Config) (s : Ledger) (t : Int) (op : LedgerOp) :
    (op.step cfg s t).db = op.apply cfg s.db t ∨ (op.step cfg s t).db = s.db := by
  unfold LedgerOp.step
  by_cases ha : op.Admitted s
  · rw [if_pos ha]
    left
    dsimp only
    split <;> rfl
  · rw [if_neg ha]
    exact Or.inr rfl

theorem keepsOrder_step (cfg : Config) {s : Ledger} (t : Int) (op : LedgerOp)
    (h : PledgeOrdered s.db) : KeepsOrder s.db (op.step cfg s t).db := by
  rcases LedgerOp.step_db cfg s t op with heq | heq
  · rw [heq]
    exact keepsOrder_apply cfg op h
  · rw [heq]
    exact .refl h

theorem run_pledgeOrdered (cfg : Config) (ops : List (Int × LedgerOp)) :
    PledgeOrdered (run cfg ops).db :=
  run_induction cfg (fun s => PledgeOrdered s.db) pledgeOrdered_empty
    (fun _ t op h _ => (keepsOrder_step cfg t op h).ordered) ops

/-- After every run the slots of one CID's guardians are distinct and grow with the order of
pledging, and whatever operation comes next activates no guardian ahead of an earlier one. -/
theorem fifo_activation (cfg : Config) (ops : List (Int × LedgerOp)) :
    (∀ c ∈ (run cfg ops).db.claims, ∀ d ∈ (run cfg ops).db.claims, c.kind = .guardian →
      d.kind = .guardian → c.cid = d.cid →
      (c ≠ d → c.pledgeOrder ≠ d.pledgeOrder) ∧
      (c.claimId < d.claimId → ∃ m n, c.pledgeOrder = some m ∧ d.pledgeOrder = some n ∧ m < n)) ∧
    ∀ t op, OrderedActivation (run cfg ops).db (run cfg (ops ++ [(t, op)])).db := by
  have h := run_pledgeOrdered cfg ops
  constructor
  · intro c hc d hd hck hdk hcid
    refine ⟨h.distinct hc hd hck hdk hcid, ?_⟩
    intro hlt
    obtain ⟨m, hm⟩ := h.stamped c hc hck
    obtain ⟨n, hn⟩ := h.stamped d hd hdk
    have hslot := h.increasing c hc d hd hck hdk hcid hlt
    rw [pledgeSlot, pledgeSlot, hm, hn] at hslot
    exact ⟨m, n, hm, hn, hslot⟩
  · intro t op
    unfold run
    rw [List.foldl_append]
    exact (keepsOrder_step cfg t op h).activation

end IpfsGate.PledgeOrder
