import IpfsGate.Server.Durable
import IpfsGate.Server.Repricing
import IpfsGate.Server.Runs

/-!
# Timers on a timed gate

A timer is permanent from the last second of the year 9999 on. Hours are accepted up to any
number, so on a gate that hosts by time a claim stays timed only as long as the hours that were
accepted for it end before.
-/
namespace IpfsGate.Server

open Quota Pricing LedgerRun
open Lib (Pool Table)

/-- No claim and no pin is permanent. -/
structure Expiring (db : Db) : Prop where
  claims : ∀ c ∈ db.claims, isPermanent c.expiryTs = false
  pins : ∀ p ∈ db.pins, isPermanent p.expiresAt = false

/-- Every claim is timed: it shows its expiry, is swept after it, can be extended, and is refunded
by the hours that are left. -/
structure StaysTimed (cfg : Config) (db : Db) : Prop extends Expiring db where
  swept : ∀ c ∈ db.claims, c.state = .active → ∀ t, c.expiryTs < t → isOverdue t c = true
  extendable : ∀ c ∈ db.claims, c.state = .active → isCidBlocked db c.cid = false →
    ∀ b extraHours, b.claimId = c.claimId → b.txId ≠ "" → getPaymentByTxId db b.txId = none →
      ∃ q, checkExtend cfg db b extraHours = .ok q
  refunded : ∀ c ∈ db.claims, ∀ now quote, calculateRefund cfg c now = .ok quote →
    quote.hoursUsed = hoursUsed c now ∧
      quote.hoursRefunded = max (c.paidHours - hoursUsed c now) 0

/-- The guardian has waited so far, and is given a pin. -/
def Stmt.promotes (cfg : Config) (s : Stmt) (w : World) (g : Claim) : Bool :=
  g.state = .dormant &&
    (s.sem cfg w).2.db.claims.rows.any (fun c => c.claimId = g.claimId && c.pinId.isSome)

/-- Where the hours end that a statement puts on a claim or starts to count. -/
def Stmt.deadlines (cfg : Config) : Stmt → World → List Int
  | .finaliseUpload _ u, _ => [u.startTs + u.paidHours * hourMs]
  | .createOwnCopyClaim n, w =>
    if hasActivePinForCid w.db n.cid then [w.now + n.paidHours * hourMs] else []
  | .pledge _, w => [w.now]
  | .extendClaim claimId _ extraHours, w =>
    (w.db.claims.filter (fun c => c.claimId = claimId && c.state = .active)).map
      (fun c => c.expiryTs + extraHours * hourMs)
  | s, w =>
    (w.db.claims.filter (s.promotes cfg w)).map (fun g => w.now + g.paidHours * hourMs)

/-- The hours of the statement end before the sentinel. -/
def Stmt.EndsInTime (cfg : Config) (s : Stmt) (w : World) : Prop :=
  ∀ ts ∈ s.deadlines cfg w, isPermanent ts = false

instance (cfg : Config) (s : Stmt) (w : World) : Decidable (s.EndsInTime cfg w) := by
  unfold Stmt.EndsInTime
  infer_instance

/-- On a timed gate an upload and an own copy are timed. -/
def Stmt.Moded (cfg : Config) : Stmt → Prop
  | .finaliseUpload _ u => u.permanent = cfg.hostingPermanent
  | .createOwnCopyClaim n => cfg.hostingPermanent = false → n.expiryOverride = none
  | _ => True

section Steps

variable {cfg : Config} {w : World}

theorem handle_moded (cfg : Config) (q : Request) (w : World) :
    Keeps cfg (fun s w => s.Checked w ∧ s.Moded cfg) (fun _ => True) (handle cfg q) w := by
  cases q with
  | upload b =>
    refine Keeps.map _ (keeps_upload (fun _ _ c _ => ?_) (fun _ => trivial))
    exact ⟨fun _ _ => ⟨trivial, trivial⟩, fun _ _ _ hstatus => ⟨hstatus, trivial⟩,
      fun _ _ _ => ⟨trivial, trivial⟩, fun _ _ => ⟨trivial, trivial⟩,
      fun _ _ => ⟨trivial, trivial⟩,
      fun _ _ _ hcid hblocked hsize hmode => ⟨⟨hcid ▸ hblocked, hsize⟩, hmode⟩⟩
  | ownCopy b =>
    exact Keeps.map _ (keeps_ownCopy (fun _ _ _ hstatus => ⟨hstatus, trivial⟩)
      (fun _ _ htimed => ⟨trivial, htimed⟩) (fun _ _ => trivial))
  | _ =>
    -- the other requests create neither
    refine (handle_follows cfg _ w).weaken (fun s _ hs => ⟨hs.2, ?_⟩) (fun _ _ => trivial)
    cases s with
    | finaliseUpload id u => cases hs.1
    | createOwnCopyClaim n => cases hs.1
    | _ => trivial

/-! ## Promotions -/

/-- The number of a guardian that waits for longer than there is. -/
def Overlong (w : World) (claimId : Nat) : Prop :=
  ∃ g ∈ w.db.claims, g.claimId = claimId ∧ g.state = .dormant ∧
    isPermanent (w.now + g.paidHours * hourMs) = true

/-- Within a statement, only an overlong guardian that was promoted is permanent. -/
structure PromotesOverlong (w : World) (db : Db) : Prop where
  waiting : ∀ c ∈ db.claims, c.state = .dormant → c ∈ w.db.claims
  claims : ∀ c ∈ db.claims, isPermanent c.expiryTs = true →
    Overlong w c.claimId ∧ c.pinId.isSome = true
  pins : ∀ p ∈ db.pins, isPermanent p.expiresAt = true →
    ∃ c ∈ db.claims, Overlong w c.claimId ∧ c.pinId.isSome = true

theorem promotesOverlong_start (h : Expiring w.db) : PromotesOverlong w w.db where
  waiting := fun _ hc _ => hc
  claims := fun c hc hp => absurd (h.claims c hc) (ne_false_of_eq_true hp)
  pins := fun p hp hperm => absurd (h.pins p hp) (ne_false_of_eq_true hperm)

theorem enduring_promotesOverlong (w : World) : Enduring w.now (PromotesOverlong w) where
  same := by
    intro a b hpins hclaims h
    exact ⟨hclaims ▸ h.waiting, hclaims ▸ h.claims, by rw [hpins, hclaims]; exact h.pins⟩
  endPins := by
    intro db status reason select _ h
    refine ⟨h.waiting, h.claims, fun p hp hperm => ?_⟩
    obtain ⟨q, hq, rfl⟩ := mem_endPins.mp hp
    rw [leftPin_expiresAt] at hperm
    exact h.pins q hq hperm
  closeClaims := by
    intro db state select _ hdorm h
    refine ⟨fun c hc hs => ?_, fun c hc hperm => ?_, fun p hp hperm => ?_⟩
    · obtain ⟨d, hd, rfl⟩ := mem_closeClaims.mp hc
      obtain ⟨hs', hskip⟩ := (closedClaim_state hdorm).mp hs
      rw [closedClaim_of_skip hskip]
      exact h.waiting d hd hs'
    · obtain ⟨d, hd, rfl⟩ := mem_closeClaims.mp hc
      rw [closedClaim_expiryTs] at hperm
      rw [closedClaim_claimId, closedClaim_pinId]
      exact h.claims d hd hperm
    · obtain ⟨d, hd, hid, hpin⟩ := h.pins p hp hperm
      refine ⟨_, mem_closeClaims.mpr ⟨d, hd, rfl⟩, ?_⟩
      rw [closedClaim_claimId, closedClaim_pinId]
      exact ⟨hid, hpin⟩
  promote := by
    intro db cid g hg h
    have hover : isPermanent (w.now + g.paidHours * hourMs) = true → Overlong w g.claimId :=
      fun hperm => ⟨g, h.waiting g hg.mem hg.dormant, rfl, hg.dormant, hperm⟩
    refine ⟨fun c hc hs => ?_, fun c hc hperm => ?_, fun p hp hperm => ?_⟩
    · rcases (claims_promote_cases hg).mp hc with ⟨hold, _⟩ | rfl
      · exact h.waiting c hold hs
      · cases hs
    · rcases (claims_promote_cases hg).mp hc with ⟨hold, _⟩ | rfl
      · exact h.claims c hold hperm
      · exact ⟨hover hperm, rfl⟩
    · rcases mem_pins_promote.mp hp with hold | rfl
      · obtain ⟨d, hd, hid, hpin⟩ := h.pins p hold hperm
        by_cases hdg : d.claimId = g.claimId
        · exact ⟨_, promoted_mem hg, hdg ▸ hid, rfl⟩
        · exact ⟨d, (claims_promote_cases hg).mpr (Or.inl ⟨hd, hdg⟩), hid, hpin⟩
      · exact ⟨_, promoted_mem hg, hover hperm, rfl⟩

/-- A statement that promotes no overlong guardian leaves nothing permanent. -/
theorem expiring_of_promotes {s : Stmt} (h : PromotesOverlong w (s.sem cfg w).2.db)
    (hs : ∀ g ∈ w.db.claims, s.promotes cfg w g = true →
      isPermanent (w.now + g.paidHours * hourMs) = false) : Expiring (s.sem cfg w).2.db := by
  have hnone : ∀ c ∈ (s.sem cfg w).2.db.claims, Overlong w c.claimId → c.pinId.isSome = true →
      False := by
    rintro c hc ⟨g, hg, hid, hdorm, hperm⟩ hpin
    refine absurd (hs g hg ?_) (ne_false_of_eq_true hperm)
    unfold Stmt.promotes
    rw [hdorm, Bool.and_eq_true, List.any_eq_true]
    exact ⟨rfl, c, Table.mem_rows.mpr hc, by simp [hid, hpin]⟩
  constructor
  · intro c hc
    by_contra hperm
    obtain ⟨hover, hpin⟩ := h.claims c hc (eq_true_of_ne_false hperm)
    exact hnone c hc hover hpin
  · intro p hp
    by_contra hperm
    obtain ⟨c, hc, hover, hpin⟩ := h.pins p hp (eq_true_of_ne_false hperm)
    exact hnone c hc hover hpin

/-- A claim that is created before the sentinel, with its pin if it has one. -/
theorem Expiring.create {db after : Db} (h : Expiring db) {expiryTs : Int}
    (hclaims : ∀ c ∈ after.claims, c ∈ db.claims ∨ c.expiryTs = expiryTs)
    (hpins : ∀ p ∈ after.pins, p ∈ db.pins ∨ p.expiresAt = expiryTs)
    (hend : isPermanent expiryTs = false) : Expiring after := by
  refine ⟨fun c hc => ?_, fun p hp => ?_⟩
  · rcases hclaims c hc with hold | hnew
    · exact h.claims c hold
    · rw [hnew]
      exact hend
  · rcases hpins p hp with hold | hnew
    · exact h.pins p hold
    · rw [hnew]
      exact hend

/-- On a timed gate every statement whose hours end in time leaves nothing permanent. -/
theorem expiring_sem (htimed : cfg.hostingPermanent = false) {s : Stmt} (hmode : s.Moded cfg)
    (hs : s.EndsInTime cfg w) (h : Expiring w.db) : Expiring (s.sem cfg w).2.db := by
  cases s with
  | finaliseUpload id u =>
    have hperm : u.permanent = false := Eq.trans hmode htimed
    have hexpiry : u.expiryTs = u.startTs + u.paidHours * hourMs :=
      if_neg (ne_true_of_eq_false hperm)
    refine h.create (fun c hc => ?_) (fun p hp => ?_) (hs _ List.mem_cons_self)
    · refine (mem_createOrderWithClaim.mp hc).imp_right (fun hnew => ?_)
      rw [hnew]
      exact hexpiry
    · refine (mem_insertPin.mp hp).imp_right (fun hnew => ?_)
      rw [hnew]
      exact hexpiry
  | createOwnCopyClaim n =>
    refine fallible_ind h (fun _ _ hrun => ?_)
    obtain ⟨info, _, hactive, rfl⟩ := createOwnCopyClaim_ok hrun
    have hhosted : hasActivePinForCid w.db n.cid = true := hasActivePinForCid_iff.mpr hactive
    have hend : isPermanent (w.now + n.paidHours * hourMs) = false := by
      refine hs _ ?_
      change _ ∈ if hasActivePinForCid w.db n.cid then [w.now + n.paidHours * hourMs] else []
      rw [if_pos hhosted]
      exact List.mem_cons_self
    have hexpiry : n.expiryTs w.now = w.now + n.paidHours * hourMs := by
      unfold OwnCopyRequest.expiryTs
      rw [hmode htimed]
      rfl
    refine h.create (fun c hc => ?_) (fun p hp => ?_) hend
    · refine (mem_createOrderWithClaim.mp hc).imp_right (fun hnew => ?_)
      rw [hnew]
      exact hexpiry
    · refine (mem_insertPin.mp hp).imp_right (fun hnew => ?_)
      rw [hnew]
      exact hexpiry
  | pledge g =>
    refine h.create (fun c hc => ?_) (fun p hp => Or.inl hp) (hs _ List.mem_cons_self)
    refine (mem_createOrderWithClaim.mp hc).imp_right (fun hnew => ?_)
    rw [hnew]
    rfl
  | extendClaim claimId owner extraHours =>
    refine fallible_ind h (fun _ _ hrun => ?_)
    obtain ⟨claim, hmem, hid, _, hactive, hclaims, hpins⟩ := extendClaim_ok hrun
    have hend : isPermanent (claim.expiryTs + extraHours * hourMs) = false := by
      refine hs _ (List.mem_map.mpr ⟨claim, Table.mem_filter.mpr ⟨hmem, ?_⟩, rfl⟩)
      rw [hid, hactive]
      simp
    refine h.create (fun c hc => ?_) (fun p hp => ?_) hend
    · obtain ⟨d, hd, rfl⟩ := (hclaims c).mp hc
      unfold extendedClaim
      split
      · exact Or.inr rfl
      · exact Or.inl hd
    · obtain ⟨q, hq, rfl⟩ := (hpins p).mp hp
      unfold extendedPin
      split
      · exact Or.inr rfl
      · exact Or.inl hq
  | _ =>
    refine expiring_of_promotes ((enduring_promotesOverlong w).sem rfl
      (fun _ _ _ => Stmt.noConfusion) (promotesOverlong_start h)) (fun g hg hp => ?_)
    exact hs _ (List.mem_map.mpr ⟨g, Table.mem_filter.mpr ⟨hg, hp⟩, rfl⟩)

end Steps

/-! ## Runs -/

/-- What does not look permanent is treated as timed. -/
theorem Expiring.staysTimed {db : Db} (h : Expiring db) (cfg : Config) : StaysTimed cfg db where
  toExpiring := h
  swept := by
    intro c _ hactive t ht
    unfold isOverdue
    rw [hactive, decide_eq_true ht]
    rfl
  extendable := by
    intro c hc hactive hblocked b extraHours hid htx hpayment
    have hfind : getClaim db b.claimId = some c := Table.find?_eq_some.mpr ⟨hc, hid.symm⟩
    unfold checkExtend
    rw [hfind]
    dsimp only
    rw [hactive, h.claims c hc, hblocked, hpayment, decide_eq_true htx, Option.isNone_none,
      Bool.or_true]
    exact ⟨_, rfl⟩
  refunded := by
    intro c hc now quote hquote
    unfold calculateRefund at hquote
    rw [h.claims c hc] at hquote
    obtain ⟨mb, _, hquote⟩ := ok_of_bind hquote
    dsimp only at hquote
    split at hquote
    · cases hquote
      exact ⟨rfl, rfl⟩
    · cases hquote
      exact ⟨rfl, rfl⟩

/-- On a timed gate no run turns a claim permanent, as long as the accepted hours end in time. -/
theorem stays_timed (cfg : Config) (htimed : cfg.hostingPermanent = false) (t : Int)
    (events : List (GateEvent cfg)) (hends : Guarded cfg (Stmt.EndsInTime cfg) t events) :
    StaysTimed cfg (serve cfg t events).world.db := by
  refine Expiring.staysTimed ?_ cfg
  refine Lib.Protocol.run_invariant (M := machine cfg) (P := fun w => Expiring w.db)
    (G := fun s w => s.Checked w ∧ s.Moded cfg) ?_ (fun _ _ h => h)
    (fun s w hg hok h => expiring_sem htimed hg.2 hok h)
    (fun q w _ => handle_moded cfg q w) hends
  exact ⟨fun c hc => absurd hc (Table.not_mem_empty c),
    fun p hp => absurd hp (Table.not_mem_empty p)⟩

section Sampled

open Sample

theorem stays_timed_guarded :
    StaysTimed config (serve config 0 (hostedByAlice ++ [.spawn (pledgeBy "bob")] ++ resumed 3 0 ++
      [.spawn (cancelBy "alice" 1)] ++ resumed 1 0)).world.db :=
  stays_timed config rfl 0 _ (by decide +kernel)

/-- A millionth of a token for each megabyte hour. -/
def cheap : Config :=
  { config with ratePerMBHour := 1 / 1000000, ratePerMBHour_nonneg := by decide +kernel }

/-- Alice's file, for a hundred million hours. -/
def hostedForever : List (GateEvent cheap) :=
  [.spawn (.reserve
      { uploader := "alice", sizeBytes := 100, mode := "public",
        hoursRequested := some (.fin (10 ^ 8)), copies := none }),
    .spawn (uploadOf 1 "bafy")] ++ resumed 6 0

/-- Her claim is paid for, and permanent. -/
theorem turned_permanent : cheap.hostingPermanent = false ∧
    (∃ c ∈ (serve cheap 0 hostedForever).world.db.claims,
      c.state = .active ∧ c.amountPaid = 1000 ∧ isPermanent c.expiryTs = true) ∧
    ¬ StaysTimed cheap (serve cheap 0 hostedForever).world.db := by
  have hrows : ((serve cheap 0 hostedForever).world.db.claims.filter (fun c =>
      c.state = .active && c.amountPaid = 1000 && isPermanent c.expiryTs)).length = 1 := by
    decide +kernel
  obtain ⟨c, hc⟩ := List.length_eq_one_iff.mp hrows
  obtain ⟨hmem, hsel⟩ := Table.mem_filter.mp (hc ▸ List.mem_singleton_self c)
  simp only [Bool.and_eq_true, decide_eq_true_eq] at hsel
  refine ⟨rfl, ⟨c, hmem, hsel.1.1, hsel.1.2, hsel.2⟩, fun h => ?_⟩
  exact absurd (h.claims c hmem) (ne_false_of_eq_true hsel.2)

end Sampled

end IpfsGate.Server
