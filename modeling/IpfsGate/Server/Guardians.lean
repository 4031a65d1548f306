import IpfsGate.BatonPass
import IpfsGate.Server.Runs

/-!
# Guardians and their hosts

A queued pledge waits behind a live host. Every ending keeps this, because the reconcile step
promotes the head of the queue when the last host goes. Only the pledge itself can break it: its
hosted check comes before its payment is verified and its claim is written after.
-/
namespace IpfsGate.Server

open Quota Moderation LedgerRun BatonPass
open Lib (Pool Table)

/-- Every CID with a queued pledge has an active pin. -/
def Served (db : Db) : Prop := ∀ cid g, DormantGuardian db cid g → ∃ p, ActivePin db cid p

theorem served_iff {db : Db} :
    Served db ↔ ∀ g ∈ db.claims, g.state = .dormant ∧ g.kind = .guardian →
      hasActivePinForCid db g.cid = true := by
  constructor
  · intro h g hg hd
    exact hasActivePinForCid_iff.mpr (h g.cid g ⟨hg, rfl, hd.1, hd.2⟩)
  · intro h cid g hg
    have hactive := h g hg.mem ⟨hg.dormant, hg.guardian⟩
    rw [hg.cid_eq] at hactive
    exact hasActivePinForCid_iff.mp hactive

instance : DecidablePred Served := fun _ => decidable_of_iff _ served_iff.symm

/-- The hosted check, made when the pledge is written. -/
def Stmt.PledgesHosted : Stmt → World → Prop
  | .pledge g, w => hasActivePinForCid w.db g.cid = true
  | _, _ => True

instance (s : Stmt) (w : World) : Decidable (s.PledgesHosted w) := by
  induction s using Stmt.casesOn <;> unfold Stmt.PledgesHosted <;> infer_instance

section Endings

variable {before mid after : Db} {t : Int} {cids : List Cid} {U : Cid → Prop}

/-- An ending and its reconcile loop leave every queued pledge behind a host. -/
theorem Served.ending (h : Served before) (he : Ends before mid cids)
    (hs : ∀ cid, Share mid t cids cid (U cid) after) : Served after := by
  intro cid g hg
  cases hs cid with
  | skipped hn hsame hu =>
    have hmid := hsame.dormantGuardian.mpr hg
    have hold : DormantGuardian before cid g :=
      ⟨he.dormant_from g hmid.mem hmid.dormant, hmid.cid_eq, hmid.dormant, hmid.guardian⟩
    obtain ⟨p, hp⟩ := h cid g hold
    have hkept := he.pin_kept p hp.mem hp.active (by rw [hp.cid_eq]; exact hn)
    exact ⟨p, hsame.activePin.mp ⟨hkept, hp.cid_eq, hp.active⟩⟩
  | stepped a b r hm ha hnext hr hb hu =>
    cases hr with
    | hosted p hp => exact ⟨p, hb.activePin.mp hp⟩
    | dropped hno hq => exact absurd (hb.dormantGuardian.mpr hg) (hq g)
    | promoted g₀ hno hg₀ hfirst =>
      exact ⟨_, hb.activePin.mp ⟨mem_pins_promote.mpr (Or.inr rfl), hg₀.cid_eq, rfl⟩⟩

/-- Nothing is queued anew and every host stays. -/
theorem Served.mono (h : Served before)
    (hclaims : ∀ cid g, DormantGuardian after cid g → ∃ d, DormantGuardian before cid d)
    (hpins : ∀ cid p, ActivePin before cid p → ∃ q, ActivePin after cid q) : Served after := by
  intro cid g hg
  obtain ⟨d, hd⟩ := hclaims cid g hg
  obtain ⟨p, hp⟩ := h cid d hd
  exact hpins cid p hp

/-- Closing claims queues nothing. -/
theorem dormantGuardian_of_closed {state : ClaimState} {select : Claim → Bool}
    (hs : state ≠ .dormant)
    (hafter : ∀ c, c ∈ after.claims ↔ ∃ d ∈ before.claims, c = closedClaim state select d)
    {cid : Cid} {g : Claim} (hg : DormantGuardian after cid g) :
    DormantGuardian before cid g ∧ select g = false := by
  obtain ⟨hm, hc, hd, hk⟩ := hg
  obtain ⟨d, hdm, rfl⟩ := (hafter g).mp hm
  obtain ⟨hdd, hsel⟩ := (closedClaim_state hs).mp hd
  rw [closedClaim_of_skip hsel] at hc hd hk ⊢
  exact ⟨⟨hdm, hc, hd, hk⟩, hsel⟩

end Endings

section Operations

variable {cfg : Config} {db after : Db} {t : Int}

theorem Served.hosting (h : Served db) {p : NewPin} {n : NewClaim} {t' : Int}
    (hs : n.state ≠ .dormant) :
    Served (createOrderWithClaim (insertPin db t p) t' n).2 := by
  refine h.mono ?_ ?_
  · intro cid g hg
    rcases mem_createOrderWithClaim.mp hg.mem with hm | rfl
    · exact ⟨g, hm, hg.cid_eq, hg.dormant, hg.guardian⟩
    · exact absurd hg.dormant hs
  · intro cid p hp
    exact ⟨p, mem_insertPin.mpr (Or.inl hp.mem), hp.cid_eq, hp.active⟩

theorem Served.pledging (h : Served db) {g : Pledge}
    (hhost : hasActivePinForCid db g.cid = true) : Served (LedgerRun.pledge db t g).2 := by
  intro cid c hc
  rcases mem_createOrderWithClaim.mp hc.mem with hm | rfl
  · obtain ⟨p, hp⟩ := h cid c ⟨hm, hc.cid_eq, hc.dormant, hc.guardian⟩
    exact ⟨p, hp.congr rfl⟩
  · obtain ⟨p, hp⟩ := hasActivePinForCid_iff.mp hhost
    rw [← hc.cid_eq]
    exact ⟨p, hp.congr rfl⟩

theorem Served.extendClaim (h : Served db) {claimId : Nat} {owner : Account} {extraHours : Int}
    {c : Claim} (hrun : Quota.extendClaim db claimId owner extraHours = .ok (c, after)) :
    Served after := by
  obtain ⟨claim, _, _, _, _, hclaims, hpins⟩ := extendClaim_ok hrun
  refine h.mono ?_ ?_
  · intro cid g hg
    obtain ⟨d, hd, rfl⟩ := (hclaims g).mp hg.mem
    exact ⟨d, hd, by simpa using hg.cid_eq, by simpa using hg.dormant, by simpa using hg.guardian⟩
  · intro cid p hp
    exact ⟨_, (hpins _).mpr ⟨p, hp.mem, rfl⟩, by simpa using hp.cid_eq, by simpa using hp.active⟩

theorem pinsOwnCid_of_lockstep (hl : Lockstep db) : PinsOwnCid db := by
  intro c hc n hn
  obtain ⟨p, hp, hid, hcid, _⟩ := hl.own c hc n hn
  exact ⟨p, hp, hid, hcid⟩

theorem Served.retire (h : Served db) (hl : Lockstep db) {claim : Claim} (hm : claim ∈ db.claims)
    (reason : String) : Served (Quota.retire db t claim reason).2 :=
  h.ending (ends_retire (pinsOwnCid_of_lockstep hl) hm) (fun cid => share_retire _ t claim.cid cid)

theorem Served.cancelClaim (h : Served db) (hl : Lockstep db) {claimId : Nat}
    {owner : Option Account} {asAdmin : Bool} {e : Ended}
    (hrun : Quota.cancelClaim db t claimId owner asAdmin = .ok (e, after)) : Served after := by
  obtain ⟨⟨hm, _⟩, hcases⟩ := cancelClaim_ok hrun
  rcases hcases with ⟨_, _, rfl⟩ | ⟨_, _, rfl⟩
  · exact h.mono
      (fun cid g hg => ⟨g, (dormantGuardian_of_closed (by decide) (fun _ => mem_closeClaims) hg).1⟩)
      (fun cid p hp => ⟨p, hp.congr rfl⟩)
  · exact h.retire hl hm _

/-- A ban ends pins only on CIDs of the active claims it voids. -/
theorem ends_voidAccount (hl : Lockstep db) (account : Account) (reason : String)
    (policy : RefundPolicy) (admin : String) :
    Ends db (voidAccount db t account reason policy admin)
      (((db.claims.filter (isOwnedBy account)).filter (fun c => c.state = .active)).map
        Claim.cid).eraseDups where
  nodup := Lib.nodup_eraseDups _
  next_eq := rfl
  pin_from := fun p hp => endPins_from (by decide) hp
  pin_kept := by
    intro p hp ha hcid
    refine endPins_keeps hp ?_
    by_contra hsel
    simp only [Bool.not_eq_false, Bool.and_eq_true, decide_eq_true_eq] at hsel
    obtain ⟨c, hc, _, hca, hpc, hown, _⟩ := hl.claim_of_active hp ha
    refine hcid ?_
    rw [List.mem_eraseDups, hpc]
    refine List.mem_map.mpr ⟨c, List.mem_filter.mpr ⟨Table.mem_filter.mpr ⟨hc, ?_⟩, ?_⟩, rfl⟩
    · simp [isOwnedBy, isOpen, hca, ← hown, hsel.1]
    · simp [hca]
  toCloses := closes_of_closeClaims (by decide) (by decide) (fun _ => mem_closeClaims)

theorem Served.banTransaction (h : Served db) (hl : Lockstep db) (account : Account)
    (reason : String) (policy : RefundPolicy) (admin : String) :
    Served (Moderation.banTransaction db t account reason policy admin).2 := by
  have he := ends_voidAccount (t := t) hl account reason policy admin
  have hr := h.ending he (fun cid => reconcileAll_share t cid _ he.nodup _)
  exact hr.mono (fun cid g hg => ⟨g, hg.congr rfl⟩) (fun cid p hp => ⟨p, hp.congr rfl⟩)

/-- A takedown voids the queue of its CID with its hosts. -/
theorem Served.takedownTransaction (h : Served db) (cid : Cid) (reason : String)
    (policy : RefundPolicy) (admin : String) :
    Served (Moderation.takedownTransaction db t cid reason policy admin).2 := by
  intro other g hg
  have hclosed : ∀ c, c ∈ (Moderation.takedownTransaction db t cid reason policy admin).2.claims ↔
      ∃ d ∈ db.claims, c = closedClaim .cancelled (isHostedOn cid) d := fun _ => mem_closeClaims
  obtain ⟨hold, hsel⟩ := dormantGuardian_of_closed (by decide) hclosed hg
  have hne : other ≠ cid := by
    rintro rfl
    simp [isHostedOn, isOpen, hold.cid_eq, hold.dormant] at hsel
  obtain ⟨p, hp⟩ := h other g hold
  refine ⟨p, endPins_keeps hp.mem ?_, hp.cid_eq, hp.active⟩
  simp [hp.cid_eq, hne]

/-- Without an active claim of the account there is no pin to remove. -/
theorem Served.removePinForUploader (h : Served db) (hl : Lockstep db) {cid : Cid}
    {uploader : Account}
    (hno : ∀ c ∈ db.claims, ¬ (c.cid = cid ∧ c.owner = uploader ∧ c.state = .active)) :
    Served (Quota.removePinForUploader db t cid uploader).2 := by
  refine h.mono (fun _ g hg => ⟨g, hg.congr rfl⟩) ?_
  intro other p hp
  refine ⟨p, endPins_keeps hp.mem ?_, hp.cid_eq, hp.active⟩
  by_contra hsel
  simp only [Bool.not_eq_false, Bool.and_eq_true, decide_eq_true_eq] at hsel
  obtain ⟨c, hc, _, hca, hcid, hown, _⟩ := hl.claim_of_active hp.mem hp.active
  exact hno c hc ⟨hcid.symm.trans hsel.1.1, hown.symm.trans hsel.1.2, hca⟩

theorem Served.sweep (h : Served db) : Served (Quota.sweep db t).2 := by
  have he := ends_expireOverdue db (expireReservations db t) rfl rfl t
  exact h.ending he (fun cid => reconcileAll_share t cid _ he.nodup _)

/-- The database with no claim created without a timer on record. -/
abbrev asLedger (db : Db) : Ledger := { db, untimed := [] }

theorem served_apply {op : LedgerOp} (h : Served db) (hl : Lockstep db)
    (ha : op.Admitted (asLedger db))
    (hpledge : ∀ g, op = .pledge g → hasActivePinForCid db g.cid = true) :
    Served (op.apply cfg db t) := by
  cases op with
  | upload u => exact h.hosting ClaimState.noConfusion
  | ownCopy n =>
    refine committed_ind h (fun _ _ hrun => ?_)
    obtain ⟨info, _, _, rfl⟩ := createOwnCopyClaim_ok hrun
    exact h.hosting ClaimState.noConfusion
  | pledge g => exact h.pledging (hpledge g rfl)
  | extend claimId owner extraHours => exact committed_ind h (fun _ _ hrun => h.extendClaim hrun)
  | cancel claimId owner asAdmin => exact committed_ind h (fun _ _ hrun => h.cancelClaim hl hrun)
  | release claimId =>
    refine committed_ind h (fun _ _ hrun => ?_)
    obtain ⟨⟨hm, _⟩, _, _, rfl⟩ := endActiveClaimForRelease_ok hrun
    exact h.retire hl hm _
  | removePin cid uploader => exact h.removePinForUploader hl ha
  | ban hiveAccount reason policy admin =>
    refine committed_ind h (fun b after hok => ?_)
    obtain ⟨p, rfl⟩ := banAccount_ok hok
    exact h.banTransaction hl _ reason p admin
  | takedown cid reason policy admin =>
    refine committed_ind h (fun d after hok => ?_)
    obtain ⟨p, rfl⟩ := takedownCid_ok hok
    exact h.takedownTransaction cid reason p admin
  | sweep => exact h.sweep

end Operations

/-- The check of the delete route is the condition its operation is admitted under. -/
theorem admitted_of_checked {s : Stmt} {op : LedgerOp} {w : World} (hop : s.op = some op)
    (hs : s.Checked w) : op.Admitted (asLedger w.db) := by
  cases s <;> cases hop <;> try trivial
  · exact List.not_mem_nil
  · rename_i cid uploader
    intro c hc hmatch
    have hmem : c ∈ activeClaimsOf w.db cid uploader := by
      simp only [activeClaimsOf, getActiveClaimsForCid, List.mem_filter, Table.mem_filter]
      exact ⟨⟨hc, by simp [hmatch]⟩, by simp [hmatch]⟩
    rw [show activeClaimsOf w.db cid uploader = [] from hs] at hmem
    exact List.not_mem_nil hmem

/-- In every run claims and pins are in lockstep. -/
theorem serve_lockstep (cfg : Config) (t : Int) (events : List (GateEvent cfg)) :
    Lockstep (serve cfg t events).world.db := by
  have hall : Guarded cfg (fun _ _ => True) t events := Pool.admissible_true _ _ _
  refine serve_keeps cfg Lockstep.empty
    (fun a b hab ha => ha.congr hab.pins hab.claims) ?_ ?_ hall
  · intro s op w hop hs _ hw
    exact lockstep_apply hw (admitted_of_checked hop hs)
  · intro db t cid reason policy admin hdb
    exact lockstep_apply (s := asLedger db) hdb trivial

/-- A checked statement that pledges on a hosted CID, if it pledges, keeps every queued pledge
behind a live host. -/
theorem served_sem (cfg : Config) {s : Stmt} {w : World} (hs : s.Checked w) (hok : s.PledgesHosted w)
    (h : Lockstep w.db ∧ Served w.db) :
    Lockstep (s.sem cfg w).2.db ∧ Served (s.sem cfg w).2.db := by
  refine sem_keeps cfg (P := fun db => Lockstep db ∧ Served db) ?_ ?_ ?_ h
  · intro a b hab ha
    refine ⟨ha.1.congr hab.pins hab.claims, ha.2.mono ?_ ?_⟩
    · intro cid g hg
      exact ⟨g, hab.claims ▸ hg.mem, hg.cid_eq, hg.dormant, hg.guardian⟩
    · intro cid p hp
      exact ⟨p, hab.pins ▸ hp.mem, hp.cid_eq, hp.active⟩
  · intro op hop hw
    have hadm := admitted_of_checked hop hs
    refine ⟨lockstep_apply hw.1 hadm, served_apply hw.2 hw.1 hadm ?_⟩
    rintro g rfl
    cases s <;> cases hop
    exact hok
  · intro db cid reason policy admin hdb
    exact ⟨lockstep_apply (s := asLedger db) hdb.1 trivial,
      served_apply hdb.2 hdb.1 trivial (fun _ h => LedgerOp.noConfusion h)⟩

theorem served_empty : Served Db.empty := fun _ g hg => absurd hg.mem (Table.not_mem_empty g)

/-- In every run in which each pledge is written while its CID has an active pin, every queued
pledge waits behind a live host. -/
theorem guardians_served (cfg : Config) (t : Int) (events : List (GateEvent cfg))
    (h : Guarded cfg Stmt.PledgesHosted t events) : Served (serve cfg t events).world.db := by
  have hinv : Lockstep (serve cfg t events).world.db ∧ Served (serve cfg t events).world.db :=
    serve_invariant cfg (P := fun w => Lockstep w.db ∧ Served w.db) ⟨Lockstep.empty, served_empty⟩
      (fun _ _ hw => hw) (fun _ _ hs hok hw => served_sem cfg hs hok hw) h
  exact hinv.2

section Sampled

open Sample

/-- Bob's pledge is written while Alice hosts, and takes over when she cancels. -/
def handover : List (GateEvent config) :=
  hostedByAlice ++ [.spawn (pledgeBy "bob")] ++ resumed 3 0 ++
    [.spawn (cancelBy "alice" 1)] ++ resumed 2 0

theorem guardians_served_handover : Served (serve config 0 handover).world.db :=
  guardians_served config 0 handover (by decide +kernel)

/-- Alice cancels while Bob's payment is being verified. -/
def lateCancel : List (GateEvent config) :=
  hostedByAlice ++ [.spawn (pledgeBy "bob")] ++ resumed 2 0 ++
    [.spawn (cancelBy "alice" 1)] ++ resumed 1 1 ++ resumed 1 0

theorem late_cancel_strands : ¬ Served (serve config 0 lateCancel).world.db := by
  decide +kernel

end Sampled

end IpfsGate.Server
