import IpfsGate.Server.Durable
import IpfsGate.Server.Frame
import IpfsGate.Server.Runs

/-!
# Orders

An order is placed together with its claim, and by nothing else, so in a reachable database every
order has one claim.
-/
namespace IpfsGate.Server

open Quota Moderation LedgerRun
open Lib (Pool Table)

/-- No two claims have one order, and no order is numbered from `n` on. -/
structure Apart (n : Nat) (db : Db) : Prop where
  bound : ∀ c ∈ db.claims, c.orderId < n
  sole : ∀ c ∈ db.claims, ∀ d ∈ db.claims, c.orderId = d.orderId → c.claimId = d.claimId

section Numbers

variable {cfg : Config} {n : Nat} {db after : Db} {t : Int}

/-- Rewriting claims under their numbers. -/
theorem Apart.rewrite (h : Apart n db) (hrow : ∀ c ∈ after.claims, ∃ d ∈ db.claims,
    c.claimId = d.claimId ∧ c.orderId = d.orderId) : Apart n after where
  bound := by
    intro c hc
    obtain ⟨d, hd, _, ho⟩ := hrow c hc
    rw [ho]
    exact h.bound d hd
  sole := by
    intro c hc d hd heq
    obtain ⟨c', hc', hid, ho⟩ := hrow c hc
    obtain ⟨d', hd', hid', ho'⟩ := hrow d hd
    rw [hid, hid']
    exact h.sole c' hc' d' hd' (by rw [← ho, ← ho', heq])

theorem durable_apart (n : Nat) : Durable (Apart n) where
  same := fun a b _ hclaims h => h.rewrite (fun c hc => ⟨c, hclaims ▸ hc, rfl, rfl⟩)
  endPins := fun _ _ _ _ _ _ h => ⟨h.bound, h.sole⟩
  closeClaims := by
    intro db state select _ _ h
    refine h.rewrite (fun c hc => ?_)
    obtain ⟨d, hd, rfl⟩ := mem_closeClaims.mp hc
    exact ⟨d, hd, by simp, by simp⟩
  promote := by
    intro db t cid g _ h
    refine h.rewrite (fun c hc => ?_)
    obtain ⟨d, hd, rfl⟩ := mem_claims_promote.mp hc
    refine ⟨d, hd, ?_⟩
    split <;> exact ⟨rfl, rfl⟩
  extend := by
    intro db claimId owner extraHours r after hrun h
    obtain ⟨claim, _, _, _, _, hclaims, _⟩ := extendClaim_ok hrun
    refine h.rewrite (fun c hc => ?_)
    obtain ⟨d, hd, rfl⟩ := (hclaims c).mp hc
    refine ⟨d, hd, ?_⟩
    unfold extendedClaim
    split <;> exact ⟨rfl, rfl⟩

variable (after) in
theorem Apart.create (h : Apart db.orders.next db) (hclaims : after.claims = db.claims)
    (hnext : after.orders.next = db.orders.next) (row : NewClaim) :
    Apart (db.orders.next + 1) (createOrderWithClaim after t row).2 := by
  have hmem : ∀ c ∈ (createOrderWithClaim after t row).2.claims, c ∈ db.claims ∨
      (c = newClaimRow after t row ∧ c.orderId = db.orders.next) := by
    intro c hc
    rcases mem_createOrderWithClaim.mp hc with hold | hnew
    · exact Or.inl (hclaims ▸ hold)
    · refine Or.inr ⟨hnew, ?_⟩
      rw [hnew]
      exact hnext
  constructor
  · intro c hc
    rcases hmem c hc with hold | ⟨_, ho⟩
    · exact (h.bound c hold).trans (Nat.lt_succ_self _)
    · omega
  · intro c hc d hd heq
    rcases hmem c hc with hcold | ⟨hcnew, hco⟩
    · rcases hmem d hd with hdold | ⟨hdnew, hdo⟩
      · exact h.sole c hcold d hdold heq
      · have hlt := h.bound c hcold
        omega
    · rcases hmem d hd with hdold | ⟨hdnew, hdo⟩
      · have hlt := h.bound d hdold
        omega
      · rw [hcnew, hdnew]

theorem orders_reconcileAll (db : Db) (t : Int) (cids : List Cid) :
    (reconcileAll db t cids).2.orders = db.orders :=
  reconcileAll_preserves (fun after => after.orders = db.orders) t (fun _ _ _ h _ _ _ => h) cids
    db rfl

theorem orders_retire (db : Db) (t : Int) (claim : Claim) (reason : String) :
    (retire db t claim reason).2.orders = db.orders := by
  rw [retire_eq]
  exact orders_reconcileAll (endClaim db t claim reason) t [claim.cid]

theorem orders_importTakedowns (cfg : Config) (db : Db) (t : Int) (list : List ImportEntry) :
    (importTakedowns cfg db t list).2.orders = db.orders := by
  refine importTakedowns_keeps (P := fun after => after.orders = db.orders) ?_ rfl list
  intro db' cid reason policy admin h
  refine committed_ind (P := fun after => after.orders = db.orders) h (fun _ _ hok => ?_)
  obtain ⟨p, rfl⟩ := takedownCid_ok hok
  exact h

/-- A statement that creates no claim places no order. -/
theorem orders_sem (cfg : Config) {s : Stmt} (hs : s.creates = false) (w : World) :
    (s.sem cfg w).2.db.orders = w.db.orders := by
  have hcommit : ∀ {α : Type} {r : Except Fault (α × Db)},
      (∀ a after, r = .ok (a, after) → after.orders = w.db.orders) →
      (Stmt.fallible w r).2.db.orders = w.db.orders :=
    fun h => fallible_ind (P := fun db => db.orders = w.db.orders) rfl h
  cases s with
  | createReservation uploader sizeBytes mode quote =>
    refine hcommit (fun _ _ hok => ?_)
    obtain ⟨_, rfl⟩ := createReservation_writes hok
    rfl
  | recordPayment p =>
    refine hcommit (fun _ _ hok => ?_)
    obtain ⟨_, rfl⟩ := recordPayment_writes hok
    rfl
  | extendClaim claimId owner extraHours =>
    refine hcommit (fun _ _ hok => ?_)
    unfold extendClaim at hok
    split at hok
    · cases hok
    · split at hok
      · cases hok
      · split at hok
        · cases hok
        · cases hok
          rfl
  | cancelClaim claimId owner asAdmin =>
    refine hcommit (fun _ _ hok => ?_)
    obtain ⟨_, ⟨_, _, rfl⟩ | ⟨_, _, rfl⟩⟩ := cancelClaim_ok hok
    · rfl
    · exact orders_retire _ _ _ _
  | endActiveClaimForRelease claimId =>
    refine hcommit (fun _ _ hok => ?_)
    obtain ⟨_, _, _, rfl⟩ := endActiveClaimForRelease_ok hok
    exact orders_retire _ _ _ _
  | banAccount hiveAccount reason policy admin =>
    refine hcommit (fun _ _ hok => ?_)
    obtain ⟨p, rfl⟩ := banAccount_ok hok
    exact orders_reconcileAll (voidAccount _ _ _ _ _ _) _ _
  | takedownCid cid reason policy admin =>
    refine hcommit (fun _ _ hok => ?_)
    obtain ⟨p, rfl⟩ := takedownCid_ok hok
    rfl
  | importTakedowns list => exact orders_importTakedowns cfg w.db w.now list
  | unbanAccount hiveAccount admin =>
    obtain ⟨_, _, heq, _⟩ := unbanAccount_writes cfg w.db w.now hiveAccount admin
    exact (congrArg Db.orders heq).trans rfl
  | untakedownCid cid admin =>
    obtain ⟨_, _, heq, _⟩ := untakedownCid_writes w.db w.now cid admin
    exact (congrArg Db.orders heq).trans rfl
  | addToWhitelist r =>
    obtain ⟨_, _, heq⟩ := addToWhitelist_writes cfg w.db w.now r
    exact (congrArg Db.orders heq).trans rfl
  | removeFromWhitelist hiveAccount removedBy =>
    obtain ⟨_, _, heq⟩ := removeFromWhitelist_writes cfg w.db w.now hiveAccount removedBy
    exact (congrArg Db.orders heq).trans rfl
  | recordReleaseConsent orderId releaser sig =>
    simp only [Stmt.sem, Stmt.silent, recordReleaseConsent]
    split <;> rfl
  | recordReceipt orderId recipient proofHash sig =>
    simp only [Stmt.sem, Stmt.silent, recordReceipt]
    split <;> rfl
  | sweep => exact orders_reconcileAll (expireOverdue _ _) _ _
  | finaliseUpload id u => cases hs
  | createOwnCopyClaim n => cases hs
  | pledge g => cases hs
  | _ => rfl

/-- Every statement keeps orders apart. -/
theorem apart_sem (cfg : Config) (s : Stmt) {w : World} (h : Apart w.db.orders.next w.db) :
    Apart (s.sem cfg w).2.db.orders.next (s.sem cfg w).2.db := by
  cases hs : s.creates with
  | false =>
    rw [orders_sem cfg hs w]
    exact ((durable_apart w.db.orders.next).at w.now).sem hs h
  | true =>
    cases s with
    | finaliseUpload id u =>
      have hrow : Apart (w.db.orders.next + 1) (finaliseUpload w.db w.now u).2 :=
        h.create (insertPin w.db w.now u.pin) rfl rfl _
      exact ⟨hrow.bound, hrow.sole⟩
    | createOwnCopyClaim n =>
      refine fallible_ind (P := fun db => Apart db.orders.next db) h (fun _ _ hrun => ?_)
      obtain ⟨info, _, _, rfl⟩ := createOwnCopyClaim_ok hrun
      exact h.create (insertPin w.db w.now (n.pin w.now info)) rfl rfl _
    | pledge g => exact h.create w.db rfl rfl _
    | _ => cases hs

theorem serve_apart (cfg : Config) (t : Int) (events : List (GateEvent cfg)) :
    Apart (serve cfg t events).world.db.orders.next (serve cfg t events).world.db := by
  refine serve_invariant cfg (P := fun w => Apart w.db.orders.next w.db) ⟨?_, ?_⟩ (fun _ _ h => h) (fun s w _ _ h => apart_sem cfg s h)
    (Pool.admissible_true _ _ _)
  · exact fun c hc => absurd hc (Table.not_mem_empty c)
  · exact fun c hc => absurd hc (Table.not_mem_empty c)

end Numbers

end IpfsGate.Server
