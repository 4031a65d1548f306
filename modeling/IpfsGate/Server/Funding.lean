import IpfsGate.Server.Durable
import IpfsGate.Server.Evolution

/-!
# What payments fund

A payments row funds the claim that names it, or the extension that the request which added it
goes on to make. The tables are what the history wrote to them, so what a single request does
with its payment decides what happens over the whole run.
-/
namespace IpfsGate.Server

open Quota Moderation LedgerRun
open Lib Lib.Prog
open Lib (Table)

/-- The payments row that a statement adds. -/
def paymentOf : Stmt × World → Option Nat
  | (.recordPayment p, w) => (Quota.recordPayment w.db w.now p).toOption.map Prod.fst
  | _ => none

/-- The payments row that the claim names which a statement creates. -/
def fundedClaim : Stmt × World → Option Nat
  | (.finaliseUpload _ u, _) => some u.paymentId
  | (.pledge g, _) => some g.paymentId
  | (.createOwnCopyClaim n, w) =>
    (Quota.createOwnCopyClaim w.db w.now n).toOption.map (fun _ => n.paymentId)
  | _ => none

/-- Whether a statement extends a claim. -/
def lengthens : Stmt × World → Bool
  | (.extendClaim claimId owner extraHours, w) =>
    (Quota.extendClaim w.db claimId owner extraHours).isOk
  | _ => false

/-- The rows a request has added, the rows that its claims name, and for each extension it made
the row it had added last. -/
structure Purse where
  recorded : List Nat
  created : List Nat
  extended : List (Option Nat)

namespace Purse

def empty : Purse := { recorded := [], created := [], extended := [] }

def note (m : Purse) (a : Stmt × World) : Purse where
  recorded := m.recorded ++ (paymentOf a).toList
  created := m.created ++ (fundedClaim a).toList
  extended := m.extended ++ (if lengthens a then [m.recorded.getLast?] else [])

/-- At most one row was added, and at most one effect rests on it. -/
inductive Balanced : Purse → Prop where
  | unpaid : Balanced { recorded := [], created := [], extended := [] }
  | paid (id : Nat) : Balanced { recorded := [id], created := [], extended := [] }
  | created (id : Nat) : Balanced { recorded := [id], created := [id], extended := [] }
  | extended (id : Nat) : Balanced { recorded := [id], created := [], extended := [some id] }

/-- The row that is recorded and not yet used. -/
abbrev held (id : Nat) : Purse := { recorded := [id], created := [], extended := [] }

theorem Balanced.sublist {m : Purse} (h : m.Balanced) :
    (m.created.map some ++ m.extended).Sublist (m.recorded.map some) := by
  cases h <;> simp

/-- A statement that records nothing and grants nothing. -/
theorem note_of_idle {m : Purse} {a : Stmt × World} (hp : paymentOf a = none)
    (hc : fundedClaim a = none) (hl : lengthens a = false) : m.note a = m := by
  unfold note
  rw [hp, hc, hl]
  simp

theorem note_record {p : NewPayment} {w : World} {r : Except Fault (Nat × Db)}
    (h : Quota.recordPayment w.db w.now p = r) : Purse.empty.note (.recordPayment p, w) =
      { recorded := (r.toOption.map Prod.fst).toList, created := [], extended := [] } := by
  subst h
  rfl

end Purse

/-- What a request has done with its payment. -/
def purse {cfg : Config} (t : Trace (machine cfg)) : Purse := t.foldl Purse.note Purse.empty

section Purses

variable {cfg : Config} {t : Trace (machine cfg)} {a : Stmt × World}

theorem purse_append : purse (t ++ [a]) = (purse t).note a := List.foldl_append

theorem purse_recorded : (purse t).recorded = t.flatMap (fun a => (paymentOf a).toList) := by
  induction t using List.reverseRecOn with
  | nil => rfl
  | append_singleton t a ih =>
    rw [purse_append, List.flatMap_append, ← ih]
    simp [Purse.note]

theorem purse_created : (purse t).created = t.flatMap (fun a => (fundedClaim a).toList) := by
  induction t using List.reverseRecOn with
  | nil => rfl
  | append_singleton t a ih =>
    rw [purse_append, List.flatMap_append, ← ih]
    simp [Purse.note]

end Purses

/-! ## The tables and the history -/

section Tables

variable {cfg : Config} {db : Db} {t : Int} {γ : Type} {f : Claim → γ}

/-- Something about a claim that no update changes. -/
def Lasting (f : Claim → γ) : Prop :=
  ∀ c d : Claim, c.claimId = d.claimId → c.paymentId = d.paymentId → f c = f d

/-- What it is of each claim, in the order of the claims. -/
def column (f : Claim → γ) (db : Db) : List γ := db.claims.rows.map f

/-- The payments that the claims name. -/
abbrev paymentIds (db : Db) : List Nat := column Claim.paymentId db

theorem lasting_paymentId : Lasting Claim.paymentId := fun _ _ _ h => h

theorem lasting_claimId : Lasting Claim.claimId := fun _ _ h _ => h

theorem column_update (hf : Lasting f) {p : Claim → Bool} {g : Claim → Claim}
    (hid : ∀ c, (g c).claimId = c.claimId) (hpay : ∀ c, (g c).paymentId = c.paymentId) :
    (db.claims.rows.map (fun c => if p c then g c else c)).map f = column f db := by
  unfold column
  rw [List.map_map]
  refine List.map_congr_left (fun c _ => ?_)
  simp only [Function.comp]
  split
  · exact hf _ _ (hid c) (hpay c)
  · rfl

theorem column_createOrderWithClaim (n : NewClaim) :
    column f (createOrderWithClaim db t n).2 = column f db ++ [f (newClaimRow db t n)] := by
  simp [column, createOrderWithClaim, Table.insert, newClaimRow]

theorem column_extendClaim (hf : Lasting f) {after : Db} {claimId : Nat} {owner : Account}
    {extraHours : Int} {c : Claim} (h : extendClaim db claimId owner extraHours = .ok (c, after)) :
    column f after = column f db := by
  unfold extendClaim at h
  split at h
  · cases h
  · split at h
    · cases h
    · split at h
      · cases h
      · cases h
        refine column_update hf (fun _ => extendedClaim_claimId) (fun d => ?_)
        unfold extendedClaim
        split <;> rfl

theorem column_promote (hf : Lasting f) (g : Claim) : column f (promote db t g) = column f db :=
  column_update hf (fun _ => rfl) (fun _ => rfl)

theorem column_closeClaims (hf : Lasting f) {state : ClaimState} {select : Claim → Bool} :
    column f (closeClaims db state select) = column f db :=
  column_update hf (fun _ => rfl) (fun _ => rfl)

/-- The column is the one it was before. -/
theorem durable_column (hf : Lasting f) (db : Db) :
    Durable (fun after => column f after = column f db) where
  same := by
    intro a b _ hclaims h
    unfold column at h ⊢
    rw [hclaims, h]
  endPins := fun _ _ _ _ _ _ h => h
  closeClaims := fun _ _ _ _ _ h => (column_closeClaims hf).trans h
  promote := fun _ _ _ g _ h => (column_promote hf g).trans h
  extend := fun _ _ _ _ _ _ hrun h => (column_extendClaim hf hrun).trans h

end Tables

section History

variable (cfg : Config) {γ : Type} {f : Claim → γ}

/-- The row of the own copy that is written, if it is. -/
def ownCopyRow (w : World) (n : OwnCopyRequest) (info : PinInfo) : Claim :=
  newClaimRow (insertPin w.db w.now (n.pin w.now info)) w.now (n.claim w.now info w.db.pins.next)

/-- The claim that a statement creates. -/
def created : Stmt × World → Option Claim
  | (.finaliseUpload _ u, w) =>
    some (newClaimRow (insertPin w.db w.now u.pin) w.now
      (u.claim (alreadyHostedForCid w.db u.cid).isSome w.db.pins.next))
  | (.pledge g, w) => some (newClaimRow w.db w.now (g.claim w.now))
  | (.createOwnCopyClaim n, w) =>
    if (Quota.createOwnCopyClaim w.db w.now n).isOk then
      (getLatestPinInfoForCid w.db n.cid).map (ownCopyRow w n)
    else none
  | _ => none

theorem created_ownCopy {w : World} {n : OwnCopyRequest} {r : OwnCopy} {after : Db}
    (hrun : Quota.createOwnCopyClaim w.db w.now n = .ok (r, after)) :
    ∃ info, getLatestPinInfoForCid w.db n.cid = some info ∧
      created (.createOwnCopyClaim n, w) = some (ownCopyRow w n info) ∧
      after = (createOrderWithClaim (insertPin w.db w.now (n.pin w.now info)) w.now
        (n.claim w.now info w.db.pins.next)).2 := by
  obtain ⟨info, hinfo, _, hafter⟩ := createOwnCopyClaim_ok hrun
  refine ⟨info, hinfo, ?_, hafter⟩
  simp only [created, hrun, hinfo]
  rfl

theorem created_ownCopy_error {w : World} {n : OwnCopyRequest} {e : Fault}
    (hrun : Quota.createOwnCopyClaim w.db w.now n = .error e) :
    created (.createOwnCopyClaim n, w) = none := by
  simp only [created, hrun]
  rfl

/-- The payment of a claim is the one it is created with. -/
theorem fundedClaim_eq (a : Stmt × World) : fundedClaim a = (created a).map Claim.paymentId := by
  obtain ⟨s, w⟩ := a
  cases s with
  | createOwnCopyClaim n =>
    cases hrun : Quota.createOwnCopyClaim w.db w.now n with
    | error e =>
      simp only [fundedClaim, created_ownCopy_error hrun, hrun]
      rfl
    | ok r =>
      obtain ⟨info, _, hcreated, _⟩ := created_ownCopy hrun
      simp only [fundedClaim, hcreated, hrun]
      rfl
  | _ => rfl

/-- Every statement adds the claim it creates, if it creates one. -/
theorem column_sem (hf : Lasting f) (s : Stmt) (w : World) :
    column f (s.sem cfg w).2.db = column f w.db ++ ((created (s, w)).map f).toList := by
  have hdurable := durable_column hf w.db
  cases s with
  | finaliseUpload reservationId u => exact column_createOrderWithClaim _
  | pledge g => exact column_createOrderWithClaim _
  | createOwnCopyClaim n =>
    cases hrun : Quota.createOwnCopyClaim w.db w.now n with
    | error e =>
      rw [created_ownCopy_error hrun]
      simp only [Stmt.sem, hrun, Stmt.fallible]
      exact (List.append_nil _).symm
    | ok r =>
      obtain ⟨info, _, hcreated, hafter⟩ := created_ownCopy hrun
      rw [hcreated]
      simp only [Stmt.sem, hrun, Stmt.fallible, hafter]
      exact column_createOrderWithClaim _
  | _ => exact ((hdurable.at w.now).sem rfl rfl).trans (List.append_nil _).symm

theorem created_mem {s : Stmt} {w : World} {c : Claim} (h : created (s, w) = some c) :
    c ∈ (s.sem cfg w).2.db.claims := by
  cases s with
  | finaliseUpload reservationId u =>
    cases h
    exact mem_createOrderWithClaim.mpr (Or.inr rfl)
  | pledge g =>
    cases h
    exact mem_createOrderWithClaim.mpr (Or.inr rfl)
  | createOwnCopyClaim n =>
    cases hrun : Quota.createOwnCopyClaim w.db w.now n with
    | error e =>
      rw [created_ownCopy_error hrun] at h
      cases h
    | ok r =>
      obtain ⟨info, _, hcreated, hafter⟩ := created_ownCopy hrun
      rw [hcreated] at h
      cases h
      simp only [Stmt.sem, hrun, Stmt.fallible, hafter]
      exact mem_createOrderWithClaim.mpr (Or.inr rfl)
  | _ => cases h

/-- A claim under a new id is the one that the statement creates. -/
theorem created_of_new {s : Stmt} {w : World} {c : Claim} (hc : c ∈ (s.sem cfg w).2.db.claims)
    (hnew : ∀ d ∈ w.db.claims, d.claimId ≠ c.claimId) : created (s, w) = some c := by
  have hcolumn := column_sem cfg lasting_claimId s w
  have hid : c.claimId ∈ column Claim.claimId (s.sem cfg w).2.db := List.mem_map_of_mem hc
  rw [hcolumn] at hid
  rcases List.mem_append.mp hid with hid | hid
  · obtain ⟨d, hd, heq⟩ := List.mem_map.mp hid
    exact absurd heq (hnew d hd)
  · cases hcreated : created (s, w) with
    | none =>
      rw [hcreated] at hid
      exact absurd hid List.not_mem_nil
    | some d =>
      rw [hcreated] at hid
      have hcd : c = d := Table.eq_of_key hc (created_mem cfg hcreated) (List.mem_singleton.mp hid)
      rw [hcd]

/-- Every statement adds the payment of the claim it creates, if it creates one. -/
theorem paymentIds_sem (s : Stmt) (w : World) :
    paymentIds (s.sem cfg w).2.db = paymentIds w.db ++ (fundedClaim (s, w)).toList := by
  rw [fundedClaim_eq]
  exact column_sem cfg lasting_paymentId s w

/-- The payments row that a statement adds, with what it says. -/
def paymentRow : Stmt × World → Option Payment
  | (.recordPayment p, w) =>
    (Quota.recordPayment w.db w.now p).toOption.map (fun r =>
      { id := r.1, txId := p.txId, reservationId := p.reservationId, uploader := p.uploader,
        currency := p.currency, amount := p.amount, memo := p.memo, verifiedAt := w.now })
  | _ => none

theorem paymentOf_eq (a : Stmt × World) : paymentOf a = (paymentRow a).map Payment.id := by
  obtain ⟨s, w⟩ := a
  cases s with
  | recordPayment p =>
    unfold paymentOf paymentRow
    rw [Option.map_map]
    rfl
  | _ => rfl

/-- The payments rows are those the statements recorded. -/
theorem payments_append (s : Stmt) (w : World) :
    (s.sem cfg w).2.db.payments.rows = w.db.payments.rows ++ (paymentRow (s, w)).toList := by
  by_cases hw : s.writesTo .payments = true
  · cases s with
    | recordPayment p =>
      unfold paymentRow
      cases hrun : Quota.recordPayment w.db w.now p with
      | error e =>
        simp only [Stmt.sem, hrun, Stmt.fallible]
        exact (List.append_nil _).symm
      | ok r =>
        simp only [Stmt.sem, hrun, Stmt.fallible]
        unfold recordPayment at hrun
        split at hrun
        · cases hrun
        · cases hrun
          rfl
    | _ => cases hw
  · have hsame : (s.sem cfg w).2.db.payments = w.db.payments :=
      same_of_not_writesTo cfg .payments (Bool.eq_false_iff.mpr hw) w
    have hnone : paymentRow (s, w) = none := by
      cases s with
      | recordPayment p => exact absurd rfl hw
      | _ => rfl
    rw [hsame, hnone]
    exact (List.append_nil _).symm

end History

/-! ## Runs -/

section Runs

variable {cfg : Config} {t : Int} {events : List (GateEvent cfg)}

/-- A column that starts empty holds what the processes of the run have written to it. -/
theorem written_by_traces {γ : Type} (F : World → List γ) {g : Stmt × World → Option γ}
    (hstart : F (World.boot t) = [])
    (hstmt : ∀ s w, F (Stmt.sem cfg s w).2 = F w ++ (g (s, w)).toList)
    (hdrift : ∀ (ms : Nat) w, F { w with now := w.now + ms } = F w) :
    ((serve cfg t events).traces.flatMap (fun past => past.flatMap (fun a => (g a).toList))).Perm
      (F (serve cfg t events).world) := by
  have hcollect := Pool.collects (handle cfg) (F := F) (g := fun a => (g a).toList) hstmt hdrift
    (Pool.start (World.boot t)) events
  have hperm := (Pool.traces_start (handle cfg) (World.boot t) events).flatMap_right
    (fun a => (g a).toList)
  change F (serve cfg t events).world = F (World.boot t) ++ _ at hcollect
  rw [hstart, List.nil_append] at hcollect
  rw [List.flatten_eq_flatMap, List.flatMap_assoc] at hperm
  rw [hcollect]
  exact hperm

/-- The claims of a run are the ones its requests have created. -/
theorem created_serve : ((serve cfg t events).traces.flatMap (fun past => (purse past).created)).Perm
    (paymentIds (serve cfg t events).world.db) := by
  simp only [purse_created]
  exact written_by_traces (fun w => paymentIds w.db) rfl (paymentIds_sem cfg) (fun _ _ => rfl)

/-- The payments of a run are the ones its requests have recorded. -/
theorem payments_serve :
    ((serve cfg t events).traces.flatMap
      (fun past => past.flatMap (fun a => (paymentRow a).toList))).Perm
      (serve cfg t events).world.db.payments.rows :=
  written_by_traces (fun w => w.db.payments.rows) rfl (payments_append cfg) (fun _ _ => rfl)

theorem recorded_serve :
    ((serve cfg t events).traces.flatMap (fun past => (purse past).recorded)).Perm
      ((serve cfg t events).world.db.payments.rows.map Payment.id) := by
  have hrecorded : ∀ past : Trace (machine cfg), (purse past).recorded =
      (past.flatMap (fun a => (paymentRow a).toList)).map Payment.id := by
    intro past
    rw [purse_recorded, List.map_flatMap]
    refine List.flatMap_congr (fun a _ => ?_)
    rw [paymentOf_eq]
    cases paymentRow a <;> rfl
  simp only [hrecorded]
  rw [← List.map_flatMap]
  exact payments_serve.map Payment.id

/-- No two payments carry one transaction id. -/
theorem txIds_serve : ((serve cfg t events).world.db.payments.rows.map Payment.txId).Nodup := by
  refine serve_invariant cfg (P := fun w => (w.db.payments.rows.map Payment.txId).Nodup)
    List.nodup_nil (fun _ _ hw => hw) ?_ (Pool.admissible_true _ _ events)
  intro s w _ _ hw
  by_cases hwrites : s.writesTo .payments = true
  · cases s with
    | recordPayment p =>
      refine fallible_ind (P := fun after => (after.payments.rows.map Payment.txId).Nodup) hw
        (fun n after hrun => ?_)
      unfold recordPayment at hrun
      split at hrun
      · cases hrun
      · rename_i hnew
        cases hrun
        simp only [Table.insert, List.map_append, List.map_cons, List.map_nil]
        refine List.nodup_append'.mpr ⟨hw, List.nodup_singleton _, ?_⟩
        intro x hx hx'
        rw [List.mem_singleton.mp hx'] at hx
        obtain ⟨q, hq, htx⟩ := List.mem_map.mp hx
        exact hnew (List.any_eq_true.mpr ⟨q, hq, decide_eq_true htx⟩)
    | _ => cases hwrites
  · have hsame : (s.sem cfg w).2.db.payments = w.db.payments :=
      same_of_not_writesTo cfg .payments (Bool.eq_false_iff.mpr hwrites) w
    rw [hsame]
    exact hw

end Runs

end IpfsGate.Server
