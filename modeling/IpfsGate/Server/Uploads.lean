import IpfsGate.Server.Evolution

/-!
# One reservation, one upload

An upload reads the status of its reservation before it waits for its payment and for Kubo, and
then marks the reservation without looking whether the mark took. Uploads that commit while the
reservation is paid for by their own payment exclude each other, because the first commit makes
it uploaded for good.
-/
namespace IpfsGate.Server

open Quota LedgerRun
open Lib Lib.Prog
open Lib (Table)

/-- The upload that a statement commits on a reservation. -/
def commitOn (reservationId : Nat) : Stmt × World → Option (Upload × World)
  | (.finaliseUpload id u, w) => if id = reservationId then some (u, w) else none
  | _ => none

/-- The uploads that created a pin and a claim on a reservation, each with the world it ran in. -/
def commits {cfg : Config} (S : Gate cfg) (reservationId : Nat) : List (Upload × World) :=
  S.traces.flatten.filterMap (commitOn reservationId)

/-- The reservation is paid for by the payment. -/
def PaidBy (db : Db) (reservationId paymentId : Nat) (status : ReservationStatus)
    (pinId : Option Nat) : Prop :=
  ∃ r ∈ db.reservations, r.id = reservationId ∧ r.status = status ∧ r.pinId = pinId ∧
    ∃ p ∈ db.payments, p.id = paymentId ∧ r.paymentTxId = some p.txId

structure OneUpload {cfg : Config} (S : Gate cfg) (reservationId : Nat) : Prop where
  once : (commits S reservationId).length ≤ 1
  final : ∀ u w, (u, w) ∈ commits S reservationId →
    PaidBy S.world.db reservationId u.paymentId .uploaded (some w.db.pins.next)

/-- An upload is committed while its reservation is paid for by its own payment. -/
def Stmt.CommitsPaid : Stmt → World → Prop
  | .finaliseUpload id u, w => ∃ r ∈ w.db.reservations, (r.id = id ∧ r.status = .paid) ∧
    ∃ p ∈ w.db.payments, p.id = u.paymentId ∧ r.paymentTxId = some p.txId
  | _, _ => True

instance (s : Stmt) (w : World) : Decidable (s.CommitsPaid w) := by
  induction s using Stmt.casesOn <;> unfold Stmt.CommitsPaid <;> infer_instance

theorem commitOn_eq_some {id : Nat} {a : Stmt × World} {u : Upload} {w : World} :
    commitOn id a = some (u, w) ↔ a = (.finaliseUpload id u, w) := by
  obtain ⟨s, v⟩ := a
  constructor
  · intro h
    cases s with
    | finaliseUpload i x =>
      change (if i = id then some (x, v) else none) = some (u, w) at h
      by_cases hi : i = id
      · rw [if_pos hi] at h
        cases h
        rw [hi]
      · rw [if_neg hi] at h
        cases h
    | _ => cases h
  · intro h
    cases h
    exact if_pos rfl

section Commit

variable {id : Nat} {u : Upload} {w w' : World}

theorem reservations_finaliseUpload (cfg : Config) (id : Nat) (u : Upload) (w : World) :
    ((Stmt.finaliseUpload id u).sem cfg w).2.db.reservations =
      (markReservationUploaded w.db id w.db.pins.next).reservations := rfl

/-- A commit on a paid reservation makes it uploaded, in every later world. -/
theorem paidBy_of_commit (cfg : Config) (h : (Stmt.finaliseUpload id u).CommitsPaid w)
    (hl : Evolves ((Stmt.finaliseUpload id u).sem cfg w).2 w') :
    PaidBy w'.db id u.paymentId .uploaded (some w.db.pins.next) := by
  obtain ⟨r, hr, ⟨hid, hpaid⟩, p, hp, hpid, htx⟩ := h
  have hmarked : { r with status := .uploaded, pinId := some w.db.pins.next } ∈
      ((Stmt.finaliseUpload id u).sem cfg w).2.db.reservations := by
    rw [reservations_finaliseUpload, markReservationUploaded, Table.mem_update]
    refine ⟨r, hr, ?_⟩
    rw [if_pos (by simp [hid, hpaid])]
  obtain ⟨r', hr', hup⟩ := hl.reservations _ hmarked
  rw [hup.final rfl] at hr'
  exact ⟨_, hr', hid, rfl, rfl, p, hl.payments.subset hp, hpid, htx⟩

/-- No upload commits on a reservation that is uploaded. -/
theorem not_commit_twice {pinId : Option Nat} {paymentId : Nat}
    (h : PaidBy w.db id paymentId .uploaded pinId) :
    ¬ (Stmt.finaliseUpload id u).CommitsPaid w := by
  obtain ⟨r, hr, hid, hs, _⟩ := h
  rintro ⟨r', hr', ⟨hid', hs'⟩, _⟩
  have heq : r' = r := Table.eq_of_key hr' hr (hid'.trans hid.symm)
  rw [heq, hs] at hs'
  cases hs'

end Commit

/-- In every run whose uploads are committed while their reservation is paid for by their own
payment, a reservation stands for one upload at most and ends as that upload's. -/
theorem one_upload (cfg : Config) (t : Int) (events : List (GateEvent cfg))
    (h : Guarded cfg Stmt.CommitsPaid t events) (reservationId : Nat) :
    OneUpload (serve cfg t events) reservationId := by
  have hord := serve_ordered cfg h
  have hperm : (commits (serve cfg t events) reservationId).Perm
      ((Pool.history (handle cfg) (Pool.start (World.boot t)) events).filterMap
        (commitOn reservationId)) := by
    have hall := Pool.traces_start (handle cfg) (World.boot t) events
    exact hall.filterMap _
  generalize Pool.history (handle cfg) (Pool.start (World.boot t)) events = past at hord hperm
  constructor
  · rw [hperm.length_eq]
    have hnever : (past.filterMap (commitOn reservationId)).Pairwise (fun _ _ => False) := by
      refine List.Pairwise.filterMap _ ?_ (hord.pairwise.imp_of_mem (fun ha hb hl =>
        (⟨hl, (hord.admitted _ ha).2, (hord.admitted _ hb).2⟩ :
          _ ∧ Stmt.CommitsPaid _ _ ∧ Stmt.CommitsPaid _ _)))
      rintro a b ⟨hl, hcommit, hcommit'⟩ ⟨u, w⟩ hu ⟨u', w'⟩ hu'
      rw [commitOn_eq_some.mp hu] at hl hcommit
      rw [commitOn_eq_some.mp hu'] at hl hcommit'
      exact not_commit_twice (paidBy_of_commit cfg hcommit hl) hcommit'
    cases hlist : past.filterMap (commitOn reservationId) with
    | nil => exact Nat.zero_le _
    | cons x rest =>
      cases rest with
      | nil => exact Nat.le_refl _
      | cons y more =>
        rw [hlist] at hnever
        exact ((List.pairwise_cons.mp hnever).1 y List.mem_cons_self).elim
  · intro u w hmem
    obtain ⟨a, ha, hcommit⟩ := List.mem_filterMap.mp (hperm.subset hmem)
    have hruns := (hord.admitted a ha).2
    have hlater := hord.before a ha
    rw [commitOn_eq_some.mp hcommit] at hruns hlater
    exact paidBy_of_commit cfg hruns hlater

section Sampled

open Sample

/-- Alice uploads another file on her reservation, which is refused. -/
def uploadedAgain : List (GateEvent config) :=
  hostedByAlice ++ [.spawn (uploadOf 1 "other")] ++ resumed 6 0

theorem one_upload_hosted :
    (serve config 0 uploadedAgain).finished.map (fun f => f.result.toOption.isSome) =
      [true, true, false] ∧
    OneUpload (serve config 0 uploadedAgain) 1 :=
  ⟨by decide +kernel, one_upload config 0 uploadedAgain (by decide +kernel) 1⟩

/-- The answers of a chain on which every transaction carries the memo. -/
def answerWith (memo : String) : (c : Call) → c.Reply
  | .getTransaction _ => .ok [transferOf memo]
  | c => answer c

/-- Alice sends her upload twice at once, each with a payment of its own. -/
def uploadedTwice : List (GateEvent config) :=
  [.spawn (reserveBy "alice"), .spawn (uploadOf 1 "bafy"),
    .spawn (.upload
      { reservationId := 1, txId := "second", uploaderPubkey := "posting-key",
        uploadProofSig := "signature", file := "bafy", mime := "text/plain",
        releasePolicy := none, receiptHash := "" })] ++
    List.replicate 12 (.resume 0 (answerWith (memoForReservation 1)))

theorem two_uploads_commit : ¬ OneUpload (serve config 0 uploadedTwice) 1 := by
  intro h
  have htwo : (commits (serve config 0 uploadedTwice) 1).length = 2 := by decide +kernel
  have honce := h.once
  omega

end Sampled

end IpfsGate.Server
