import IpfsGate.Server.Frame
import IpfsGate.Lib.History

/-!
# What no statement takes back

Claims keep their owner, payments rows are only added, and a reservation keeps its size and, once
it is uploaded, its whole row. A handler may rely on this across its suspensions.
-/
namespace IpfsGate.Server

open Quota Moderation LedgerRun
open Lib Lib.Prog
open Lib (Table)

/-- The reservation is the same request for space, and final once it is uploaded. -/
structure Upholds (r r' : Reservation) : Prop where
  id : r'.id = r.id
  sizeBytes : r'.sizeBytes = r.sizeBytes
  final : r.status = .uploaded → r' = r

/-- The reservation keeps its terms while it is paid, uploaded, cancelled or expires. -/
structure Proceeds (r r' : Reservation) : Prop where
  terms : r' = { r with status := r'.status, paymentTxId := r'.paymentTxId, pinId := r'.pinId }
  final : r.status = .uploaded → r' = r

structure Evolves (a b : World) : Prop where
  clock : a.now ≤ b.now
  claims : ∀ c ∈ a.db.claims, ∃ d ∈ b.db.claims, d.claimId = c.claimId ∧ d.owner = c.owner
  payments : a.db.payments.rows <+: b.db.payments.rows
  reservations : ∀ r ∈ a.db.reservations, ∃ r' ∈ b.db.reservations, Upholds r r'

theorem Upholds.refl (r : Reservation) : Upholds r r := ⟨rfl, rfl, fun _ => rfl⟩

theorem Proceeds.refl (r : Reservation) : Proceeds r r := ⟨rfl, fun _ => rfl⟩

theorem Proceeds.upholds {r r' : Reservation} (h : Proceeds r r') : Upholds r r' where
  id := by rw [h.terms]
  sizeBytes := by rw [h.terms]
  final := h.final

namespace Evolves

theorem refl (w : World) : Evolves w w where
  clock := Int.le_refl _
  claims := fun c hc => ⟨c, hc, rfl, rfl⟩
  payments := List.prefix_rfl
  reservations := fun r hr => ⟨r, hr, .refl r⟩

theorem trans {a b c : World} (h₁ : Evolves a b) (h₂ : Evolves b c) : Evolves a c where
  clock := Int.le_trans h₁.clock h₂.clock
  claims := by
    intro x hx
    obtain ⟨y, hy, hid, hown⟩ := h₁.claims x hx
    obtain ⟨z, hz, hid', hown'⟩ := h₂.claims y hy
    exact ⟨z, hz, hid'.trans hid, hown'.trans hown⟩
  payments := h₁.payments.trans h₂.payments
  reservations := by
    intro r hr
    obtain ⟨r', hr', h⟩ := h₁.reservations r hr
    obtain ⟨r'', hr'', h'⟩ := h₂.reservations r' hr'
    refine ⟨r'', hr'', h'.id.trans h.id, h'.sizeBytes.trans h.sizeBytes, fun hs => ?_⟩
    have heq := h.final hs
    rw [← heq] at hs ⊢
    rw [heq] at hs
    rw [h'.final (heq ▸ hs)]

theorem drift {cfg : Config} (ms : Nat) (w : World) : Evolves w ((machine cfg).drift ms w) where
  clock := Int.le_add_of_nonneg_right (Int.natCast_nonneg ms)
  claims := fun c hc => ⟨c, hc, rfl, rfl⟩
  payments := List.prefix_rfl
  reservations := fun r hr => ⟨r, hr, .refl r⟩

end Evolves

/-- Claims rows stay, whatever the statement. -/
theorem retains_sem (cfg : Config) {s : Stmt} {w : World} (hs : s.Checked w) :
    Retains w.db (s.sem cfg w).2.db := by
  by_cases hq : s.quiet = true
  · exact retains_of_voids (voids_of_quiet cfg hq hs)
  · cases s with
    | cancelClaim claimId owner asAdmin =>
      exact fallible_ind (.refl _) (fun _ _ hrun => retains_of_voids (Voids.cancelClaim hrun))
    | endActiveClaimForRelease claimId =>
      exact fallible_ind (.refl _)
        (fun _ _ hrun => retains_of_voids (Voids.endActiveClaimForRelease hrun))
    | banAccount hiveAccount reason policy admin =>
      refine fallible_ind (.refl _) (fun _ _ hok => ?_)
      obtain ⟨p, rfl⟩ := banAccount_ok hok
      exact retains_of_voids (Voids.banTransaction _ _ _ _ _ _)
    | takedownCid cid reason policy admin =>
      refine fallible_ind (.refl _) (fun _ _ hok => ?_)
      obtain ⟨p, rfl⟩ := takedownCid_ok hok
      exact retains_of_voids (Voids.takedownTransaction _ _ _ _ _ _)
    | importTakedowns list => exact retains_importTakedowns cfg w.db w.now list
    | recordRefund n => exact retains_of_voids (.of_eq rfl rfl)
    | _ => exact absurd rfl hq

/-- Payments rows are only added. -/
theorem payments_sem (cfg : Config) (s : Stmt) (w : World) :
    w.db.payments.rows <+: (s.sem cfg w).2.db.payments.rows := by
  by_cases hw : s.writesTo .payments = true
  · cases s with
    | recordPayment p =>
      refine fallible_ind (P := fun after => w.db.payments.rows <+: after.payments.rows)
        List.prefix_rfl (fun n after hrun => ?_)
      unfold recordPayment at hrun
      split at hrun
      · cases hrun
      · cases hrun
        exact List.prefix_append _ _
    | _ => cases hw
  · have hsame : (s.sem cfg w).2.db.payments = w.db.payments :=
      same_of_not_writesTo cfg .payments (Bool.eq_false_iff.mpr hw) w
    rw [hsame]

section Reservations

variable {db : Db}

/-- An update of reservations that are not uploaded, and that keeps their terms. -/
theorem proceeds_update {p : Reservation → Bool} {f : Reservation → Reservation}
    (hf : ∀ r, Keyed.key (f r) = Keyed.key r)
    (hterms : ∀ r, f r = { r with
      status := (f r).status, paymentTxId := (f r).paymentTxId, pinId := (f r).pinId })
    (hopen : ∀ r, p r = true → r.status ≠ .uploaded) :
    ∀ r ∈ db.reservations, ∃ r' ∈ db.reservations.update p f hf, Proceeds r r' := by
  intro r hr
  refine ⟨_, Table.mem_update_of_mem hr, ?_⟩
  by_cases hp : p r = true
  · rw [if_pos hp]
    exact ⟨hterms r, fun hs => absurd hs (hopen r hp)⟩
  · rw [if_neg hp]
    exact .refl r

/-- Reservations keep their terms, and an uploaded one its whole row. -/
theorem proceeds_sem (cfg : Config) (s : Stmt) (w : World) :
    ∀ r ∈ w.db.reservations, ∃ r' ∈ (s.sem cfg w).2.db.reservations, Proceeds r r' := by
  by_cases hw : s.writesTo .reservations = true
  · cases s with
    | createReservation uploader sizeBytes mode quote =>
      refine fallible_ind
        (P := fun after => ∀ r ∈ w.db.reservations, ∃ r' ∈ after.reservations, Proceeds r r')
        (fun r hr => ⟨r, hr, .refl r⟩) (fun n after hrun => ?_)
      unfold createReservation at hrun
      iterate 7 (split at hrun; · cases hrun)
      split at hrun
      · cases hrun
      · cases hrun
        exact fun r hr => ⟨r, Table.mem_insert.mpr (Or.inl hr), .refl r⟩
    | markReservationPaid id txId =>
      refine proceeds_update (by exact fun _ => rfl) (fun _ => rfl) (fun r hp => ?_)
      simp only [Bool.and_eq_true, decide_eq_true_eq] at hp
      rw [hp.2]
      exact ReservationStatus.noConfusion
    | markReservationCancelled id =>
      refine proceeds_update (by exact fun _ => rfl) (fun _ => rfl) (fun r hp => ?_)
      simp only [Bool.and_eq_true, Bool.or_eq_true, decide_eq_true_eq] at hp
      rcases hp.2 with hs | hs <;> rw [hs] <;> exact ReservationStatus.noConfusion
    | finaliseUpload id u =>
      refine proceeds_update (by exact fun _ => rfl) (fun _ => rfl) (fun r hp => ?_)
      simp only [Bool.and_eq_true, decide_eq_true_eq] at hp
      rw [hp.2]
      exact ReservationStatus.noConfusion
    | sweep =>
      have hsame : (Quota.sweep w.db w.now).2.reservations =
          (expireReservations w.db w.now).reservations :=
        (SameBeside.sweep w.db w.now).same .reservations
      change ∀ r ∈ w.db.reservations, ∃ r' ∈ (Quota.sweep w.db w.now).2.reservations,
        Proceeds r r'
      rw [hsame]
      refine proceeds_update (by exact fun _ => rfl) (fun _ => rfl) (fun r hp => ?_)
      simp only [isLapsed, Bool.and_eq_true, decide_eq_true_eq] at hp
      rw [hp.1]
      exact ReservationStatus.noConfusion
    | _ => cases hw
  · have hsame : (s.sem cfg w).2.db.reservations = w.db.reservations :=
      same_of_not_writesTo cfg .reservations (Bool.eq_false_iff.mpr hw) w
    rw [hsame]
    exact fun r hr => ⟨r, hr, .refl r⟩

/-- Reservations keep their size, and an uploaded one its whole row. -/
theorem reservations_sem (cfg : Config) (s : Stmt) (w : World) :
    ∀ r ∈ w.db.reservations, ∃ r' ∈ (s.sem cfg w).2.db.reservations, Upholds r r' := by
  intro r hr
  obtain ⟨r', hr', h⟩ := proceeds_sem cfg s w r hr
  exact ⟨r', hr', h.upholds⟩

end Reservations

theorem clock_sem (cfg : Config) (s : Stmt) (w : World) : (s.sem cfg w).2.now = w.now := by
  have hfallible : ∀ {α : Type} (r : Except Fault (α × Db)), (Stmt.fallible w r).2.now = w.now := by
    intro α r
    cases r <;> rfl
  cases s <;> first | rfl | exact hfallible _

theorem evolves_sem (cfg : Config) {s : Stmt} {w : World} (hs : s.Checked w) :
    Evolves w (s.sem cfg w).2 where
  clock := Int.le_of_eq (clock_sem cfg s w).symm
  claims := fun c hc =>
    let ⟨d, hd, hid, hown, _⟩ := (retains_sem cfg hs).kept c hc
    ⟨d, hd, hid, hown⟩
  payments := payments_sem cfg s w
  reservations := reservations_sem cfg s w

/-! ## The rely of a run -/

/-- The statements a request may run, where its handler has checked what they need. -/
abbrev tabled (cfg : Config) (q : Request) : Guarantee (machine cfg) :=
  fun _ s w => q.mayWrite s = true ∧ s.Checked w

/-- What holds of the world, what its statements meet and how its calls are answered. -/
abbrev evolving (cfg : Config) (Inv : World → Prop) (Ok : Stmt → World → Prop)
    (A : Answers) : Rely (machine cfg) where
  Inv := Inv
  Later := Evolves
  Runs := Ok
  Answers := A

theorem evolving_valid (cfg : Config) {Inv : World → Prop} {Ok : Stmt → World → Prop}
    (A : Answers) {G : Request → Guarantee (machine cfg)}
    (hG : ∀ q past s w, G q past s w → tabled cfg q past s w)
    (hdrift : ∀ (ms : Nat) w, Inv w → Inv { w with now := w.now + ms })
    (hstep : ∀ q past s w, G q past s w → Ok s w → Inv w → Inv (s.sem cfg w).2) :
    (evolving cfg Inv Ok A).Valid G where
  refl := Evolves.refl
  trans := Evolves.trans
  drift := fun ms w hi => ⟨hdrift ms w hi, Evolves.drift ms w⟩
  step := fun q past s w hg hok hi => ⟨hstep q past s w hg hok hi,
    evolves_sem cfg (hG q past s w hg).2⟩

/-- Every handler keeps to the table. -/
theorem handle_assures (cfg : Config) (E : Rely (machine cfg)) (q : Request) (w : World) :
    (handle cfg q).Assures E (tabled cfg q) (fun _ _ _ => True) [] w := by
  refine Assures.mono (fun _ _ _ _ => trivial)
    (Emits.assures (M := machine cfg) (J := fun _ _ => True) ?_ (fun _ _ _ _ _ _ => trivial)
      (handle_follows cfg q w) trivial)
  exact fun s w _ hs _ _ => ⟨hs, fun _ => trivial⟩

/-- The history of a guarded run is in order. -/
theorem serve_ordered (cfg : Config) {Ok : Stmt → World → Prop} {t : Int}
    {events : List (GateEvent cfg)} (h : Guarded cfg Ok t events) :
    (evolving cfg (fun _ => True) Ok (fun _ _ => True)).Ordered (World.boot t)
      (Pool.history (handle cfg) (Pool.start (World.boot t)) events)
      (serve cfg t events).world := by
  refine Rely.ordered_start (G := tabled cfg) (evolving_valid cfg _ (fun _ _ _ _ hg => hg)
    (fun _ _ _ => trivial) (fun _ _ _ _ _ _ _ => trivial)) trivial
    (fun q w _ _ => handle_assures cfg _ q w) h (fun e _ => ?_)
  cases e with
  | resume i answer => exact fun _ => trivial
  | _ => trivial

end IpfsGate.Server
