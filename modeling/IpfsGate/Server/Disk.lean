import IpfsGate.Lib.Totals
import IpfsGate.Server.Backing

/-!
# The disk limit under concurrency

The check of a reservation counts active pins and live pending reservations. A reservation that
is paid for is counted as neither until its upload commits, and a lapsed one is not counted
while its upload goes on. Where the check is made against all bytes that are still held, they
stay accounted from the reservation to the pin.
-/
namespace IpfsGate.Server

open Quota LedgerRun
open Lib Lib.Prog
open Lib (Table)

/-- The requests that pledge for a CID or buy an own copy of it. -/
def Request.sharesHosting : Request → Bool
  | .guardianPledge _ | .backstopPledge _ | .ownCopy _ => true
  | _ => false

/-- The reservation is counted by the check, or paid for and not uploaded. -/
def isHeldAt (t : Int) (r : Reservation) : Bool := isPendingAt t r || r.status = .paid

def isActivePin (p : Pin) : Bool := p.status = .active

def activeBytes (db : Db) : Nat := db.pins.total isActivePin Pin.sizeBytes

def heldBytes (db : Db) (t : Int) : Nat := db.reservations.total (isHeldAt t) Reservation.sizeBytes

/-- The bytes of active pins and of the reservations that may still become one. -/
def accountedBytes (db : Db) (t : Int) : Nat := activeBytes db + heldBytes db t

/-- A reservation is accepted while its bytes fit beside all that is accounted for, paid for
before it lapses, and uploaded while it is paid for. -/
def Stmt.KeepsAccounts (cfg : Config) : Stmt → World → Prop
  | .createReservation uploader sizeBytes mode quote, w =>
    (Quota.createReservation cfg w.db w.now uploader sizeBytes mode quote).isOk = true →
      accountedBytes w.db w.now + sizeBytes ≤ cfg.diskLimitBytes
  | .markReservationPaid id _, w =>
    ∀ r ∈ w.db.reservations, r.id = id → r.status = .pending → w.now < r.expiresAt
  | .finaliseUpload id _, w => ∃ r ∈ w.db.reservations, r.id = id ∧ r.status = .paid
  | _, _ => True

instance (cfg : Config) (s : Stmt) (w : World) : Decidable (s.KeepsAccounts cfg w) := by
  induction s using Stmt.casesOn <;> unfold Stmt.KeepsAccounts <;> infer_instance

/-- What is accounted for fits on the disk, and no guardian waits. -/
structure WithinLimit (cfg : Config) (w : World) : Prop where
  accounted : accountedBytes w.db w.now ≤ cfg.diskLimitBytes
  unguarded : Unguarded w.db

theorem usedBytes_le_accounted (db : Db) (t : Int) :
    (getDiskUsage db t).usedBytes ≤ accountedBytes db t := by
  refine Nat.add_le_add_left (Table.total_mono (fun r _ => ?_)) _
  unfold Table.weight isHeldAt
  by_cases hp : isPendingAt t r = true
  · rw [if_pos hp, hp, Bool.true_or, if_pos rfl]
  · rw [if_neg hp]
    exact Nat.zero_le _

/-! ## Pins -/

/-- Without waiting guardians no write to existing rows adds an active pin. -/
theorem durable_activeBytes (bound : Nat) :
    Durable (fun db => activeBytes db ≤ bound ∧ Unguarded db) := by
  refine durable_of_unguarded ?_ ?_ (fun _ _ _ _ _ h => h) ?_
  · intro a b hp _ h
    unfold activeBytes
    rw [hp]
    exact h
  · intro db t status reason select hstatus hbytes
    refine le_trans (Table.total_update_le (by exact fun _ => rfl) (fun p _ _ => ?_)) hbytes
    unfold Table.weight isActivePin
    rw [if_neg (by simpa using hstatus)]
    exact Nat.zero_le _
  · intro db claimId owner extraHours c after hrun hbytes
    unfold extendClaim at hrun
    split at hrun
    · cases hrun
    · split at hrun
      · cases hrun
      · split at hrun
        · cases hrun
        · cases hrun
          have hkey : ∀ pinId expiry p, Keyed.key (extendedPin pinId expiry p) = Keyed.key p := by
            intro pinId expiry p
            unfold extendedPin
            split <;> rfl
          refine le_trans (Table.total_update_le (hkey _ _) (fun p _ _ => ?_)) hbytes
          unfold extendedPin
          split <;> exact Nat.le_refl _

/-! ## Reservations -/

section Held

variable {cfg : Config} {db after : Db} {t : Int} {id : Nat} {txId : String}

theorem heldBytes_markReservationPaid
    (hlive : ∀ r ∈ db.reservations, r.id = id → r.status = .pending → t < r.expiresAt) :
    heldBytes (markReservationPaid db id txId) t ≤ heldBytes db t := by
  refine Table.total_update_le (by exact fun _ => rfl) (fun r hr hs => ?_)
  obtain ⟨hid, hpending⟩ : r.id = id ∧ r.status = .pending := by simpa using hs
  have hheld : isHeldAt t r = true := by
    simp [isHeldAt, isPendingAt, hpending, hlive r hr hid hpending]
  unfold Table.weight
  rw [if_pos hheld]
  split
  · exact Nat.le_refl _
  · exact Nat.zero_le _

theorem heldBytes_markReservationCancelled :
    heldBytes (markReservationCancelled db id) t ≤ heldBytes db t := by
  refine Table.total_update_le (by exact fun _ => rfl) (fun r _ _ => ?_)
  unfold Table.weight
  rw [if_neg (by simp [isHeldAt, isPendingAt])]
  exact Nat.zero_le _

theorem heldBytes_expireReservations : heldBytes (expireReservations db t) t ≤ heldBytes db t := by
  refine Table.total_update_le (by exact fun _ => rfl) (fun r _ _ => ?_)
  unfold Table.weight
  rw [if_neg (by simp [isHeldAt, isPendingAt])]
  exact Nat.zero_le _

/-- A commit on a paid reservation gives its bytes back. -/
theorem heldBytes_markReservationUploaded {r : Reservation} {pinId : Nat}
    (hr : r ∈ db.reservations) (hpaid : r.status = .paid) :
    heldBytes (markReservationUploaded db r.id pinId) t + r.sizeBytes ≤ heldBytes db t := by
  refine Table.total_update_drop (by exact fun _ => rfl) (fun x _ _ => ?_) hr (by simp [hpaid]) ?_
  · unfold Table.weight
    rw [if_neg (by simp [isHeldAt, isPendingAt])]
    exact Nat.zero_le _
  · unfold Table.weight
    rw [if_neg (by simp [isHeldAt, isPendingAt]), if_pos (by simp [isHeldAt, hpaid]), Nat.zero_add]

/-- Time only lets reservations lapse. -/
theorem heldBytes_drift (db : Db) (t : Int) (ms : Nat) : heldBytes db (t + ms) ≤ heldBytes db t := by
  refine Table.total_mono (fun r _ => ?_)
  unfold Table.weight
  by_cases hheld : isHeldAt (t + ms) r = true
  · have hbefore : isHeldAt t r = true := by
      simp only [isHeldAt, isPendingAt, Bool.or_eq_true, Bool.and_eq_true,
        decide_eq_true_eq] at hheld ⊢
      rcases hheld with ⟨hp, hlt⟩ | hpaid
      · exact Or.inl ⟨hp, by omega⟩
      · exact Or.inr hpaid
    rw [if_pos hheld, if_pos hbefore]
  · rw [if_neg hheld]
    exact Nat.zero_le _

theorem createReservation_adds {uploader : Account} {sizeBytes : Nat} {mode : Mode}
    {quote : ReservationQuote} {r : Reserved}
    (hrun : createReservation cfg db t uploader sizeBytes mode quote = .ok (r, after)) :
    after.pins = db.pins ∧ after.claims = db.claims ∧
      heldBytes after t ≤ heldBytes db t + sizeBytes := by
  unfold createReservation at hrun
  iterate 7 (split at hrun; · cases hrun)
  split at hrun
  · cases hrun
  · cases hrun
    refine ⟨rfl, rfl, ?_⟩
    unfold heldBytes
    rw [Table.total_insert]
    refine Nat.add_le_add_left ?_ _
    unfold Table.weight
    split
    · exact Nat.le_refl _
    · exact Nat.zero_le _

end Held

/-! ## Every statement -/

section Steps

variable {cfg : Config} {w : World} {s : Stmt}

/-- A statement that neither accepts a reservation nor creates a claim accounts for no more. -/
theorem withinLimit_sem (hs : s.creates = false)
    (hreserve : ∀ uploader sizeBytes mode quote, s ≠ .createReservation uploader sizeBytes mode quote)
    (hok : s.KeepsAccounts cfg w) (h : WithinLimit cfg w) : WithinLimit cfg (s.sem cfg w).2 := by
  have hkept : activeBytes (s.sem cfg w).2.db ≤ activeBytes w.db ∧ Unguarded (s.sem cfg w).2.db :=
    ((durable_activeBytes (activeBytes w.db)).at w.now).sem hs ⟨Nat.le_refl _, h.unguarded⟩
  obtain ⟨hactive, hunguarded⟩ := hkept
  refine ⟨le_trans (Nat.add_le_add hactive ?_) h.accounted, hunguarded⟩
  rw [clock_sem]
  by_cases hw : s.writesTo .reservations = true
  · cases s with
    | createReservation uploader sizeBytes mode quote => exact absurd rfl (hreserve _ _ _ _)
    | markReservationPaid id txId => exact heldBytes_markReservationPaid hok
    | markReservationCancelled id => exact heldBytes_markReservationCancelled
    | finaliseUpload id u => cases hs
    | sweep =>
      have hsame : (Quota.sweep w.db w.now).2.reservations =
          (expireReservations w.db w.now).reservations :=
        (SameBeside.sweep w.db w.now).same .reservations
      change (Quota.sweep w.db w.now).2.reservations.total _ _ ≤ _
      rw [hsame]
      exact heldBytes_expireReservations
    | _ => cases hw
  · have hsame : (s.sem cfg w).2.db.reservations = w.db.reservations :=
      same_of_not_writesTo cfg .reservations (Bool.eq_false_iff.mpr hw) w
    unfold heldBytes
    rw [hsame]

/-- An accepted reservation is accounted for. -/
theorem withinLimit_createReservation {uploader : Account} {sizeBytes : Nat} {mode : Mode}
    {quote : ReservationQuote}
    (hok : (Stmt.createReservation uploader sizeBytes mode quote).KeepsAccounts cfg w)
    (h : WithinLimit cfg w) :
    WithinLimit cfg ((Stmt.createReservation uploader sizeBytes mode quote).sem cfg w).2 := by
  cases hrun : Quota.createReservation cfg w.db w.now uploader sizeBytes mode quote with
  | error e =>
    change WithinLimit cfg (Stmt.fallible w _).2
    rw [hrun]
    exact h
  | ok r =>
    obtain ⟨out, after⟩ := r
    obtain ⟨hpins, hclaims, hheld⟩ := createReservation_adds hrun
    have hfits := hok (by rw [hrun]; rfl)
    change WithinLimit cfg (Stmt.fallible w _).2
    rw [hrun]
    refine ⟨?_, ?_⟩
    · change activeBytes after + heldBytes after w.now ≤ _
      unfold activeBytes
      rw [hpins]
      unfold accountedBytes activeBytes at hfits
      omega
    · change Unguarded after
      unfold Unguarded
      rw [hclaims]
      exact h.unguarded

/-- An upload takes the place of the reservation it was paid for. -/
theorem withinLimit_finaliseUpload {u : Upload} {r : Reservation} (hr : r ∈ w.db.reservations)
    (hpaid : r.status = .paid) (hsize : u.sizeBytes ≤ r.sizeBytes) (h : WithinLimit cfg w) :
    WithinLimit cfg ((Stmt.finaliseUpload r.id u).sem cfg w).2 := by
  have hactive : activeBytes ((Stmt.finaliseUpload r.id u).sem cfg w).2.db =
      activeBytes w.db + u.sizeBytes := Table.total_insert (by exact fun _ => rfl)
  have hheld : heldBytes ((Stmt.finaliseUpload r.id u).sem cfg w).2.db w.now + r.sizeBytes ≤
      heldBytes w.db w.now := heldBytes_markReservationUploaded hr hpaid
  refine ⟨?_, fun c hc => ?_⟩
  · have haccounted := h.accounted
    unfold accountedBytes at haccounted ⊢
    rw [clock_sem, hactive]
    omega
  · rcases mem_createOrderWithClaim.mp hc with hc | rfl
    · exact h.unguarded c hc
    · exact ClaimState.noConfusion

end Steps

section Runs

variable {cfg : Config} {t : Int} {events : List (GateEvent cfg)}

/-- The requests of the run neither pledge nor copy. -/
abbrev SoleHosts (q : Request) (_ : World) : Prop := q.sharesHosting = false

/-- The reservation that an upload was checked against, where it commits. -/
theorem reserved_of_backed {A : Answers} {b : UploadRequest} {w₀ w : World} {c : Checked}
    {past : Trace (machine cfg)} {id : Nat} {u : Upload} (hev : Evolves w₀ w)
    (hback : UploadBacked cfg A b w₀ c past id u) {r : Reservation} (hr : r ∈ w.db.reservations)
    (hid : r.id = id) : u.sizeBytes ≤ r.sizeBytes := by
  obtain ⟨hfound, hchecked, _⟩ := checkUpload_ok hback.checked
  obtain ⟨hmem, _⟩ := Table.find?_eq_some.mp hfound
  obtain ⟨r', hr', hup⟩ := hev.reservations _ hmem
  have heq : r = r' :=
    Table.eq_of_key hr hr' (hid.trans (hback.reservationId.trans hup.id.symm))
  rw [heq, hup.sizeBytes, hback.sizeBytes]
  unfold checkReservation at hchecked
  iterate 3 (split at hchecked; · cases hchecked)
  split at hchecked
  · cases hchecked
  · omega

theorem withinLimit_kept (cfg : Config) (A : Answers) (t : Int) :
    Kept cfg (WithinLimit cfg) (Stmt.KeepsAccounts cfg) A SoleHosts t where
  start := ⟨Nat.zero_le _, fun c hc => absurd hc (Table.not_mem_empty c)⟩
  drift := by
    intro ms w h
    refine ⟨le_trans (Nat.add_le_add_left (heldBytes_drift w.db w.now ms) _) h.accounted, ?_⟩
    exact h.unguarded
  step := by
    intro q past s w hj hok h
    cases s with
    | createReservation uploader sizeBytes mode quote => exact withinLimit_createReservation hok h
    | finaliseUpload id u =>
      have hwrite := hj.tabled.1
      cases q <;> cases hwrite
      obtain ⟨w₀, c, _, hev, hback⟩ := hj.backed
      obtain ⟨r, hr, hid, hpaid⟩ := hok
      have hsize := reserved_of_backed hev hback hr hid
      rw [← hid]
      exact withinLimit_finaliseUpload hr hpaid hsize h
    | createOwnCopyClaim n =>
      have hwrite := hj.tabled.1
      cases q <;> cases hwrite
      obtain ⟨w₀, c, ⟨hsole, _⟩, _⟩ := hj.backed
      cases hsole
    | pledge g =>
      have hwrite := hj.tabled.1
      cases q <;> cases hwrite
      all_goals
        obtain ⟨w₀, c, ⟨hsole, _⟩, _⟩ := hj.backed
        cases hsole
    | _ =>
      refine withinLimit_sem rfl ?_ hok h
      intro _ _ _ _ heq
      cases heq

/-- Without pledges and own copies, in every run whose reservations are accepted while they fit
beside all that is held, paid before they lapse and uploaded while paid for, the bytes of active
pins and live pending reservations stay within the limit. -/
theorem disk_within_limit (cfg : Config) (t : Int) (events : List (GateEvent cfg))
    (h : GuardedArrivals cfg SoleHosts (Stmt.KeepsAccounts cfg) t events) :
    (getDiskUsage (serve cfg t events).world.db (serve cfg t events).world.now).usedBytes ≤
      cfg.diskLimitBytes := by
  have hinv := (serve_justified (withinLimit_kept cfg _ t) h (answered_any events)).inv
  exact le_trans (usedBytes_le_accounted _ _) hinv.accounted

end Runs

section Sampled

open Sample

theorem disk_within_limit_hosted :
    (getDiskUsage (serve config 0 hostedByAlice).world.db
      (serve config 0 hostedByAlice).world.now).usedBytes ≤ config.diskLimitBytes :=
  disk_within_limit config 0 hostedByAlice (by decide +kernel)

/-- A disk with room for one and a half of the sample files. -/
def smallDisk : Config := { config with diskLimitBytes := 150 }

/-- Bob reserves while the file that Alice has paid for is being pinned. -/
def reservedWhilePinning : List (GateEvent smallDisk) :=
  [.spawn (reserveBy "alice"), .spawn (uploadOf 1 "bafy")] ++ resumed 4 0 ++
    [.spawn (reserveBy "bob")] ++ resumed 2 0

theorem disk_overrun :
    ¬ ∀ events, GuardedArrivals smallDisk SoleHosts (fun _ _ => True) 0 events →
      (getDiskUsage (serve smallDisk 0 events).world.db
        (serve smallDisk 0 events).world.now).usedBytes ≤ smallDisk.diskLimitBytes := by
  intro h
  have hused := h reservedWhilePinning (by decide +kernel)
  exact absurd hused (by decide +kernel)

end Sampled

end IpfsGate.Server
