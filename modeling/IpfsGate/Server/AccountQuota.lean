import IpfsGate.Lib.Totals
import IpfsGate.Server.Evolution

/-!
# The quota of an account under concurrency

A reservation tests the account's quota in the transaction that inserts it. An own copy tests it
before its payment is verified and inserts its pin afterwards. Where the test would still pass
when the pin is inserted, the account stays within its quota.
-/
namespace IpfsGate.Server

open Quota LedgerRun
open Lib (Pool Protocol Table)

/-- The requests for more bytes. -/
def Request.asksForBytes : Request → Bool
  | .reserve _ | .ownCopy _ => true
  | _ => false

/-- An own copy of the account is created while its quota allows the bytes that are copied. -/
def Stmt.CopiesAllowed (cfg : Config) (account : Account) : Stmt → World → Prop
  | .createOwnCopyClaim n, w => n.owner = account →
    ∀ info ∈ getLatestPinInfoForCid w.db n.cid,
      (assertWhitelistAllows cfg w.db w.now account info.sizeBytes).isOk = true
  | _, _ => True

instance (cfg : Config) (account : Account) (s : Stmt) (w : World) :
    Decidable (s.CopiesAllowed cfg account w) := by
  induction s using Stmt.casesOn <;> unfold Stmt.CopiesAllowed <;> infer_instance

/-- The account's whitelist entry has the quota, and its active pins and live pending reservations
are within it. -/
structure WithinQuota (account : Account) (q : Nat) (w : World) : Prop where
  entry : (getWhitelistEntry w.db account).bind WhitelistedAccount.quotaBytes = some q
  used : (getAccountUsage w.db w.now account).usedBytes ≤ q

instance (account : Account) (q : Nat) : DecidablePred (WithinQuota account q) := fun w =>
  decidable_of_iff ((getWhitelistEntry w.db account).bind WhitelistedAccount.quotaBytes = some q ∧
    (getAccountUsage w.db w.now account).usedBytes ≤ q)
    ⟨fun h => ⟨h.1, h.2⟩, fun h => ⟨h.entry, h.used⟩⟩

section Steps

variable {cfg : Config} {db after : Db} {t : Int} {account : Account} {q : Nat} {w : World}

theorem getAccountUsage_total :
    (getAccountUsage db t account).usedBytes =
      db.pins.total (fun p => p.uploader = account && p.status = .active) Pin.sizeBytes +
        db.reservations.total (fun r => r.uploader = account && isPendingAt t r)
          Reservation.sizeBytes := rfl

/-- Time only lets reservations lapse. -/
theorem usedBytes_drift (ms : Nat) : (getAccountUsage db (t + ms) account).usedBytes ≤
    (getAccountUsage db t account).usedBytes := by
  rw [getAccountUsage_total, getAccountUsage_total]
  refine Nat.add_le_add_left (Table.total_mono (fun r _ => ?_)) _
  unfold Table.weight
  by_cases hlater : (r.uploader = account && isPendingAt (t + ms) r) = true
  · have hnow : (r.uploader = account && isPendingAt t r) = true := by
      simp only [isPendingAt, Bool.and_eq_true, decide_eq_true_eq] at hlater ⊢
      obtain ⟨howner, hpending, hlt⟩ := hlater
      exact ⟨howner, hpending, by omega⟩
    rw [if_pos hlater, if_pos hnow]
  · rw [if_neg hlater]
    exact Nat.zero_le _

/-- What the gate allows fits. -/
theorem assertWhitelistAllows_fits (hmode : cfg.whitelistMode = true)
    (hentry : (getWhitelistEntry db account).bind WhitelistedAccount.quotaBytes = some q)
    (hused : (getAccountUsage db t account).usedBytes ≤ q) {addedBytes : Nat}
    (h : (assertWhitelistAllows cfg db t account addedBytes).isOk = true) :
    (getAccountUsage db t account).usedBytes + addedBytes ≤ q := by
  obtain ⟨e, he, hq⟩ := Option.bind_eq_some_iff.mp hentry
  unfold assertWhitelistAllows at h
  rw [if_pos hmode, he] at h
  simp only [hq] at h
  split at h
  · cases h
  · omega

theorem usedBytes_createReservation (account : Account) {uploader : Account} {sizeBytes : Nat}
    {mode : Mode} {quote : ReservationQuote} {r : Reserved}
    (hrun : createReservation cfg db t uploader sizeBytes mode quote = .ok (r, after)) :
    (assertWhitelistAllows cfg db t uploader sizeBytes).isOk = true ∧
      after.whitelistedAccounts = db.whitelistedAccounts ∧
      (getAccountUsage after t account).usedBytes ≤
        (getAccountUsage db t account).usedBytes + (if uploader = account then sizeBytes else 0) := by
  unfold createReservation at hrun
  iterate 7 (split at hrun; · cases hrun)
  split at hrun
  · cases hrun
  · rename_i hallows
    cases hrun
    refine ⟨by rw [hallows]; rfl, rfl, ?_⟩
    rw [getAccountUsage_total, getAccountUsage_total, Table.total_insert]
    unfold Table.weight
    by_cases howner : uploader = account
    · rw [if_pos howner]
      split <;> dsimp only <;> omega
    · rw [if_neg howner, if_neg (by simp [howner])]
      dsimp only
      omega

theorem usedBytes_hosting {p : NewPin} {n : NewClaim} {t' : Int} :
    (getAccountUsage (createOrderWithClaim (insertPin db t p) t' n).2 t account).usedBytes ≤
      (getAccountUsage db t account).usedBytes +
        (if p.uploader = account then p.sizeBytes else 0) := by
  have hpins : ∀ select, (createOrderWithClaim (insertPin db t p) t' n).2.pins.total select
      Pin.sizeBytes = db.pins.total select Pin.sizeBytes +
        Table.weight select Pin.sizeBytes (p.row t db.pins.next) :=
    fun _ => Table.total_insert (by exact fun _ => rfl)
  have hreservations : (createOrderWithClaim (insertPin db t p) t' n).2.reservations =
      db.reservations := rfl
  rw [getAccountUsage_total, getAccountUsage_total, hpins, hreservations]
  unfold Table.weight
  by_cases howner : p.uploader = account
  · rw [if_pos howner]
    split
    · change _ + p.sizeBytes + _ ≤ _
      omega
    · omega
  · rw [if_neg howner, if_neg (by simp [NewPin.row, howner])]
    omega

/-- What the two routes run. -/
theorem writes_of_asksForBytes {r : Request} {s : Stmt} (hr : r.asksForBytes = true)
    (hs : r.mayWrite s = true) :
    (∃ uploader sizeBytes mode quote, s = .createReservation uploader sizeBytes mode quote) ∨
      (∃ p, s = .recordPayment p) ∨ ∃ n, s = .createOwnCopyClaim n := by
  cases r <;> cases hr
  · cases s <;> cases hs
    exact Or.inl ⟨_, _, _, _, rfl⟩
  · cases s <;> cases hs
    · exact Or.inr (Or.inl ⟨_, rfl⟩)
    · exact Or.inr (Or.inr ⟨_, rfl⟩)

/-- A transaction that leaves the entry alone and fits beside what is used. -/
theorem WithinQuota.fallible (h : WithinQuota account q w) {α : Type}
    {run : Except Fault (α × Db)}
    (hentry : ∀ a after, run = .ok (a, after) →
      after.whitelistedAccounts = w.db.whitelistedAccounts)
    (hused : ∀ a after, run = .ok (a, after) →
      (getAccountUsage after w.now account).usedBytes ≤ q) :
    WithinQuota account q (Stmt.fallible w run).2 := by
  cases run with
  | error e => exact h
  | ok r =>
    obtain ⟨a, after⟩ := r
    refine ⟨?_, hused a after rfl⟩
    have hold := h.entry
    unfold getWhitelistEntry at hold ⊢
    change ((after.whitelistedAccounts).find? _).bind _ = _
    rw [hentry a after rfl]
    exact hold

/-- One statement of the two routes. -/
theorem withinQuota_sem (hmode : cfg.whitelistMode = true) {r : Request} {s : Stmt}
    (hr : r.asksForBytes = true) (hs : r.mayWrite s = true)
    (hok : s.CopiesAllowed cfg account w) (h : WithinQuota account q w) :
    WithinQuota account q (s.sem cfg w).2 := by
  rcases writes_of_asksForBytes hr hs with ⟨uploader, sizeBytes, mode, quote, rfl⟩ | ⟨p, rfl⟩ |
    ⟨n, rfl⟩
  · refine h.fallible (fun _ _ hrun => ?_) (fun _ _ hrun => ?_)
    · exact (usedBytes_createReservation account hrun).2.1
    · obtain ⟨hallows, _, hadds⟩ := usedBytes_createReservation account hrun
      by_cases howner : uploader = account
      · rw [howner] at hallows
        have hfits := assertWhitelistAllows_fits hmode h.entry h.used hallows
        rw [if_pos howner] at hadds
        omega
      · rw [if_neg howner] at hadds
        have hused := h.used
        omega
  · refine h.fallible (fun _ _ hrun => ?_) (fun _ _ hrun => ?_)
    · obtain ⟨_, rfl⟩ := recordPayment_writes hrun
      rfl
    · obtain ⟨_, rfl⟩ := recordPayment_writes hrun
      exact h.used
  · refine h.fallible (fun _ _ hrun => ?_) (fun _ _ hrun => ?_)
    · obtain ⟨info, _, _, rfl⟩ := createOwnCopyClaim_ok hrun
      rfl
    · obtain ⟨info, hinfo, _, rfl⟩ := createOwnCopyClaim_ok hrun
      refine le_trans usedBytes_hosting ?_
      change _ + (if n.owner = account then info.sizeBytes else 0) ≤ q
      by_cases howner : n.owner = account
      · rw [if_pos howner]
        exact assertWhitelistAllows_fits hmode h.entry h.used (hok howner info hinfo)
      · rw [if_neg howner]
        exact h.used

end Steps

/-- Whoever reserves and copies, and whatever their payments come to, an account within its quota
stays within it in every run whose own copies of the account are created while the quota allows
them. -/
theorem usage_within_quota (cfg : Config) (hmode : cfg.whitelistMode = true) (account : Account)
    (q : Nat) (w : World) (hstart : WithinQuota account q w) (events : List (GateEvent cfg))
    (h : Pool.Admissible (handle cfg) (fun r _ => r.asksForBytes = true)
      (fun _ s w => s.CopiesAllowed cfg account w) (Pool.start w) events) :
    WithinQuota account q ((Pool.start w).run (handle cfg) events).world := by
  refine Protocol.run_invariant (M := machine cfg) (G := fun s _ =>
    ∃ r : Request, r.asksForBytes = true ∧ r.mayWrite s = true) hstart ?_ ?_ ?_ h
  · intro ms w hw
    exact ⟨hw.entry, le_trans (usedBytes_drift ms) hw.used⟩
  · rintro s w ⟨r, hr, hs⟩ hok hw
    exact withinQuota_sem hmode hr hs hok hw
  · intro r w hr
    exact (handle_follows cfg r w).weaken (fun s _ hs => ⟨r, hr, hs.1⟩) (fun _ _ => trivial)

section Sampled

open Sample

/-- A gate for members. -/
def cappedGate : Config := { config with whitelistMode := true }

def memberWith (account : Account) (quotaBytes : Option Int) : Request :=
  .whitelistAdd
    { targetAccount := account, quotaBytes, feeExempt := false, note := none, auth := operator }

/-- Bob hosts a file of a hundred bytes, and Alice may hold a hundred and fifty. -/
def aliceCapped : World :=
  (serve cappedGate 0 ([.spawn (memberWith "bob" none)] ++ resumed 1 0 ++
    [.spawn (memberWith "alice" (some 150))] ++ resumed 1 0 ++
    [.spawn (reserveBy "bob"), .spawn (uploadOf 1 "bafy")] ++ resumed 6 0)).world

def copyByAlice : Request :=
  .ownCopy { owner := "alice", cid := "bafy", hoursRequested := none, copies := none,
             txId := "ipfs-gate:owncopy:bafy" }

/-- Alice's own copy is there before she asks for a reservation. -/
def reservedAfterCopy : List (GateEvent cappedGate) :=
  [.spawn copyByAlice] ++ resumed 3 0 ++ [.spawn (reserveBy "alice")]

theorem usage_within_quota_after_copy :
    WithinQuota "alice" 150
      ((Pool.start aliceCapped).run (handle cappedGate) reservedAfterCopy).world :=
  usage_within_quota cappedGate rfl "alice" 150 aliceCapped (by decide +kernel) reservedAfterCopy
    (by decide +kernel)

/-- Alice reserves while the payment of her own copy is being verified. -/
def reservedDuringCopy : List (GateEvent cappedGate) :=
  [.spawn copyByAlice, .spawn (reserveBy "alice")] ++ resumed 3 0

def aliceOverrun : World :=
  ((Pool.start aliceCapped).run (handle cappedGate) reservedDuringCopy).world

theorem copy_overruns_quota :
    WithinQuota "alice" 150 aliceCapped ∧
    Pool.Admissible (handle cappedGate) (fun r _ => r.asksForBytes = true) (fun _ _ _ => True)
      (Pool.start aliceCapped) reservedDuringCopy ∧
    (getAccountUsage aliceOverrun.db aliceOverrun.now "alice").usedBytes = 200 := by
  decide +kernel

end Sampled

end IpfsGate.Server
