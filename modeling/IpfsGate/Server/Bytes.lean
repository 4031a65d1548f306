import IpfsGate.Server.Durable
import IpfsGate.Server.Guardians

/-!
# Live files keep their bytes

An unpin is decided in the transaction that ends a CID's last pin and takes effect some calls
later. A new upload of the same bytes is pinned by one call and gets its pins row when that call
has returned. Where an unpin takes effect while neither holds the CID, every live file stays
pinned in Kubo.
-/
namespace IpfsGate.Server

open Quota Pricing LedgerRun BatonPass
open Lib Lib.Prog
open Lib (Table Pool)

/-- Every CID that has an active pins row is pinned in Kubo. -/
structure BytesKept (w : World) : Prop where
  pinned : ∀ p ∈ w.db.pins, p.status = .active → p.cid ∈ w.kubo

instance : DecidablePred BytesKept := fun w =>
  decidable_of_iff (∀ p ∈ w.db.pins, p.status = .active → p.cid ∈ w.kubo)
    ⟨fun h => ⟨h⟩, fun h => h.pinned⟩

/-- An unpin takes effect while its CID has no active pins row and no file of it waits between
Kubo's pin and its commit. -/
def Stmt.UnpinsIdle (calls : Multiset Call) : Stmt → World → Prop
  | .unpinFromKubo cid, w =>
    hasActivePinForCid w.db cid = false ∧ Call.kuboAdded cid ∉ calls
  | _, _ => True

instance (calls : Multiset Call) (s : Stmt) (w : World) : Decidable (s.UnpinsIdle calls w) := by
  induction s using Stmt.casesOn <;> unfold Stmt.UnpinsIdle <;> infer_instance

/-- What is live or may be promoted is pinned. -/
structure Housed (kubo : Finset Cid) (db : Db) : Prop where
  pins : ∀ p ∈ db.pins, p.status = .active → p.cid ∈ kubo
  guardians : ∀ cid g, DormantGuardian db cid g → cid ∈ kubo

section Rows

variable {kubo : Finset Cid} {db : Db} {t : Int}

theorem durable_housed (kubo : Finset Cid) : Durable (Housed kubo) where
  same := fun a b hpins hclaims h =>
    ⟨hpins ▸ h.pins, fun cid g hg => h.guardians cid g (hg.congr hclaims.symm)⟩
  endPins := by
    intro db t status reason select hs h
    refine ⟨fun p hp ha => ?_, fun cid g hg => h.guardians cid g (hg.congr rfl)⟩
    obtain ⟨q, hq, _, _, hkept⟩ := endPins_from hs hp
    have hpq := hkept ha
    subst hpq
    exact h.pins p hq ha
  closeClaims := by
    intro db state select _ hs h
    refine ⟨h.pins, fun cid g hg => ?_⟩
    exact h.guardians cid g (dormantGuardian_of_closed hs (fun _ => mem_closeClaims) hg).1
  promote := by
    intro db t cid g hg h
    constructor
    · intro p hp ha
      rcases mem_pins_promote.mp hp with hp | rfl
      · exact h.pins p hp ha
      · exact h.guardians g.cid g ⟨hg.mem, rfl, hg.dormant, hg.guardian⟩
    · intro other e he
      obtain ⟨d, hd, rfl⟩ := mem_claims_promote.mp he.mem
      have hstate := he.dormant
      split at he
      · rename_i hsel
        rw [if_pos hsel] at hstate
        cases hstate
      · exact h.guardians other d ⟨hd, he.cid_eq, he.dormant, he.guardian⟩
  extend := by
    intro db claimId owner extraHours c after hrun h
    obtain ⟨claim, _, _, _, _, hclaims, hpins⟩ := extendClaim_ok hrun
    constructor
    · intro p hp ha
      obtain ⟨q, hq, rfl⟩ := (hpins p).mp hp
      rw [extendedPin_cid]
      exact h.pins q hq (by simpa using ha)
    · intro cid g hg
      obtain ⟨d, hd, rfl⟩ := (hclaims g).mp hg.mem
      refine h.guardians cid d ⟨hd, ?_, ?_, ?_⟩
      · simpa using hg.cid_eq
      · simpa using hg.dormant
      · simpa using hg.guardian

theorem Housed.hosting (h : Housed kubo db) {p : NewPin} {n : NewClaim} {t' : Int}
    (hp : p.cid ∈ kubo) (hs : n.state ≠ .dormant) :
    Housed kubo (createOrderWithClaim (insertPin db t p) t' n).2 := by
  constructor
  · intro q hq ha
    rcases mem_insertPin.mp hq with hq | rfl
    · exact h.pins q hq ha
    · exact hp
  · intro cid g hg
    rcases mem_createOrderWithClaim.mp hg.mem with hm | rfl
    · exact h.guardians cid g ⟨hm, hg.cid_eq, hg.dormant, hg.guardian⟩
    · exact absurd hg.dormant hs

theorem Housed.pledging (h : Housed kubo db) {g : Pledge} (hg : g.cid ∈ kubo) :
    Housed kubo (createOrderWithClaim db t (g.claim t)).2 := by
  refine ⟨h.pins, fun cid c hc => ?_⟩
  rcases mem_createOrderWithClaim.mp hc.mem with hm | rfl
  · exact h.guardians cid c ⟨hm, hc.cid_eq, hc.dormant, hc.guardian⟩
  · rw [← hc.cid_eq]
    exact hg

theorem Housed.mono {kubo' : Finset Cid} (h : Housed kubo db)
    (hk : ∀ cid ∈ kubo, hasActivePinForCid db cid = true → cid ∈ kubo') (hs : Served db) :
    Housed kubo' db := by
  constructor
  · intro p hp ha
    exact hk _ (h.pins p hp ha) (hasActivePinForCid_iff.mpr ⟨p, hp, rfl, ha⟩)
  · intro cid g hg
    exact hk _ (h.guardians cid g hg) (hasActivePinForCid_iff.mpr (hs cid g hg))

/-- A CID that has an active pins row is pinned. -/
theorem Housed.of_active (h : Housed kubo db) {cid : Cid} {p : Pin} (hp : ActivePin db cid p) :
    cid ∈ kubo := hp.cid_eq ▸ h.pins p hp.mem hp.active

end Rows

/-! ## Kubo and the rows -/

/-- What an upload commits is pinned. -/
def Stmt.CommitsPinned : Stmt → World → Prop
  | .finaliseUpload _ u, w => u.cid ∈ w.kubo
  | _, _ => True

/-- Between two turns live files are housed, claims and pins are in lockstep, every guardian has a
host, and a file whose pin has not been reported yet is pinned. -/
structure Safe (calls : Multiset Call) (w : World) : Prop where
  housed : Housed w.kubo w.db
  lockstep : Lockstep w.db
  served : Served w.db
  added : ∀ cid, Call.kuboAdded cid ∈ calls → cid ∈ w.kubo

/-- The uploads know that their files stay pinned until they are committed. -/
def bytes (cfg : Config) : Protocol (machine cfg) Unit where
  Inv := fun frame => Safe (frame.map Prod.fst)
  Runs := fun calls s w => s.PledgesHosted w ∧ s.UnpinsIdle calls w

section Steps

variable {cfg : Config} {calls : Multiset Call} {w : World}

theorem kubo_sem {s : Stmt} (hpin : ∀ cid, s ≠ .pinInKubo cid)
    (hunpin : ∀ cid, s ≠ .unpinFromKubo cid) : (s.sem cfg w).2.kubo = w.kubo := by
  have hfallible : ∀ {α : Type} (r : Except Fault (α × Db)),
      (Stmt.fallible w r).2.kubo = w.kubo := by
    intro α r
    cases r <;> rfl
  cases s <;> first
    | rfl
    | exact hfallible _
    | exact absurd rfl (hpin _)
    | exact absurd rfl (hunpin _)

/-- What the rows keep when a statement runs that leaves Kubo alone. -/
theorem Safe.housed_sem (h : Safe calls w) {s : Stmt} (hcommit : s.CommitsPinned w)
    (hpledge : s.PledgesHosted w) : Housed w.kubo (s.sem cfg w).2.db := by
  refine ((durable_housed w.kubo).at w.now).sem_creating ?_ ?_ ?_ h.housed
  · rintro id u rfl
    exact h.housed.hosting hcommit ClaimState.noConfusion
  · rintro n info rfl _ ⟨p, hp⟩
    exact h.housed.hosting (h.housed.of_active hp) ClaimState.noConfusion
  · rintro g rfl
    obtain ⟨p, hp⟩ := hasActivePinForCid_iff.mp hpledge
    exact h.housed.pledging (h.housed.of_active hp)

/-- Kubo's own statements. -/
theorem Safe.rehoused (h : Safe calls w) {kubo : Finset Cid}
    (hactive : ∀ cid ∈ w.kubo, hasActivePinForCid w.db cid = true → cid ∈ kubo)
    (hadded : ∀ cid ∈ w.kubo, Call.kuboAdded cid ∈ calls → cid ∈ kubo) :
    Safe calls { w with kubo } :=
  ⟨h.housed.mono hactive h.served, h.lockstep, h.served,
    fun cid hc => hadded cid (h.added cid hc) hc⟩

/-- A statement that commits pinned files, pledges on hosted CIDs and unpins idle ones. -/
theorem Safe.sem (h : Safe calls w) {s : Stmt} (hs : s.Checked w) (hcommit : s.CommitsPinned w)
    (hpledge : s.PledgesHosted w) (hidle : s.UnpinsIdle calls w) :
    Safe calls (s.sem cfg w).2 := by
  by_cases hpin : ∃ cid, s = .pinInKubo cid
  · obtain ⟨cid, rfl⟩ := hpin
    exact h.rehoused (fun _ hc _ => Finset.mem_insert_of_mem hc)
      (fun _ hc _ => Finset.mem_insert_of_mem hc)
  · by_cases hunpin : ∃ cid, s = .unpinFromKubo cid
    · obtain ⟨cid, rfl⟩ := hunpin
      refine h.rehoused (fun other hc hactive => ?_) (fun other hc hadded => ?_)
      · refine Finset.mem_erase.mpr ⟨?_, hc⟩
        rintro rfl
        rw [hidle.1] at hactive
        cases hactive
      · refine Finset.mem_erase.mpr ⟨?_, hc⟩
        rintro rfl
        exact hidle.2 hadded
    · have hkubo : (s.sem cfg w).2.kubo = w.kubo :=
        kubo_sem (fun cid he => hpin ⟨cid, he⟩) (fun cid he => hunpin ⟨cid, he⟩)
      have hrows := served_sem cfg hs hpledge ⟨h.lockstep, h.served⟩
      refine ⟨?_, hrows.1, hrows.2, ?_⟩
      · rw [hkubo]
        exact h.housed_sem hcommit hpledge
      · rw [hkubo]
        exact h.added

end Steps

section Rules

variable {cfg : Config} {α β : Type} {frame : Multiset (Call × Unit)}
  {past : Trace (machine cfg)} {w : World} {Q : Post (machine cfg) Unit β}

/-- Everything but a commit. -/
abbrev Uncommitting (s : Stmt) (w : World) : Prop :=
  s.Checked w ∧ ∀ id u, s ≠ .finaliseUpload id u

theorem commitsPinned_of_uncommitting {s : Stmt} (hs : Uncommitting s w) : s.CommitsPinned w := by
  cases s <;> first | trivial | exact absurd rfl (hs.2 _ _)

theorem safe_park {c : Call} (h : (bytes cfg).Inv frame w)
    (hc : ∀ cid, c = .kuboAdded cid → cid ∈ w.kubo) : (bytes cfg).Inv ((c, ()) ::ₘ frame) w := by
  refine ⟨h.housed, h.lockstep, h.served, fun cid hm => ?_⟩
  rw [Multiset.map_cons] at hm
  rcases Multiset.mem_cons.mp hm with hm | hm
  · exact hc cid hm.symm
  · exact h.added cid hm

theorem safe_resume {c : Call} (h : (bytes cfg).Inv ((c, ()) ::ₘ frame) w) :
    (bytes cfg).Inv frame w ∧ ∀ cid, c = .kuboAdded cid → cid ∈ w.kubo := by
  have hadded := h.added
  rw [Multiset.map_cons] at hadded
  refine ⟨⟨h.housed, h.lockstep, h.served, fun cid hm => ?_⟩, fun cid hc => ?_⟩
  · exact hadded cid (Multiset.mem_cons_of_mem hm)
  · exact hadded cid (Multiset.mem_cons.mpr (Or.inl hc.symm))

/-- A call, at whose end the file is still pinned if it was Kubo's report on it. -/
theorem safe_perform {c : Call} {f : c.Reply → Handler cfg β} (h : (bytes cfg).Inv frame w)
    (hc : ∀ cid, c = .kuboAdded cid → cid ∈ w.kubo)
    (hf : ∀ r frame w, (bytes cfg).Inv frame w → (∀ cid, c = .kuboAdded cid → cid ∈ w.kubo) →
      (f r).wp (bytes cfg) Q frame past w) :
    (Prog.bind (perform c) f).wp (bytes cfg) Q frame past w := by
  refine ⟨(), safe_park h hc, fun frame' w' hi r => ?_⟩
  obtain ⟨hi', hc'⟩ := safe_resume hi
  exact hf r frame' w' hi' hc'

theorem safe_transact {s : Stmt} {f : s.Out → Handler cfg β} (h : (bytes cfg).Inv frame w)
    (hs : s.Checked w) (hcommit : s.CommitsPinned w)
    (hf : ∀ o past, (bytes cfg).Inv frame (s.sem cfg w).2 →
      (f o).wp (bytes cfg) Q frame past (s.sem cfg w).2) :
    (Prog.bind (transact s) f).wp (bytes cfg) Q frame past w :=
  fun hr => hf _ _ (h.sem hs hcommit hr.1 hr.2)

/-- A part of a handler that adds and commits no file. -/
theorem safe_uncommitting {p : Handler cfg α} {R : Except Fault α → World → Prop}
    (hp : p.Emits (M := machine cfg) Uncommitting (fun c => c.isAdd = false) R w)
    (h : (bytes cfg).Inv frame w) :
    p.wp (bytes cfg) (fun _ frame _ w => (bytes cfg).Inv frame w) frame past w := by
  refine wp_mono (fun _ _ _ _ hr => hr.1) (Emits.wp (M := machine cfg) (L := bytes cfg)
    (J := fun frame _ => (bytes cfg).Inv frame) ?_ ?_ hp h)
  · intro s w frame past hs hr hi
    exact Safe.sem hi hs.1 (commitsPinned_of_uncommitting hs) hr.1 hr.2
  · intro c frame past w hc hi
    refine ⟨(), safe_park hi ?_, fun frame' w' hi' => (safe_resume hi').1⟩
    rintro cid rfl
    cases hc

theorem safe_bind {p : Handler cfg α} {f : α → Handler cfg β}
    (hp : Keeps cfg Uncommitting (fun c => c.isAdd = false) p w) (h : (bytes cfg).Inv frame w)
    (hfail : ∀ e frame past w, (bytes cfg).Inv frame w → Q (.error e) frame past w)
    (hok : ∀ a frame past w, (bytes cfg).Inv frame w → (f a).wp (bytes cfg) Q frame past w) :
    (Prog.bind p f).wp (bytes cfg) Q frame past w := by
  refine wp_bind (wp_mono ?_ (safe_uncommitting hp h))
  intro r frame past w hr
  cases r with
  | ok a => exact hok a frame past w hr
  | error e => exact hfail e frame past w hr

end Rules

section Uploads

variable {cfg : Config} {frame : Multiset (Call × Unit)} {past : Trace (machine cfg)} {w : World}

/-- Whatever a handler returns, the rows and Kubo are as they are to be. -/
abbrev Safely (cfg : Config) (β : Type) : Post (machine cfg) Unit β :=
  fun _ frame _ w => (bytes cfg).Inv frame w

theorem finishUpload_safe {b : UploadRequest} {c : Checked} {paymentId : Nat} {paid : Coins}
    {currency : String} (h : (bytes cfg).Inv frame w) (hfile : b.file ∈ w.kubo)
    (hblocked : isCidBlocked w.db b.file = false) :
    (finishUpload b c paymentId paid currency).wp (bytes cfg) (Safely cfg _) frame past w := by
  unfold finishUpload
  refine wp_liftExcept (fun _ _ => h) (fun sizeMB hmb => ?_)
  exact safe_transact h ⟨hblocked, (billableMB_ok hmb).1⟩ hfile (fun _ _ hi => hi)

/-- Once Kubo has reported the pin, the upload commits in the same turn or gives up. -/
theorem pinned_safe {b : UploadRequest} {c : Checked} {paymentId : Nat} {paid : Coins}
    {currency : String} (h : (bytes cfg).Inv frame w) (hfile : b.file ∈ w.kubo) :
    (Prog.bind (ask (fun db => isCidBlocked db b.file)) (fun blocked =>
      if blocked then
        Prog.bind (unpin b.file) (fun _ =>
          Prog.bind (transact (.markReservationCancelled c.reservation.id))
            (fun _ => .fail blockedFault))
      else finishUpload b c paymentId paid currency) : Handler cfg UploadReply).wp (bytes cfg)
        (Safely cfg _) frame past w := by
  change wp (bytes cfg) _ (if isCidBlocked w.db b.file then _ else _) frame past w
  split
  · refine safe_bind (keeps_unpin (fun _ _ => ⟨trivial, fun _ _ => Stmt.noConfusion⟩)
      (fun _ hc => Call.isAdd_of_isSettling hc)) h (fun _ _ _ _ hi => hi)
      (fun _ frame past w hi => ?_)
    exact safe_transact hi trivial trivial (fun _ _ hi => hi)
  · rename_i hblocked
    exact finishUpload_safe h hfile (Bool.not_eq_true _ ▸ hblocked)

theorem storeUpload_safe {b : UploadRequest} {c : Checked} (h : (bytes cfg).Inv frame w) :
    (storeUpload b c).wp (bytes cfg) (Safely cfg _) frame past w := by
  have hcancel : ∀ id w, Uncommitting (.markReservationCancelled id) w :=
    fun _ _ => ⟨trivial, fun _ _ => Stmt.noConfusion⟩
  unfold storeUpload
  refine safe_perform h (fun _ hc => Call.noConfusion hc) (fun hashed frame w h _ => ?_)
  cases hashed with
  | error e => exact h
  | ok u =>
    refine wp_require h (fun _ => wp_require h (fun _ => ?_))
    refine safe_bind (keeps_bindUploaderKey (fun _ hc => hc)) h (fun _ _ _ _ hi => hi)
      (fun _ frame past w h => ?_)
    refine wp_require h (fun _ => ?_)
    refine safe_bind (keeps_uploadPayment hcancel (fun _ hc => hc)) h (fun _ _ _ _ hi => hi)
      (fun paid frame past w h => ?_)
    refine safe_transact h rfl trivial (fun o past h => ?_)
    refine wp_liftExcept (fun _ _ => h) (fun paymentId _ => ?_)
    refine safe_transact h trivial trivial (fun _ past h => ?_)
    refine safe_perform h (fun _ hc => Call.noConfusion hc) (fun reached frame w h _ => ?_)
    cases reached with
    | false => exact safe_transact h trivial trivial (fun _ _ hi => hi)
    | true =>
      refine safe_transact h trivial trivial (fun _ past h => ?_)
      refine safe_perform h ?_ (fun added frame w h hadded => ?_)
      · intro cid hc
        cases hc
        exact Finset.mem_insert_self _ _
      · cases added with
        | error e => exact safe_transact h trivial trivial (fun _ _ hi => hi)
        | ok u => exact pinned_safe h (hadded _ rfl)

theorem upload_safe {b : UploadRequest} (h : (bytes cfg).Inv frame w) :
    (upload b).wp (bytes cfg) (Safely cfg _) frame past w :=
  wp_liftExcept (fun _ _ => h) (fun _ _ => storeUpload_safe h)

/-- Every request keeps live files pinned where unpins find their CID idle. -/
theorem handle_safe (q : Request) (h : (bytes cfg).Inv frame w) :
    (handle cfg q).wp (bytes cfg) (Safely cfg _) frame [] w := by
  by_cases hq : ∃ b, q = .upload b
  · obtain ⟨b, rfl⟩ := hq
    refine wp_bind (M := machine cfg) (wp_mono ?_ (upload_safe h))
    intro r frame past w hi
    cases r <;> exact hi
  · refine safe_uncommitting ((handle_follows cfg q w).weaken ?_ ?_) h
    · intro s w hs
      refine ⟨hs.2, ?_⟩
      rintro id u rfl
      have hwrite := hs.1
      cases q <;> first | exact hq ⟨_, rfl⟩ | cases hwrite
    · intro c hc
      cases q <;> first | exact absurd ⟨_, rfl⟩ hq | simpa [Request.mayAwait] using hc

end Uploads

/-- In every run whose unpins take effect while their CID has no active pins row and no file of it
waits for its commit, and whose pledges are written on hosted CIDs, every CID that has an active
pins row is pinned in Kubo. -/
theorem bytes_kept (cfg : Config) (t : Int) (events : List (GateEvent cfg))
    (h : Pool.Admissible (handle cfg) (fun _ _ => True)
      (fun calls s w => s.PledgesHosted w ∧ s.UnpinsIdle calls w)
      (Pool.start (World.boot t)) events) : BytesKept (serve cfg t events).world := by
  have hstart : (bytes cfg).Inv 0 (World.boot t) :=
    ⟨⟨fun p hp => absurd hp (Table.not_mem_empty p),
        fun _ g hg => absurd hg.mem (Table.not_mem_empty g)⟩,
      Lockstep.empty, served_empty, fun _ hc => absurd hc (Multiset.notMem_zero _)⟩
  obtain ⟨held, hheld⟩ := Protocol.run_holds (L := bytes cfg) (D := fun _ _ _ _ => True) hstart
    (fun _ _ _ hi => ⟨hi.housed, hi.lockstep, hi.served, hi.added⟩)
    (fun q frame w hi _ => wp_mono (fun _ _ _ _ hr => ⟨hr, trivial⟩) (handle_safe q hi)) h
  exact ⟨hheld.inv.housed.pins⟩

section Sampled

open Sample

/-- Alice cancels, and when her file is unpinned Bob uploads the same bytes. -/
def uploadedAfterUnpin : List (GateEvent config) :=
  hostedByAlice ++ [.spawn (cancelBy "alice" 1)] ++ resumed 8 0 ++
    [.spawn (reserveBy "bob"), .spawn (uploadOf 2 "bafy")] ++ resumed 6 0

theorem bytes_kept_after_unpin : BytesKept (serve config 0 uploadedAfterUnpin).world :=
  bytes_kept config 0 uploadedAfterUnpin (by decide +kernel)

/-- Bob uploads the same bytes while the unpin of Alice's cancelled claim is under way. -/
def uploadedBeforeUnpin : List (GateEvent config) :=
  hostedByAlice ++ [.spawn (cancelBy "alice" 1)] ++ resumed 3 0 ++
    [.spawn (reserveBy "bob"), .spawn (uploadOf 2 "bafy")] ++ resumed 6 1 ++ resumed 1 0

theorem unpin_takes_live_file : ¬ BytesKept (serve config 0 uploadedBeforeUnpin).world := by
  decide +kernel

end Sampled

end IpfsGate.Server
