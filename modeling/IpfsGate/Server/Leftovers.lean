import IpfsGate.Sweeping
import IpfsGate.Server.Deletes
import IpfsGate.Server.Kills

/-!
# What a sweep leaves pinned

A sweep unpins the CIDs it finds in its own candidate query, which lists pins that expired at
the sweep's clock reading. A CID that lost its last funder before, and whose unpin failed, is
not among them.
-/
namespace IpfsGate.Server

open Quota LedgerRun BatonPass
open Sweeping (ended)
open Lib Lib.Prog
open Lib (Table Pool)

/-- The CID has an active pins row or a dormant guardian. -/
def Wanted (db : Db) (cid : Cid) : Prop :=
  (∃ p, ActivePin db cid p) ∨ ∃ g, DormantGuardian db cid g

/-- No CID is pinned in Kubo that nobody wants. -/
def NoneLeft (w : World) : Prop := ∀ cid ∈ w.kubo, Wanted w.db cid

/-- The CID has a pin that expired at the tick. -/
def ExpiredAt (db : Db) (t : Int) (cid : Cid) : Prop :=
  ∃ p ∈ db.pins, p.cid = cid ∧ p.status = .expired ∧ p.statusChangedAt = some t

/-- Whatever is pinned in Kubo is still wanted, or has a pin that expired at this very tick, where
a sweep looks. -/
def InSight (w : World) : Prop :=
  ∀ cid ∈ w.kubo, Wanted w.db cid ∨ ExpiredAt w.db w.now cid

/-- Every Kubo call succeeds. -/
def kuboWorks : Answers := fun c r =>
  match c, r with
  | .kuboRemove _, reached => reached = true
  | .kuboRemoved _, .error _ => False
  | .kuboGc, .error _ => False
  | _, _ => True

section Sweep

variable {db : Db} {t : Int} {cid : Cid}

theorem wanted_congr {a b : Db} (h : SameOn cid a b) : Wanted a cid ↔ Wanted b cid :=
  or_congr (exists_congr (fun _ => h.activePin)) (exists_congr (fun _ => h.dormantGuardian))

/-- The loop unpins a CID or leaves it wanted, if it was wanted or is one of the candidates. -/
theorem reconcileAll_wanted (cids : List Cid) (hnd : cids.Nodup) :
    cid ∈ (reconcileAll db t cids).1.cidsToUnpin ∨ Wanted (reconcileAll db t cids).2 cid ↔
      cid ∈ cids ∨ Wanted db cid := by
  cases reconcileAll_share t cid cids hnd db with
  | skipped hn hs hu => rw [or_iff_right hu, or_iff_right hn, wanted_congr hs]
  | stepped a b r hm ha hnext hr hb hu =>
    refine iff_of_true ?_ (Or.inl hm)
    cases hr with
    | hosted p hp => exact Or.inr ((wanted_congr hb).mp (Or.inl ⟨p, hp⟩))
    | dropped hno hq => exact Or.inl (hu.mpr rfl)
    | promoted g hno hg hfirst =>
      refine Or.inr ((wanted_congr hb).mp (Or.inl ⟨promotedPin a t g, ?_⟩))
      exact ⟨mem_pins_promote.mpr (Or.inr rfl), hg.cid_eq, rfl⟩

/-- A pin of the CID is active or has expired at the tick. -/
def Tracked (db : Db) (t : Int) (cid : Cid) : Prop := (∃ p, ActivePin db cid p) ∨ ExpiredAt db t cid

/-- Pins that expire at the tick stay tracked, and no others join them. -/
theorem tracked_endPins {reason : Pin → Option String} {select : Pin → Bool} :
    Tracked (endPins db t .expired reason select) t cid ↔ Tracked db t cid := by
  constructor
  · rintro (⟨p, hp⟩ | ⟨p, hp, hcid, hexpired, htick⟩)
    · exact Or.inl ⟨p, ((active_endPins (by decide)).mp hp).1⟩
    · obtain ⟨q, hq, rfl⟩ := mem_endPins.mp hp
      rw [leftPin_cid] at hcid
      by_cases hsel : (select q && q.status = .active) = true
      · have hactive : q.status = .active := by
          simp only [Bool.and_eq_true, decide_eq_true_eq] at hsel
          exact hsel.2
        exact Or.inl ⟨q, hq, hcid, hactive⟩
      · rw [leftPin_of_skip (Bool.not_eq_true _ ▸ hsel)] at hexpired htick
        exact Or.inr ⟨q, hq, hcid, hexpired, htick⟩
  · rintro (⟨p, hp⟩ | ⟨p, hp, hcid, hexpired, htick⟩)
    · have hrow : p ∈ (endPins db t .expired reason select).pins ∨
          endedPin t .expired reason p ∈ (endPins db t .expired reason select).pins :=
        endPins_kept_or_ended hp.mem
      rcases hrow with hkept | hended
      · exact Or.inl ⟨p, hkept, hp.cid_eq, hp.active⟩
      · exact Or.inr ⟨_, hended, hp.cid_eq, rfl, rfl⟩
    · refine Or.inr ⟨p, endPins_keeps hp ?_, hcid, hexpired, htick⟩
      simp [hexpired]

/-- The expiries of the tick add no CID to the tracked ones, and lose none. -/
theorem tracked_ended : Tracked (ended db t) t cid ↔ Tracked db t cid := by
  unfold ended expireOverdue
  rw [tracked_endPins, tracked_endPins]
  exact or_congr (exists_congr (fun _ => ⟨fun h => h.congr rfl, fun h => h.congr rfl⟩)) Iff.rfl

/-- After a sweep whose unpins have all taken effect nothing is left exactly if all that was
pinned was accounted for. -/
theorem noneLeft_iff {w w' : World} (hdb : w'.db = (Quota.sweep w.db w.now).2)
    (hkubo : ∀ cid, cid ∈ w'.kubo ↔
      cid ∈ w.kubo ∧ cid ∉ (Quota.sweep w.db w.now).1.cidsToUnpin) :
    NoneLeft w' ↔ InSight w := by
  have hloop : ∀ cid, cid ∈ (Quota.sweep w.db w.now).1.cidsToUnpin ∨
      Wanted (Quota.sweep w.db w.now).2 cid ↔ Wanted w.db cid ∨ ExpiredAt w.db w.now cid := by
    intro cid
    have hdormant : (∃ g, DormantGuardian (ended w.db w.now) cid g) ↔
        ∃ g, DormantGuardian w.db cid g := exists_congr (fun _ => Sweeping.dormant_expireOverdue)
    calc cid ∈ (Quota.sweep w.db w.now).1.cidsToUnpin ∨ Wanted (Quota.sweep w.db w.now).2 cid
        ↔ ExpiredAt (ended w.db w.now) w.now cid ∨ Wanted (ended w.db w.now) cid :=
          (reconcileAll_wanted _ (Lib.nodup_eraseDups _)).trans
            (or_congr_left mem_sweepCandidates)
      _ ↔ Tracked (ended w.db w.now) w.now cid ∨ ∃ g, DormantGuardian (ended w.db w.now) cid g := by
          unfold Wanted Tracked
          rw [← or_assoc, or_comm (a := ExpiredAt (ended w.db w.now) w.now cid)]
      _ ↔ Tracked w.db w.now cid ∨ ∃ g, DormantGuardian w.db cid g :=
          or_congr tracked_ended hdormant
      _ ↔ Wanted w.db cid ∨ ExpiredAt w.db w.now cid := by
          unfold Wanted Tracked
          rw [or_right_comm]
  unfold NoneLeft InSight
  constructor
  · intro h cid hcid
    refine (hloop cid).mp ?_
    by_cases hgone : cid ∈ (Quota.sweep w.db w.now).1.cidsToUnpin
    · exact Or.inl hgone
    · exact Or.inr (hdb ▸ h cid ((hkubo cid).mpr ⟨hcid, hgone⟩))
  · intro h cid hcid
    obtain ⟨hbefore, hstays⟩ := (hkubo cid).mp hcid
    rw [hdb]
    exact ((hloop cid).mpr (h cid hbefore)).resolve_left hstays

end Sweep

/-! ## One sweep at a time -/

/-- The sweeper's flag is up only while a process holds it. -/
def sweepFlag (cfg : Config) : Protocol (machine cfg) Bool where
  Inv := fun frame w => World.sweeping w = true → ∃ c, (c, true) ∈ frame
  Runs := fun _ _ _ => True

section Flag

variable {cfg : Config} {w : World}

theorem sweeping_sem {s : Stmt} (hs : ∀ b, s ≠ .setSweeping b) :
    (s.sem cfg w).2.sweeping = w.sweeping := by
  have hfallible : ∀ {α : Type} (r : Except Fault (α × Db)),
      (Stmt.fallible w r).2.sweeping = w.sweeping := by
    intro α r
    cases r <;> rfl
  cases s <;> first | rfl | exact hfallible _ | exact absurd rfl (hs _)

/-- Whoever does not hold the flag leaves it as it is. -/
theorem sweepFlag_of_other {q : Request} (hq : q ≠ .sweep) {frame : Multiset (Call × Bool)}
    (h : (sweepFlag cfg).Inv frame w) :
    (handle cfg q).wp (sweepFlag cfg) ((sweepFlag cfg).post (fun _ _ _ _ => True) q) frame [] w := by
  refine wp_mono (fun _ _ _ _ hr => ⟨hr.1, trivial⟩) (Emits.wp (L := sweepFlag cfg)
    (J := fun frame _ => (sweepFlag cfg).Inv frame) ?_ ?_ (handle_follows cfg q w) h)
  · intro s w frame past hs _ hi hup
    refine hi ?_
    rwa [sweeping_sem] at hup
    rintro b rfl
    cases q <;> first | exact hq rfl | exact absurd hs.1 Bool.false_ne_true
  · intro c frame past w _ hi
    refine ⟨false, fun hup => ?_, fun frame' w' hi' hup => ?_⟩
    · obtain ⟨c', hc'⟩ := hi hup
      exact ⟨c', Multiset.mem_cons_of_mem hc'⟩
    · obtain ⟨c', hc'⟩ := hi' hup
      rcases Multiset.mem_cons.mp hc' with hc' | hc'
      · cases hc'
      · exact ⟨c', hc'⟩

/-- A process that holds the flag may wait for any call. -/
theorem sweepFlag_await {α : Type} {c : Call} {k : c.Reply → Handler cfg α}
    {Q : Post (machine cfg) Bool α} {frame : Multiset (Call × Bool)} {past : Trace (machine cfg)}
    (h : ∀ r frame w, (k r).wp (sweepFlag cfg) Q frame past w) :
    (Prog.await c k : Handler cfg α).wp (sweepFlag cfg) Q frame past w :=
  ⟨true, fun _ => ⟨c, Multiset.mem_cons_self _ _⟩, fun frame' w' _ r => h r frame' w'⟩

/-- Unpinning comes to an end, whatever Kubo answers. -/
theorem sweepFlag_unpinAll {cids : List Cid} {Q : Post (machine cfg) Bool Nat}
    {frame : Multiset (Call × Bool)} {past : Trace (machine cfg)}
    (h : ∀ n frame past w, Q (.ok n) frame past w) :
    (unpinAll cids : Handler cfg Nat).wp (sweepFlag cfg) Q frame past w := by
  unfold unpinAll
  refine wp_bind (wp_fold (M := machine cfg) (fun _ _ _ _ _ => True) ?_ ?_ trivial)
  · intro cid rest n frame past w _
    refine wp_bind ?_
    unfold unpin
    refine sweepFlag_await (fun reached frame w => ?_)
    cases reached with
    | true =>
      refine fun _ => sweepFlag_await (fun r frame w => ?_)
      cases r <;> trivial
    | false =>
      refine sweepFlag_await (fun r frame w => ?_)
      cases r <;> trivial
  · intro n frame past w _
    dsimp only
    split
    · exact sweepFlag_await (fun _ frame w => h n frame _ w)
    · exact h n frame past w

/-- A sweep holds the flag while it is suspended, and takes it down at its end. -/
theorem sweepFlag_of_sweep {frame : Multiset (Call × Bool)} (h : (sweepFlag cfg).Inv frame w) :
    (handle cfg .sweep).wp (sweepFlag cfg)
      ((sweepFlag cfg).post (fun _ _ _ _ => True) Request.sweep) frame [] w := by
  refine wp_bind (M := machine cfg) ?_
  change wp (M := machine cfg) _ _ (if w.sweeping then _ else _) frame [] w
  by_cases hup : w.sweeping = true
  · rw [if_pos hup]
    exact ⟨h, trivial⟩
  · rw [if_neg hup]
    intro _ _
    change wp (sweepFlag cfg) _
      (Prog.bind (unpinAll (Quota.sweep w.db w.now).1.cidsToUnpin) _) _ _ _
    refine wp_bind (sweepFlag_unpinAll (fun n frame past w _ => ?_))
    exact ⟨fun hdown => absurd hdown Bool.false_ne_true, trivial⟩

/-- Without a request in flight the flag is down. -/
theorem not_sweeping (t : Int) (events : List (GateEvent cfg))
    (hidle : (serve cfg t events).parked = []) : (serve cfg t events).world.sweeping = false := by
  obtain ⟨held, h⟩ := Protocol.run_holds (L := sweepFlag cfg) (D := fun _ _ _ _ => True)
    (w := World.boot t) (fun hup => nomatch hup) (fun _ _ _ hi => hi)
    (fun q frame w hi _ => by
      by_cases hq : q = .sweep
      · rw [hq]
        exact sweepFlag_of_sweep hi
      · exact sweepFlag_of_other hq hi)
    (Pool.admissible_true (handle cfg) (Pool.start (World.boot t)) events)
  have hparked : held = [] := List.map_eq_nil_iff.mp (h.parked.trans hidle)
  have hinv := h.inv
  rw [hparked] at hinv
  by_contra hup
  obtain ⟨c, hc⟩ := hinv (Bool.not_eq_false _ ▸ hup)
  exact absurd hc (Multiset.notMem_zero _)

end Flag

/-! ## A sweep on its own -/

section Alone

variable {cfg : Config} {w : World} {past : Trace (machine cfg)}

/-- What a process assures that runs alone next to a Kubo node that works. -/
abbrev Unhindered {α : Type} (p : Handler cfg α) (D : Outcome (machine cfg) α)
    (past : Trace (machine cfg)) (w : World) : Prop :=
  p.Assures (Rely.alone (machine cfg) kuboWorks) (fun _ _ _ => True) D past w

/-- The database is the same, and the CIDs are no longer pinned. -/
structure Unpinned (w w' : World) (cids : List Cid) : Prop where
  db : w'.db = w.db
  kubo : ∀ cid, cid ∈ w'.kubo ↔ cid ∈ w.kubo ∧ cid ∉ cids

theorem Unpinned.later {w₀ a b : World} {cids : List Cid} (h : Unpinned w₀ a cids)
    (hl : (Rely.alone (machine cfg) kuboWorks).Later a b) : Unpinned w₀ b cids := by
  refine ⟨(db_of_alone hl).trans h.db, fun cid => ?_⟩
  rw [kubo_of_alone hl]
  exact h.kubo cid

theorem Unpinned.erase {w₀ a : World} {cids : List Cid} (h : Unpinned w₀ a cids) (cid : Cid) :
    Unpinned w₀ { a with kubo := a.kubo.erase cid } (cids ++ [cid]) := by
  refine ⟨h.db, fun other => ?_⟩
  change other ∈ a.kubo.erase cid ↔ _
  rw [Finset.mem_erase, h.kubo, List.mem_append, List.mem_singleton, not_or]
  constructor
  · rintro ⟨hne, hin, hout⟩
    exact ⟨hin, hout, hne⟩
  · rintro ⟨hin, hout, hne⟩
    exact ⟨hne, hin, hout⟩

/-- Every CID of the list is unpinned. -/
theorem unpinAll_unhindered (cids : List Cid) :
    Unhindered (unpinAll cids : Handler cfg Nat)
      (fun r _ w' => r.isOk = true ∧ Unpinned w w' cids) past w := by
  unfold unpinAll
  refine assures_bind (assures_fold (M := machine cfg)
    (fun rest _ _ w' => ∃ done, cids = done ++ rest ∧ Unpinned w w' done) ?_ ?_
    ⟨[], rfl, rfl, fun cid => by simp⟩)
  · rintro cid rest n past w₁ ⟨done, hcids, hdone⟩
    refine assures_bind ?_
    unfold unpin
    intro w₂ hl₂ _ reached hreached
    cases reached with
    | false => cases hreached
    | true =>
      intro _
      refine ⟨trivial, fun _ w₃ hl₃ _ r hr => ?_⟩
      cases r with
      | error e => exact hr.elim
      | ok u =>
        refine ⟨done ++ [cid], by rw [hcids, List.append_assoc]; rfl, ?_⟩
        exact ((hdone.later hl₂).erase cid).later hl₃
  · rintro n past w₁ ⟨done, hcids, hdone⟩
    rw [List.append_nil] at hcids
    rw [← hcids] at hdone
    dsimp only
    split
    · exact fun w₂ hl₂ _ r _ => ⟨rfl, hdone.later hl₂⟩
    · exact ⟨rfl, hdone⟩

/-- What a sweep leaves, if no other is under way. -/
theorem runOnce_unhindered (hdown : w.sweeping = false) :
    Unhindered (handle cfg .sweep) (fun _ _ w' => NoneLeft w' ↔ InSight w) [] w := by
  refine assures_bind (M := machine cfg) ?_
  change Assures (M := machine cfg) _ _ _ (if w.sweeping then _ else _) [] w
  rw [hdown, if_neg Bool.false_ne_true]
  refine fun _ => ⟨trivial, fun _ _ => ⟨trivial, fun _ => ?_⟩⟩
  change Assures (M := machine cfg) _ _ _
    (Prog.bind (unpinAll (Quota.sweep w.db w.now).1.cidsToUnpin) _) _ _
  refine assures_bind (Assures.mono ?_ (unpinAll_unhindered _))
  rintro r past w₁ ⟨hok, hun⟩
  cases r with
  | error e => cases hok
  | ok n => exact fun _ => ⟨trivial, fun _ => noneLeft_iff hun.db hun.kubo⟩

end Alone

/-- After a sweep with which no other request is in flight and whose Kubo calls all succeed, no
CID is left pinned that nobody wants, exactly if all that was pinned before was accounted for. -/
theorem sweep_reclaims_iff (cfg : Config) (t : Int) (events own : List (GateEvent cfg))
    (hidle : (serve cfg t events).parked = [])
    (hown : ∀ e ∈ own, Rely.Lone 0 e ∧ (Rely.alone (machine cfg) kuboWorks).Honest e)
    (hdone : answeredSince (serve cfg t events)
      (serve cfg t (events ++ .spawn .sweep :: own)) = [true]) :
    NoneLeft (serve cfg t (events ++ .spawn .sweep :: own)).world ↔
      InSight (serve cfg t events).world := by
  have hdown := not_sweeping t events hidle
  have hrun : serve cfg t (events ++ .spawn .sweep :: own) =
      (serve cfg t events).run (handle cfg) (.spawn .sweep :: own) := List.foldl_append
  rw [hrun] at hdone ⊢
  unfold answeredSince at hdone
  have hlone : ∀ e ∈ own, Rely.Lone (serve cfg t events).parked.length e ∧
      (Rely.alone (machine cfg) kuboWorks).Honest e := by
    rw [hidle]
    exact hown
  cases Rely.lone_run (runOnce_unhindered hdown) hlone with
  | under p hparked hfinished hresume =>
    rw [hfinished, List.drop_length] at hdone
    cases hdone
  | done f hparked hfinished hout hlater =>
    refine Iff.trans ?_ hout
    unfold NoneLeft
    rw [db_of_alone hlater, kubo_of_alone hlater]

section Sampled

open Sample

theorem honest_resumed (n : Nat) : ∀ e ∈ (resumed n 0 : List (GateEvent config)),
    Rely.Lone 0 e ∧ (Rely.alone (machine config) kuboWorks).Honest e := by
  intro e he
  rw [List.eq_of_mem_replicate he]
  refine ⟨rfl, fun c => ?_⟩
  cases c <;> first | rfl | trivial

/-- Alice's day of hosting is over. -/
def dayOver : List (GateEvent config) := hostedByAlice ++ [.drift 86400001]

theorem sweep_reclaims_day_over :
    NoneLeft (serve config 0 (dayOver ++ .spawn .sweep :: resumed 3 0)).world ↔
      InSight (serve config 0 dayOver).world :=
  sweep_reclaims_iff config 0 dayOver (resumed 3 0) (by decide +kernel) (honest_resumed 3)
    (by decide +kernel)

/-- The answers of a Kubo node that cannot be reached. -/
def answerUnreachable : (c : Call) → c.Reply
  | .kuboRemove _ => false
  | .kuboRemoved _ => .error "fetch failed"
  | c => answer c

/-- Alice cancels her claim while Kubo cannot be reached. -/
def unpinFails : List (GateEvent config) :=
  hostedByAlice ++ [.spawn (cancelBy "alice" 1)] ++
    List.replicate 8 (.resume 0 answerUnreachable) ++ [.drift 1000]

theorem sweep_leaves_bafy :
    (serve config 0 unpinFails).parked = [] ∧
    answeredSince (serve config 0 unpinFails)
      (serve config 0 (unpinFails ++ .spawn .sweep :: resumed 3 0)) = [true] ∧
    (∀ e ∈ (resumed 3 0 : List (GateEvent config)),
      Rely.Lone 0 e ∧ (Rely.alone (machine config) kuboWorks).Honest e) ∧
    ¬ NoneLeft (serve config 0 (unpinFails ++ .spawn .sweep :: resumed 3 0)).world := by
  refine ⟨by decide +kernel, by decide +kernel, honest_resumed 3, fun h => ?_⟩
  have hpinned : "bafy" ∈ (serve config 0
      (unpinFails ++ .spawn .sweep :: resumed 3 0)).world.kubo := by decide +kernel
  have hgone : ContentGone (serve config 0
      (unpinFails ++ .spawn .sweep :: resumed 3 0)).world.db "bafy" := by decide +kernel
  rcases h "bafy" hpinned with ⟨p, hp⟩ | ⟨g, hg⟩
  · exact hgone.pins p hp.mem hp.cid_eq hp.active
  · exact (hgone.claims g hg.mem hg.cid_eq).2 hg.dormant

end Sampled

end IpfsGate.Server
