import IpfsGate.Lib.Rely
import IpfsGate.Server.Guardians

/-!
# Deleting an account's hosting of a CID

Both delete routes read the account's active claims on the CID once and cancel them one after
the other. The pins go with the claims, and the last cancel passes the baton. The guardian it
promotes may be the account's own, which the list that was read before does not hold.
-/
namespace IpfsGate.Server

open Quota Moderation LedgerRun BatonPass
open Lib Lib.Prog
open Lib (Table)

/-- The account hosts nothing on the CID any more, and every other account's claim there is as
it was, except for at most one guardian that took over. -/
structure HostingRemoved (before after : Db) (account : Account) (cid : Cid) : Prop where
  claims : ∀ c ∈ after.claims, c.cid = cid → c.owner = account → c.state ≠ .active
  pins : ∀ p, ActivePin after cid p → p.uploader ≠ account
  others : ∀ d ∈ before.claims, d.cid = cid → d.owner ≠ account → ∃ c ∈ after.claims,
    c.claimId = d.claimId ∧ (c.state = d.state ∨ Promoted before after cid c)
  once : ∀ c c', Promoted before after cid c → Promoted before after cid c' → c = c'

/-- Another account hosts the CID, or the next guardian is not the account's own. -/
def Removable (db : Db) (account : Account) (cid : Cid) : Prop :=
  (∃ p, ActivePin db cid p ∧ p.uploader ≠ account) ∨
    ∀ g, DormantGuardian db cid g → (∀ e, DormantGuardian db cid e → QueuesBefore g e) →
      g.owner ≠ account

/-- The database at the start, with some of its active claims cancelled and their pins ended. -/
structure PartlyEnded (start db : Db) (done : List Claim) : Prop where
  claims : ∀ c, c ∈ db.claims ↔
    ∃ d ∈ start.claims, c = closedClaim .cancelled (fun e => e ∈ done) d
  pins : ∀ cid p, ActivePin db cid p ↔
    ActivePin start cid p ∧ ∀ d ∈ done, d.pinId ≠ some p.id

namespace PartlyEnded

variable {start db : Db} {done : List Claim} {t : Int} {cid : Cid} {account : Account}

theorem refl (start : Db) : PartlyEnded start start [] where
  claims := by
    intro c
    simp only [List.not_mem_nil, decide_false, closedClaim_of_skip, exists_eq_right']
  pins := fun cid p => ⟨fun h => ⟨h, fun d hd => absurd hd List.not_mem_nil⟩, fun h => h.1⟩

theorem congr {db' : Db} (h : PartlyEnded start db done) (hclaims : db'.claims = db.claims)
    (hpins : db'.pins = db.pins) : PartlyEnded start db' done where
  claims := by
    rw [hclaims]
    exact h.claims
  pins := fun cid p => by
    rw [← h.pins]
    exact ⟨fun hp => hp.congr hpins.symm, fun hp => hp.congr hpins⟩

/-- A claim that is not done yet is still there. -/
theorem mem_of_not_done (h : PartlyEnded start db done) {c : Claim} (hc : c ∈ start.claims)
    (hn : c ∉ done) : c ∈ db.claims :=
  (h.claims c).mpr ⟨c, hc, (closedClaim_of_skip (decide_eq_false hn)).symm⟩

/-- Ending one more claim. -/
theorem ending (h : PartlyEnded start db done) {c : Claim} (hc : c ∈ start.claims)
    (hact : c.state = .active) (hn : c ∉ done) (reason : String) :
    PartlyEnded start (endClaim db t c reason) (done ++ [c]) where
  claims := by
    intro x
    have hstep : ∀ d ∈ start.claims,
        closedClaim .cancelled (fun e => e ∈ done ++ [c]) d =
          closedClaim .cancelled (fun e =>
            e.claimId = c.claimId && (e.state = .active || e.state = .dormant))
            (closedClaim .cancelled (fun e => e ∈ done) d) := by
      intro d hd
      by_cases hdc : d = c
      · subst hdc
        have hkept : closedClaim .cancelled (fun e => e ∈ done) d = d :=
          closedClaim_of_skip (decide_eq_false hn)
        rw [hkept]
        unfold closedClaim
        simp [hact]
      · have hid : d.claimId ≠ c.claimId := fun hid => hdc (Table.eq_of_key hd hc hid)
        have hkept : closedClaim .cancelled (fun e =>
            e.claimId = c.claimId && (e.state = .active || e.state = .dormant))
            (closedClaim .cancelled (fun e => e ∈ done) d) =
              closedClaim .cancelled (fun e => e ∈ done) d :=
          closedClaim_of_skip (by simp [hid])
        rw [hkept]
        unfold closedClaim
        simp [hdc]
    rw [endClaim]
    change x ∈ (closeClaims db .cancelled _).claims ↔ _
    rw [mem_closeClaims]
    constructor
    · rintro ⟨y, hy, rfl⟩
      obtain ⟨d, hd, rfl⟩ := (h.claims y).mp hy
      exact ⟨d, hd, (hstep d hd).symm⟩
    · rintro ⟨d, hd, rfl⟩
      exact ⟨_, (h.claims _).mpr ⟨d, hd, rfl⟩, hstep d hd⟩
  pins := by
    intro cid p
    have hclose : ∀ q, ActivePin (closeClaims db .cancelled (fun e =>
        e.claimId = c.claimId && (e.state = .active || e.state = .dormant))) cid q ↔
        ActivePin db cid q := fun q => ⟨fun hq => hq.congr rfl, fun hq => hq.congr rfl⟩
    rw [endClaim, active_endPins (by decide), hclose, h.pins, decide_eq_false_iff_not]
    constructor
    · rintro ⟨⟨hp, hdone⟩, hne⟩
      refine ⟨hp, fun d hd => ?_⟩
      rcases List.mem_append.mp hd with hd | hd
      · exact hdone d hd
      · rw [List.mem_singleton.mp hd]
        exact hne
    · rintro ⟨hp, hall⟩
      exact ⟨⟨hp, fun d hd => hall d (List.mem_append_left _ hd)⟩,
        hall c (List.mem_append_right _ (List.mem_singleton_self c))⟩

/-- Only active claims are ended, so the queue is the one at the start. -/
theorem dormantGuardian_iff (h : PartlyEnded start db done)
    (hactive : ∀ d ∈ done, d.state = .active) {g : Claim} :
    DormantGuardian db cid g ↔ DormantGuardian start cid g := by
  constructor
  · rintro ⟨hm, hc, hd, hk⟩
    obtain ⟨d, hdm, rfl⟩ := (h.claims g).mp hm
    obtain ⟨hdd, hsel⟩ := (closedClaim_state (by decide)).mp hd
    rw [closedClaim_of_skip hsel] at hc hd hk ⊢
    exact ⟨hdm, hc, hd, hk⟩
  · intro hg
    refine ⟨h.mem_of_not_done hg.mem (fun hd => ?_), hg.cid_eq, hg.dormant, hg.guardian⟩
    have hact := hactive g hd
    rw [hg.dormant] at hact
    cases hact

end PartlyEnded

theorem mem_activeClaimsOf {db : Db} {cid : Cid} {account : Account} {c : Claim} :
    c ∈ activeClaimsOf db cid account ↔
      c ∈ db.claims ∧ c.cid = cid ∧ c.owner = account ∧ c.state = .active := by
  simp only [activeClaimsOf, getActiveClaimsForCid, List.mem_filter, Table.mem_filter,
    Bool.and_eq_true, decide_eq_true_eq]
  constructor
  · rintro ⟨⟨hc, hcid, hact⟩, hown⟩
    exact ⟨hc, hcid, hown, hact⟩
  · rintro ⟨hc, hcid, hown, hact⟩
    exact ⟨⟨hc, hcid, hact⟩, hown⟩

theorem nodup_activeClaimsOf (db : Db) (cid : Cid) (account : Account) :
    (activeClaimsOf db cid account).Nodup := (db.claims.nodup.filter _).filter _

/-- Where a delete stands that still has to cancel the rest of its list. -/
inductive Deleting (start db : Db) (account : Account) (cid : Cid) (rest : List Claim) : Prop where
  | partly (done : List Claim) (hlist : activeClaimsOf start cid account = done ++ rest)
      (hrest : rest ≠ []) (h : PartlyEnded start db done)
  | ended (mid after : Db) (t : Int) (r : Reconciled) (hrest : rest = [])
      (h : PartlyEnded start mid (activeClaimsOf start cid account))
      (hr : Reconciles mid t cid r after) (hclaims : db.claims = after.claims)
      (hpins : db.pins = after.pins)

namespace Deleting

variable {start db after : Db} {account : Account} {cid : Cid} {rest : List Claim} {t : Int}

theorem congr (h : Deleting start db account cid rest) (hclaims : after.claims = db.claims)
    (hpins : after.pins = db.pins) : Deleting start after account cid rest := by
  cases h with
  | partly done hlist hrest hp => exact .partly done hlist hrest (hp.congr hclaims hpins)
  | ended mid last t r hrest hp hr hc hpi =>
    exact .ended mid last t r hrest hp hr (hclaims.trans hc) (hpins.trans hpi)

/-- A claim that is still to be cancelled has a pin that hosts the CID. -/
theorem host_of_next (hl : Lockstep start) {done : List Claim} (hp : PartlyEnded start db done)
    (hdone : ∀ d ∈ done, d ∈ start.claims) {x : Claim} (hx : x ∈ start.claims)
    (hcid : x.cid = cid) (hact : x.state = .active) (hnew : x ∉ done) : ∃ p, ActivePin db cid p := by
  obtain ⟨p, hpm, hlink, hpact, hpcid, _⟩ := hl.pin_of_active hx hact
  refine ⟨p, (hp.pins cid p).mpr ⟨⟨hpm, hpcid.trans hcid, hpact⟩, fun d hd hdp => hnew ?_⟩⟩
  rw [← hl.unshared d (hdone d hd) x hx p.id hdp hlink]
  exact hd

/-- One cancel. While claims of the list are left their pins host the CID, so only the last
cancel reconciles. -/
theorem cancel (hl : Lockstep start) {a : Claim} (h : Deleting start db account cid (a :: rest))
    {owner : Option Account} {asAdmin : Bool} {e : Ended}
    (hrun : Quota.cancelClaim db t a.claimId owner asAdmin = .ok (e, after)) :
    Deleting start after account cid rest := by
  cases h with
  | ended mid last t r hrest => cases hrest
  | partly done hlist _ hp =>
    have hmem : ∀ c ∈ done ++ a :: rest, c ∈ start.claims ∧ c.cid = cid ∧ c.owner = account ∧
        c.state = .active := by
      intro c hc
      rw [← hlist] at hc
      exact mem_activeClaimsOf.mp hc
    have hnodup := nodup_activeClaimsOf start cid account
    rw [hlist] at hnodup
    obtain ⟨ha, hacid, _, haact⟩ := hmem a (List.mem_append_right _ List.mem_cons_self)
    have hanew : a ∉ done := by
      intro hd
      exact (List.disjoint_of_nodup_append hnodup) hd List.mem_cons_self
    obtain ⟨⟨hem, heid, _⟩, hcases⟩ := cancelClaim_ok hrun
    have hea : e.claim = a := Table.eq_of_key hem (hp.mem_of_not_done ha hanew) heid
    rw [hea] at hcases
    rcases hcases with ⟨hdorm, _, _⟩ | ⟨_, _, hafter⟩
    · rw [haact] at hdorm
      cases hdorm
    have hend := hp.ending (t := t) ha haact hanew "claim_cancelled"
    have hrec := reconciles (endClaim db t a "claim_cancelled") t a.cid
    rw [hafter, retire]
    dsimp only
    generalize reconcileCidAfterEnd (endClaim db t a "claim_cancelled") t a.cid = out at hrec ⊢
    rw [hacid] at hrec
    cases rest with
    | nil =>
      rw [← hlist] at hend
      exact .ended _ _ t out.1 rfl hend hrec rfl rfl
    | cons x more =>
      have hx : x ∈ done ++ a :: x :: more :=
        List.mem_append_right _ (List.mem_cons_of_mem _ List.mem_cons_self)
      have hlist' : activeClaimsOf start cid account = (done ++ [a]) ++ x :: more := by
        rw [hlist, List.append_assoc]
        rfl
      obtain ⟨hxm, hxcid, _, hxact⟩ := hmem x hx
      have hxnew : x ∉ done ++ [a] := by
        rw [← hlist, hlist'] at hnodup
        intro hd
        exact (List.disjoint_of_nodup_append hnodup) hd List.mem_cons_self
      have hdone : ∀ d ∈ done ++ [a], d ∈ start.claims := by
        intro d hd
        apply (hmem d ?_).1
        rw [← hlist, hlist']
        exact List.mem_append_left _ hd
      obtain ⟨p, hhost⟩ := host_of_next hl hend hdone hxm hxcid hxact hxnew
      obtain ⟨r, db'⟩ := out
      cases hrec with
      | hosted q hq => exact .partly (done ++ [a]) hlist' (List.cons_ne_nil _ _) hend
      | dropped hno hq => exact absurd hhost (hno p)
      | promoted g hno hg hfirst => exact absurd hhost (hno p)

end Deleting

section Final

variable {start mid after : Db} {account : Account} {cid : Cid} {t : Int} {r : Reconciled}

/-- A pin survives the ending of the whole list exactly if it is another account's. -/
theorem activePin_of_ended (hl : Lockstep start)
    (h : PartlyEnded start mid (activeClaimsOf start cid account)) {p : Pin} :
    ActivePin mid cid p ↔ ActivePin start cid p ∧ p.uploader ≠ account := by
  rw [h.pins]
  refine and_congr_right (fun hp => ?_)
  obtain ⟨c, hc, hlink, hact, hcid, hown, _⟩ := hl.claim_of_active hp.mem hp.active
  constructor
  · intro hno hmine
    have hlisted : c ∈ activeClaimsOf start cid account :=
      mem_activeClaimsOf.mpr ⟨hc, hcid.symm.trans hp.cid_eq, hown.symm.trans hmine, hact⟩
    exact hno c hlisted hlink
  · intro hne d hd hdp
    obtain ⟨hdm, _, hdown, _⟩ := mem_activeClaimsOf.mp hd
    rw [hl.unshared d hdm c hc p.id hdp hlink] at hdown
    exact hne (hown.trans hdown)

theorem closes_of_ended (h : PartlyEnded start mid (activeClaimsOf start cid account)) :
    Closes start mid :=
  closes_of_closeClaims (by decide) (by decide) (fun c => h.claims c)

/-- The claims of others are not in the list. -/
theorem kept_of_ended (h : PartlyEnded start mid (activeClaimsOf start cid account)) {d : Claim}
    (hd : d ∈ start.claims) (hne : d.owner ≠ account) : d ∈ mid.claims :=
  h.mem_of_not_done hd (fun hm => hne (mem_activeClaimsOf.mp hm).2.2.1)

/-- None of the account's claims on the CID is active. -/
theorem inactive_of_ended (h : PartlyEnded start mid (activeClaimsOf start cid account))
    {c : Claim} (hc : c ∈ mid.claims) (hcid : c.cid = cid) (hown : c.owner = account) :
    c.state ≠ .active := by
  intro hact
  obtain ⟨d, hd, rfl⟩ := (h.claims c).mp hc
  rw [closedClaim_cid] at hcid
  rw [closedClaim_owner] at hown
  obtain ⟨hda, hnot⟩ := (closedClaim_state (by decide)).mp hact
  exact of_decide_eq_false hnot (mem_activeClaimsOf.mpr ⟨hd, hcid, hown, hda⟩)

/-- If nothing was promoted the account's hosting is gone. -/
theorem removed_of_ended (hl : Lockstep start)
    (h : PartlyEnded start mid (activeClaimsOf start cid account)) :
    HostingRemoved start mid account cid where
  claims := fun _ hc hcid hown => inactive_of_ended h hc hcid hown
  pins := fun _ hp => ((activePin_of_ended hl h).mp hp).2
  others := fun d hd _ hne => ⟨d, kept_of_ended h hd hne, rfl, Or.inl rfl⟩
  once := fun _ _ hc _ =>
    ((closes_of_ended h).not_promoted hc.mem hc.active hc.was_dormant).elim

/-- The guardian that the last cancel promoted decides. -/
theorem removed_promoted_iff
    (h : PartlyEnded start mid (activeClaimsOf start cid account)) {g : Claim}
    (hno : ∀ p, ¬ ActivePin mid cid p) (hg : DormantGuardian mid cid g) :
    HostingRemoved start (promote mid t g) account cid ↔ g.owner ≠ account := by
  have hactive : ∀ d ∈ activeClaimsOf start cid account, d.state = .active :=
    fun d hd => (mem_activeClaimsOf.mp hd).2.2.2
  have hgstart := (h.dormantGuardian_iff hactive).mp hg
  have honly : ∀ c, Promoted start (promote mid t g) cid c → c = promotedClaim mid t g g := by
    intro c hc
    rcases (claims_promote_cases hg).mp hc.mem with ⟨hm, _⟩ | heq
    · exact ((closes_of_ended h).not_promoted hm hc.active hc.was_dormant).elim
    · exact heq
  constructor
  · intro hr hown
    exact hr.claims _ (promoted_mem hg) hg.cid_eq hown rfl
  · intro hne
    constructor
    · intro c hc hcid hown
      rcases (claims_promote_cases hg).mp hc with ⟨hm, _⟩ | rfl
      · exact inactive_of_ended h hm hcid hown
      · exact absurd hown hne
    · intro p hp
      rcases mem_pins_promote.mp hp.mem with hm | rfl
      · exact absurd ⟨hm, hp.cid_eq, hp.active⟩ (hno p)
      · exact hne
    · intro d hd hcid hdne
      have hm := kept_of_ended h hd hdne
      by_cases hid : d.claimId = g.claimId
      · have hdg : d = g := Table.eq_of_key hm hg.mem hid
        refine ⟨promotedClaim mid t g g, promoted_mem hg, by rw [hdg]; rfl, Or.inr ?_⟩
        exact ⟨promoted_mem hg, hg.cid_eq, rfl, g, hgstart.mem, rfl, hg.dormant⟩
      · exact ⟨d, (claims_promote_cases hg).mpr (Or.inl ⟨hm, hid⟩), rfl, Or.inl rfl⟩
    · intro c c' hc hc'
      rw [honly c hc, honly c' hc']

/-- Whether a delete that has cancelled its whole list removed the account's hosting. -/
theorem removed_iff (hl : Lockstep start) (h : Deleting start after account cid []) :
    HostingRemoved start after account cid ↔ Removable start account cid := by
  cases h with
  | partly done hlist hrest => exact absurd rfl hrest
  | ended mid last t r _ hp hr hclaims hpins =>
    have hactive : ∀ d ∈ activeClaimsOf start cid account, d.state = .active :=
      fun d hd => (mem_activeClaimsOf.mp hd).2.2.2
    have hcongr : HostingRemoved start after account cid ↔ HostingRemoved start last account cid := by
      have hpromoted : ∀ c, Promoted start after cid c ↔ Promoted start last cid c := fun c =>
        ⟨fun hc => ⟨hclaims ▸ hc.mem, hc.cid_eq, hc.active, hc.was_dormant⟩,
          fun hc => ⟨hclaims ▸ hc.mem, hc.cid_eq, hc.active, hc.was_dormant⟩⟩
      constructor
      · rintro ⟨h₁, h₂, h₃, h₄⟩
        rw [hclaims] at h₁ h₃
        simp only [hpromoted] at h₃ h₄
        exact ⟨h₁, fun p hp => h₂ p (hp.congr hpins), h₃, h₄⟩
      · rintro ⟨h₁, h₂, h₃, h₄⟩
        rw [← hclaims] at h₁ h₃
        simp only [← hpromoted] at h₃ h₄
        exact ⟨h₁, fun p hp => h₂ p (hp.congr hpins.symm), h₃, h₄⟩
    rw [hcongr]
    cases hr with
    | hosted p hpin =>
      obtain ⟨hstart, hne⟩ := (activePin_of_ended hl hp).mp hpin
      exact iff_of_true (removed_of_ended hl hp) (Or.inl ⟨p, hstart, hne⟩)
    | dropped hno hq =>
      refine iff_of_true (removed_of_ended hl hp) (Or.inr (fun g hg => ?_))
      exact absurd ((hp.dormantGuardian_iff hactive).mpr hg) (hq g)
    | promoted g hno hg hfirst =>
      rw [removed_promoted_iff hp hno hg]
      have hgstart := (hp.dormantGuardian_iff hactive).mp hg
      have hfirst' : ∀ e, DormantGuardian start cid e → QueuesBefore g e :=
        fun e he => hfirst e ((hp.dormantGuardian_iff hactive).mpr he)
      constructor
      · intro hne
        refine Or.inr (fun e he hahead => ?_)
        rw [queuesBefore_antisymm he.mem hgstart.mem (hahead g hgstart) (hfirst' e he)]
        exact hne
      · rintro (⟨p, hpin, hne⟩ | hall)
        · exact absurd ((activePin_of_ended hl hp).mpr ⟨hpin, hne⟩) (hno p)
        · exact hall g hgstart hfirst'

end Final

/-! ## The routes -/

theorem permits_spared : PermitsRefunds (fun s _ => s.Spares) where
  record := fun _ _ => ⟨rfl, fun _ => Stmt.noConfusion⟩
  enqueue := fun _ _ _ => ⟨rfl, fun _ => Stmt.noConfusion⟩
  settle := fun _ _ _ _ _ => ⟨rfl, fun _ => Stmt.noConfusion⟩

theorem spares_unpinFromKubo (cid : Cid) : (Stmt.unpinFromKubo cid).Spares :=
  ⟨rfl, fun _ => Stmt.noConfusion⟩

section Alone

variable {cfg : Config} {α β σ : Type} {start : Db} {account : Account} {cid : Cid}
  {rest : List Claim} {past : Trace (machine cfg)} {w : World}

/-- The request has the gate to itself, whatever it is answered. -/
abbrev Undisturbed (p : Handler cfg α) (D : Outcome (machine cfg) α)
    (past : Trace (machine cfg)) (w : World) : Prop :=
  p.Assures (Rely.alone (machine cfg) (fun _ _ => True)) (fun _ _ _ => True) D past w

theorem db_of_alone {A : Answers} {w w' : World}
    (h : (Rely.alone (machine cfg) A).Later w w') : w'.db = w.db := by
  obtain ⟨ds, rfl⟩ := h
  induction ds generalizing w with
  | nil => rfl
  | cons d ds ih => exact ih

theorem kubo_of_alone {A : Answers} {w w' : World}
    (h : (Rely.alone (machine cfg) A).Later w w') : w'.kubo = w.kubo := by
  obtain ⟨ds, rfl⟩ := h
  induction ds generalizing w with
  | nil => rfl
  | cons d ds ih => exact ih

/-- A part of a handler that runs no statement. -/
theorem undisturbed_silent {p : Handler cfg α} (h : Keeps cfg (fun _ _ => False) (fun _ => True) p w) :
    Undisturbed p (fun _ _ w' => w'.db = w.db) past w := by
  refine Assures.mono (fun _ _ _ hr => hr.1)
    (Emits.assures (M := machine cfg) (J := fun _ w' => World.db w' = w.db) ?_ ?_ h rfl)
  · intro s w' past' hfalse
    exact hfalse.elim
  · intro past' a b ha hlater _
    exact (db_of_alone hlater).trans ha

/-- A part of a handler that spares claims and pins. -/
theorem undisturbed_spared {p : Handler cfg α}
    (h : Keeps cfg (fun s _ => s.Spares) (fun _ => True) p w)
    (hd : Deleting start w.db account cid rest) :
    Undisturbed p (fun _ _ w' => Deleting start w'.db account cid rest) past w := by
  refine Assures.mono (fun _ _ _ hr => hr.1)
    (Emits.assures (M := machine cfg) (J := fun _ w' => Deleting start (World.db w') account cid rest)
      ?_ ?_ h hd)
  · intro s w' past' hs _ hj
    have hsame := hs.relaxes cfg w'
    exact ⟨trivial, fun _ => hj.congr hsame.claims hsame.pins⟩
  · intro past' a b ha hlater _
    have hdb := db_of_alone hlater
    exact ha.congr (by rw [hdb]) (by rw [hdb])

/-- Both routes cancel the claims of their list one by one and settle what each pays back. -/
theorem undisturbed_cancelAll (owner : Option Account) (asAdmin : Bool)
    (settle : Claim → Handler cfg σ) (note : β → Claim → Ended → σ → β) (out : β)
    (hl : Lockstep start)
    (hsettle : ∀ c w, Keeps cfg (fun s _ => s.Spares) (fun _ => True) (settle c) w)
    (hd : Deleting start w.db account cid rest) :
    Undisturbed (Prog.fold (fun out c => do
        let e ← liftExcept (← transact (.cancelClaim c.claimId owner asAdmin))
        let s ← settle e.claim
        return note out c e s) rest out)
      (fun r _ w => (∃ out, r = .ok out) → Deleting start w.db account cid []) past w := by
  refine assures_fold (M := machine cfg)
    (fun rest _ _ w => Deleting start (World.db w) account cid rest) ?_
    (fun _ _ _ hdone _ => hdone) hd
  intro c more out past w hj hruns
  refine ⟨trivial, fun _ => assures_liftExcept (fun e _ hok => ?_) (fun e hrun => ?_)⟩
  · obtain ⟨out, hout⟩ := hok
    cases hout
  · simp only [Stmt.sem, Stmt.fallible] at hrun ⊢
    cases hcancel : Quota.cancelClaim w.db w.now c.claimId owner asAdmin with
    | error e =>
      rw [hcancel] at hrun
      cases hrun
    | ok r =>
      rw [hcancel] at hrun
      cases hrun
      refine assures_bind (Assures.mono ?_ (undisturbed_spared (hsettle _ _) (hj.cancel hl hcancel)))
      intro r past w hr
      cases r with
      | ok s => exact hr
      | error e =>
        rintro ⟨out, hout⟩
        cases hout

/-- Without an active claim of the account there is no pin of it either. -/
theorem removePin_none (hl : Lockstep start) {t : Int} (hnone : activeClaimsOf start cid account = []) :
    (removePinForUploader start t cid account).1.removed = 0 := by
  refine List.countP_eq_zero.mpr ?_
  intro p hp hsel
  simp only [Bool.and_eq_true, decide_eq_true_eq] at hsel
  obtain ⟨c, hc, _, hact, hcid, hown, _⟩ := hl.claim_of_active hp hsel.2
  have hmem : c ∈ activeClaimsOf start cid account :=
    mem_activeClaimsOf.mpr ⟨hc, hcid.symm.trans hsel.1.1, hown.symm.trans hsel.1.2, hact⟩
  rw [hnone] at hmem
  exact List.not_mem_nil hmem

theorem deleting_start (hne : activeClaimsOf start cid account ≠ []) :
    Deleting start start account cid (activeClaimsOf start cid account) :=
  .partly [] rfl hne (PartlyEnded.refl start)

theorem undisturbed_removeUploads (hl : Lockstep w.db) :
    Undisturbed (removeUploads cid account : Handler cfg DeleteReply) (fun r _ w' => ∀ out, r = .ok out →
      out.removed ≠ 0 → Deleting w.db w'.db account cid []) past w := by
  change Undisturbed (if activeClaimsOf w.db cid account = [] then _ else _) _ past w
  by_cases hnone : activeClaimsOf w.db cid account = []
  · rw [if_pos hnone]
    intro _
    refine ⟨trivial, fun _ out hout hremoved => absurd ?_ hremoved⟩
    cases hout
    exact removePin_none (t := w.now) hl hnone
  · rw [if_neg hnone]
    refine Assures.mono (fun r _ _ hr out hout _ => hr ⟨out, hout⟩)
      (undisturbed_cancelAll (some account) false (fun c => settleClaimRefund c "user_deleted")
        (fun (out : DeleteReply) c e refund => { out with
          removed := out.removed + 1, fullyUnpinned := out.fullyUnpinned || e.fullyUnpinned
          refunds := out.refunds ++ [{ claimId := c.claimId, activatedGuardian := e.activated,
                                       refund }] })
        { cid, removed := 0, fullyUnpinned := false, refunds := [] } hl ?_ (deleting_start hnone))
    exact fun c w => keeps_settleClaimRefund permits_spared (fun _ _ => trivial)

theorem undisturbed_uploadsDelete (hl : Lockstep w.db) (b : DeleteRequest) :
    Undisturbed (uploadsDelete b : Handler cfg DeleteReply) (fun r _ w' => (∃ out, r = .ok out) →
      Deleting w.db w'.db (cfg.toLowerCase b.signed.hiveAccount) b.cid []) past w := by
  have hfault : ∀ {db : Db} (e : Fault), (∃ out, (.error e : Except Fault DeleteReply) = .ok out) →
      Deleting w.db db (cfg.toLowerCase b.signed.hiveAccount) b.cid [] := by
    rintro db e ⟨out, hout⟩
    cases hout
  unfold uploadsDelete
  refine assures_require (fun _ => hfault _) (fun _ => ?_)
  refine assures_bind (Assures.mono ?_
    (undisturbed_silent (keeps_verifySignedUserRequest (fun _ _ => trivial))))
  intro r past₁ w₁ hw₁
  cases r with
  | error e => exact hfault e
  | ok u =>
    rw [← hw₁] at hl hfault ⊢
    refine assures_bind (Assures.mono ?_ (undisturbed_removeUploads hl))
    intro r past₂ w₂ hr
    cases r with
    | error e => exact hfault e
    | ok out =>
      refine assures_require (fun _ => hfault _) (fun hremoved => ?_)
      have hd := hr out rfl (of_decide_eq_true hremoved)
      refine assures_bind (Assures.mono ?_ (undisturbed_spared
        (keeps_unpinIfLast (fun cid _ => spares_unpinFromKubo cid) (fun _ _ => trivial)) hd))
      intro r past₃ w₃ hr
      cases r with
      | error e => exact hfault e
      | ok u => exact fun _ => hr

theorem undisturbed_pinsDelete (hl : Lockstep w.db) (b : PinsDeleteRequest) :
    Undisturbed (pinsDelete b : Handler cfg PinsDeleteReply) (fun r _ w' => (∃ out, r = .ok out) →
      Deleting w.db w'.db (cfg.toLowerCase b.targetAccount) b.cid []) past w := by
  have hfault : ∀ {db : Db} (e : Fault),
      (∃ out, (.error e : Except Fault PinsDeleteReply) = .ok out) →
      Deleting w.db db (cfg.toLowerCase b.targetAccount) b.cid [] := by
    rintro db e ⟨out, hout⟩
    cases hout
  unfold pinsDelete
  refine assures_require (fun _ => hfault _) (fun _ => ?_)
  refine assures_bind (Assures.mono ?_
    (undisturbed_silent (keeps_verifyAdminAuth (fun _ _ => trivial))))
  intro r past₁ w₁ hw₁
  cases r with
  | error e => exact hfault e
  | ok adminId =>
    rw [← hw₁] at hl hfault ⊢
    change Undisturbed (Prog.bind (require _ _) _) _ past₁ w₁
    refine assures_require (fun _ => hfault _) (fun hsome => ?_)
    have hne : activeClaimsOf w₁.db b.cid (cfg.toLowerCase b.targetAccount) ≠ [] := by
      intro hnone
      change (!(activeClaimsOf w₁.db b.cid (cfg.toLowerCase b.targetAccount)).isEmpty) = true at hsome
      rw [hnone] at hsome
      cases hsome
    refine assures_bind (Assures.mono ?_ (undisturbed_cancelAll none true
      (fun c => settleForcedRefund c (b.refundPolicy.getD .prorata) false)
      (fun (out : PinsDeleted) _ e settled =>
        { fullyUnpinned := out.fullyUnpinned || e.fullyUnpinned,
          activated := out.activated + (if e.activated.isSome then 1 else 0),
          refunds := out.refunds.count settled.status })
      { fullyUnpinned := false, activated := 0, refunds := RefundTally.zero } hl
      (fun c w => keeps_settleForcedRefund permits_spared (fun _ _ => trivial))
      (deleting_start hne)))
    intro r past₂ w₂ hr
    cases r with
    | error e => exact hfault e
    | ok out =>
      refine assures_bind (Assures.mono ?_ (undisturbed_spared
        (keeps_unpinIfLast (fun cid _ => spares_unpinFromKubo cid) (fun _ _ => trivial))
        (hr ⟨out, rfl⟩)))
      intro r past₃ w₃ hr
      cases r with
      | error e => exact hfault e
      | ok u => exact fun _ => ⟨trivial, fun _ _ => hr.congr rfl rfl⟩

end Alone

/-- A request to delete an account's hosting of a CID: the account's own or the admin's. -/
inductive DeleteCall where
  | own (b : DeleteRequest)
  | admin (b : PinsDeleteRequest)

namespace DeleteCall

def request : DeleteCall → Request
  | own b => .uploadsDelete b
  | admin b => .pinsDelete b

def account (cfg : Config) : DeleteCall → Account
  | own b => cfg.toLowerCase b.signed.hiveAccount
  | admin b => cfg.toLowerCase b.targetAccount

def cid : DeleteCall → Cid
  | own b => b.cid
  | admin b => b.cid

theorem undisturbed {cfg : Config} (call : DeleteCall) {w : World} (hl : Lockstep w.db) :
    Undisturbed (handle cfg call.request) (fun r _ w' => (∃ body, r = .ok body) →
      Deleting w.db w'.db (call.account cfg) call.cid []) [] w := by
  cases call with
  | own b =>
    refine assures_bind (Assures.mono ?_ (undisturbed_uploadsDelete hl b))
    intro r past w hr
    cases r with
    | error e =>
      rintro ⟨body, hbody⟩
      cases hbody
    | ok out => exact fun _ => hr ⟨out, rfl⟩
  | admin b =>
    refine assures_bind (Assures.mono ?_ (undisturbed_pinsDelete hl b))
    intro r past w hr
    cases r with
    | error e =>
      rintro ⟨body, hbody⟩
      cases hbody
    | ok out => exact fun _ => hr ⟨out, rfl⟩

end DeleteCall

/-- Which of the requests that were answered after the first state succeeded. -/
def answeredSince {cfg : Config} (S S' : Gate cfg) : List Bool :=
  (S'.finished.drop S.finished.length).map (fun f => f.result.isOk)

/-- After a successful delete that nothing interrupts, the account's hosting of the CID is gone
exactly if another account hosts it too or the next guardian is not the account's own. -/
theorem delete_removes_iff (cfg : Config) (t : Int) (events own : List (GateEvent cfg))
    (call : DeleteCall) (hown : ∀ e ∈ own, Rely.Lone (serve cfg t events).parked.length e)
    (hdone : answeredSince (serve cfg t events)
      (serve cfg t (events ++ .spawn call.request :: own)) = [true]) :
    HostingRemoved (serve cfg t events).world.db
        (serve cfg t (events ++ .spawn call.request :: own)).world.db (call.account cfg) call.cid ↔
      Removable (serve cfg t events).world.db (call.account cfg) call.cid := by
  have hl := serve_lockstep cfg t events
  have hrun : serve cfg t (events ++ .spawn call.request :: own) =
      (serve cfg t events).run (handle cfg) (.spawn call.request :: own) :=
    List.foldl_append
  rw [hrun] at hdone ⊢
  have hhonest : ∀ e : GateEvent cfg, (Rely.alone (machine cfg) (fun _ _ => True)).Honest e := by
    intro e
    cases e with
    | resume i answer => exact fun _ => trivial
    | _ => trivial
  unfold answeredSince at hdone
  cases Rely.lone_run (call.undisturbed hl) (fun e he => ⟨hown e he, hhonest e⟩) with
  | under p hparked hfinished hresume =>
    rw [hfinished, List.drop_length] at hdone
    cases hdone
  | done f hparked hfinished hout hlater =>
    rw [hfinished, List.drop_left] at hdone
    cases hr : f.result with
    | error e =>
      rw [List.map_singleton, hr] at hdone
      cases hdone
    | ok body =>
      have hd := hout ⟨body, hr⟩
      rw [← db_of_alone hlater] at hd
      exact removed_iff hl hd

section Sampled

open Sample

def deleteBy (account : Account) : DeleteCall := .own { cid := "bafy", signed := signedBy account }

/-- Alice hosts a file and `guardian` has pledged for it. -/
def guardedBy (guardian : Account) : List (GateEvent config) :=
  hostedByAlice ++ [.spawn (pledgeBy guardian)] ++ resumed 3 0

theorem delete_removes_bob_next :
    HostingRemoved (serve config 0 (guardedBy "bob")).world.db
        (serve config 0 (guardedBy "bob" ++ .spawn (deleteBy "alice").request :: resumed 4 0)).world.db
        "alice" "bafy" ↔
      Removable (serve config 0 (guardedBy "bob")).world.db "alice" "bafy" := by
  refine delete_removes_iff config 0 (guardedBy "bob") (resumed 4 0) (deleteBy "alice") ?_
    (by decide +kernel)
  intro e he
  rw [List.eq_of_mem_replicate he]
  have hidle : 0 = (serve config 0 (guardedBy "bob")).parked.length := by decide +kernel
  exact hidle

/-- Alice has pledged on her own file: her delete succeeds and puts the pledge in its place. -/
theorem own_guardian_takes_over :
    answeredSince (serve config 0 (guardedBy "alice"))
        (serve config 0 (guardedBy "alice" ++ .spawn (deleteBy "alice").request :: resumed 4 0)) =
      [true] ∧
    ¬ HostingRemoved (serve config 0 (guardedBy "alice")).world.db
        (serve config 0 (guardedBy "alice" ++ .spawn (deleteBy "alice").request :: resumed 4 0)).world.db
        "alice" "bafy" := by
  refine ⟨by decide +kernel, fun h => ?_⟩
  have hactive : ∃ c ∈ (serve config 0 (guardedBy "alice" ++
      .spawn (deleteBy "alice").request :: resumed 4 0)).world.db.claims,
      c.cid = "bafy" ∧ c.owner = "alice" ∧ c.state = .active := by
    decide +kernel
  obtain ⟨c, hc, hcid, hown, hact⟩ := hactive
  exact h.claims c hc hcid hown hact

end Sampled

end IpfsGate.Server
