import IpfsGate.Server.Gateway

/-!
# How a file is rendered

Mode and mime are chosen by an upload and served by CID, from the newest active pin; own copies
and promoted guardians take them from the newest pin in any status. The pins of a CID agree as
long as every upload agrees with the pins that it joins: nothing else brings a new choice in.
-/
namespace IpfsGate.Server

open Quota LedgerRun
open Lib (Pool Table)
open Lib.Prog (Trace)

/-- Mode and mime are the same. -/
def SameLook (p q : Pin) : Prop := p.mode = q.mode ∧ p.mime = q.mime

instance (p q : Pin) : Decidable (SameLook p q) := by unfold SameLook; infer_instance

/-- A pin that is active looks like every pin of its CID that is not older, and pins of one moment
look alike. -/
structure Consistent (t : Int) (db : Db) : Prop where
  looks : ∀ p ∈ db.pins, ∀ q ∈ db.pins, p.cid = q.cid → p.createdAt ≤ q.createdAt →
    p.status = .active ∨ p.createdAt = q.createdAt → SameLook p q
  past : ∀ p ∈ db.pins, p.createdAt ≤ t

/-- An upload brings the mode and mime of the pins it joins: those of its CID that are active or
were created in the same millisecond. -/
def Stmt.UploadsAlike : Stmt → World → Prop
  | .finaliseUpload _ u, w => ∀ p ∈ w.db.pins.rows, p.cid = u.cid →
      p.status = .active ∨ p.createdAt = w.now → p.mode = u.mode ∧ p.mime = u.mime
  | _, _ => True

instance (s : Stmt) (w : World) : Decidable (s.UploadsAlike w) := by
  induction s using Stmt.casesOn <;> unfold Stmt.UploadsAlike <;> infer_instance

section Tables

variable {cfg : Config} {db after : Db} {t : Int} {cid : Cid}

/-- A pin that is one of before, perhaps no longer active. -/
structure Retained (q p : Pin) : Prop where
  cid : p.cid = q.cid
  createdAt : p.createdAt = q.createdAt
  look : SameLook p q
  active : p.status = .active → q.status = .active

theorem SameLook.symm {p q : Pin} (h : SameLook p q) : SameLook q p := ⟨h.1.symm, h.2.symm⟩

theorem SameLook.trans {p q r : Pin} (h : SameLook p q) (h' : SameLook q r) : SameLook p r :=
  ⟨h.1.trans h'.1, h.2.trans h'.2⟩

theorem Consistent.retain (h : Consistent t db)
    (hfrom : ∀ p ∈ after.pins, ∃ q ∈ db.pins, Retained q p) : Consistent t after where
  looks := by
    intro p hp q hq hcid hle hage
    obtain ⟨p', hp', hpp⟩ := hfrom p hp
    obtain ⟨q', hq', hqq⟩ := hfrom q hq
    rw [hpp.cid, hqq.cid] at hcid
    rw [hpp.createdAt, hqq.createdAt] at hle hage
    have hlook := h.looks p' hp' q' hq' hcid hle (hage.imp_left hpp.active)
    exact (hpp.look.trans hlook).trans hqq.look.symm
  past := by
    intro p hp
    obtain ⟨q, hq, hpq⟩ := hfrom p hp
    rw [hpq.createdAt]
    exact h.past q hq

/-- A new pin that looks like those it joins. -/
theorem Consistent.join (h : Consistent t db) {n : Pin} (hnow : n.createdAt = t)
    (hlook : ∀ q ∈ db.pins, q.cid = n.cid → q.status = .active ∨ q.createdAt = t → SameLook q n)
    (hpins : ∀ p ∈ after.pins, p ∈ db.pins ∨ p = n) : Consistent t after where
  looks := by
    intro p hp q hq hcid hle hage
    rcases hpins p hp with hp | rfl
    · rcases hpins q hq with hq | rfl
      · exact h.looks p hp q hq hcid hle hage
      · rw [hnow] at hage
        exact hlook p hp hcid hage
    · rcases hpins q hq with hq | rfl
      · have hlast := h.past q hq
        exact (hlook q hq hcid.symm (Or.inr (by omega))).symm
      · exact ⟨rfl, rfl⟩
  past := by
    intro p hp
    rcases hpins p hp with hp | rfl
    · exact h.past p hp
    · exact Int.le_of_eq hnow

/-- The newest pin of a CID looks like those that a new one joins. -/
theorem Consistent.latest (h : Consistent t db) {info : PinInfo}
    (hinfo : getLatestPinInfoForCid db cid = some info) {q : Pin} (hq : q ∈ db.pins)
    (hcid : q.cid = cid) (hage : q.status = .active ∨ q.createdAt = t) :
    q.mode = info.mode ∧ q.mime = info.mime := by
  obtain ⟨p, hp, rfl⟩ := Option.map_eq_some_iff.mp hinfo
  obtain ⟨hmem, hpcid⟩ := Table.mem_filter.mp (List.argmax_mem hp)
  have hnewest : q.createdAt ≤ p.createdAt :=
    List.le_of_mem_argmax (Table.mem_filter.mpr ⟨hq, by simp [hcid]⟩) hp
  have hsame : q.cid = p.cid := hcid.trans (of_decide_eq_true hpcid).symm
  refine h.looks q hq p hmem hsame hnewest (hage.imp_right (fun hnow => ?_))
  have hlast := h.past p hmem
  omega

theorem leftPin_retained (status : PinStatus) (reason : Pin → Option String)
    (select : Pin → Bool) (hs : status ≠ .active) (p : Pin) :
    Retained p (leftPin t status reason select p) := by
  refine ⟨leftPin_cid, ?_, ?_, fun ha => ((leftPin_active hs).mp ha).1⟩
  · unfold leftPin
    split <;> rfl
  · unfold leftPin
    split <;> exact ⟨rfl, rfl⟩

theorem extendedPin_retained (pinId : Option Nat) (expiresAt : Int) (p : Pin) :
    Retained p (extendedPin pinId expiresAt p) := by
  unfold extendedPin
  split <;> exact ⟨rfl, rfl, ⟨rfl, rfl⟩, fun ha => ha⟩

/-- Ending, extending and promoting bring in no new look. -/
theorem durableAt_consistent (t : Int) : DurableAt t (Consistent t) where
  same := by
    intro a b hpins _ h
    refine h.retain (fun p hp => ⟨p, hpins ▸ hp, rfl, rfl, ⟨rfl, rfl⟩, fun ha => ha⟩)
  endPins := by
    intro db status reason select hs h
    refine h.retain (fun p hp => ?_)
    obtain ⟨q, hq, rfl⟩ := mem_endPins.mp hp
    exact ⟨q, hq, leftPin_retained status reason select hs q⟩
  closeClaims := by
    intro db state select _ _ h
    exact h.retain (fun p hp => ⟨p, hp, rfl, rfl, ⟨rfl, rfl⟩, fun ha => ha⟩)
  promote := by
    intro db cid g hg h
    refine h.join (n := promotedPin db t g) rfl (fun q hq hcid hage => ?_)
      (fun p hp => mem_pins_promote.mp hp)
    change q.mode = ((getLatestPinInfoForCid db g.cid).getD _).mode ∧
      q.mime = ((getLatestPinInfoForCid db g.cid).getD _).mime
    cases hinfo : getLatestPinInfoForCid db g.cid with
    | some info => exact h.latest hinfo hq hcid hage
    | none =>
      have hnil := List.argmax_eq_none.mp (Option.map_eq_none_iff.mp hinfo)
      have hmem : q ∈ db.pins.filter (fun p => p.cid = g.cid) :=
        Table.mem_filter.mpr ⟨hq, decide_eq_true hcid⟩
      rw [hnil] at hmem
      exact absurd hmem List.not_mem_nil
  extend := by
    intro db claimId owner extraHours c after hrun h
    obtain ⟨claim, _, _, _, _, _, hpins⟩ := extendClaim_ok hrun
    refine h.retain (fun p hp => ?_)
    obtain ⟨q, hq, rfl⟩ := (hpins p).mp hp
    exact ⟨q, hq, extendedPin_retained _ _ q⟩

end Tables

section Runs

variable {cfg : Config} {w : World}

theorem consistent_sem {s : Stmt} (hs : s.UploadsAlike w) (h : Consistent w.now w.db) :
    Consistent w.now (s.sem cfg w).2.db := by
  refine (durableAt_consistent w.now).sem_creating ?_ ?_ ?_ h
  · rintro id u rfl
    refine h.join (n := u.pin.row w.now w.db.pins.next) rfl (fun q hq hcid hage => ?_)
      (fun p hp => mem_insertPin.mp hp)
    exact hs q hq hcid hage
  · rintro n info rfl hinfo _
    refine h.join (n := (n.pin w.now info).row w.now w.db.pins.next) rfl
      (fun q hq hcid hage => ?_) (fun p hp => mem_insertPin.mp hp)
    exact h.latest hinfo hq hcid hage
  · rintro g rfl
    exact h.retain (fun p hp => ⟨p, hp, rfl, rfl, ⟨rfl, rfl⟩, fun ha => ha⟩)

theorem kept_consistent (cfg : Config) (A : Answers) (Arrives : Request → World → Prop) (t : Int) :
    Kept cfg (fun w => Consistent w.now w.db) Stmt.UploadsAlike A Arrives t where
  start := ⟨fun p hp => absurd hp List.not_mem_nil, fun p hp => absurd hp List.not_mem_nil⟩
  drift := by
    intro ms w h
    refine ⟨h.looks, fun p hp => ?_⟩
    have hlast := h.past p hp
    change p.createdAt ≤ w.now + ms
    omega
  step := by
    intro q past s w _ hs h
    rw [clock_sem]
    exact consistent_sem hs h

/-- Active pins of one CID have one mode and one mime. -/
def OneLook (db : Db) : Prop :=
  ∀ p ∈ db.pins, ∀ q ∈ db.pins, p.status = .active → q.status = .active → p.cid = q.cid →
    SameLook p q

theorem Consistent.oneLook {t : Int} {db : Db} (h : Consistent t db) : OneLook db := by
  intro p hp q hq hpa hqa hcid
  rcases Int.le_total p.createdAt q.createdAt with hle | hle
  · exact h.looks p hp q hq hcid hle (Or.inl hpa)
  · exact (h.looks q hq p hp hcid.symm hle (Or.inl hqa)).symm

theorem getServeInfoForCid_look {db : Db} {cid : Cid} {info : PinInfo}
    (h : getServeInfoForCid db cid = some info) :
    ∃ p, ActivePin db cid p ∧ p.mode = info.mode ∧ p.mime = info.mime := by
  obtain ⟨p, hp, rfl⟩ := Option.map_eq_some_iff.mp h
  exact ⟨p, mem_getActivePinsForCid.mp (List.argmax_mem hp), rfl, rfl⟩

theorem renderHeaders_congr {a b : PinInfo} (hmode : a.mode = b.mode) (hmime : a.mime = b.mime) :
    renderHeaders a = renderHeaders b := by
  unfold renderHeaders
  rw [hmode, hmime]

/-- An upload that agrees with the pins it joins leaves the headers of its CID alone. -/
theorem renderHeaders_upload {id : Nat} {u : Upload} (h : Consistent w.now w.db)
    (hs : (Stmt.finaliseUpload id u).UploadsAlike w) {before : PinInfo}
    (hbefore : getServeInfoForCid w.db u.cid = some before) :
    ∃ after, getServeInfoForCid ((Stmt.finaliseUpload id u).sem cfg w).2.db u.cid = some after ∧
      renderHeaders after = renderHeaders before := by
  obtain ⟨p, hp, hmode, hmime⟩ := getServeInfoForCid_look hbefore
  have hpins : ((Stmt.finaliseUpload id u).sem cfg w).2.db.pins =
      (insertPin w.db w.now u.pin).pins := rfl
  have hkept : ActivePin ((Stmt.finaliseUpload id u).sem cfg w).2.db u.cid p :=
    ⟨hpins ▸ mem_insertPin.mpr (Or.inl hp.mem), hp.cid_eq, hp.active⟩
  obtain ⟨after, hafter⟩ := getServeInfoForCid_of_active (hasActivePinForCid_iff.mpr ⟨p, hkept⟩)
  refine ⟨after, hafter, ?_⟩
  obtain ⟨q, hq, hqmode, hqmime⟩ := getServeInfoForCid_look hafter
  have hnext : Consistent w.now ((Stmt.finaliseUpload id u).sem cfg w).2.db := consistent_sem hs h
  have hlook := hnext.oneLook q hq.mem p hkept.mem hq.active hkept.active
    (hq.cid_eq.trans hkept.cid_eq.symm)
  exact renderHeaders_congr (hqmode.symm.trans (hlook.1.trans hmode))
    (hqmime.symm.trans (hlook.2.trans hmime))

/-- In every run whose uploads agree with the pins that they join, the active pins of a CID agree,
and no upload of the same bytes changes the headers that the file is served with. -/
theorem one_look (cfg : Config) (t : Int) (events : List (GateEvent cfg))
    (h : Guarded cfg Stmt.UploadsAlike t events) :
    OneLook (serve cfg t events).world.db ∧
    ∀ q past, (serve cfg t events).Ran q past → ∀ id u w, (.finaliseUpload id u, w) ∈ past →
      ∀ before, getServeInfoForCid w.db u.cid = some before →
        ∃ after, getServeInfoForCid ((Stmt.finaliseUpload id u).sem cfg w).2.db u.cid =
          some after ∧ renderHeaders after = renderHeaders before := by
  have hkept := kept_consistent cfg (fun _ _ => True) (fun _ _ => True) t
  have hstands := serve_justified hkept h (answered_any events)
  refine ⟨hstands.inv.oneLook, fun q past hran id u w hmem before hbefore => ?_⟩
  obtain ⟨hinv, hs⟩ := admitted_serve hkept h (answered_any events) hran _ hmem
  exact renderHeaders_upload hinv hs hbefore

end Runs

section Sampled

open Sample

/-- Bob reserves and uploads the file that Alice hosts, in the mode he likes. -/
def uploadedBoth (mode : String) : List (GateEvent config) :=
  hostedByAlice ++ [.spawn (.reserve
    { uploader := "bob", sizeBytes := 100, mode, hoursRequested := none, copies := none }),
    .spawn (uploadOf 2 "bafy")] ++ resumed 6 0

theorem one_look_uploadedBoth :
    Guarded config Stmt.UploadsAlike 0 (uploadedBoth "public") ∧
    OneLook (serve config 0 (uploadedBoth "public")).world.db :=
  ⟨by decide +kernel, (one_look config 0 (uploadedBoth "public") (by decide +kernel)).1⟩

theorem two_looks : ¬ OneLook (serve config 0 (uploadedBoth "encrypted")).world.db := by
  have htwo : ∃ p ∈ (serve config 0 (uploadedBoth "encrypted")).world.db.pins.rows,
      ∃ q ∈ (serve config 0 (uploadedBoth "encrypted")).world.db.pins.rows,
      p.status = .active ∧ q.status = .active ∧ p.cid = q.cid ∧ p.mode ≠ q.mode := by
    decide +kernel
  obtain ⟨p, hp, q, hq, hpa, hqa, hcid, hmode⟩ := htwo
  intro h
  exact hmode (h p hp q hq hpa hqa hcid).1

end Sampled

end IpfsGate.Server
