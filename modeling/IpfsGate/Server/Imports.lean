import IpfsGate.ModerationLog
import IpfsGate.Server.Kills

/-!
# Imported takedowns

An import takes down every CID it has not seen before. It skips one that has a row in the
registry, also when that row was lifted again and also when content came back since, so the
list is in force exactly when the rows that were there already are.
-/
namespace IpfsGate.Server

open Quota Moderation
open Lib (Register)

section Imports

variable {cfg : Config} {db : Db} {t : Int}

/-- A takedown of the CID is in force: it is blocked and nothing on it is left. -/
structure InForce (db : Db) (cid : Cid) : Prop where
  blocked : isCidBlocked db cid = true
  gone : ContentGone db cid

instance (db : Db) (cid : Cid) : Decidable (InForce db cid) :=
  decidable_of_iff (isCidBlocked db cid = true ∧ ContentGone db cid)
    ⟨fun h => ⟨h.1, h.2⟩, fun h => ⟨h.blocked, h.gone⟩⟩

/-- The registry has a row of the CID, in force or lifted. -/
def isRegistered (db : Db) (cid : Cid) : Bool := db.blockedCids.any (fun b => b.cid = cid)

/-- A clear ledger on one CID is that CID's content gone. -/
theorem contentGone_iff_clear {cid : Cid} :
    ContentGone db cid ↔ Clear (fun c _ => c = cid) db := by
  constructor
  · intro h
    constructor
    · intro p hp ha hk
      exact h.pins p hp hk ha
    · intro c hc ho hk
      have hstate := h.claims c hc hk
      simp [isOpen, hstate.1, hstate.2] at ho
  · intro h
    constructor
    · intro p hp hcid ha
      exact h.pins p hp ha hcid
    · intro c hc hcid
      have hopen : isOpen c ≠ true := fun ho => h.claims c hc ho hcid
      simp only [isOpen, ne_eq, Bool.or_eq_true, decide_eq_true_eq, not_or] at hopen
      exact hopen

/-! ## One takedown -/

theorem isRegistered_takedown {cid reason admin : String} {policy : RefundPolicy} (c : Cid) :
    isRegistered (takedownTransaction db t cid reason policy admin).2 c = true ↔
      c = cid ∨ isRegistered db c = true := by
  show Register.any (Register.replace _ _) _ = true ↔ _
  simp only [isRegistered, Register.any_iff, Register.mem_replace, decide_eq_true_eq]
  constructor
  · rintro ⟨b, ⟨hb, _⟩ | rfl, rfl⟩
    · exact Or.inr ⟨b, hb, rfl⟩
    · exact Or.inl rfl
  · rintro (rfl | ⟨b, hb, rfl⟩)
    · exact ⟨_, Or.inr rfl, rfl⟩
    · by_cases hc : b.cid = cid
      · exact ⟨_, Or.inr rfl, hc.symm⟩
      · exact ⟨b, Or.inl ⟨hb, hc⟩, rfl⟩

theorem inForce_takedown_self {cid reason admin : String} {policy : RefundPolicy} :
    InForce (takedownTransaction db t cid reason policy admin).2 cid := by
  constructor
  · show Register.any (Register.replace _ _) _ = true
    rw [Register.any_iff]
    refine ⟨_, Register.mem_replace.mpr (Or.inr rfl), ?_⟩
    simp
  · rw [contentGone_iff_clear]
    have hnone : Clear (fun _ _ => False) db := ⟨fun _ _ _ h => h, fun _ _ _ h => h⟩
    exact (hnone.takedownTransaction cid reason policy admin).weaken (fun _ _ h => Or.inr h)

/-- A takedown of one CID leaves the block and the content of every other as they were. -/
theorem isCidBlocked_takedown_of_ne {cid reason admin : String} {policy : RefundPolicy} {c : Cid}
    (hc : c ≠ cid) :
    isCidBlocked (takedownTransaction db t cid reason policy admin).2 c = isCidBlocked db c := by
  rw [Bool.eq_iff_iff]
  show Register.any (Register.replace _ _) _ = true ↔ _
  simp only [isCidBlocked, Register.any_iff, Register.mem_replace, Bool.and_eq_true,
    decide_eq_true_eq]
  constructor
  · rintro ⟨b, ⟨hb, _⟩ | rfl, hbc, hlive⟩
    · exact ⟨b, hb, hbc, hlive⟩
    · exact absurd hbc.symm hc
  · rintro ⟨b, hb, hbc, hlive⟩
    exact ⟨b, Or.inl ⟨hb, fun h => hc (hbc.symm.trans h)⟩, hbc, hlive⟩

theorem contentGone_takedown_of_ne {cid reason admin : String} {policy : RefundPolicy} {c : Cid}
    (hc : c ≠ cid) :
    ContentGone (takedownTransaction db t cid reason policy admin).2 c ↔ ContentGone db c := by
  constructor
  · intro h
    constructor
    · intro p hp hpc ha
      have hmem : p ∈ (takedownTransaction db t cid reason policy admin).2.pins := by
        apply mem_endPins.mpr
        refine ⟨p, hp, ?_⟩
        have hne : p.cid ≠ cid := fun h => hc (hpc.symm.trans h)
        simp [leftPin, hne]
      exact h.pins p hmem hpc ha
    · intro d hd hdc
      have hmem : d ∈ (takedownTransaction db t cid reason policy admin).2.claims := by
        apply mem_closeClaims.mpr
        refine ⟨d, hd, ?_⟩
        have hne : d.cid ≠ cid := fun h => hc (hdc.symm.trans h)
        simp [closedClaim, isHostedOn, hne]
      exact h.claims d hmem hdc
  · intro h
    rw [contentGone_iff_clear] at h ⊢
    exact (h.takedownTransaction cid reason policy admin).weaken (fun _ _ h => Or.inl h)

theorem inForce_takedown_of_ne {cid reason admin : String} {policy : RefundPolicy} {c : Cid}
    (hc : c ≠ cid) :
    InForce (takedownTransaction db t cid reason policy admin).2 c ↔ InForce db c := by
  constructor
  · intro h
    constructor
    · rw [← isCidBlocked_takedown_of_ne hc]
      exact h.blocked
    · exact (contentGone_takedown_of_ne hc).mp h.gone
  · intro h
    constructor
    · rw [isCidBlocked_takedown_of_ne hc]
      exact h.blocked
    · exact (contentGone_takedown_of_ne hc).mpr h.gone

/-! ## The list -/

/-- The entry has what the import needs. -/
def ImportEntry.Usable (e : ImportEntry) : Prop := e.cid ≠ "" ∧ e.reason ≠ ""

instance (e : ImportEntry) : Decidable (ImportEntry.Usable e) :=
  inferInstanceAs (Decidable (_ ∧ _))

/-- What the import does with one entry: report it, skip it, or take it down. -/
inductive EntryStep (db : Db) (t : Int) (out : Imported) (entry : ImportEntry) :
    Imported × Db → Prop where
  | incomplete (h : ¬ ImportEntry.Usable entry) :
    EntryStep db t out entry ({ out with errors := out.errors ++ [⟨entry, "missing cid or reason"⟩] }, db)
  | registered (hc : ImportEntry.Usable entry) (h : isRegistered db entry.cid = true) :
    EntryStep db t out entry ({ out with skippedExisting := out.skippedExisting + 1 }, db)
  | fresh (hc : ImportEntry.Usable entry) (h : isRegistered db entry.cid = false)
    (policy : RefundPolicy) :
    EntryStep db t out entry ({ out with imported := out.imported + 1 },
      (takedownTransaction db t entry.cid entry.reason policy adminId).2)

theorem importEntry_step (cfg : Config) (db : Db) (t : Int) (out : Imported)
    (entry : ImportEntry) : EntryStep db t out entry (importEntry cfg db t out entry) := by
  unfold importEntry
  by_cases hc : ImportEntry.Usable entry
  · have hfields : ¬ (decide (entry.cid = "") || decide (entry.reason = "")) = true := by
      simpa [ImportEntry.Usable] using hc
    rw [if_neg hfields]
    by_cases hreg : db.blockedCids.any (fun b => b.cid = entry.cid) = true
    · rw [if_pos hreg]
      exact .registered hc hreg
    · rw [if_neg hreg]
      have htake : takedownCid cfg db t entry.cid entry.reason none adminId =
          .ok (takedownTransaction db t entry.cid entry.reason cfg.defaultRefundPolicy adminId) := by
        unfold takedownCid
        rw [if_neg (by simpa [Arg.isFalsy] using hc.1), if_neg (by simpa [Arg.isFalsy] using hc.2)]
        rfl
      rw [htake]
      exact .fresh hc (Bool.eq_false_iff.mpr hreg) _
  · have hfields : (decide (entry.cid = "") || decide (entry.reason = "")) = true := by
      simp only [ImportEntry.Usable, not_and_or, not_not] at hc
      simpa using hc
    rw [if_pos hfields]
    exact .incomplete hc

theorem importLoop_cons (entry : ImportEntry) (rest : List ImportEntry) (out : Imported)
    (db : Db) : importLoop cfg t (entry :: rest) out db =
      importLoop cfg t rest (importEntry cfg db t out entry).1
        (importEntry cfg db t out entry).2 := rfl

def Imported.total (out : Imported) : Nat := out.imported + out.skippedExisting + out.errors.length

/-- Each entry is counted once. -/
theorem importLoop_total (list : List ImportEntry) (out : Imported) (db : Db) :
    Imported.total (importLoop cfg t list out db).1 = Imported.total out + list.length := by
  induction list generalizing out db with
  | nil => rfl
  | cons entry rest ih =>
    rw [importLoop_cons, ih, List.length_cons]
    have hone : Imported.total (importEntry cfg db t out entry).1 = Imported.total out + 1 := by
      have hstep := importEntry_step cfg db t out entry
      generalize importEntry cfg db t out entry = after at hstep ⊢
      cases hstep with
      | incomplete h => simp [Imported.total]; omega
      | registered hc h => simp [Imported.total]; omega
      | fresh hc h policy => simp [Imported.total]; omega
    omega

/-- A usable entry is never among the reported ones. -/
theorem importLoop_errors (list : List ImportEntry) (out : Imported) (db : Db)
    (h : ∀ e ∈ out.errors, ¬ ImportEntry.Usable e.entry) :
    ∀ e ∈ (importLoop cfg t list out db).1.errors, ¬ ImportEntry.Usable e.entry := by
  induction list generalizing out db with
  | nil => exact h
  | cons entry rest ih =>
    rw [importLoop_cons]
    apply ih
    have hstep := importEntry_step cfg db t out entry
    generalize importEntry cfg db t out entry = after at hstep ⊢
    cases hstep with
    | incomplete hc =>
      intro e he
      rcases List.mem_append.mp he with he | he
      · exact h e he
      · rw [List.mem_singleton.mp he]
        exact hc
    | registered hc hreg => exact h
    | fresh hc hreg policy => exact h

/-- A registered CID stands after the import as it stood before: the import passes it over. -/
theorem importLoop_registered (list : List ImportEntry) (out : Imported) (db : Db) {cid : Cid}
    (hreg : isRegistered db cid = true) :
    InForce (importLoop cfg t list out db).2 cid ↔ InForce db cid := by
  induction list generalizing out db with
  | nil => rfl
  | cons entry rest ih =>
    rw [importLoop_cons]
    have hstep := importEntry_step cfg db t out entry
    generalize importEntry cfg db t out entry = after at hstep ⊢
    cases hstep with
    | incomplete hc => exact ih _ db hreg
    | registered hc _ => exact ih _ db hreg
    | fresh hc hfresh policy =>
      have hne : cid ≠ entry.cid := by
        rintro rfl
        rw [hfresh] at hreg
        cases hreg
      rw [ih _ _ ((isRegistered_takedown cid).mpr (Or.inr hreg))]
      exact inForce_takedown_of_ne hne

/-- A usable entry of an unregistered CID is in force after the import. -/
theorem importLoop_fresh (list : List ImportEntry) (out : Imported) (db : Db)
    {entry : ImportEntry} (hmem : entry ∈ list) (hc : ImportEntry.Usable entry)
    (hfresh : isRegistered db entry.cid = false) :
    InForce (importLoop cfg t list out db).2 entry.cid := by
  induction list generalizing out db with
  | nil => cases hmem
  | cons first rest ih =>
    rw [importLoop_cons]
    have hstep := importEntry_step cfg db t out first
    generalize importEntry cfg db t out first = after at hstep ⊢
    cases hstep with
    | incomplete hbad =>
      rcases List.mem_cons.mp hmem with rfl | hmem
      · exact absurd hc hbad
      · exact ih _ db hmem hfresh
    | registered _ hreg =>
      rcases List.mem_cons.mp hmem with rfl | hmem
      · rw [hfresh] at hreg
        cases hreg
      · exact ih _ db hmem hfresh
    | fresh _ _ policy =>
      by_cases hsame : entry.cid = first.cid
      · -- the first entry of the CID takes it down, the ones after it are passed over
        rw [importLoop_registered rest _ _ ((isRegistered_takedown _).mpr (Or.inl hsame)), hsame]
        exact inForce_takedown_self
      · have hrest : entry ∈ rest := by
          rcases List.mem_cons.mp hmem with rfl | hmem
          · exact absurd rfl hsame
          · exact hmem
        apply ih _ _ hrest
        rw [← Bool.not_eq_true, isRegistered_takedown, not_or, Bool.not_eq_true]
        exact ⟨hsame, hfresh⟩

/-- Every usable entry that is not reported is in force after the import, and the counts add
up, exactly when the entries whose CID had a row before were in force already. -/
theorem import_in_force_iff (cfg : Config) (db : Db) (t : Int) (list : List ImportEntry) :
    ((∀ entry ∈ list, entry.cid ≠ "" → entry.reason ≠ "" →
        (∀ e ∈ (importTakedowns cfg db t list).1.errors, e.entry ≠ entry) →
        InForce (importTakedowns cfg db t list).2 entry.cid) ∧
      (importTakedowns cfg db t list).1.imported +
          (importTakedowns cfg db t list).1.skippedExisting +
          (importTakedowns cfg db t list).1.errors.length = list.length) ↔
      ∀ entry ∈ list, entry.cid ≠ "" → entry.reason ≠ "" →
        isRegistered db entry.cid = true → InForce db entry.cid := by
  constructor
  · rintro ⟨hforce, _⟩ entry hmem hcid hreason hreg
    have herrors : ∀ e ∈ (importTakedowns cfg db t list).1.errors,
        ¬ ImportEntry.Usable e.entry := importLoop_errors list _ db (by simp)
    have hkept := hforce entry hmem hcid hreason
      (fun e he heq => herrors e he (heq ▸ ⟨hcid, hreason⟩))
    exact (importLoop_registered list _ db hreg).mp hkept
  · intro h
    constructor
    · intro entry hmem hcid hreason _
      by_cases hreg : isRegistered db entry.cid = true
      · exact (importLoop_registered list _ db hreg).mpr (h entry hmem hcid hreason hreg)
      · exact importLoop_fresh list _ db hmem ⟨hcid, hreason⟩ (by simpa using hreg)
    · show Imported.total (importLoop cfg t list _ db).1 = _
      rw [importLoop_total]
      exact Nat.zero_add _

end Imports

section Sampled

open Sample ModerationLog

/-- The takedown of `bafy` was lifted before a list with it is imported. -/
def liftedTakedown : Db :=
  history config Db.empty
    [(0, .takedownCid "bafy" "abuse" none adminId), (1, .untakedownCid "bafy" adminId)]

theorem import_skips_lifted :
    ¬ ∀ (cfg : Config) (db : Db) (t : Int) (list : List ImportEntry),
      (∀ entry ∈ list, entry.cid ≠ "" → entry.reason ≠ "" →
          (∀ e ∈ (importTakedowns cfg db t list).1.errors, e.entry ≠ entry) →
          InForce (importTakedowns cfg db t list).2 entry.cid) ∧
        (importTakedowns cfg db t list).1.imported +
            (importTakedowns cfg db t list).1.skippedExisting +
            (importTakedowns cfg db t list).1.errors.length = list.length := by
  intro h
  have hforce := (h config liftedTakedown 2 [⟨"bafy", "abuse again"⟩]).1 ⟨"bafy", "abuse again"⟩
    List.mem_cons_self (by decide) (by decide) (by decide +kernel)
  exact absurd hforce (by decide +kernel)

end Sampled

end IpfsGate.Server
