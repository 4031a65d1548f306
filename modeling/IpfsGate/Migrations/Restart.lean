import IpfsGate.Migrations.Rebuild

/-!
# Restarting after a crash

The version row is written last and the files are executed outside any transaction, so a crash
inside a file makes the next start run that file again from its beginning. Created tables and
indexes stand that. An added column does not: the start fails on it. The rebuild of the claims
table stands it only while there is no pledge budget to lose.
-/
namespace IpfsGate.Migrations

open Lib (Script.run)
open Lib.Script

/-- What a restart must restore. -/
structure SameContents (s s' : Store) : Prop where
  schema : s.schema = s'.schema
  claims : s.data.claims = s'.data.claims
  pins : s.data.pins = s'.data.pins
  reservations : s.data.reservations = s'.data.reservations
  orders : s.data.orders = s'.data.orders

/-- A crash after `k` steps is made good by the next start. -/
def Survives (s : Store) (k : Nat) : Prop :=
  ∃ done mid again, runMigrations s = .ok done ∧ crashed s k = .ok mid ∧
    runMigrations mid = .ok again ∧ SameContents again done

def Step.isRecord : Step → Bool
  | .autocommit (.recordVersion _) => true
  | _ => false

/-- The steps since the last version row. -/
def unrecorded (executed : List Step) : List Step :=
  executed.rtakeWhile (fun a => !a.isRecord)

/-- Whether the step may be executed a second time, given the claims. -/
def Step.RepeatSafe (rows : List ClaimRow) : Step → Prop
  | .autocommit (.addColumn _) => False
  | .transaction _ => ∀ r ∈ rows, r.kind ≠ .backstop
  | .autocommit _ => True

/-- Since the last version row no column was added, and the claims were not rebuilt while one
of them was a backstop. -/
def SafePoint (s : Store) (k : Nat) : Prop :=
  ∀ a ∈ unrecorded ((startup s).take k), a.RepeatSafe s.data.claims

/-! ## Steps of a file -/

def Stmt.rewritesClaims : Stmt → Bool
  | .dropClaims | .renameClaimsNew | .backfillPledgeOrder => true
  | _ => false

theorem write_claims {a : Stmt} (h : a.rewritesClaims = false) (d : Data) :
    (a.write d).claims = d.claims := by
  cases a with
  | addColumn c => cases c <;> rfl
  | _ => first | rfl | cases h

theorem writes_claims {stmts : List Stmt} (h : ∀ a ∈ stmts, a.rewritesClaims = false) (d : Data) :
    (writes stmts d).claims = d.claims := by
  induction stmts generalizing d with
  | nil => rfl
  | cons a rest ih =>
    rw [writes_cons, ih (fun b hb => h b (List.mem_cons_of_mem _ hb)),
      write_claims (h a List.mem_cons_self)]

theorem writes_versions {stmts : List Stmt} (h : ∀ a ∈ stmts, ∀ n, a ≠ .recordVersion n)
    (d : Data) : (writes stmts d).versions = d.versions := by
  induction stmts generalizing d with
  | nil => rfl
  | cons a rest ih =>
    rw [writes_cons, ih (fun b hb => h b (List.mem_cons_of_mem _ hb))]
    cases a with
    | recordVersion n => exact absurd rfl (h _ List.mem_cons_self n)
    | addColumn c => cases c <;> rfl
    | _ => rfl

/-! ## What the creating statements do -/

theorem alter_createTable {t : TableName} {S S' : Finset Obj}
    (h : (Stmt.createTable t).alter S = .ok S') : S ⊆ S' ∧ Obj.table t ∈ S' := by
  cases h
  split
  · rename_i ht
    exact ⟨Finset.Subset.refl S, ht⟩
  · exact ⟨Finset.subset_union_left, Finset.mem_union_right _ (by cases t <;> decide)⟩

theorem alter_createTable_idle {t : TableName} {S : Finset Obj} (ht : Obj.table t ∈ S) :
    (Stmt.createTable t).alter S = .ok S := by
  simp only [Stmt.alter, if_pos ht]

theorem alter_createIndex {i : Index} {S S' : Finset Obj}
    (h : (Stmt.createIndex i).alter S = .ok S') : S' = insert (.index i) S := by
  simp only [Stmt.alter] at h
  split at h
  · rename_i hi
    cases h
    exact (Finset.insert_eq_self.mpr hi).symm
  · split at h
    · cases h
      rfl
    · cases h

theorem alter_addColumn {c : Column} {S S' : Finset Obj}
    (h : (Stmt.addColumn c).alter S = .ok S') : Obj.column c ∉ S ∧ S' = insert (.column c) S := by
  simp only [Stmt.alter] at h
  split at h
  · cases h
  · split at h
    · cases h
    · rename_i hc
      cases h
      exact ⟨hc, rfl⟩

/-- What is not on the claims table stays. -/
theorem object_kept {a : Stmt} {S S' : Finset Obj} {o : Obj} (hon : o.on .claims = false)
    (hname : o.renamed = o) (h : a.alter S = .ok S') (ho : o ∈ S) : o ∈ S' := by
  cases a with
  | createTable t => exact (alter_createTable h).1 ho
  | createClaimsNew =>
    simp only [Stmt.alter] at h
    split at h
    · cases h
    · cases h
      exact Finset.mem_union_left _ ho
  | createIndex i => exact alter_createIndex h ▸ Finset.mem_insert_of_mem ho
  | addColumn c => exact (alter_addColumn h).2 ▸ Finset.mem_insert_of_mem ho
  | dropClaims =>
    simp only [Stmt.alter] at h
    split at h
    · cases h
      exact Finset.mem_filter.mpr ⟨ho, by rw [hon]; rfl⟩
    · cases h
  | renameClaimsNew =>
    simp only [Stmt.alter] at h
    split at h
    · cases h
    · split at h
      · cases h
      · cases h
        exact Finset.mem_image.mpr ⟨_, ho, hname⟩
  | pragma =>
    cases h
    exact ho
  | _ =>
    simp only [Stmt.alter] at h
    split at h
    · cases h
      exact ho
    · cases h

theorem step_keeps {a : Step} {s s' : Store} {o : Obj} (hon : o.on .claims = false)
    (hname : o.renamed = o) (h : a.exec s = .ok s') (ho : o ∈ s.schema) : o ∈ s'.schema :=
  run_keeps (P := fun s => o ∈ s.schema)
    (fun _ _ _ _ hmem hexec => object_kept hon hname (exec_ok.mp hexec).1 hmem) h ho

theorem steps_keep {steps : List Step} {s s' : Store} {o : Obj} (hon : o.on .claims = false)
    (hname : o.renamed = o) (h : run Step.exec steps s = .ok s') (ho : o ∈ s.schema) :
    o ∈ s'.schema :=
  run_keeps (P := fun s => o ∈ s.schema)
    (fun _ _ _ _ hmem hexec => step_keeps hon hname hexec hmem) h ho

theorem column_on (c : Column) : (Obj.column c).on .claims = false := by
  cases c <;> decide

theorem exec_autocommit {a : Stmt} {s s' : Store} :
    (Step.autocommit a).exec s = .ok s' ↔
      a.alter s.schema = .ok s'.schema ∧ s'.data = a.write s.data := by
  rw [← exec_ok]
  change run Stmt.exec [a] s = .ok s' ↔ _
  unfold run
  cases a.exec s <;> rfl

theorem addColumn_adds {c : Column} {s s' : Store}
    (h : (Step.autocommit (.addColumn c)).exec s = .ok s') : Obj.column c ∈ s'.schema := by
  rw [(alter_addColumn (exec_autocommit.mp h).1).2]
  exact Finset.mem_insert_self _ _

theorem addColumn_once {c : Column} {s s' : Store} (hc : Obj.column c ∈ s.schema) :
    (Step.autocommit (.addColumn c)).exec s ≠ .ok s' :=
  fun h => (alter_addColumn (exec_autocommit.mp h).1).1 hc

/-- Steps that hold an added column do not go through again. -/
theorem column_twice {first rest : List Step} {c : Column} {s mid : Store}
    (hc : Step.autocommit (.addColumn c) ∈ first) (hrun : run Step.exec first s = .ok mid)
    (again : Store) : run Step.exec (first ++ rest) mid ≠ .ok again := by
  obtain ⟨before, after, rfl⟩ := List.append_of_mem hc
  obtain ⟨next, _, hlast⟩ := run_append_ok hrun
  obtain ⟨added, hexec, hafter⟩ := run_cons_ok hlast
  have hmem : Obj.column c ∈ mid.schema :=
    steps_keep (column_on c) rfl hafter (addColumn_adds hexec)
  have hfail : ∀ s s' : Store, Obj.column c ∈ s.schema →
      Step.exec (.autocommit (.addColumn c)) s ≠ .ok s' := fun _ _ h => addColumn_once h
  have hkeep : ∀ a ∈ before ++ Step.autocommit (.addColumn c) :: after ++ rest, ∀ s s' : Store,
      Obj.column c ∈ s.schema → Step.exec a s = .ok s' → Obj.column c ∈ s'.schema :=
    fun _ _ _ _ h hstep => step_keeps (column_on c) rfl hstep h
  exact run_fails hkeep (List.mem_append_left _ hc) hfail hmem again

/-- Created tables and indexes can be seen. -/
def Created : Step → Store → Prop
  | .autocommit .pragma, _ => True
  | .autocommit (.createTable t), s => Obj.table t ∈ s.schema
  | .autocommit (.createIndex i), s => Obj.index i ∈ s.schema
  | _, _ => False

def Step.creates : Step → Bool
  | .autocommit .pragma | .autocommit (.createTable _) | .autocommit (.createIndex _) => true
  | _ => false

theorem creates_grows {a : Step} (ha : a.creates = true) {s s' : Store}
    (h : a.exec s = .ok s') : s.schema ⊆ s'.schema := by
  cases a with
  | transaction body => cases ha
  | autocommit a =>
    obtain ⟨halter, _⟩ := exec_autocommit.mp h
    cases a with
    | pragma =>
      injection halter with hS
      rw [hS]
    | createTable t => exact (alter_createTable halter).1
    | createIndex i =>
      rw [alter_createIndex halter]
      exact Finset.subset_insert _ _
    | _ => cases ha

/-- What creates only is repeatable. -/
theorem repeatable_of_creates {steps : List Step} (h : ∀ a ∈ steps, a.creates = true) :
    Repeatable Step.exec Created steps where
  done := by
    intro a ha s s' hexec
    have hcreates := h a ha
    cases a with
    | transaction body => cases hcreates
    | autocommit a =>
      obtain ⟨halter, _⟩ := exec_autocommit.mp hexec
      cases a with
      | pragma => trivial
      | createTable t => exact (alter_createTable halter).2
      | createIndex i =>
        change Obj.index i ∈ s'.schema
        rw [alter_createIndex halter]
        exact Finset.mem_insert_self _ _
      | _ => cases hcreates
  idle := by
    intro a ha s hdone
    have hcreates := h a ha
    cases a with
    | transaction body => cases hcreates
    | autocommit a =>
      rw [exec_autocommit]
      cases a with
      | pragma => exact ⟨rfl, rfl⟩
      | createTable t => exact ⟨alter_createTable_idle hdone, rfl⟩
      | createIndex i =>
        have hi : Obj.index i ∈ s.schema := hdone
        exact ⟨by simp only [Stmt.alter, if_pos hi], rfl⟩
      | _ => cases hcreates
  kept := by
    intro a ha b hb s s' hdone hexec
    have hgrows : s.schema ⊆ s'.schema := creates_grows (h b hb) hexec
    have hcreates := h a ha
    cases a with
    | transaction body => cases hcreates
    | autocommit a =>
      cases a with
      | pragma => trivial
      | createTable t => exact hgrows hdone
      | createIndex i => exact hgrows hdone
      | _ => cases hcreates

/-! ## The steps since the last version row -/

theorem unrecorded_of_none {steps : List Step} (h : ∀ a ∈ steps, a.isRecord = false) :
    unrecorded steps = steps := by
  refine List.rtakeWhile_eq_self_iff.mpr (fun a ha => ?_)
  rw [h a ha]
  rfl

theorem unrecorded_after_record (first rest : List Step) (n : Nat) :
    unrecorded (first ++ .autocommit (.recordVersion n) :: rest) = unrecorded rest := by
  induction rest using List.reverseRecOn with
  | nil => exact List.rtakeWhile_concat_neg _ _ _ Bool.false_ne_true
  | append_singleton rest a ih =>
    have hsplit : first ++ Step.autocommit (.recordVersion n) :: (rest ++ [a]) =
        (first ++ .autocommit (.recordVersion n) :: rest) ++ [a] := by simp
    rw [hsplit]
    unfold unrecorded at ih ⊢
    rw [List.rtakeWhile_concat, List.rtakeWhile_concat, ih]

/-- What may be repeated does not depend on the rows, without the rebuild. -/
theorem repeatSafe_congr {a : Step} (h : ∀ body, a ≠ .transaction body)
    (rows rows' : List ClaimRow) :
    a.RepeatSafe rows ↔ a.RepeatSafe rows' := by
  cases a with
  | autocommit a => cases a <;> exact Iff.rfl
  | transaction body => exact absurd rfl (h body)

/-! ## Between two files -/

/-- A database that has just recorded a version. -/
structure Between (m : Nat) (s : Store) : Prop where
  schema : s.schema = schemaOf m
  versions : s.data.versions = Finset.Icc 1 m
  unrenamed : m < 6 → ∀ r ∈ s.data.claims, r.kind ≠ .guardian

theorem current_eq {m : Nat} {d : Data} (h : d.versions = Finset.Icc 1 m) : d.current = m := by
  unfold Data.current
  rw [h]
  refine Nat.le_antisymm (Finset.sup_le fun n hn => (Finset.mem_Icc.mp hn).2) ?_
  cases m with
  | zero => exact Nat.zero_le _
  | succ m =>
    have hmem : m + 1 ∈ Finset.Icc 1 (m + 1) := Finset.mem_Icc.mpr ⟨by omega, Nat.le_refl _⟩
    exact Finset.le_sup (f := id) hmem

theorem file_claims : ∀ f ∈ migrations, f.version ≠ 6 →
    ∀ a ∈ flat f.steps, a.rewritesClaims = false := by
  decide +kernel

theorem flat_steps (f : Migration) : flat f.steps = flat f.body ++ [.recordVersion f.version] := by
  simp only [flat, Migration.steps, List.flatMap_append, List.flatMap_cons, List.flatMap_nil,
    Step.stmts, List.append_nil]

/-- A file leads from one version to the next. -/
theorem Between.file {f : Migration} (hf : f ∈ migrations) {s : Store}
    (h : Between (f.version - 1) s) :
    ∃ s', run Step.exec f.steps s = .ok s' ∧ Between f.version s' ∧
      (f.version ≠ 6 → s'.data.claims = s.data.claims) := by
  have hpos : 0 < f.version := by
    have hall : ∀ f ∈ migrations, 0 < f.version := by decide
    exact hall f hf
  have hclaims : f.version ≠ 6 → (writes (flat f.steps) s.data).claims = s.data.claims :=
    fun hne => writes_claims (file_claims f hf hne) _
  refine ⟨⟨schemaOf f.version, writes (flat f.steps) s.data⟩, ?_, ⟨rfl, ?_, ?_⟩, hclaims⟩
  · rw [run_steps_ok, h.schema]
    exact ⟨alter_file f hf, rfl⟩
  · change (writes (flat f.steps) s.data).versions = _
    rw [flat_steps, writes_append]
    change insert f.version (writes (flat f.body) s.data).versions = _
    rw [writes_versions (body_keeps_versions f hf), h.versions]
    ext n
    simp only [Finset.mem_insert, Finset.mem_Icc]
    omega
  · intro hlt
    change ∀ r ∈ (writes (flat f.steps) s.data).claims, r.kind ≠ .guardian
    rw [hclaims (by omega)]
    exact h.unrenamed (by omega)

/-! ## A crash inside a file -/

/-- The next start comes through with the contents that an undisturbed one leaves. -/
def Restores (mid done : Store) : Prop :=
  ∃ again, run Step.exec (pending mid.data.current) mid = .ok again ∧ SameContents again done

theorem body_steps : ∀ f ∈ migrations, ∀ a ∈ f.body,
    a.creates = true ∨ (∃ c, a = .autocommit (.addColumn c)) ∨
      (f.version = 6 ∧ a = .transaction rebuild) := by
  have hall : ∀ f ∈ migrations, ∀ a ∈ f.body, (a.creates ||
      match a with
      | .autocommit (.addColumn _) => true
      | .transaction body => f.version = 6 ∧ body = rebuild
      | _ => false) = true := by decide
  intro f hf a ha
  have h := hall f hf a ha
  rcases Bool.or_eq_true_iff.mp h with hcreates | hother
  · exact .inl hcreates
  · split at hother
    · exact .inr (.inl ⟨_, rfl⟩)
    · obtain ⟨hversion, hbody⟩ := of_decide_eq_true hother
      exact .inr (.inr ⟨hversion, by rw [hbody]⟩)
    · cases hother

theorem eq_guardian {f : Migration} (hf : f ∈ migrations) (h : f.version = 6) : f = guardian := by
  simp only [migrations, List.mem_cons, List.not_mem_nil, or_false] at hf
  rcases hf with rfl | rfl | rfl | rfl | rfl | rfl | rfl
  all_goals first | rfl | cases h

theorem unrecorded_body {f : Migration} (hf : f ∈ migrations) (k : Nat) :
    unrecorded (f.body.take k) = f.body.take k := by
  refine unrecorded_of_none (fun a ha => ?_)
  rcases body_steps f hf a (List.mem_of_mem_take ha) with h | ⟨c, rfl⟩ | ⟨_, rfl⟩
  · cases a with
    | transaction body => rfl
    | autocommit a => cases a <;> first | rfl | cases h
  · rfl
  · rfl

theorem writes_pending_five (d : Data) :
    writes (flat (pending 5)) d =
      { d with
        claims := rebuilt d.claims, claimsNew := []
        versions := insert 7 (insert 6 d.versions) } := rfl

theorem take_guardian {k : Nat} (hk : Step.transaction rebuild ∈ guardian.body.take k) :
    guardian.body.take k = guardian.body.take 2 ∨ guardian.body.take k = guardian.body := by
  match k, hk with
  | 0, hk => cases hk
  | 1, hk => exact absurd hk (by decide)
  | 2, _ => exact .inl rfl
  | k + 3, _ => exact .inr (List.take_of_length_le (Nat.le_add_left 3 k))

/-- The rebuild has been committed, its version has not been recorded. -/
theorem restores_rebuild {s mid done : Store} (h : Between 5 s) {k : Nat}
    (hk : Step.transaction rebuild ∈ guardian.body.take k)
    (hmid : run Step.exec (guardian.body.take k) s = .ok mid)
    (hdone : run Step.exec (pending 5) s = .ok done) :
    Restores mid done ↔ ∀ r ∈ s.data.claims, r.kind ≠ .backstop := by
  obtain ⟨halter, hdata⟩ := run_steps_ok.mp hmid
  obtain ⟨hlast, hfinal⟩ := run_steps_ok.mp hdone
  have hpart : run Stmt.alter (flat (guardian.body.take k)) (schemaOf 5) = .ok (schemaOf 6) ∧
      ∀ d : Data, writes (flat (guardian.body.take k)) d =
        { d with claims := rebuilt d.claims, claimsNew := [] } := by
    rcases take_guardian hk with htake | htake
    · rw [htake]
      exact ⟨by decide +kernel, fun _ => rfl⟩
    · rw [htake]
      exact ⟨by decide +kernel, fun _ => rfl⟩
  obtain ⟨S, hfirst, hsecond⟩ : ∃ S, run Stmt.alter (flat (pending 5)) (schemaOf 5) = .ok S ∧
      run Stmt.alter (flat (pending 5)) (schemaOf 6) = .ok S :=
    ⟨schemaOf 7, by decide +kernel, by decide +kernel⟩
  rw [h.schema, hpart.1] at halter
  injection halter with hschema
  rw [h.schema, hfirst] at hlast
  injection hlast with hdoneSchema
  have hcurrent : mid.data.current = 5 := by
    rw [hdata, hpart.2]
    exact current_eq h.versions
  have hclaims := rebuilt_twice_iff (h.unrenamed (by omega))
  have hagain : run Step.exec (pending mid.data.current) mid =
      .ok ⟨S, { mid.data with
        claims := rebuilt mid.data.claims, claimsNew := []
        versions := insert 7 (insert 6 mid.data.versions) }⟩ := by
    rw [hcurrent, run_steps_ok, ← hschema, writes_pending_five]
    exact ⟨hsecond, rfl⟩
  have hmidClaims : mid.data.claims = rebuilt s.data.claims := by rw [hdata, hpart.2]
  rw [writes_pending_five] at hfinal
  rw [← hclaims]
  constructor
  · rintro ⟨again, hrun, hsame⟩
    have heq := hsame.claims
    rw [← Except.ok.inj (hagain.symm.trans hrun), hfinal] at heq
    rw [← hmidClaims]
    exact Eq.trans heq hmidClaims.symm
  · intro heq
    refine ⟨_, hagain, ⟨hdoneSchema, ?_, ?_, ?_, ?_⟩⟩
    · rw [hfinal]
      change rebuilt mid.data.claims = rebuilt s.data.claims
      rw [hmidClaims, heq]
    · rw [hfinal, hdata, hpart.2]
    · rw [hfinal, hdata, hpart.2]
    · rw [hfinal, hdata, hpart.2]

theorem repeatSafe_of_creates {a : Step} (h : a.creates = true) (claims : List ClaimRow) :
    a.RepeatSafe claims := by
  cases a with
  | transaction body => cases h
  | autocommit a => cases a <;> trivial

/-- The steps of a file, and those after them. -/
theorem pending_split {f : Migration} (hf : f ∈ migrations) (k : Nat) :
    pending (f.version - 1) = f.body.take k ++ (f.body.drop k ++
      (Step.autocommit (.recordVersion f.version) :: pending f.version)) := by
  rw [pending_succ f hf, Migration.steps, ← List.append_assoc, List.take_append_drop,
    List.append_assoc]
  rfl

theorem take_pending {f : Migration} (hf : f ∈ migrations) {k : Nat} (hk : k ≤ f.body.length) :
    (pending (f.version - 1)).take k = f.body.take k := by
  rw [pending_split hf k, List.take_append_of_le_length (by rw [List.length_take]; omega),
    List.take_take, Nat.min_self]

/-- Until its version row is written, a file counts as not applied. -/
theorem current_within {f : Migration} (hf : f ∈ migrations) {s mid : Store}
    (h : Between (f.version - 1) s) {k : Nat} (hmid : run Step.exec (f.body.take k) s = .ok mid) :
    mid.data.current = f.version - 1 := by
  rw [(run_steps_ok.mp hmid).2]
  refine current_eq ((writes_versions (fun a ha => ?_) _).trans h.versions)
  obtain ⟨b, hb, hab⟩ := List.mem_flatMap.mp ha
  exact body_keeps_versions f hf a (List.mem_flatMap.mpr ⟨b, List.mem_of_mem_take hb, hab⟩)

/-- A crash inside a file is made good if its steps so far may be repeated. -/
theorem restores_within {f : Migration} (hf : f ∈ migrations) {s done : Store}
    (h : Between (f.version - 1) s) {k : Nat} (hk : k ≤ f.body.length)
    (hdone : run Step.exec (pending (f.version - 1)) s = .ok done) :
    ∃ mid, run Step.exec ((pending (f.version - 1)).take k) s = .ok mid ∧
      (Restores mid done ↔
        ∀ a ∈ unrecorded ((pending (f.version - 1)).take k), a.RepeatSafe s.data.claims) := by
  have hpending := pending_split hf k
  rw [take_pending hf hk, unrecorded_body hf]
  have hrun := hdone
  rw [hpending] at hrun
  obtain ⟨mid, hmid, _⟩ := run_append_ok hrun
  refine ⟨mid, hmid, ?_⟩
  have hcurrent := current_within hf h hmid
  by_cases hcolumn : ∃ c, Step.autocommit (.addColumn c) ∈ f.body.take k
  · obtain ⟨c, hc⟩ := hcolumn
    constructor
    · rintro ⟨again, hagain, _⟩
      rw [hcurrent, hpending] at hagain
      exact absurd hagain (column_twice hc hmid again)
    · intro hsafe
      exact absurd (hsafe _ hc) id
  by_cases hrebuild : f.version = 6 ∧ Step.transaction rebuild ∈ f.body.take k
  · obtain ⟨hversion, hmem⟩ := hrebuild
    obtain rfl := eq_guardian hf hversion
    rw [restores_rebuild h hmem hmid hdone]
    constructor
    · intro hback a ha
      rcases body_steps guardian hf a (List.mem_of_mem_take ha) with hcreates | ⟨c, rfl⟩ | ⟨_, rfl⟩
      · exact repeatSafe_of_creates hcreates _
      · exact absurd ⟨c, ha⟩ hcolumn
      · exact hback
    · intro hsafe
      exact hsafe _ hmem
  · have hcreates : ∀ a ∈ f.body.take k, a.creates = true := by
      intro a ha
      rcases body_steps f hf a (List.mem_of_mem_take ha) with hcreates | ⟨c, rfl⟩ | ⟨hversion, rfl⟩
      · exact hcreates
      · exact absurd ⟨c, ha⟩ hcolumn
      · exact absurd ⟨hversion, ha⟩ hrebuild
    have hagain : run Step.exec (pending mid.data.current) mid = .ok done := by
      rw [hcurrent, hpending, (repeatable_of_creates hcreates).run_again hmid, ← hpending]
      exact hdone
    exact iff_of_true ⟨done, hagain, ⟨rfl, rfl, rfl, rfl, rfl⟩⟩
      (fun a ha => repeatSafe_of_creates (hcreates a ha) _)

/-! ## A crash anywhere -/

theorem pending_six_creates : ∀ a ∈ pending 6, ∀ body, a ≠ .transaction body := by
  have hall : ∀ a ∈ pending 6, a.creates = true ∨ a = .autocommit (.recordVersion 7) := by
    decide +kernel
  intro a ha body heq
  rw [heq] at ha
  rcases hall _ ha with h | h
  · cases h
  · cases h

theorem pending_seven : pending 7 = [] := by decide +kernel

theorem mem_pending_of_le {m : Nat} (h : 6 ≤ m) {a : Step} (ha : a ∈ pending m) :
    a ∈ pending 6 := by
  obtain ⟨f, hf, hsteps⟩ := List.mem_flatMap.mp ha
  obtain ⟨hmem, hlt⟩ := List.mem_filter.mp hf
  refine List.mem_flatMap.mpr ⟨f, List.mem_filter.mpr ⟨hmem, ?_⟩, hsteps⟩
  simp only [decide_eq_true_eq] at hlt ⊢
  omega

/-- Induction on the files that are still pending: a crash in a later one leaves this one
recorded, so that the next start does not run it again. -/
theorem restores_pending (left : Nat) : ∀ (m : Nat) (s : Store), m + left = 7 → Between m s →
    ∀ k, ∃ done mid, run Step.exec (pending m) s = .ok done ∧
      run Step.exec ((pending m).take k) s = .ok mid ∧
      (Restores mid done ↔
        ∀ a ∈ unrecorded ((pending m).take k), a.RepeatSafe s.data.claims) := by
  induction left with
  | zero =>
    intro m s hm h k
    obtain rfl : m = 7 := by omega
    rw [pending_seven, List.take_nil]
    refine ⟨s, s, rfl, rfl, iff_of_true ⟨s, ?_, ⟨rfl, rfl, rfl, rfl, rfl⟩⟩ nofun⟩
    rw [current_eq h.versions, pending_seven]
    rfl
  | succ left ih =>
    intro m s hm h k
    obtain ⟨f, hf, hversion⟩ := file_of_lt (show m < 7 by omega)
    obtain rfl : m = f.version - 1 := by omega
    obtain ⟨s', hrun, hs', hclaims⟩ := h.file hf
    obtain ⟨done, _, hdone, _⟩ := ih f.version s' (by omega) hs' 0
    have hall : run Step.exec (pending (f.version - 1)) s = .ok done := by
      rw [pending_succ f hf, run_append hrun]
      exact hdone
    by_cases hk : k ≤ f.body.length
    · obtain ⟨mid, hmid, hiff⟩ := restores_within hf h hk hall
      exact ⟨done, mid, hall, hmid, hiff⟩
    · obtain ⟨done', mid, hdone', hmid, hiff⟩ := ih f.version s' (by omega) hs' (k - f.steps.length)
      obtain rfl : done' = done := Except.ok.inj (hdone'.symm.trans hdone)
      have hlength : f.steps.length = f.body.length + 1 := by
        rw [Migration.steps, List.length_append]
        rfl
      have htake : (pending (f.version - 1)).take k =
          f.steps ++ (pending f.version).take (k - f.steps.length) := by
        rw [pending_succ f hf, List.take_append, List.take_of_length_le (by omega)]
      refine ⟨done', mid, hall, ?_, ?_⟩
      · rw [htake, run_append hrun]
        exact hmid
      have hunrecorded : unrecorded ((pending (f.version - 1)).take k) =
          unrecorded ((pending f.version).take (k - f.steps.length)) := by
        rw [htake, Migration.steps, List.append_assoc, List.singleton_append,
          unrecorded_after_record]
      rw [hunrecorded, hiff]
      by_cases hearly : f.version < 6
      · rw [hclaims (by omega)]
      · refine forall₂_congr (fun a ha => repeatSafe_congr (fun body => ?_) _ _)
        have hmem : a ∈ pending f.version :=
          List.mem_of_mem_take ((List.rtakeWhile_suffix _ _).subset ha)
        exact pending_six_creates a (mem_pending_of_le (by omega) hmem) body

theorem safe_createVersionTable {rows : List ClaimRow} {steps : List Step} :
    (∀ a ∈ unrecorded (createVersionTable :: steps), a.RepeatSafe rows) ↔
      ∀ a ∈ unrecorded steps, a.RepeatSafe rows := by
  induction steps using List.reverseRecOn with
  | nil => exact iff_of_true (by intro a ha; rw [List.mem_singleton.mp ha]; trivial) nofun
  | append_singleton steps b ih =>
    unfold unrecorded at ih ⊢
    rw [← List.cons_append, List.rtakeWhile_concat, List.rtakeWhile_concat]
    split
    · simp only [List.forall_mem_append, ih]
    · exact Iff.rfl

theorem AtVersion.between {v : Nat} {s : Store} (h : AtVersion v s) (hv : v ≤ 6) :
    ∃ s', createVersionTable.exec s = .ok s' ∧ Between v s' ∧ s'.data = s.data := by
  have hunrenamed : v < 6 → ∀ r ∈ s.data.claims, r.kind ≠ .guardian := by
    intro hlt r hr
    simpa only [hlt, if_true] using h.kinds r hr
  have hmem : ∀ v ≤ 6, Obj.table .schemaVersion ∈ schemaOf v := by decide +kernel
  rcases h.schema with hschema | ⟨rfl, hschema⟩
  · refine ⟨s, exec_autocommit.mpr ⟨?_, rfl⟩, ⟨hschema, h.versions, hunrenamed⟩, rfl⟩
    rw [hschema]
    exact alter_createTable_idle (hmem v hv)
  · refine ⟨⟨schemaOf 0, s.data⟩, exec_autocommit.mpr ⟨?_, rfl⟩, ⟨rfl, h.versions, hunrenamed⟩, rfl⟩
    have hcreated : (Stmt.createTable .schemaVersion).alter ∅ = .ok (schemaOf 0) := by decide
    rw [hschema]
    exact hcreated

/-- The next start finds its version table and goes on from there. -/
theorem runMigrations_eq {s : Store} (h : Obj.table .schemaVersion ∈ s.schema) :
    runMigrations s = run Step.exec (pending s.data.current) s :=
  run_cons (exec_autocommit.mpr ⟨alter_createTable_idle h, rfl⟩)

/-- A start after a crash succeeds and leaves what an undisturbed one would have left exactly
when the crash came at a safe point. -/
theorem migrations_survive {v : Nat} (hv : v ≤ 6) {s : Store} (h : AtVersion v s) (k : Nat) :
    Survives s k ↔ SafePoint s k := by
  obtain ⟨s', hcreate, hbetween, hdata⟩ := h.between hv
  have hcurrent : s.data.current = v := current_eq h.versions
  have hrun : runMigrations s = run Step.exec (pending v) s' := by
    rw [← hcurrent]
    exact run_cons hcreate
  have htable : Obj.table .schemaVersion ∈ s'.schema := by
    have hcreates : ∀ a ∈ [createVersionTable], a.creates = true := by decide
    exact (repeatable_of_creates hcreates).done createVersionTable List.mem_cons_self s s' hcreate
  cases k with
  | zero =>
    obtain ⟨done, _, hdone, _⟩ := restores_pending (7 - v) v s' (by omega) hbetween 0
    refine iff_of_true ⟨done, s, done, hrun.trans hdone, rfl, hrun.trans hdone, rfl, rfl, rfl,
      rfl, rfl⟩ nofun
  | succ k =>
    obtain ⟨done, mid, hdone, hmid, hiff⟩ :=
      restores_pending (7 - v) v s' (by omega) hbetween k
    have hcrashed : crashed s (k + 1) = .ok mid := by
      unfold crashed startup
      rw [hcurrent, List.take_succ_cons, run_cons hcreate]
      exact hmid
    have hagain : runMigrations mid = run Step.exec (pending mid.data.current) mid :=
      runMigrations_eq (steps_keep rfl rfl hmid htable)
    unfold SafePoint startup
    rw [hcurrent, List.take_succ_cons, safe_createVersionTable, ← hdata, ← hiff]
    constructor
    · rintro ⟨done', mid', again, hdone', hmid', hrestart, hsame⟩
      obtain rfl := Except.ok.inj (hmid'.symm.trans hcrashed)
      obtain rfl := Except.ok.inj (hdone'.symm.trans (hrun.trans hdone))
      exact ⟨again, hagain.symm.trans hrestart, hsame⟩
    · rintro ⟨again, hrestart, hsame⟩
      exact ⟨done, mid, again, hrun.trans hdone, hcrashed, hagain.trans hrestart, hsame⟩

def pledged : Store := versionFive [backstopRow 1 "bob" 0]

theorem pledged_atVersion : AtVersion 5 pledged :=
  versionFive_atVersion (by decide) (List.pairwise_singleton _ _)

/-- The pledge survives a crash before the rebuild, and not one after it. -/
theorem migrations_survive_pledged :
    AtVersion 5 pledged ∧ Survives pledged 2 ∧ ¬ Survives pledged 3 := by
  have hstartup : startup pledged = createVersionTable :: (guardian.steps ++ whitelist.steps) := by
    decide +kernel
  have hiff := migrations_survive (by decide) pledged_atVersion
  have hbefore : unrecorded ((startup pledged).take 2) =
      [createVersionTable, .autocommit .pragma] := by
    rw [hstartup]
    decide +kernel
  have hafter : Step.transaction rebuild ∈ unrecorded ((startup pledged).take 3) := by
    rw [hstartup]
    decide +kernel
  refine ⟨pledged_atVersion, (hiff 2).mpr ?_, fun h => ?_⟩
  · intro a ha
    rw [hbefore] at ha
    simp only [List.mem_cons, List.not_mem_nil, or_false] at ha
    rcases ha with rfl | rfl
    · trivial
    · trivial
  · have hsafe := (hiff 3).mp h _ hafter
    exact hsafe _ List.mem_cons_self rfl

/-- A database of version 1 that holds nothing yet. -/
def versionOne : Store where
  schema := schemaOf 1
  data :=
    { versions := {1}, reservations := [], pins := [], orders := [], claims := []
      claimsNew := [] }

theorem versionOne_atVersion : AtVersion 1 versionOne where
  schema := .inl rfl
  versions := by decide
  empty := ⟨by decide, by decide, rfl⟩
  kinds := by decide
  ordered := List.Pairwise.nil

/-- Once the first column of the second file is there, no start comes through any more. -/
theorem not_migrations_survive :
    ¬ ∀ v ≤ 6, ∀ s, AtVersion v s → ∀ k ≤ (startup s).length, Survives s k := by
  intro h
  obtain ⟨_, mid, again, _, hcrashed, hagain, _⟩ :=
    h 1 (by decide) versionOne versionOne_atVersion 2 (by decide +kernel)
  have hfails : crashed versionOne 2 >>= runMigrations = .error "duplicate column name: mode" := by
    decide +kernel
  have hruns : crashed versionOne 2 >>= runMigrations = .ok again := by
    rw [hcrashed]
    exact hagain
  rw [hruns] at hfails
  nomatch hfails

end IpfsGate.Migrations
