import IpfsGate.Migrations.Files

/-!
# Databases at a version

The schema of a version is what its files build on an empty database, and each file leads from
one version to the next. Success depends on the schema alone; the rows follow.
-/
namespace IpfsGate.Migrations

open Lib (Script.run)
open Lib.Script

/-- The statements of some steps, without their transaction boundaries. -/
def flat (steps : List Step) : List Stmt := steps.flatMap Step.stmts

/-- The schema that the files up to a version build, once the version table is there. -/
def schemaOf : Nat → Finset Obj
  | 0 => TableName.schemaVersion.definition
  | n + 1 =>
    match migrations[n]? with
    | none => schemaOf n
    | some f =>
      match Script.run Stmt.alter (flat f.steps) (schemaOf n) with
      | .ok S => S
      | .error _ => ∅

/-- What a gate of the version left behind: any rows in the tables that are there, except for
the kinds that the CHECK of its claims table excludes. -/
structure AtVersion (v : Nat) (s : Store) : Prop where
  schema : s.schema = schemaOf v ∨ (v = 0 ∧ s.schema = ∅)
  versions : s.data.versions = Finset.Icc 1 v
  empty : (v < 1 → s.data.reservations = [] ∧ s.data.pins = []) ∧
    (v < 3 → s.data.orders = [] ∧ s.data.claims = []) ∧ s.data.claimsNew = []
  kinds : ∀ r ∈ s.data.claims, if v < 6 then r.kind ≠ .guardian else r.kind ≠ .backstop
  ordered : s.data.claims.Pairwise (fun r r' => r.rowid < r'.rowid)

/-! ## Schema and rows -/

def writes (stmts : List Stmt) (d : Data) : Data := stmts.foldl (fun d a => a.write d) d

@[simp] theorem writes_nil (d : Data) : writes [] d = d := rfl

@[simp] theorem writes_cons (a : Stmt) (rest : List Stmt) (d : Data) :
    writes (a :: rest) d = writes rest (a.write d) := rfl

theorem writes_append (first rest : List Stmt) (d : Data) :
    writes (first ++ rest) d = writes rest (writes first d) := List.foldl_append

theorem exec_ok {a : Stmt} {s s' : Store} :
    a.exec s = .ok s' ↔ a.alter s.schema = .ok s'.schema ∧ s'.data = a.write s.data := by
  unfold Stmt.exec
  cases a.alter s.schema with
  | error e => simp
  | ok S =>
    cases s' with
    | mk S' d' =>
      simp only [Except.ok.injEq, Store.mk.injEq]
      constructor
      · rintro ⟨hS, hd⟩
        exact ⟨hS, hd.symm⟩
      · rintro ⟨hS, hd⟩
        exact ⟨hS, hd.symm⟩

/-- A list of statements succeeds when its schema changes do. -/
theorem run_exec_ok {stmts : List Stmt} {s s' : Store} :
    run Stmt.exec stmts s = .ok s' ↔
      run Stmt.alter stmts s.schema = .ok s'.schema ∧ s'.data = writes stmts s.data := by
  induction stmts generalizing s with
  | nil =>
    cases s
    cases s'
    simp only [run, Except.ok.injEq, Store.mk.injEq, writes_nil]
    constructor
    · rintro ⟨hS, hd⟩
      exact ⟨hS, hd.symm⟩
    · rintro ⟨hS, hd⟩
      exact ⟨hS, hd.symm⟩
  | cons a rest ih =>
    constructor
    · intro h
      obtain ⟨mid, hexec, hrun⟩ := run_cons_ok h
      obtain ⟨halter, hdata⟩ := exec_ok.mp hexec
      obtain ⟨hrest, hwrites⟩ := ih.mp hrun
      refine ⟨(run_cons halter).trans hrest, ?_⟩
      rw [hwrites, hdata, writes_cons]
    · rintro ⟨halter, hdata⟩
      obtain ⟨S, hS, hrest⟩ := run_cons_ok halter
      have hexec : a.exec s = .ok ⟨S, a.write s.data⟩ := exec_ok.mpr ⟨hS, rfl⟩
      rw [run_cons hexec]
      exact ih.mpr ⟨hrest, hdata⟩

/-- Transaction boundaries do not show in the result. -/
theorem run_steps {steps : List Step} {s s' : Store} :
    run Step.exec steps s = .ok s' ↔ run Stmt.exec (flat steps) s = .ok s' := by
  induction steps generalizing s with
  | nil => exact Iff.rfl
  | cons a rest ih =>
    change _ ↔ run Stmt.exec (a.stmts ++ flat rest) s = .ok s'
    constructor
    · intro h
      obtain ⟨mid, hexec, hrun⟩ := run_cons_ok h
      rw [run_append hexec]
      exact ih.mp hrun
    · intro h
      obtain ⟨mid, hexec, hrun⟩ := run_append_ok h
      have hstep : a.exec s = .ok mid := hexec
      rw [run_cons hstep]
      exact ih.mpr hrun

theorem run_steps_ok {steps : List Step} {s s' : Store} :
    run Step.exec steps s = .ok s' ↔
      run Stmt.alter (flat steps) s.schema = .ok s'.schema ∧
        s'.data = writes (flat steps) s.data := by
  rw [run_steps, run_exec_ok]

/-! ## The files one by one -/

/-- A file leads from the schema of one version to the next. -/
theorem alter_file : ∀ f ∈ migrations,
    run Stmt.alter (flat f.steps) (schemaOf (f.version - 1)) = .ok (schemaOf f.version) := by
  decide +kernel

/-- The pending files of a version are the next one and those that are pending after it. -/
theorem pending_succ : ∀ f ∈ migrations,
    pending (f.version - 1) = f.steps ++ pending f.version := by
  decide +kernel

theorem file_of_lt {v : Nat} (hv : v < 7) : ∃ f ∈ migrations, f.version = v + 1 := by
  have hall : ∀ v < 7, ∃ f ∈ migrations, f.version = v + 1 := by decide
  exact hall v hv

theorem body_keeps_versions : ∀ f ∈ migrations, ∀ a ∈ flat f.body, ∀ n, a ≠ .recordVersion n := by
  have hall : ∀ f ∈ migrations, ∀ a ∈ flat f.body,
      (match a with | .recordVersion _ => false | _ => true) = true := by decide
  intro f hf a ha n heq
  have h := hall f hf a ha
  rw [heq] at h
  cases h

/-! ## Small databases of version 5 -/

/-- A pledge as version 5 stored it. -/
def backstopRow (rowid : Nat) (owner : Account) (createdTs : Int) : ClaimRow :=
  { rowid, claimId := owner, orderId := rowid, cid := "Qm", owner, hostGate := "self"
    pinId := none, sizeBytes := 1, sizeMB := 1, rateLocked := 1, paidHours := 1
    copiesRequested := 1, kind := .backstop, state := .dormant, amountPaid := 1
    currency := "HBD", paymentId := rowid, startTs := createdTs, expiryTs := createdTs, createdTs
    pledgeOrder := none, pledgeBudget := none }

def versionFive (rows : List ClaimRow) : Store where
  schema := schemaOf 5
  data :=
    { versions := Finset.Icc 1 5, reservations := [], pins := [], orders := [], claims := rows
      claimsNew := [] }

theorem versionFive_atVersion {rows : List ClaimRow} (hguard : ∀ r ∈ rows, r.kind ≠ .guardian)
    (hord : rows.Pairwise (fun r r' => r.rowid < r'.rowid)) : AtVersion 5 (versionFive rows) where
  schema := .inl rfl
  versions := rfl
  empty := ⟨by omega, by omega, rfl⟩
  kinds := fun r hr => by simpa using hguard r hr
  ordered := hord

end IpfsGate.Migrations
