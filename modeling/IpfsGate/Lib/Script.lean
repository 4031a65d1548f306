import Mathlib.Data.List.DropRight

/-!
# Scripts that may stop and be run again

A script runs its steps in order and stops at the first error. Running it again from where it
stopped is harmless while the steps that were run are idle once they are done, and fails when
one of them cannot be done twice.
-/
namespace IpfsGate.Lib.Script

variable {σ τ ε : Type} {exec : σ → τ → Except ε τ}

def run (exec : σ → τ → Except ε τ) : List σ → τ → Except ε τ
  | [], s => .ok s
  | a :: rest, s =>
    match exec a s with
    | .ok mid => run exec rest mid
    | .error e => .error e

theorem run_cons {a : σ} {rest : List σ} {s mid : τ} (h : exec a s = .ok mid) :
    run exec (a :: rest) s = run exec rest mid := by
  rw [run, h]

theorem run_cons_ok {a : σ} {rest : List σ} {s after : τ} (h : run exec (a :: rest) s = .ok after) :
    ∃ mid, exec a s = .ok mid ∧ run exec rest mid = .ok after := by
  cases hexec : exec a s with
  | ok mid => exact ⟨mid, rfl, (run_cons hexec).symm.trans h⟩
  | error e =>
    rw [run, hexec] at h
    cases h

theorem run_append {first rest : List σ} {s mid : τ} (h : run exec first s = .ok mid) :
    run exec (first ++ rest) s = run exec rest mid := by
  induction first generalizing s with
  | nil =>
    cases h
    rfl
  | cons a first ih =>
    obtain ⟨next, hexec, hrun⟩ := run_cons_ok h
    rw [List.cons_append, run_cons hexec, ih hrun]

theorem run_append_ok {first rest : List σ} {s after : τ}
    (h : run exec (first ++ rest) s = .ok after) :
    ∃ mid, run exec first s = .ok mid ∧ run exec rest mid = .ok after := by
  induction first generalizing s with
  | nil => exact ⟨s, rfl, h⟩
  | cons a first ih =>
    obtain ⟨next, hexec, hrun⟩ := run_cons_ok h
    obtain ⟨mid, hfirst, hrest⟩ := ih hrun
    exact ⟨mid, (run_cons hexec).trans hfirst, hrest⟩

/-- What every step keeps, the script keeps. -/
theorem run_keeps {P : τ → Prop} {steps : List σ} {s after : τ}
    (hkeep : ∀ a ∈ steps, ∀ s s', P s → exec a s = .ok s' → P s')
    (h : run exec steps s = .ok after) (hs : P s) : P after := by
  induction steps generalizing s with
  | nil =>
    cases h
    exact hs
  | cons a rest ih =>
    obtain ⟨mid, hexec, hrun⟩ := run_cons_ok h
    exact ih (fun b hb => hkeep b (List.mem_cons_of_mem _ hb)) hrun
      (hkeep a List.mem_cons_self s mid hs hexec)

/-- A script with a step that fails in every state it may meet does not come through. -/
theorem run_fails {P : τ → Prop} {steps : List σ} {s : τ}
    (hkeep : ∀ a ∈ steps, ∀ s s', P s → exec a s = .ok s' → P s') {a : σ} (ha : a ∈ steps)
    (hfail : ∀ s s', P s → exec a s ≠ .ok s') (hs : P s) (after : τ) :
    run exec steps s ≠ .ok after := by
  intro h
  obtain ⟨first, rest, rfl⟩ := List.append_of_mem ha
  obtain ⟨mid, hfirst, hrest⟩ := run_append_ok h
  have hmid : P mid :=
    run_keeps (fun b hb => hkeep b (List.mem_append_left _ hb)) hfirst hs
  obtain ⟨next, hexec, _⟩ := run_cons_ok hrest
  exact hfail mid next hmid hexec

/-- Steps that can be seen to be done, stay done, and do nothing then. -/
structure Repeatable (exec : σ → τ → Except ε τ) (Done : σ → τ → Prop) (steps : List σ) :
    Prop where
  done : ∀ a ∈ steps, ∀ s s', exec a s = .ok s' → Done a s'
  idle : ∀ a ∈ steps, ∀ s, Done a s → exec a s = .ok s
  kept : ∀ a ∈ steps, ∀ b ∈ steps, ∀ s s', Done a s → exec b s = .ok s' → Done a s'

variable {Done : σ → τ → Prop}

theorem Repeatable.tail {a : σ} {rest : List σ} (h : Repeatable exec Done (a :: rest)) :
    Repeatable exec Done rest where
  done := fun b hb => h.done b (List.mem_cons_of_mem _ hb)
  idle := fun b hb => h.idle b (List.mem_cons_of_mem _ hb)
  kept := fun b hb c hc => h.kept b (List.mem_cons_of_mem _ hb) c (List.mem_cons_of_mem _ hc)

/-- Steps that are all done do nothing. -/
theorem Repeatable.run_idle {steps : List σ} (h : Repeatable exec Done steps) {s : τ}
    (hdone : ∀ a ∈ steps, Done a s) : run exec steps s = .ok s := by
  induction steps with
  | nil => rfl
  | cons a rest ih =>
    rw [run_cons (h.idle a List.mem_cons_self s (hdone a List.mem_cons_self))]
    exact ih h.tail (fun b hb => hdone b (List.mem_cons_of_mem _ hb))

theorem Repeatable.all_done {steps : List σ} (h : Repeatable exec Done steps) {s after : τ}
    (hrun : run exec steps s = .ok after) : ∀ a ∈ steps, Done a after := by
  intro a ha
  obtain ⟨first, rest, rfl⟩ := List.append_of_mem ha
  obtain ⟨mid, _, hrest⟩ := run_append_ok hrun
  obtain ⟨next, hexec, hlast⟩ := run_cons_ok hrest
  refine run_keeps (fun b hb s s' hs hb' => ?_) hlast (h.done a ha mid next hexec)
  exact h.kept a ha b (List.mem_append_right _ (List.mem_cons_of_mem _ hb)) s s' hs hb'

/-- A script whose repeatable beginning has been run already does what it would have done. -/
theorem Repeatable.run_again {first rest : List σ} (h : Repeatable exec Done first) {s mid : τ}
    (hrun : run exec first s = .ok mid) :
    run exec (first ++ rest) mid = run exec (first ++ rest) s := by
  rw [run_append hrun, run_append (h.run_idle (h.all_done hrun))]

end IpfsGate.Lib.Script
