import IpfsGate.Lib.Program

/-!
# Changes of the world that a program does not see

A program is blind to a change of the world when no read depends on it and every statement it runs
commutes with it. Pools that start in worlds which differ by the change then take the same turns
and come to the same results, in worlds that differ by the change again.
-/
namespace IpfsGate.Lib

open Prog (Trace Stop)

namespace Prog

variable {M : Machine} {α β : Type} (σ : M.World → M.World)

/-- The statement returns the same, and leaves worlds that differ by the change. -/
def Commutes (s : M.Stmt) : Prop := ∀ w, M.sem s (σ w) = ((M.sem s w).1, σ (M.sem s w).2)

def Blind : Prog M α → Prop
  | ret _ => True
  | fail _ => True
  | read k => (∀ w, k (σ w) = k w) ∧ ∀ w, (k w).Blind
  | exec s k => Commutes σ s ∧ ∀ o, (k o).Blind
  | await _ k => ∀ r, (k r).Blind

/-- The trace of the same statements, in the changed worlds. -/
def changed (past : Trace M) : Trace M := past.map (fun a => (a.1, σ a.2))

variable {σ}

section Rules

theorem blind_andThen {p : Prog M α} {f : Except M.Fault α → Prog M β} (hp : p.Blind σ)
    (hf : ∀ r, (f r).Blind σ) : (p.andThen f).Blind σ := by
  induction p with
  | ret a => exact hf _
  | fail e => exact hf _
  | read k ih =>
    exact ⟨fun w => congrArg (fun q => q.andThen f) (hp.1 w), fun w => ih w (hp.2 w)⟩
  | exec s k ih => exact ⟨hp.1, fun o => ih o (hp.2 o)⟩
  | await c k ih => exact fun r => ih r (hp r)

theorem Blind.bind {p : Prog M α} {f : α → Prog M β} (hp : p.Blind σ)
    (hf : ∀ a, (f a).Blind σ) : (p.bind f).Blind σ := by
  refine blind_andThen hp (fun r => ?_)
  cases r with
  | ok a => exact hf a
  | error e => trivial

theorem Blind.map (g : α → β) {p : Prog M α} (hp : p.Blind σ) : (g <$> p).Blind σ :=
  hp.bind (fun _ => trivial)

theorem blind_require {b : Bool} {e : M.Fault} : (require b e : Prog M Unit).Blind σ := by
  unfold require
  split <;> trivial

theorem blind_liftExcept {r : Except M.Fault α} : (liftExcept r : Prog M α).Blind σ := by
  cases r <;> trivial

theorem blind_query {f : M.World → α} (hf : ∀ w, f (σ w) = f w) : (query f).Blind σ :=
  ⟨fun w => congrArg ret (hf w), fun _ => trivial⟩

theorem blind_tx {s : M.Stmt} (hs : Commutes σ s) : (tx s).Blind σ := ⟨hs, fun _ => trivial⟩

theorem blind_call {c : M.Call} : (call c).Blind σ := fun _ => trivial

theorem blind_fold {f : β → α → Prog M β} (hf : ∀ b a, (f b a).Blind σ) (xs : List α) (b : β) :
    (fold f xs b).Blind σ := by
  induction xs generalizing b with
  | nil => trivial
  | cons a rest ih => exact (hf b a).bind ih

end Rules

/-- A turn of a blind program does the same in the changed world. -/
theorem turn_blind {p : Prog M α} (h : p.Blind σ) (past : Trace M) (w : M.World) :
    p.turn (changed σ past) (σ w) =
      ((p.turn past w).1, changed σ (p.turn past w).2.1, σ (p.turn past w).2.2) := by
  induction p generalizing past w with
  | ret a => rfl
  | fail e => rfl
  | read k ih =>
    change (k (σ w)).turn _ _ = _
    rw [h.1 w]
    exact ih w (h.2 w) past w
  | exec s k ih =>
    have hpast : changed σ past ++ [(s, σ w)] = changed σ (past ++ [(s, w)]) := by
      unfold changed
      rw [List.map_append]
      rfl
    change (k (M.sem s (σ w)).1).turn (changed σ past ++ [(s, σ w)]) (M.sem s (σ w)).2 = _
    rw [h.1 w, hpast]
    exact ih _ (h.2 _) _ _
  | await c k ih => rfl

/-- Where a turn of a blind program is suspended, the rest of it is blind. -/
theorem Blind.suspended {p : Prog M α} (h : p.Blind σ) {past : Trace M} {w : M.World} {c : M.Call}
    {k : M.Reply c → Prog M α} (hstop : (p.turn past w).1 = .suspended c k) :
    ∀ r, (k r).Blind σ := by
  induction p generalizing past w with
  | ret a => cases hstop
  | fail e => cases hstop
  | read k ih => exact ih w (h.2 w) hstop
  | exec s k ih => exact ih _ (h.2 _) hstop
  | await c k ih =>
    cases hstop
    exact h

end Prog

open Prog (Blind changed)

variable {M : Machine} {Q B : Type} (σ : M.World → M.World)

def Process.changed (p : Process M Q B) : Process M Q B := { p with past := Prog.changed σ p.past }

def Finished.changed (f : Finished M Q B) : Finished M Q B :=
  { f with past := Prog.changed σ f.past, final := σ f.final }

namespace Pool

/-- The pool in the changed world. -/
def changed (S : Pool M Q B) : Pool M Q B where
  world := σ S.world
  parked := S.parked.map (Process.changed σ)
  finished := S.finished.map (Finished.changed σ)

/-- What is left to run of the parked processes is blind. -/
def Blind (S : Pool M Q B) : Prop := ∀ p ∈ S.parked, ∀ r, (p.resume r).Blind σ

variable {σ} {handler : Q → Prog M B}

theorem advance_changed (S : Pool M Q B) (rest : List (Process M Q B)) (q : Q) (past : Trace M)
    {p : Prog M B} (hp : p.Blind σ) :
    (S.changed σ).advance (rest.map (Process.changed σ)) q (Prog.changed σ past) p =
      (S.advance rest q past p).changed σ := by
  have hturn : p.turn (Prog.changed σ past) (S.changed σ).world = _ :=
    Prog.turn_blind hp past S.world
  unfold advance
  rw [hturn]
  generalize p.turn past S.world = out
  obtain ⟨stop, past', w⟩ := out
  cases stop with
  | finished r => simp only [changed, List.map_append, List.map_cons, List.map_nil]; rfl
  | suspended c k => simp only [changed, List.map_append, List.map_cons, List.map_nil]; rfl

theorem Blind.advance {S : Pool M Q B} {rest : List (Process M Q B)}
    (hrest : ∀ p ∈ rest, ∀ r, (p.resume r).Blind σ) {q : Q} {past : Trace M} {p : Prog M B}
    (hp : p.Blind σ) : (S.advance rest q past p).Blind σ := by
  have hk : ∀ c k, (p.turn past S.world).1 = .suspended c k → ∀ r, (k r).Blind σ :=
    fun c k hstop => hp.suspended hstop
  unfold Pool.advance
  generalize p.turn past S.world = out at hk
  obtain ⟨stop, past', w⟩ := out
  cases stop with
  | finished r => exact hrest
  | suspended c k =>
    intro x hx
    rcases List.mem_append.mp hx with hx | hx
    · exact hrest x hx
    · rw [List.mem_singleton] at hx
      rw [hx]
      exact hk c k rfl

/-- An event that spawns only blind programs. -/
def Spawns (handler : Q → Prog M B) (σ : M.World → M.World) : Event M Q → Prop
  | .spawn q => (handler q).Blind σ
  | .resume _ _ => True
  | .drift _ => True

theorem eraseIdx_changed (parked : List (Process M Q B)) (i : Nat) :
    (parked.map (Process.changed σ)).eraseIdx i = (parked.eraseIdx i).map (Process.changed σ) :=
  List.eraseIdx_map _ _ _

/-- A step keeps what is left blind, and does the same in the changed world. -/
theorem step_changed (hdrift : ∀ d w, M.drift d (σ w) = σ (M.drift d w)) {S : Pool M Q B}
    (hS : S.Blind σ) {e : Event M Q} (he : Spawns handler σ e) :
    (S.step handler e).Blind σ ∧ (S.changed σ).step handler e = (S.step handler e).changed σ := by
  cases e with
  | spawn q => exact ⟨Blind.advance hS he, advance_changed S S.parked q [] he⟩
  | resume i answer =>
    have hat : (S.changed σ).parked[i]? = S.parked[i]?.map (Process.changed σ) :=
      List.getElem?_map
    rw [step, step, hat]
    cases hp : S.parked[i]? with
    | none => exact ⟨hS, rfl⟩
    | some p =>
      have hk := hS p (List.mem_of_getElem? hp) (answer p.call)
      refine ⟨Blind.advance (fun x hx => hS x (List.mem_of_mem_eraseIdx hx)) hk, ?_⟩
      refine Eq.trans ?_ (advance_changed S (S.parked.eraseIdx i) p.request p.past hk)
      exact congrArg (fun rest => (S.changed σ).advance rest p.request (Prog.changed σ p.past)
        (p.resume (answer p.call))) (eraseIdx_changed S.parked i)
  | drift d =>
    refine ⟨hS, ?_⟩
    change ({ world := M.drift d (σ S.world), parked := _, finished := _ } : Pool M Q B) = _
    rw [hdrift]
    rfl

/-- Runs of blind programs that start in worlds which differ by the change. -/
theorem run_changed (hdrift : ∀ d w, M.drift d (σ w) = σ (M.drift d w)) (w : M.World)
    {events : List (Event M Q)} (hevents : ∀ e ∈ events, Spawns handler σ e) :
    (start (σ w)).run handler events = ((start w).run handler events).changed σ := by
  have hstart : (start (Q := Q) (B := B) w).Blind σ := fun p hp => absurd hp List.not_mem_nil
  change (((start w : Pool M Q B).changed σ).run handler events) = _
  generalize (start w : Pool M Q B) = S at hstart ⊢
  unfold run
  induction events generalizing S with
  | nil => rfl
  | cons e rest ih =>
    obtain ⟨hblind, hstep⟩ := step_changed hdrift hstart (hevents e List.mem_cons_self)
    rw [List.foldl_cons, List.foldl_cons, hstep]
    exact ih (fun e' he' => hevents e' (List.mem_cons_of_mem _ he')) _ hblind

end Pool

end IpfsGate.Lib
