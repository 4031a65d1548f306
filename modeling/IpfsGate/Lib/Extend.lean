import IpfsGate.Lib.Blind

/-!
# Larger machines

A machine extends another one when its worlds contain the worlds of the other, and it runs the
statements and makes the calls of the other on them. Programs of the smaller machine run on the
larger one, and a pool of them does there what it does on the smaller one.
-/
namespace IpfsGate.Lib

/-- The machine `N` runs the programs of `M`. -/
structure Extension (M N : Machine) where
  world : N.World → M.World
  fault : M.Fault → N.Fault
  stmt : M.Stmt → N.Stmt
  out : (s : M.Stmt) → N.Out (stmt s) → M.Out s
  call : M.Call → N.Call
  reply : (c : M.Call) → N.Reply (call c) → M.Reply c
  drift : M.Drift → N.Drift
  out_sem : ∀ s w, out s (N.sem (stmt s) w).1 = (M.sem s (world w)).1
  world_sem : ∀ s w, world (N.sem (stmt s) w).2 = (M.sem s (world w)).2
  world_drift : ∀ d w, world (N.drift (drift d) w) = M.drift d (world w)

open Prog (Trace)

namespace Prog

variable {M N : Machine} {α β : Type} (X : Extension M N) (g : α → β)

/-- The program on the larger machine, its value mapped. -/
def lift : Prog M α → Prog N β
  | ret a => ret (g a)
  | fail e => fail (X.fault e)
  | read k => read (fun w => (k (X.world w)).lift)
  | exec s k => exec (X.stmt s) (fun o => (k (X.out s o)).lift)
  | await c k => await (X.call c) (fun r => (k (X.reply c r)).lift)

/-- An outcome on the larger machine. -/
def liftResult : Except M.Fault α → Except N.Fault β
  | .ok a => .ok (g a)
  | .error e => .error (X.fault e)

/-- How a turn on the larger machine ends, next to the turn on the smaller one. -/
inductive LiftsTo : Stop M α → Stop N β → Prop
  | finished (r : Except M.Fault α) : LiftsTo (.finished r) (.finished (liftResult X g r))
  | suspended (c : M.Call) (k : M.Reply c → Prog M α) :
      LiftsTo (.suspended c k) (.suspended (X.call c) (fun r => (k (X.reply c r)).lift X g))

/-- A turn on the larger machine is one of the smaller machine on the world it contains. -/
theorem turn_lift (p : Prog M α) (past : Trace M) (past' : Trace N) (w : N.World) :
    LiftsTo X g (p.turn past (X.world w)).1 ((p.lift X g).turn past' w).1 ∧
      X.world ((p.lift X g).turn past' w).2.2 = (p.turn past (X.world w)).2.2 := by
  induction p generalizing past past' w with
  | ret a => exact ⟨.finished (.ok a), rfl⟩
  | fail e => exact ⟨.finished (.error e), rfl⟩
  | read k ih => exact ih (X.world w) past past' w
  | exec s k ih =>
    have hrest := ih (M.sem s (X.world w)).1 (past ++ [(s, X.world w)]) (past' ++ [(X.stmt s, w)])
      (N.sem (X.stmt s) w).2
    rw [X.world_sem] at hrest
    change LiftsTo X g _ (((k (X.out s (N.sem (X.stmt s) w).1)).lift X g).turn _ _).1 ∧
      X.world (((k (X.out s (N.sem (X.stmt s) w).1)).lift X g).turn _ _).2.2 = _
    rw [X.out_sem]
    exact hrest
  | await c k ih => exact ⟨.suspended c k, rfl⟩

/-- A blind program is blind on the larger machine. -/
theorem Blind.lift {σ : M.World → M.World} {τ : N.World → N.World}
    (hworld : ∀ w, X.world (τ w) = σ (X.world w))
    (hstmt : ∀ s, Commutes σ s → Commutes τ (X.stmt s)) {p : Prog M α} (h : p.Blind σ) :
    (p.lift X g).Blind τ := by
  induction p with
  | ret a => trivial
  | fail e => trivial
  | read k ih =>
    refine ⟨fun w => ?_, fun w => ih _ (h.2 _)⟩
    change (k (X.world (τ w))).lift X g = (k (X.world w)).lift X g
    rw [hworld, h.1]
  | exec s k ih => exact ⟨hstmt s h.1, fun o => ih _ (h.2 _)⟩
  | await c k ih => exact fun r => ih _ (h _)

end Prog

namespace Pool

open Prog (LiftsTo lift liftResult turn_lift)

variable {M N : Machine} {Q B Q' B' : Type} (X : Extension M N) (ask : Q → Q') (tell : B → B')

inductive ProcessLifts : Process M Q B → Process N Q' B' → Prop
  | parked (q : Q) (c : M.Call) (past : Trace M) (past' : Trace N) (k : M.Reply c → Prog M B) :
      ProcessLifts { request := q, call := c, past, resume := k }
        { request := ask q, call := X.call c, past := past',
          resume := fun r => (k (X.reply c r)).lift X tell }

inductive FinishedLifts : Finished M Q B → Finished N Q' B' → Prop
  | done (q : Q) (past : Trace M) (past' : Trace N) (r : Except M.Fault B) (w : N.World) :
      FinishedLifts { request := q, past, result := r, final := X.world w }
        { request := ask q, past := past', result := liftResult X tell r, final := w }

/-- The answers of an event of the larger machine are those of the smaller one. -/
inductive EventLifts : Event M Q → Event N Q' → Prop
  | spawn (q : Q) : EventLifts (.spawn q) (.spawn (ask q))
  | resume (i : Nat) (answer : (c : M.Call) → M.Reply c) (answer' : (c : N.Call) → N.Reply c)
      (h : ∀ c, X.reply c (answer' (X.call c)) = answer c) :
      EventLifts (.resume i answer) (.resume i answer')
  | drift (d : M.Drift) : EventLifts (.drift d) (.drift (X.drift d))

structure Lifts (S : Pool M Q B) (T : Pool N Q' B') : Prop where
  world : X.world T.world = S.world
  parked : List.Forall₂ (ProcessLifts X ask tell) S.parked T.parked
  finished : List.Forall₂ (FinishedLifts X ask tell) S.finished T.finished

/-- At every place related lists hold related elements, or both end before it. -/
theorem forall₂_at {α β : Type} {R : α → β → Prop} {xs : List α} {ys : List β}
    (h : List.Forall₂ R xs ys) (i : Nat) :
    (xs[i]? = none ∧ ys[i]? = none) ∨ ∃ x y, xs[i]? = some x ∧ ys[i]? = some y ∧ R x y ∧
      List.Forall₂ R (xs.eraseIdx i) (ys.eraseIdx i) := by
  induction h generalizing i with
  | nil => exact Or.inl ⟨rfl, rfl⟩
  | cons hxy hrest ih =>
    cases i with
    | zero => exact Or.inr ⟨_, _, rfl, rfl, hxy, hrest⟩
    | succ i =>
      rcases ih i with ⟨hx, hy⟩ | ⟨x, y, hx, hy, hR, herase⟩
      · exact Or.inl ⟨hx, hy⟩
      · exact Or.inr ⟨x, y, hx, hy, hR, .cons hxy herase⟩

variable {X ask tell} {handler : Q → Prog M B} {handler' : Q' → Prog N B'}

theorem Lifts.advance {S : Pool M Q B} {T : Pool N Q' B'} (h : Lifts X ask tell S T)
    {rest : List (Process M Q B)} {rest' : List (Process N Q' B')}
    (hrest : List.Forall₂ (ProcessLifts X ask tell) rest rest') (q : Q) (past : Trace M)
    (past' : Trace N) (p : Prog M B) :
    Lifts X ask tell (S.advance rest q past p) (T.advance rest' (ask q) past' (p.lift X tell)) := by
  have hturn := turn_lift X tell p past past' T.world
  rw [h.world] at hturn
  unfold Pool.advance
  generalize p.turn past S.world = out at hturn ⊢
  generalize (p.lift X tell).turn past' T.world = out' at hturn ⊢
  obtain ⟨stop, t, w⟩ := out
  obtain ⟨stop', t', w'⟩ := out'
  obtain ⟨hstop, hw⟩ := hturn
  dsimp only at hstop hw
  subst hw
  cases hstop with
  | finished r =>
    exact ⟨rfl, hrest, List.rel_append h.finished (.cons (.done q t t' r w') .nil)⟩
  | suspended c k =>
    exact ⟨rfl, List.rel_append hrest (.cons (.parked q c t t' k) .nil), h.finished⟩

/-- A step of the larger machine on an event of the smaller one. -/
theorem Lifts.step (hhandler : ∀ q, handler' (ask q) = (handler q).lift X tell)
    {S : Pool M Q B} {T : Pool N Q' B'} (h : Lifts X ask tell S T) {e : Event M Q}
    {e' : Event N Q'} (he : EventLifts X ask e e') :
    Lifts X ask tell (S.step handler e) (T.step handler' e') := by
  cases he with
  | spawn q =>
    rw [Pool.step, Pool.step, hhandler]
    exact h.advance h.parked q [] [] (handler q)
  | resume i answer answer' hanswer =>
    rw [Pool.step, Pool.step]
    rcases forall₂_at h.parked i with ⟨hx, hy⟩ | ⟨x, y, hx, hy, hxy, herase⟩
    · rw [hx, hy]
      exact h
    · rw [hx, hy]
      cases hxy with
      | parked q c past past' k =>
        dsimp only
        rw [hanswer]
        exact h.advance herase q past past' (k (answer c))
  | drift d =>
    refine ⟨?_, h.parked, h.finished⟩
    change X.world (N.drift (X.drift d) T.world) = M.drift d S.world
    rw [X.world_drift, h.world]

/-- Programs of the smaller machine run on the larger one as they do on their own. -/
theorem Lifts.run (hhandler : ∀ q, handler' (ask q) = (handler q).lift X tell)
    {S : Pool M Q B} {T : Pool N Q' B'} (h : Lifts X ask tell S T) {events : List (Event M Q)}
    {events' : List (Event N Q')} (hevents : List.Forall₂ (EventLifts X ask) events events') :
    Lifts X ask tell (S.run handler events) (T.run handler' events') := by
  unfold Pool.run
  induction hevents generalizing S T with
  | nil => exact h
  | cons he _ ih => exact ih (h.step hhandler he)

end Pool

end IpfsGate.Lib
