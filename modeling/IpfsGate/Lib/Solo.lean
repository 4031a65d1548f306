import IpfsGate.Lib.Rely

/-!
# Programs run on their own

While a process runs on its own, its calls are answered by the outside and nobody else takes a
turn, so its run is a function of the world it starts in. Every such run is a run of a pool.
-/
namespace IpfsGate.Lib

open Prog (Trace)

/-- How calls are answered, and what happens to the world while a call is under way. -/
structure Outside (M : Machine) where
  answer : (c : M.Call) → M.Reply c
  delay : M.Call → M.Drift

/-- A program's run on its own: the calls it made, its result and the world it left. -/
structure Solo (M : Machine) (α : Type) where
  asked : List M.Call
  result : Except M.Fault α
  final : M.World

namespace Prog

variable {M : Machine} {α β : Type} (o : Outside M)

/-- Run a program to its end, after the given calls. -/
def solo : Prog M α → List M.Call → M.World → Solo M α
  | ret a, cs, w => { asked := cs, result := .ok a, final := w }
  | fail e, cs, w => { asked := cs, result := .error e, final := w }
  | read k, cs, w => (k w).solo cs w
  | exec s k, cs, w => (k (M.sem s w).1).solo cs (M.sem s w).2
  | await c k, cs, w => (k (o.answer c)).solo (cs ++ [c]) (M.drift (o.delay c) w)

/-- A condition on the run of a program. -/
def Comes (Q : Solo M α → Prop) (p : Prog M α) (cs : List M.Call) (w : M.World) : Prop :=
  Q (p.solo o cs w)

variable {o}

theorem solo_andThen (p : Prog M α) (f : Except M.Fault α → Prog M β) (cs : List M.Call)
    (w : M.World) :
    (p.andThen f).solo o cs w =
      (f (p.solo o cs w).result).solo o (p.solo o cs w).asked (p.solo o cs w).final := by
  induction p generalizing cs w with
  | ret a => rfl
  | fail e => rfl
  | read k ih => exact ih w cs w
  | exec s k ih => exact ih _ cs _
  | await c k ih => exact ih _ _ _

theorem bind_assoc {γ : Type} (p : Prog M α) (f : α → Prog M β) (g : β → Prog M γ) :
    (p.bind f).bind g = p.bind (fun a => (f a).bind g) := by
  induction p with
  | ret a => rfl
  | fail e => rfl
  | read k ih => exact congrArg read (funext ih)
  | exec s k ih => exact congrArg (exec s) (funext ih)
  | await c k ih => exact congrArg (await c) (funext ih)

section Rules

variable {Q : Solo M β → Prop} {cs : List M.Call} {w : M.World}

theorem comes_bind {p : Prog M α} {f : α → Prog M β}
    (h : p.Comes o (fun s => match s.result with
      | .ok a => (f a).Comes o Q s.asked s.final
      | .error e => Q { asked := s.asked, result := .error e, final := s.final }) cs w) :
    (p.bind f).Comes o Q cs w := by
  unfold Comes at h ⊢
  rw [bind, solo_andThen]
  generalize p.solo o cs w = s at h ⊢
  obtain ⟨asked, result, final⟩ := s
  cases result with
  | ok a => exact h
  | error e => exact h

theorem comes_require {b : Bool} {e : M.Fault} {f : Unit → Prog M β}
    (hfail : b = false → Q { asked := cs, result := .error e, final := w })
    (hok : b = true → (f ()).Comes o Q cs w) : ((require b e).bind f).Comes o Q cs w := by
  unfold require
  by_cases hb : b = true
  · rw [if_pos hb]
    exact hok hb
  · rw [if_neg hb]
    exact hfail (Bool.not_eq_true _ ▸ hb)

theorem comes_liftExcept {r : Except M.Fault α} {f : α → Prog M β}
    (hfail : ∀ e, r = .error e → Q { asked := cs, result := .error e, final := w })
    (hok : ∀ a, r = .ok a → (f a).Comes o Q cs w) : ((liftExcept r).bind f).Comes o Q cs w := by
  cases r with
  | ok a => exact hok a rfl
  | error e => exact hfail e rfl

theorem Comes.mono {Q' : Solo M β → Prop} {p : Prog M β} (h : p.Comes o Q cs w)
    (hQ : ∀ s, Q s → Q' s) : p.Comes o Q' cs w := hQ _ h

/-- Mapping the value of a program. -/
theorem comes_map {g : α → β} {p : Prog M α}
    (h : p.Comes o (fun s => Q { asked := s.asked, result := s.result.map g, final := s.final })
      cs w) : (g <$> p).Comes o Q cs w := by
  refine comes_bind ?_
  unfold Comes at h ⊢
  generalize p.solo o cs w = s at h ⊢
  obtain ⟨asked, result, final⟩ := s
  cases result with
  | ok a => exact h
  | error e => exact h

end Rules

end Prog

namespace Pool

variable {M : Machine} {Q B : Type} {handler : Q → Prog M B} (o : Outside M)

/-- The pool that a request's run on its own leaves. -/
def settle (S : Pool M Q B) (q : Q) (past : Trace M) (s : Solo M B) : Pool M Q B where
  world := s.final
  parked := S.parked
  finished := S.finished ++ [{ request := q, past, result := s.result, final := s.final }]

/-- The answers of the outside, each after its delay, take a process to the end of its run. -/
theorem advance_solo (p : Prog M B) (S : Pool M Q B) (q : Q) (past : Trace M)
    (cs : List M.Call) :
    ∃ own past', (∀ e ∈ own, Rely.Lone S.parked.length e) ∧
      (S.advance S.parked q past p).run handler own =
        S.settle q past' (p.solo o cs S.world) := by
  induction p generalizing S past cs with
  | ret a => exact ⟨[], past, fun _ he => absurd he List.not_mem_nil, rfl⟩
  | fail e => exact ⟨[], past, fun _ he => absurd he List.not_mem_nil, rfl⟩
  | read k ih => exact ih S.world S past cs
  | exec s k ih => exact ih _ { S with world := (M.sem s S.world).2 } _ cs
  | await c k ih =>
    obtain ⟨own, past', hlone, hrun⟩ :=
      ih (o.answer c) { S with world := M.drift (o.delay c) S.world } past (cs ++ [c])
    refine ⟨.drift (o.delay c) :: .resume S.parked.length o.answer :: own, past', ?_, ?_⟩
    · intro e he
      rcases List.mem_cons.mp he with rfl | he
      · trivial
      · rcases List.mem_cons.mp he with rfl | he
        · exact rfl
        · exact hlone e he
    · refine Eq.trans ?_ hrun
      simp only [run, List.foldl_cons]
      refine congrArg (fun T => List.foldl (step handler) T own) ?_
      have hat : (S.parked ++ [({ request := q, call := c, past, resume := k } :
          Process M Q B)])[S.parked.length]? = some ⟨q, c, past, k⟩ := by
        rw [List.getElem?_append_right (Nat.le_refl _), Nat.sub_self]
        rfl
      have hrest : (S.parked ++ [({ request := q, call := c, past, resume := k } :
          Process M Q B)]).eraseIdx S.parked.length = S.parked := by
        rw [List.eraseIdx_append_of_length_le (Nat.le_refl _), Nat.sub_self]
        exact List.append_nil _
      simp only [advance, Prog.turn, step, hat, hrest]

/-- A request's run on its own is a run of any pool it arrives at. -/
theorem run_solo (S : Pool M Q B) (q : Q) :
    ∃ own past, (∀ e ∈ own, Rely.Lone S.parked.length e) ∧
      S.run handler (.spawn q :: own) = S.settle q past ((handler q).solo o [] S.world) :=
  advance_solo o (handler q) S q [] []

end Pool

end IpfsGate.Lib
