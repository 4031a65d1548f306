import IpfsGate.Lib.Logic
import IpfsGate.Lib.Silent

/-!
# Runs that only move forward

A relation between worlds that every permitted statement and every drift respects holds between
any two points of a run.
-/
namespace IpfsGate.Lib

open Prog (Trace)

namespace Prog

variable {M N : Machine} {α β : Type}

/-- On a larger machine a program keeps to the table it keeps to on its own. -/
theorem Emits.lift (X : Extension M N) (g : α → β) {G : M.Stmt → M.World → Prop}
    {G' : N.Stmt → N.World → Prop} (hG : ∀ s w, G s (X.world w) → G' (X.stmt s) w)
    {p : Prog M α} {w : N.World}
    (h : p.Emits G (fun _ => True) (fun _ _ => True) (X.world w)) :
    (p.lift X g).Emits G' (fun _ => True) (fun _ _ => True) w := by
  induction p generalizing w with
  | ret a => trivial
  | fail e => trivial
  | read k ih => exact ih (X.world w) h
  | exec s k ih =>
    obtain ⟨hs, hrest⟩ := h
    refine ⟨hG s w hs, ?_⟩
    show ((k (X.out s (N.sem (X.stmt s) w).1)).lift X g).Emits G' _ _ _
    rw [X.out_sem]
    apply ih
    rw [X.world_sem]
    exact hrest
  | await c k ih => exact ⟨trivial, fun r w' => ih _ (h.2 _ _)⟩

theorem Emits.bind {G : M.Stmt → M.World → Prop} {p : Prog M α} {f : α → Prog M β} {w : M.World}
    (hp : p.Emits G (fun _ => True) (fun _ _ => True) w)
    (hf : ∀ a w, (f a).Emits G (fun _ => True) (fun _ _ => True) w) :
    (p.bind f).Emits G (fun _ => True) (fun _ _ => True) w := by
  refine emits_bind (Emits.mono ?_ hp)
  intro r w' _
  cases r with
  | ok a => exact hf a w'
  | error e => trivial

/-- A silent program keeps to every table. -/
theorem Silent.emits {G : M.Stmt → M.World → Prop} {p : Prog M α} (h : p.Silent) (w : M.World) :
    p.Emits G (fun _ => True) (fun _ _ => True) w := by
  induction p generalizing w with
  | ret a => trivial
  | fail e => trivial
  | read k ih => exact ih w (h w) w
  | exec s k ih => exact h.elim
  | await c k ih => exact ⟨trivial, fun r w' => ih r (h r) w'⟩

end Prog

namespace Pool

variable {M : Machine} {Q B : Type} {G : M.Stmt → M.World → Prop} {R : M.World → M.World → Prop}

/-- A preorder that the drifts and the statements of the table respect. -/
structure Forward (G : M.Stmt → M.World → Prop) (R : M.World → M.World → Prop) : Prop where
  refl : ∀ w, R w w
  trans : ∀ {a b c}, R a b → R b c → R a c
  drift : ∀ d w, R w (M.drift d w)
  stmt : ∀ s w, G s w → R w (M.sem s w).2

/-- Whatever is answered, a parked process keeps to the table. -/
def Emitting (G : M.Stmt → M.World → Prop) (S : Pool M Q B) : Prop :=
  ∀ p ∈ S.parked, ∀ r w, (p.resume r).Emits G (fun _ => True) (fun _ _ => True) w

/-- A turn of a program that keeps to the table moves forward and leaves such a program. -/
theorem turn_grows (hR : Forward G R) {p : Prog M B} {past : Trace M} {w : M.World}
    (h : p.Emits G (fun _ => True) (fun _ _ => True) w) :
    R w (p.turn past w).2.2 ∧ ∀ c k, (p.turn past w).1 = .suspended c k →
      ∀ r w', (k r).Emits G (fun _ => True) (fun _ _ => True) w' := by
  induction p generalizing past w with
  | ret a => exact ⟨hR.refl w, fun c k hk => by cases hk⟩
  | fail e => exact ⟨hR.refl w, fun c k hk => by cases hk⟩
  | read k ih => exact ih w h
  | exec s k ih =>
    have hrest := @ih (M.sem s w).1 (past ++ [(s, w)]) _ h.2
    exact ⟨hR.trans (hR.stmt s w h.1) hrest.1, hrest.2⟩
  | await c k ih =>
    refine ⟨hR.refl w, fun c' k' hk => ?_⟩
    cases hk
    exact h.2

theorem Emitting.advance (hR : Forward G R) {S : Pool M Q B} {rest : List (Process M Q B)}
    (hrest : ∀ p ∈ rest, ∀ r w, (p.resume r).Emits G (fun _ => True) (fun _ _ => True) w) {q : Q}
    {past : Trace M} {p : Prog M B}
    (hp : p.Emits G (fun _ => True) (fun _ _ => True) S.world) :
    (S.advance rest q past p).Emitting G ∧ R S.world (S.advance rest q past p).world := by
  have hturn : R S.world (p.turn past S.world).2.2 ∧ _ := turn_grows hR hp
  unfold Pool.advance
  generalize p.turn past S.world = out at hturn
  obtain ⟨stop, past', w⟩ := out
  obtain ⟨hw, hk⟩ := hturn
  cases stop with
  | finished r => exact ⟨hrest, hw⟩
  | suspended c k =>
    refine ⟨fun x hx => ?_, hw⟩
    rcases List.mem_append.mp hx with hx | hx
    · exact hrest x hx
    · rw [List.mem_singleton] at hx
      subst hx
      exact hk c k rfl

section Runs

variable {handler : Q → Prog M B}

theorem Emitting.step (hR : Forward G R)
    (hemits : ∀ q w, (handler q).Emits G (fun _ => True) (fun _ _ => True) w) {S : Pool M Q B}
    (h : S.Emitting G) (e : Event M Q) :
    (S.step handler e).Emitting G ∧ R S.world (S.step handler e).world := by
  cases e with
  | spawn q => exact Emitting.advance hR h (hemits q _)
  | resume i answer =>
    rw [Pool.step]
    cases hp : S.parked[i]? with
    | none => exact ⟨h, hR.refl _⟩
    | some p =>
      exact Emitting.advance hR (fun x hx => h x (List.mem_of_mem_eraseIdx hx))
        (h p (List.mem_of_getElem? hp) _ _)
  | drift d => exact ⟨h, hR.drift d _⟩

theorem Emitting.run (hR : Forward G R)
    (hemits : ∀ q w, (handler q).Emits G (fun _ => True) (fun _ _ => True) w) {S : Pool M Q B}
    (h : S.Emitting G) (events : List (Event M Q)) :
    (S.run handler events).Emitting G ∧ R S.world (S.run handler events).world := by
  unfold Pool.run
  induction events generalizing S with
  | nil => exact ⟨h, hR.refl _⟩
  | cons e rest ih =>
    obtain ⟨hnext, hw⟩ := h.step hR hemits e
    obtain ⟨hrest, hw'⟩ := ih hnext
    exact ⟨hrest, hR.trans hw hw'⟩

/-- Any two points of a run are related. -/
theorem run_grows (hR : Forward G R)
    (hemits : ∀ q w, (handler q).Emits G (fun _ => True) (fun _ _ => True) w) (w : M.World)
    (events more : List (Event M Q)) :
    R ((Pool.start w).run handler events).world
      ((Pool.start w).run handler (events ++ more)).world := by
  have hstart : (Pool.start (Q := Q) (B := B) w).Emitting G :=
    fun p hp => absurd hp List.not_mem_nil
  have hmid := (hstart.run hR hemits events).1
  have hsplit : (Pool.start w).run handler (events ++ more) =
      ((Pool.start w).run handler events).run handler more := List.foldl_append
  rw [hsplit]
  exact (hmid.run hR hemits more).2

end Runs

end Pool

end IpfsGate.Lib
