import IpfsGate.Lib.Logic

/-!
# Notes on a run

A note may be taken whenever a process is resumed. An invariant that speaks of the notes taken so
far holds after every run if every turn keeps it, given the stage its process is parked at.
-/
namespace IpfsGate.Lib

open Prog (Stop)

namespace Prog

variable {M : Machine} {α β : Type}

/-- How the turn stops, and the world it leaves. -/
def Turns (R : Stop M α → M.World → Prop) : Prog M α → M.World → Prop
  | ret a, w => R (.finished (.ok a)) w
  | fail e, w => R (.finished (.error e)) w
  | read k, w => (k w).Turns R w
  | exec s k, w => (k (M.sem s w).1).Turns R (M.sem s w).2
  | await c k, w => R (.suspended c k) w

section Rules

variable {R : Stop M α → M.World → Prop} {w : M.World}

theorem Turns.turn {p : Prog M α} (h : p.Turns R w) (past : Trace M) :
    R (p.turn past w).1 (p.turn past w).2.2 := by
  induction p generalizing past w with
  | ret a => exact h
  | fail e => exact h
  | read k ih => exact ih w h past
  | exec s k ih => exact ih _ h _
  | await c k ih => exact h

theorem Turns.mono {R' : Stop M α → M.World → Prop} (hR : ∀ stop w, R stop w → R' stop w)
    {p : Prog M α} (h : p.Turns R w) : p.Turns R' w := by
  induction p generalizing w with
  | ret a => exact hR _ _ h
  | fail e => exact hR _ _ h
  | read k ih => exact ih w h
  | exec s k ih => exact ih _ h
  | await c k ih => exact hR _ _ h

/-- The second part runs in the turn in which the first one returns. -/
theorem turns_bind {p : Prog M β} {f : β → Prog M α}
    (h : p.Turns (fun stop w => match stop with
      | .finished (.ok b) => (f b).Turns R w
      | .finished (.error e) => R (.finished (.error e)) w
      | .suspended c k => R (.suspended c (fun r => (k r).bind f)) w) w) :
    (p.bind f).Turns R w := by
  induction p generalizing w with
  | ret b => exact h
  | fail e => exact h
  | read k ih => exact ih w h
  | exec s k ih => exact ih _ h
  | await c k ih => exact h

theorem turns_require {b : Bool} {e : M.Fault} {f : Unit → Prog M α}
    (hfail : b = false → R (.finished (.error e)) w) (hok : b = true → (f ()).Turns R w) :
    ((require b e).bind f).Turns R w := by
  unfold require
  by_cases hb : b = true
  · rw [if_pos hb]
    exact hok hb
  · rw [if_neg hb]
    exact hfail (Bool.not_eq_true _ ▸ hb)

theorem turns_liftExcept {r : Except M.Fault β} {f : β → Prog M α}
    (hfail : ∀ e, r = .error e → R (.finished (.error e)) w)
    (hok : ∀ b, r = .ok b → (f b).Turns R w) : ((liftExcept r).bind f).Turns R w := by
  cases r with
  | ok b => exact hok b rfl
  | error e => exact hfail e rfl

/-- A program whose statements all keep an assertion keeps it to the end of its turn. -/
theorem Emits.turns {G : M.Stmt → M.World → Prop} {A : M.Call → Prop} {J : M.World → Prop}
    {Q : Except M.Fault α → M.World → Prop} (hstmt : ∀ s w, G s w → J w → J (M.sem s w).2)
    {p : Prog M α} (h : p.Emits G A Q w) (hj : J w) :
    p.Turns (fun stop w => J w ∧ match stop with
      | .finished r => Q r w
      | .suspended c k => A c ∧ ∀ r w', (k r).Emits G A Q w') w := by
  induction p generalizing w with
  | ret a => exact ⟨hj, h⟩
  | fail e => exact ⟨hj, h⟩
  | read k ih => exact ih w h hj
  | exec s k ih => exact ih _ h.2 (hstmt s w h.1 hj)
  | await c k ih => exact ⟨hj, h⟩

end Rules

end Prog

namespace Pool

open Prog

variable {M : Machine} {Q B D : Type}

/-- The note on an event. -/
def noteAt (note : Process M Q B → ((c : M.Call) → M.Reply c) → Option D) (S : Pool M Q B) :
    Event M Q → Option D
  | .spawn _ => none
  | .resume i answer => S.parked[i]?.bind (fun p => note p answer)
  | .drift _ => none

def notes (handler : Q → Prog M B)
    (note : Process M Q B → ((c : M.Call) → M.Reply c) → Option D) :
    Pool M Q B → List (Event M Q) → List D
  | _, [] => []
  | S, e :: rest => (S.noteAt note e).toList ++ notes handler note (S.step handler e) rest

/-- What a turn keeps, and the stage at which it parks its process. -/
def Stays (Inv : M.World → Prop) (Stage : (c : M.Call) → (M.Reply c → Prog M B) → Prop) :
    Stop M B → M.World → Prop
  | .finished _, w => Inv w
  | .suspended c k, w => Inv w ∧ Stage c k

/-- The invariant holds of the notes taken, and every parked process is at a stage. -/
structure Noted (Inv : List D → M.World → Prop)
    (Stage : Q → (c : M.Call) → (M.Reply c → Prog M B) → Prop) (noted : List D)
    (S : Pool M Q B) : Prop where
  inv : Inv noted S.world
  stage : ∀ p ∈ S.parked, Stage p.request p.call p.resume

variable {handler : Q → Prog M B}
  {note : Process M Q B → ((c : M.Call) → M.Reply c) → Option D} {Arrives : Q → M.World → Prop}
  {Runs : Multiset M.Call → M.Stmt → M.World → Prop} {Inv : List D → M.World → Prop}
  {Stage : Q → (c : M.Call) → (M.Reply c → Prog M B) → Prop} {noted : List D}

theorem notes_append (S : Pool M Q B) (first rest : List (Event M Q)) :
    notes handler note S (first ++ rest) =
      notes handler note S first ++ notes handler note (S.run handler first) rest := by
  induction first generalizing S with
  | nil => rfl
  | cons e first ih =>
    rw [List.cons_append, notes, notes, ih, List.append_assoc]
    rfl

theorem Noted.advance {noted' : List D} {S : Pool M Q B} {rest : List (Process M Q B)}
    (hrest : ∀ p ∈ rest, Stage p.request p.call p.resume) {q : Q} {past : Trace M}
    {p : Prog M B} (h : p.Turns (Stays (Inv noted') (Stage q)) S.world) :
    Noted Inv Stage noted' (S.advance rest q past p) := by
  have hstop := h.turn past
  unfold Pool.advance
  generalize p.turn past S.world = out at hstop ⊢
  obtain ⟨stop, past', w⟩ := out
  cases stop with
  | finished r => exact ⟨hstop, hrest⟩
  | suspended c k =>
    refine ⟨hstop.1, fun x hx => ?_⟩
    rcases List.mem_append.mp hx with hx | hx
    · exact hrest x hx
    · rw [List.mem_singleton] at hx
      rw [hx]
      exact hstop.2

section Sound

variable (hdrift : ∀ d noted w, Inv noted w → Inv noted (M.drift d w))
  (hspawn : ∀ q noted w, Arrives q w → Inv noted w →
    (handler q).Turns (Stays (Inv noted) (Stage q)) w)
  (hresume : ∀ (p : Process M Q B) answer noted w, Stage p.request p.call p.resume →
    Inv noted w → (p.resume (answer p.call)).Turns
      (Stays (Inv (noted ++ (note p answer).toList)) (Stage p.request)) w)

include hdrift hspawn hresume

theorem Noted.step {S : Pool M Q B} (h : Noted Inv Stage noted S) {e : Event M Q}
    (he : Admits handler Arrives Runs S e) :
    Noted Inv Stage (noted ++ (S.noteAt note e).toList) (S.step handler e) := by
  cases e with
  | spawn q =>
    rw [noteAt, Option.toList_none, List.append_nil]
    exact Noted.advance h.stage (hspawn q noted _ he.1 h.inv)
  | resume i answer =>
    rw [Pool.step, noteAt]
    cases hp : S.parked[i]? with
    | none =>
      rw [Option.bind_none, Option.toList_none, List.append_nil]
      exact h
    | some p =>
      have hstage := h.stage p (List.mem_of_getElem? hp)
      exact Noted.advance (fun x hx => h.stage x (List.mem_of_mem_eraseIdx hx))
        (hresume p answer noted _ hstage h.inv)
  | drift d =>
    rw [noteAt, Option.toList_none, List.append_nil]
    exact ⟨hdrift d noted _ h.inv, h.stage⟩

/-- After every admissible run the invariant holds of all the notes. -/
theorem Noted.run {S : Pool M Q B} (h : Noted Inv Stage noted S) {events : List (Event M Q)}
    (hadm : Admissible handler Arrives Runs S events) :
    Noted Inv Stage (noted ++ notes handler note S events) (S.run handler events) := by
  unfold Pool.run
  induction events generalizing S noted with
  | nil =>
    rw [notes, List.append_nil]
    exact h
  | cons e rest ih =>
    rw [notes, ← List.append_assoc]
    exact ih (h.step hdrift hspawn hresume hadm.1) hadm.2

end Sound

end Pool

end IpfsGate.Lib
