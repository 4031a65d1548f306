import IpfsGate.Lib.History

/-!
# Crashes

The machine may stop between any two statements, also within a turn. What is left is the world
as the last statement left it, and each process that had not ended leaves its trace so far. The
statements up to that point lead from the first world to the last, and so do those of all lives
of a machine that starts again.
-/
namespace IpfsGate.Lib

open Prog (Trace)

/-- The statements lead from one world to another, which drifts between them. -/
inductive Leads (M : Machine) (w : M.World) : Trace M → M.World → Prop where
  | nil : Leads M w [] w
  | drift {t : Trace M} {w' : M.World} (d : M.Drift) (h : Leads M w t w') :
      Leads M w t (M.drift d w')
  | exec {t : Trace M} {w' : M.World} (s : M.Stmt) (h : Leads M w t w') :
      Leads M w (t ++ [(s, w')]) (M.sem s w').2

namespace Leads

variable {M : Machine} {w w' w'' : M.World} {t u : Trace M}

theorem append (ht : Leads M w t w') (hu : Leads M w' u w'') : Leads M w (t ++ u) w'' := by
  induction hu with
  | nil =>
    rw [List.append_nil]
    exact ht
  | drift d _ ih => exact ih.drift d
  | exec s _ ih =>
    rw [← List.append_assoc]
    exact ih.exec s

theorem cons (s : M.Stmt) (ht : Leads M (M.sem s w).2 t w') : Leads M w ((s, w) :: t) w' :=
  append (.exec s .nil) ht

/-- What every statement keeps where it runs holds throughout. -/
theorem invariant {P : M.World → Prop} (hdrift : ∀ d w, P w → P (M.drift d w))
    (h : Leads M w t w') (hstmt : ∀ a ∈ t, P a.2 → P (M.sem a.1 a.2).2) (hw : P w) :
    P w' ∧ ∀ a ∈ t, P a.2 := by
  induction h with
  | nil => exact ⟨hw, fun _ ha => absurd ha List.not_mem_nil⟩
  | drift d _ ih => exact ⟨hdrift d _ (ih hstmt).1, (ih hstmt).2⟩
  | @exec t w' s _ ih =>
    obtain ⟨hlast, hall⟩ := ih (fun a ha => hstmt a (List.mem_append_left _ ha))
    have hmem : (s, w') ∈ t ++ [(s, w')] := List.mem_append_right _ List.mem_cons_self
    refine ⟨hstmt _ hmem hlast, fun a ha => ?_⟩
    rcases List.mem_append.mp ha with ha | ha
    · exact hall a ha
    · rw [List.mem_singleton.mp ha]
      exact hlast

/-- What holds at the end and not at the start was brought about by some statement. -/
theorem origin {F : M.World → Prop} (hdrift : ∀ d w, F (M.drift d w) → F w)
    (h : Leads M w t w') (hstart : ¬ F w) (hend : F w') :
    ∃ a ∈ t, ¬ F a.2 ∧ F (M.sem a.1 a.2).2 := by
  by_contra hnone
  have hkeep : ∀ a ∈ t, ¬ F a.2 → ¬ F (M.sem a.1 a.2).2 :=
    fun a ha hold hnew => hnone ⟨a, ha, hold, hnew⟩
  exact (h.invariant (P := fun w => ¬ F w) (fun d w hw hd => hw (hdrift d w hd)) hkeep hstart).1
    hend

/-- A preorder that every statement and the drift go along leads from each statement on. -/
theorem later {R : M.World → M.World → Prop} (hrefl : ∀ w, R w w)
    (htrans : ∀ a b c, R a b → R b c → R a c) (hdrift : ∀ d w, R w (M.drift d w))
    (h : Leads M w t w') (hstmt : ∀ a ∈ t, R a.2 (M.sem a.1 a.2).2) :
    R w w' ∧ ∀ a ∈ t, R (M.sem a.1 a.2).2 w' := by
  induction h with
  | nil => exact ⟨hrefl w, fun _ ha => absurd ha List.not_mem_nil⟩
  | drift d _ ih =>
    obtain ⟨htotal, hall⟩ := ih hstmt
    exact ⟨htrans _ _ _ htotal (hdrift d _), fun a ha => htrans _ _ _ (hall a ha) (hdrift d _)⟩
  | @exec t w' s _ ih =>
    obtain ⟨htotal, hall⟩ := ih (fun a ha => hstmt a (List.mem_append_left _ ha))
    have hlast := hstmt _ (List.mem_append_right t (List.mem_singleton_self (s, w')))
    refine ⟨htrans _ _ _ htotal hlast, fun a ha => ?_⟩
    rcases List.mem_append.mp ha with ha | ha
    · exact htrans _ _ _ (hall a ha) hlast
    · rw [List.mem_singleton.mp ha]
      exact hrefl _

end Leads

/-- Over several lives: the machine stops, starts again from what this has left, and goes on. -/
inductive Led (M : Machine) (restart : M.World → M.World → Prop) (w : M.World) :
    Trace M → M.World → Prop where
  | nil : Led M restart w [] w
  | life {t u : Trace M} {a b c : M.World} (h : Led M restart w t a) (hrestart : restart a b)
      (hleads : Leads M b u c) : Led M restart w (t ++ u) c

namespace Led

variable {M : Machine} {restart : M.World → M.World → Prop} {w w' : M.World} {t : Trace M}

theorem of_leads (h : Leads M w t w') : Led M Eq w t w' := .life .nil rfl h

theorem invariant {P : M.World → Prop} (hdrift : ∀ d w, P w → P (M.drift d w))
    (hrestart : ∀ a b, restart a b → P a → P b) (h : Led M restart w t w')
    (hstmt : ∀ a ∈ t, P a.2 → P (M.sem a.1 a.2).2) (hw : P w) : P w' ∧ ∀ a ∈ t, P a.2 := by
  induction h with
  | nil => exact ⟨hw, fun _ ha => absurd ha List.not_mem_nil⟩
  | life _ hr hleads ih =>
    obtain ⟨hlast, hall⟩ := ih (fun a ha => hstmt a (List.mem_append_left _ ha))
    obtain ⟨hend, hrest⟩ := hleads.invariant hdrift
      (fun a ha => hstmt a (List.mem_append_right _ ha)) (hrestart _ _ hr hlast)
    exact ⟨hend, fun a ha => (List.mem_append.mp ha).elim (hall a) (hrest a)⟩

theorem origin {F : M.World → Prop} (hdrift : ∀ d w, F (M.drift d w) → F w)
    (hrestart : ∀ a b, restart a b → F b → F a) (h : Led M restart w t w') (hstart : ¬ F w)
    (hend : F w') : ∃ a ∈ t, ¬ F a.2 ∧ F (M.sem a.1 a.2).2 := by
  induction h with
  | nil => exact absurd hend hstart
  | @life t u a b c _ hr hleads ih =>
    by_cases hb : F b
    · obtain ⟨x, hx, hnew⟩ := ih (hrestart _ _ hr hb)
      exact ⟨x, List.mem_append_left _ hx, hnew⟩
    · obtain ⟨x, hx, hnew⟩ := hleads.origin hdrift hb hend
      exact ⟨x, List.mem_append_right _ hx, hnew⟩

theorem later {R : M.World → M.World → Prop} (hrefl : ∀ w, R w w)
    (htrans : ∀ a b c, R a b → R b c → R a c) (hdrift : ∀ d w, R w (M.drift d w))
    (hrestart : ∀ a b, restart a b → R a b) (h : Led M restart w t w')
    (hstmt : ∀ a ∈ t, R a.2 (M.sem a.1 a.2).2) :
    R w w' ∧ ∀ a ∈ t, R (M.sem a.1 a.2).2 w' := by
  induction h with
  | nil => exact ⟨hrefl w, fun _ ha => absurd ha List.not_mem_nil⟩
  | life _ hr hleads ih =>
    obtain ⟨htotal, hall⟩ := ih (fun a ha => hstmt a (List.mem_append_left _ ha))
    obtain ⟨hend, hrest⟩ := hleads.later hrefl htrans hdrift
      (fun a ha => hstmt a (List.mem_append_right _ ha))
    have hnext := htrans _ _ _ (hrestart _ _ hr) hend
    refine ⟨htrans _ _ _ htotal hnext, fun a ha => ?_⟩
    exact (List.mem_append.mp ha).elim (fun ha => htrans _ _ _ (hall a ha) hnext) (hrest a)

end Led

namespace Prog

variable {M : Machine} {α : Type}

/-- The turn, stopped after so many statements: what it ran and the world it leaves. -/
def cut : Prog M α → Nat → M.World → Trace M × M.World
  | ret _, _, w => ([], w)
  | fail _, _, w => ([], w)
  | read k, n, w => (k w).cut n w
  | exec _ _, 0, w => ([], w)
  | exec s k, n + 1, w =>
    let rest := (k (M.sem s w).1).cut n (M.sem s w).2
    ((s, w) :: rest.1, rest.2)
  | await _ _, _, w => ([], w)

theorem leads_cut (p : Prog M α) (n : Nat) (w : M.World) :
    Leads M w (p.cut n w).1 (p.cut n w).2 := by
  induction p generalizing n w with
  | ret a => exact .nil
  | fail e => exact .nil
  | read k ih => exact ih w n w
  | exec s k ih =>
    cases n with
    | zero => exact .nil
    | succ n => exact .cons s (ih _ n _)
  | await c k ih => exact .nil

/-- Without the stop the turn goes on from there. -/
theorem cut_rest (p : Prog M α) (n : Nat) (past : Trace M) (w : M.World) :
    ∃ rest, p.ran w = (p.cut n w).1 ++ rest ∧ Leads M (p.cut n w).2 rest (p.turn past w).2.2 := by
  induction p generalizing n past w with
  | ret a => exact ⟨[], rfl, .nil⟩
  | fail e => exact ⟨[], rfl, .nil⟩
  | read k ih => exact ih w n past w
  | exec s k ih =>
    cases n with
    | zero =>
      obtain ⟨rest, hran, hrest⟩ := ih (M.sem s w).1 0 (past ++ [(s, w)]) (M.sem s w).2
      refine ⟨(s, w) :: ((k (M.sem s w).1).cut 0 (M.sem s w).2).1 ++ rest, ?_, ?_⟩
      · exact congrArg (List.cons (s, w)) hran
      · exact .cons s ((leads_cut _ 0 _).append hrest)
    | succ n =>
      obtain ⟨rest, hran, hrest⟩ := ih (M.sem s w).1 n (past ++ [(s, w)]) (M.sem s w).2
      exact ⟨rest, congrArg (List.cons (s, w)) hran, hrest⟩
  | await c k ih => exact ⟨[], rfl, .nil⟩

theorem leads_turn (p : Prog M α) (past : Trace M) (w : M.World) :
    Leads M w (p.ran w) (p.turn past w).2.2 := by
  obtain ⟨rest, hran, hrest⟩ := cut_rest p 0 past w
  rw [hran]
  exact (leads_cut p 0 w).append hrest

end Prog

/-- What is left when the machine stops: the world, and the traces of the processes that had
not ended. -/
structure Crash (M : Machine) where
  world : M.World
  inFlight : List (Trace M)

/-- One life of a machine: how it starts, what happens to it, and the event in whose turn it stops,
after so many statements. -/
structure Life (M : Machine) (Q R : Type) where
  start : R
  events : List (Event M Q)
  last : Event M Q
  statements : Nat

namespace Pool

variable {M : Machine} {Q B : Type}

/-- What the turn of an event runs in so many statements, and the world it leaves. -/
def stopped (handler : Q → Prog M B) (S : Pool M Q B) (n : Nat) : Event M Q → Trace M × M.World
  | .spawn q => (handler q).cut n S.world
  | .resume i answer =>
    match S.parked[i]? with
    | none => ([], S.world)
    | some p => (p.resume (answer p.call)).cut n S.world
  | .drift d => ([], M.drift d S.world)

/-- The traces of the parked processes, that of the one whose turn it is up to the stop. -/
def inFlight (handler : Q → Prog M B) (S : Pool M Q B) (n : Nat) (e : Event M Q) :
    List (Trace M) :=
  match e with
  | .spawn _ => S.parked.map Process.past ++ [(S.stopped handler n e).1]
  | .resume i _ =>
    match S.parked[i]? with
    | none => S.parked.map Process.past
    | some p =>
      (S.parked.eraseIdx i).map Process.past ++ [p.past ++ (S.stopped handler n e).1]
  | .drift _ => S.parked.map Process.past

/-- The machine stops in the turn of an event, after so many of its statements. -/
def crash (handler : Q → Prog M B) (S : Pool M Q B) (n : Nat) (e : Event M Q) : Crash M :=
  { world := (S.stopped handler n e).2, inFlight := S.inFlight handler n e }

variable {handler : Q → Prog M B}

/-- The process of a turn has what it ran behind it. -/
theorem ran_advance (S : Pool M Q B) (rest : List (Process M Q B)) (q : Q) (past : Trace M)
    (p : Prog M B) : (S.advance rest q past p).Ran q (past ++ p.ran S.world) := by
  have htrace := Prog.turn_trace p past S.world
  unfold advance
  generalize p.turn past S.world = out at htrace ⊢
  obtain ⟨stop, past', w⟩ := out
  cases stop with
  | finished r => exact Or.inl ⟨_, List.mem_append_right _ List.mem_cons_self, rfl, htrace⟩
  | suspended c k => exact Or.inr ⟨_, List.mem_append_right _ List.mem_cons_self, rfl, htrace⟩

/-- The processes that a turn passes over stay parked. -/
theorem parked_advance {S : Pool M Q B} {rest : List (Process M Q B)} {q : Q} {past : Trace M}
    {p : Prog M B} {x : Process M Q B} (hx : x ∈ rest) :
    x ∈ (S.advance rest q past p).parked := by
  unfold advance
  split
  · exact hx
  · exact List.mem_append_left _ hx

theorem leads_step (S : Pool M Q B) (e : Event M Q) :
    Leads M S.world (S.did handler e) (S.step handler e).world := by
  cases e with
  | spawn q =>
    rw [step, advance_world]
    exact Prog.leads_turn _ _ _
  | resume i answer =>
    rw [step, did]
    cases hp : S.parked[i]? with
    | none => exact .nil
    | some p =>
      dsimp only
      rw [advance_world]
      exact Prog.leads_turn _ _ _
  | drift d => exact .drift d .nil

theorem leads_run (S : Pool M Q B) (events : List (Event M Q)) :
    Leads M S.world (history handler S events) (S.run handler events).world := by
  unfold run
  induction events generalizing S with
  | nil => exact .nil
  | cons e rest ih => exact (leads_step S e).append (ih _)

/-- Without the crash the turn goes on from the same world. -/
theorem crash_rest (handler : Q → Prog M B) (S : Pool M Q B) (n : Nat) (e : Event M Q) :
    Leads M S.world (S.stopped handler n e).1 (S.crash handler n e).world ∧
      ∃ rest, S.did handler e = (S.stopped handler n e).1 ++ rest ∧
        Leads M (S.crash handler n e).world rest (S.step handler e).world := by
  unfold crash
  cases e with
  | spawn q =>
    refine ⟨Prog.leads_cut _ _ _, ?_⟩
    rw [step, advance_world]
    exact Prog.cut_rest (handler q) n [] S.world
  | resume i answer =>
    rw [did, stopped, step]
    cases hp : S.parked[i]? with
    | none => exact ⟨.nil, [], rfl, .nil⟩
    | some p =>
      refine ⟨Prog.leads_cut _ _ _, ?_⟩
      dsimp only
      rw [advance_world]
      exact Prog.cut_rest (p.resume (answer p.call)) n p.past S.world
  | drift d => exact ⟨.drift d .nil, [], rfl, .nil⟩

/-- The processes in flight have run what the parked ones had, and the part of the turn. -/
theorem inFlight_perm (handler : Q → Prog M B) (S : Pool M Q B) (n : Nat) (e : Event M Q) :
    (S.inFlight handler n e).flatten.Perm
      ((S.parked.map Process.past).flatten ++ (S.stopped handler n e).1) := by
  cases e with
  | spawn q =>
    unfold inFlight
    rw [List.flatten_append, List.flatten_singleton]
  | resume i answer =>
    rw [inFlight, stopped]
    cases hp : S.parked[i]? with
    | none => exact List.Perm.of_eq (List.append_nil _).symm
    | some p =>
      obtain ⟨hi, rfl⟩ := List.getElem?_eq_some_iff.mp hp
      have hperm := ((List.getElem_cons_eraseIdx_perm hi).map Process.past).flatten
      rw [List.map_cons, List.flatten_cons] at hperm
      dsimp only
      rw [List.flatten_append, List.flatten_singleton, ← List.append_assoc]
      exact (List.perm_append_comm.trans hperm).append_right _
  | drift d =>
    exact List.Perm.of_eq (List.append_nil _).symm

/-- The traces of all processes at the crash, ended or in flight. -/
def left (handler : Q → Prog M B) (S : Pool M Q B) (n : Nat) (e : Event M Q) : List (Trace M) :=
  S.finished.map Finished.past ++ (S.crash handler n e).inFlight

/-- What was run before the crash was run by a process that had ended or is in flight. -/
theorem crash_history (handler : Q → Prog M B) (w : M.World) (events : List (Event M Q)) (n : Nat)
    (e : Event M Q) :
    ∃ t, Leads M w t (((start w).run handler events).crash handler n e).world ∧
      ∀ a, a ∈ t ↔ ∃ past ∈ ((start w).run handler events).left handler n e, a ∈ past := by
  refine ⟨history handler (start w) events ++
    (((start w).run handler events).stopped handler n e).1, ?_, fun a => ?_⟩
  · exact (leads_run (start w) events).append (crash_rest handler _ n e).1
  · generalize hS : (start w).run handler events = S
    have hpast := (traces_start handler w events).mem_iff (a := a)
    have hflight := (inFlight_perm handler S n e).mem_iff (a := a)
    rw [hS, traces, List.flatten_append, List.mem_append] at hpast
    rw [List.mem_append, ← List.mem_flatten]
    change _ ↔ a ∈ (S.finished.map Finished.past ++ S.inFlight handler n e).flatten
    rw [List.flatten_append, List.mem_append, hflight, List.mem_append, ← hpast, or_assoc]

/-- A process in flight would have gone on from what it ran. -/
theorem inFlight_ran {S : Pool M Q B} {n : Nat} {e : Event M Q} {past : Trace M}
    (h : past ∈ (S.crash handler n e).inFlight) :
    ∃ q full, (S.step handler e).Ran q full ∧ past <+: full := by
  change past ∈ S.inFlight handler n e at h
  have hparked : ∀ {T : Pool M Q B} {x : Process M Q B}, x ∈ T.parked →
      ∃ q full, T.Ran q full ∧ x.past <+: full :=
    fun hx => ⟨_, _, Or.inr ⟨_, hx, rfl, rfl⟩, List.prefix_rfl⟩
  cases e with
  | spawn q =>
    rcases List.mem_append.mp h with h | h
    · obtain ⟨x, hx, rfl⟩ := List.mem_map.mp h
      exact hparked (parked_advance hx)
    · obtain ⟨rest, hran, _⟩ := Prog.cut_rest (handler q) n [] S.world
      refine ⟨q, _, ran_advance S S.parked q [] (handler q), rest, ?_⟩
      rw [List.mem_singleton.mp h, List.nil_append]
      exact hran.symm
  | resume i answer =>
    rw [step]
    rw [inFlight, stopped] at h
    cases hp : S.parked[i]? with
    | none =>
      rw [hp] at h
      obtain ⟨x, hx, rfl⟩ := List.mem_map.mp h
      exact hparked hx
    | some p =>
      rw [hp] at h
      dsimp only at h ⊢
      rcases List.mem_append.mp h with h | h
      · obtain ⟨x, hx, rfl⟩ := List.mem_map.mp h
        exact hparked (parked_advance hx)
      · obtain ⟨rest, hran, _⟩ := Prog.cut_rest (p.resume (answer p.call)) n p.past S.world
        refine ⟨p.request, _, ran_advance S _ p.request p.past _, rest, ?_⟩
        rw [List.mem_singleton.mp h, List.append_assoc]
        exact congrArg (p.past ++ ·) hran.symm
  | drift d =>
    obtain ⟨x, hx, rfl⟩ := List.mem_map.mp h
    exact hparked hx

section Later

variable {R : M.World → M.World → Prop} (hrefl : ∀ w, R w w)
  (htrans : ∀ a b c, R a b → R b c → R a c) (hdrift : ∀ d w, R w (M.drift d w))
  (hstmt : ∀ s w, R w (M.sem s w).2)

include hrefl htrans hdrift hstmt

variable (handler) in
/-- A process that has ended is followed by every later world. -/
theorem finished_later {S : Pool M Q B} (hS : ∀ f ∈ S.finished, R f.final S.world)
    (events : List (Event M Q)) :
    ∀ f ∈ (S.run handler events).finished, R f.final (S.run handler events).world := by
  have hadvance : ∀ (S : Pool M Q B) rest q past (p : Prog M B),
      (∀ f ∈ S.finished, R f.final S.world) →
      ∀ f ∈ (S.advance rest q past p).finished, R f.final (S.advance rest q past p).world := by
    intro S rest q past p hS
    have hturn : R S.world (p.turn past S.world).2.2 :=
      ((Prog.leads_turn p past S.world).later hrefl htrans hdrift (fun a _ => hstmt a.1 a.2)).1
    unfold advance
    generalize p.turn past S.world = out at hturn ⊢
    obtain ⟨stop, past', w⟩ := out
    cases stop with
    | finished r =>
      intro f hf
      rcases List.mem_append.mp hf with hf | hf
      · exact htrans _ _ _ (hS f hf) hturn
      · rw [List.mem_singleton.mp hf]
        exact hrefl w
    | suspended c k => exact fun f hf => htrans _ _ _ (hS f hf) hturn
  have hstep : ∀ (S : Pool M Q B) e, (∀ f ∈ S.finished, R f.final S.world) →
      ∀ f ∈ (S.step handler e).finished, R f.final (S.step handler e).world := by
    intro S e hS
    cases e with
    | spawn q => exact hadvance S _ q [] _ hS
    | resume i answer =>
      rw [step]
      cases S.parked[i]? with
      | none => exact hS
      | some p => exact hadvance S _ _ _ _ hS
    | drift d => exact fun f hf => htrans _ _ _ (hS f hf) (hdrift d S.world)
  unfold run
  induction events generalizing S with
  | nil => exact hS
  | cons e rest ih => exact ih (hstep S e hS)

end Later

end Pool

end IpfsGate.Lib
