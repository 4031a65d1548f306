import IpfsGate.Lib.Rely

/-!
# Histories of a pool

The statements of all processes in the order in which they ran. Each process knows its own
trace; the history interleaves them. Under a rely the worlds of a history are in order, so what
one process has done is known in every world that a later statement runs in.
-/
namespace IpfsGate.Lib

open Prog (Trace Stop)

namespace Prog

variable {M : Machine} {α : Type}

/-- The statements of the turn. -/
def ran : Prog M α → M.World → Trace M
  | ret _, _ => []
  | fail _, _ => []
  | read k, w => (k w).ran w
  | exec s k, w => (s, w) :: (k (M.sem s w).1).ran (M.sem s w).2
  | await _ _, _ => []

theorem turn_trace (p : Prog M α) (past : Trace M) (w : M.World) :
    (p.turn past w).2.1 = past ++ p.ran w := by
  induction p generalizing past w with
  | ret a => exact (List.append_nil past).symm
  | fail e => exact (List.append_nil past).symm
  | read k ih => exact ih w past w
  | exec s k ih =>
    change ((k (M.sem s w).1).turn (past ++ [(s, w)]) (M.sem s w).2).2.1 = _
    rw [ih, List.append_assoc]
    rfl
  | await c k ih => exact (List.append_nil past).symm

end Prog

namespace Pool

variable {M : Machine} {Q B : Type}

/-- What an event has some process run. -/
def did (handler : Q → Prog M B) (S : Pool M Q B) : Event M Q → Trace M
  | .spawn q => (handler q).ran S.world
  | .resume i answer =>
    match S.parked[i]? with
    | none => []
    | some p => (p.resume (answer p.call)).ran S.world
  | .drift _ => []

def history (handler : Q → Prog M B) : Pool M Q B → List (Event M Q) → Trace M
  | _, [] => []
  | S, e :: rest => S.did handler e ++ history handler (S.step handler e) rest

/-- What each process has run so far. -/
def traces (S : Pool M Q B) : List (Trace M) :=
  S.finished.map Finished.past ++ S.parked.map Process.past

theorem mem_traces {S : Pool M Q B} {t : Trace M} :
    t ∈ S.traces ↔ (∃ f ∈ S.finished, f.past = t) ∨ ∃ p ∈ S.parked, p.past = t := by
  simp only [traces, List.mem_append, List.mem_map]

/-- What the process of a request has run so far. -/
def Ran (S : Pool M Q B) (q : Q) (past : Trace M) : Prop :=
  (∃ f ∈ S.finished, f.request = q ∧ f.past = past) ∨
    ∃ p ∈ S.parked, p.request = q ∧ p.past = past

theorem mem_traces_iff {S : Pool M Q B} {past : Trace M} :
    past ∈ S.traces ↔ ∃ q, S.Ran q past := by
  rw [mem_traces]
  constructor
  · rintro (⟨f, hf, hpast⟩ | ⟨p, hp, hpast⟩)
    · exact ⟨_, Or.inl ⟨f, hf, rfl, hpast⟩⟩
    · exact ⟨_, Or.inr ⟨p, hp, rfl, hpast⟩⟩
  · rintro ⟨q, ⟨f, hf, _, hpast⟩ | ⟨p, hp, _, hpast⟩⟩
    · exact Or.inl ⟨f, hf, hpast⟩
    · exact Or.inr ⟨p, hp, hpast⟩

/-- The requests of a run, each with the world it arrived in. -/
def arrivals (handler : Q → Prog M B) : Pool M Q B → List (Event M Q) → List (Q × M.World)
  | _, [] => []
  | S, .spawn q :: rest => (q, S.world) :: arrivals handler (S.step handler (.spawn q)) rest
  | S, e :: rest => arrivals handler (S.step handler e) rest

variable {handler : Q → Prog M B}

theorem Admits.mono {Arrives Arrives' : Q → M.World → Prop}
    {Runs : Multiset M.Call → M.Stmt → M.World → Prop} (h : ∀ q w, Arrives q w → Arrives' q w)
    {S : Pool M Q B} {e : Event M Q} (he : Admits handler Arrives Runs S e) :
    Admits handler Arrives' Runs S e := by
  cases e with
  | spawn q => exact ⟨h q _ he.1, he.2⟩
  | resume i answer => exact he
  | drift d => trivial

theorem Admissible.mono {Arrives Arrives' : Q → M.World → Prop}
    {Runs : Multiset M.Call → M.Stmt → M.World → Prop} (h : ∀ q w, Arrives q w → Arrives' q w)
    {S : Pool M Q B} {events : List (Event M Q)} (hadm : Admissible handler Arrives Runs S events) :
    Admissible handler Arrives' Runs S events := by
  induction events generalizing S with
  | nil => trivial
  | cons e rest ih => exact ⟨Admits.mono h hadm.1, ih hadm.2⟩

theorem Admissible.mono_runs {Arrives : Q → M.World → Prop}
    {Runs Runs' : Multiset M.Call → M.Stmt → M.World → Prop}
    (h : ∀ calls s w, Runs calls s w → Runs' calls s w) {S : Pool M Q B}
    {events : List (Event M Q)} (hadm : Admissible handler Arrives Runs S events) :
    Admissible handler Arrives Runs' S events := by
  induction events generalizing S with
  | nil => trivial
  | cons e rest ih =>
    refine ⟨?_, ih hadm.2⟩
    have he := hadm.1
    cases e with
    | spawn q => exact ⟨he.1, he.2.mono (h _)⟩
    | resume i answer => exact fun p hp => (he p hp).mono (h _)
    | drift d => trivial

theorem admissible_append {Arrives : Q → M.World → Prop}
    {Runs : Multiset M.Call → M.Stmt → M.World → Prop} {S : Pool M Q B}
    {first rest : List (Event M Q)} :
    Admissible handler Arrives Runs S (first ++ rest) ↔
      Admissible handler Arrives Runs S first ∧
        Admissible handler Arrives Runs (S.run handler first) rest := by
  induction first generalizing S with
  | nil => exact (iff_of_eq (true_and _)).symm
  | cons e first ih =>
    change Admits _ _ _ _ _ ∧ _ ↔ (Admits _ _ _ _ _ ∧ _) ∧ _
    rw [and_assoc]
    exact and_congr_right (fun _ => ih)

/-- Every request of a run arrives where it is said to. -/
theorem admissible_arrivals {Arrives : Q → M.World → Prop}
    {Runs : Multiset M.Call → M.Stmt → M.World → Prop} {S : Pool M Q B}
    {events : List (Event M Q)} (hadm : Admissible handler Arrives Runs S events) :
    Admissible handler (fun q w => (q, w) ∈ arrivals handler S events ∧ Arrives q w) Runs S
      events := by
  induction events generalizing S with
  | nil => trivial
  | cons e rest ih =>
    have hrest := ih hadm.2
    cases e with
    | spawn q =>
      refine ⟨⟨⟨List.mem_cons_self, hadm.1.1⟩, hadm.1.2⟩, Admissible.mono ?_ hrest⟩
      exact fun q w h => ⟨List.mem_cons_of_mem _ h.1, h.2⟩
    | resume i answer => exact ⟨hadm.1, hrest⟩
    | drift d => exact ⟨hadm.1, hrest⟩

theorem advance_world (S : Pool M Q B) (rest : List (Process M Q B)) (q : Q) (past : Trace M)
    (p : Prog M B) : (S.advance rest q past p).world = (p.turn past S.world).2.2 := by
  unfold advance
  split <;> rename_i heq <;> rw [heq]

theorem traces_advance {S : Pool M Q B} {rest : List (Process M Q B)} {q : Q} {past : Trace M}
    {p : Prog M B} (hperm : (S.parked.map Process.past).flatten.Perm
      (past ++ (rest.map Process.past).flatten)) :
    (S.advance rest q past p).traces.flatten.Perm (S.traces.flatten ++ p.ran S.world) := by
  have hold : S.traces.flatten.Perm ((S.finished.map Finished.past).flatten ++
      (past ++ (rest.map Process.past).flatten)) := by
    unfold traces
    rw [List.flatten_append]
    exact hperm.append_left _
  refine List.Perm.trans ?_ (hold.symm.append_right _)
  have htrace := Prog.turn_trace p past S.world
  unfold advance
  generalize p.turn past S.world = out at htrace ⊢
  obtain ⟨stop, past', w⟩ := out
  rw [show past' = past ++ p.ran S.world from htrace]
  cases stop with
  | finished r =>
    simp only [traces, List.map_append, List.map_cons, List.map_nil, List.flatten_append,
      List.flatten_cons, List.flatten_nil, List.append_nil, List.append_assoc]
    exact List.Perm.append_left _ (List.Perm.append_left _ List.perm_append_comm)
  | suspended c k =>
    simp only [traces, List.map_append, List.map_cons, List.map_nil, List.flatten_append,
      List.flatten_cons, List.flatten_nil, List.append_nil, List.append_assoc]
    exact List.Perm.append_left _ (List.perm_append_comm_assoc _ _ _)

theorem traces_step (S : Pool M Q B) (e : Event M Q) :
    (S.step handler e).traces.flatten.Perm (S.traces.flatten ++ S.did handler e) := by
  cases e with
  | spawn q => exact traces_advance (List.Perm.refl _)
  | resume i answer =>
    rw [step, did]
    cases hp : S.parked[i]? with
    | none => exact List.Perm.of_eq (List.append_nil _).symm
    | some p =>
      refine traces_advance ?_
      obtain ⟨hi, rfl⟩ := List.getElem?_eq_some_iff.mp hp
      have hperm := ((List.getElem_cons_eraseIdx_perm hi).symm.map Process.past).flatten
      rw [List.map_cons, List.flatten_cons] at hperm
      exact hperm
  | drift d => exact List.Perm.of_eq (List.append_nil _).symm

/-- The history is what all processes have run since. -/
theorem traces_run (S : Pool M Q B) (events : List (Event M Q)) :
    (S.run handler events).traces.flatten.Perm (S.traces.flatten ++ history handler S events) := by
  unfold run
  induction events generalizing S with
  | nil => exact List.Perm.of_eq (List.append_nil _).symm
  | cons e rest ih =>
    rw [List.foldl_cons, history, ← List.append_assoc]
    exact (ih (S.step handler e)).trans ((traces_step S e).append_right _)

theorem traces_start (handler : Q → Prog M B) (w : M.World) (events : List (Event M Q)) :
    ((Pool.start (B := B) w).run handler events).traces.flatten.Perm
      (history handler (Pool.start w) events) := traces_run _ _

theorem history_append (S : Pool M Q B) (first rest : List (Event M Q)) :
    history handler S (first ++ rest) =
      history handler S first ++ history handler (S.run handler first) rest := by
  induction first generalizing S with
  | nil => rfl
  | cons e first ih =>
    change S.did handler e ++ history handler (S.step handler e) (first ++ rest) =
      S.did handler e ++ history handler (S.step handler e) first ++ _
    rw [ih, List.append_assoc]
    rfl

theorem spawn_of_arrivals {S : Pool M Q B} {events : List (Event M Q)} {q : Q} {w : M.World}
    (h : (q, w) ∈ arrivals handler S events) : .spawn q ∈ events := by
  induction events generalizing S with
  | nil => cases h
  | cons e rest ih =>
    cases e with
    | spawn q' =>
      rcases List.mem_cons.mp h with h | h
      · cases h
        exact List.mem_cons_self
      · exact List.mem_cons_of_mem _ (ih h)
    | resume i answer => exact List.mem_cons_of_mem _ (ih h)
    | drift d => exact List.mem_cons_of_mem _ (ih h)

theorem ran_meets {P : M.Stmt → M.World → Prop} {p : Prog M B} {w : M.World}
    (h : p.Meets P w) : ∀ a ∈ p.ran w, P a.1 a.2 := by
  induction p generalizing w with
  | ret a => exact fun _ ha => absurd ha List.not_mem_nil
  | fail e => exact fun _ ha => absurd ha List.not_mem_nil
  | read k ih => exact ih w h
  | exec s k ih =>
    intro a ha
    rcases List.mem_cons.mp ha with rfl | ha
    · exact h.1
    · exact ih _ h.2 a ha
  | await c k ih => exact fun _ ha => absurd ha List.not_mem_nil

/-- Every statement of an admissible history meets the condition where it runs. -/
theorem history_meets {Arrives : Q → M.World → Prop} {P : M.Stmt → M.World → Prop}
    {S : Pool M Q B} {events : List (Event M Q)}
    (h : Admissible handler Arrives (fun _ => P) S events) :
    ∀ a ∈ history handler S events, P a.1 a.2 := by
  induction events generalizing S with
  | nil => exact fun _ ha => absurd ha List.not_mem_nil
  | cons e rest ih =>
    intro a ha
    rcases List.mem_append.mp ha with ha | ha
    · cases e with
      | spawn q => exact ran_meets h.1.2 a ha
      | resume i answer =>
        rw [did] at ha
        cases hp : S.parked[i]? with
        | none => rw [hp] at ha; exact absurd ha List.not_mem_nil
        | some p =>
          rw [hp] at ha
          exact ran_meets (h.1 p hp) a ha
      | drift d => exact absurd ha List.not_mem_nil
    · exact ih h.2 a ha

/-- So does every statement that a process of the run has behind it. -/
theorem traces_meet {Arrives : Q → M.World → Prop} {P : M.Stmt → M.World → Prop} {w : M.World}
    {events : List (Event M Q)}
    (h : Admissible handler Arrives (fun _ => P) (Pool.start (B := B) w) events) {past : Trace M}
    (hpast : past ∈ ((Pool.start (B := B) w).run handler events).traces) :
    ∀ a ∈ past, P a.1 a.2 := fun a ha =>
  history_meets h a ((traces_start handler w events).subset
    (List.mem_flatten.mpr ⟨past, hpast, ha⟩))

/-- A collection that every statement adds its own part to is the collection of the history. -/
theorem collects (handler : Q → Prog M B) {γ : Type} {F : M.World → List γ}
    {g : M.Stmt × M.World → List γ} (hstmt : ∀ s w, F (M.sem s w).2 = F w ++ g (s, w))
    (hdrift : ∀ d w, F (M.drift d w) = F w)
    (S : Pool M Q B) (events : List (Event M Q)) :
    F (S.run handler events).world = F S.world ++ (history handler S events).flatMap g := by
  have hturn : ∀ (p : Prog M B) (past : Trace M) (w : M.World),
      F (p.turn past w).2.2 = F w ++ (p.ran w).flatMap g := by
    intro p past w
    induction p generalizing past w with
    | ret a => exact (List.append_nil _).symm
    | fail e => exact (List.append_nil _).symm
    | read k ih => exact ih w past w
    | exec s k ih =>
      change F ((k (M.sem s w).1).turn (past ++ [(s, w)]) (M.sem s w).2).2.2 = _
      rw [ih, hstmt, List.append_assoc]
      rfl
    | await c k ih => exact (List.append_nil _).symm
  have hadvance : ∀ {S : Pool M Q B} {rest : List (Process M Q B)} {q : Q} {past : Trace M}
      {p : Prog M B}, F (S.advance rest q past p).world = F S.world ++ (p.ran S.world).flatMap g := by
    intro S rest q past p
    rw [← hturn p past]
    unfold advance
    split <;> rename_i heq <;> rw [heq]
  have hstep : ∀ (S : Pool M Q B) (e : Event M Q),
      F (S.step handler e).world = F S.world ++ (S.did handler e).flatMap g := by
    intro S e
    cases e with
    | spawn q => exact hadvance
    | resume i answer =>
      rw [step, did]
      cases hp : S.parked[i]? with
      | none => exact (List.append_nil _).symm
      | some p => exact hadvance
    | drift d => exact (hdrift d S.world).trans (List.append_nil _).symm
  unfold run
  induction events generalizing S with
  | nil => exact (List.append_nil _).symm
  | cons e rest ih =>
    rw [List.foldl_cons, history, List.flatMap_append, ← List.append_assoc, ← hstep]
    exact ih _

end Pool

namespace Rely

open Pool Prog

variable {M : Machine} {Q B : Type}

/-- The statements of a history, which leads from one world to another: each is admitted where
it runs, and what it leaves is known in every later world. -/
structure Ordered (E : Rely M) (w : M.World) (t : Trace M) (w' : M.World) : Prop where
  total : E.Later w w'
  admitted : ∀ a ∈ t, E.Inv a.2 ∧ E.Runs a.1 a.2
  after : ∀ a ∈ t, E.Later w a.2
  before : ∀ a ∈ t, E.Later (M.sem a.1 a.2).2 w'
  pairwise : t.Pairwise (fun a b => E.Later (M.sem a.1 a.2).2 b.2)

variable {E : Rely M} {G : Q → Guarantee M} {D : Q → Outcome M B}

/-- Every process, finished or not, has kept the guarantee of its request. -/
theorem Stands.kept_of_ran {S : Pool M Q B} (h : E.Stands G D S) {q : Q} {past : Trace M}
    (hran : S.Ran q past) : (G q).Kept past := by
  rcases hran with ⟨f, hf, rfl, rfl⟩ | ⟨p, hp, rfl, rfl⟩
  · exact (h.finished f hf).1
  · exact h.kept p hp

theorem Ordered.nil {w w' : M.World} (h : E.Later w w') : E.Ordered w [] w' :=
  ⟨h, fun _ ha => absurd ha List.not_mem_nil, fun _ ha => absurd ha List.not_mem_nil,
    fun _ ha => absurd ha List.not_mem_nil, List.Pairwise.nil⟩

theorem Ordered.append (hE : E.Valid G) {a b c : M.World} {t u : Trace M}
    (ht : E.Ordered a t b) (hu : E.Ordered b u c) : E.Ordered a (t ++ u) c where
  total := hE.trans ht.total hu.total
  admitted := fun x hx => (List.mem_append.mp hx).elim (ht.admitted x) (hu.admitted x)
  after := fun x hx => (List.mem_append.mp hx).elim (ht.after x)
    (fun h => hE.trans ht.total (hu.after x h))
  before := fun x hx => (List.mem_append.mp hx).elim
    (fun h => hE.trans (ht.before x h) hu.total) (hu.before x)
  pairwise := by
    refine List.pairwise_append.mpr ⟨ht.pairwise, hu.pairwise, fun x hx y hy => ?_⟩
    exact hE.trans (ht.before x hx) (hu.after y hy)

theorem ordered_turn (hE : E.Valid G) {q : Q} {p : Prog M B} {past : Trace M} {w : M.World}
    {D : Outcome M B} (h : p.Assures E (G q) D past w) (hm : p.Meets E.Runs w) (hi : E.Inv w) :
    E.Ordered w (p.ran w) (p.turn past w).2.2 := by
  induction p generalizing past w with
  | ret a => exact .nil (hE.refl w)
  | fail e => exact .nil (hE.refl w)
  | read k ih => exact ih w h hm hi
  | exec s k ih =>
    obtain ⟨hg, hrest⟩ := h hm.1
    obtain ⟨hi', hl⟩ := hE.step q past s w hg hm.1 hi
    have hnext := ih _ (hrest hi') hm.2 hi'
    have hone : E.Ordered w [(s, w)] (M.sem s w).2 := by
      refine ⟨hl, ?_, ?_, ?_, List.pairwise_singleton _ _⟩
      all_goals
        intro a ha
        rw [List.mem_singleton.mp ha]
      · exact ⟨hi, hm.1⟩
      · exact hE.refl w
      · exact hE.refl _
    exact hone.append hE hnext
  | await c k ih => exact .nil (hE.refl w)

section Sound

variable {handler : Q → Prog M B} {Arrives : Q → M.World → Prop}

theorem ordered_step (hE : E.Valid G) {S : Pool M Q B} (h : E.Stands G D S)
    (hspawn : ∀ q w, E.Inv w → Arrives q w → (handler q).Assures E (G q) (D q) [] w)
    {e : Event M Q} (he : Admits handler Arrives (fun _ => E.Runs) S e) (hhonest : E.Honest e) :
    E.Ordered S.world (S.did handler e) (S.step handler e).world := by
  cases e with
  | spawn q =>
    rw [Pool.step, advance_world]
    exact ordered_turn hE (hspawn q _ h.inv he.1) he.2 h.inv
  | resume i answer =>
    rw [Pool.step, did]
    cases hp : S.parked[i]? with
    | none => exact .nil (hE.refl _)
    | some p =>
      have hmem : p ∈ S.parked := List.mem_of_getElem? hp
      dsimp only
      rw [advance_world]
      exact ordered_turn hE (h.resumable p hmem _ (hE.refl _) h.inv _ (hhonest p.call)) (he p hp)
        h.inv
  | drift d => exact .nil (hE.drift d S.world h.inv).2

/-- The history of an admissible run is ordered. -/
theorem ordered_run (hE : E.Valid G) {S : Pool M Q B} (h : E.Stands G D S)
    (hspawn : ∀ q w, E.Inv w → Arrives q w → (handler q).Assures E (G q) (D q) [] w)
    {events : List (Event M Q)} (hadm : Admissible handler Arrives (fun _ => E.Runs) S events)
    (hhonest : ∀ e ∈ events, E.Honest e) :
    E.Ordered S.world (history handler S events) (S.run handler events).world := by
  unfold Pool.run
  induction events generalizing S with
  | nil => exact .nil (hE.refl _)
  | cons e rest ih =>
    have he := hhonest e List.mem_cons_self
    exact (ordered_step hE h hspawn hadm.1 he).append hE
      (ih (h.step hE hspawn hadm.1 he) hadm.2 (fun e' he' => hhonest e' (List.mem_cons_of_mem _ he')))

/-- The history of a run that starts afresh is ordered. -/
theorem ordered_start (hE : E.Valid G) {w : M.World} (hstart : E.Inv w)
    (hspawn : ∀ q w, E.Inv w → Arrives q w → (handler q).Assures E (G q) (D q) [] w)
    {events : List (Event M Q)}
    (hadm : Admissible handler Arrives (fun _ => E.Runs) (Pool.start w) events)
    (hhonest : ∀ e ∈ events, E.Honest e) :
    E.Ordered w (history handler (Pool.start w) events)
      ((Pool.start w).run handler events).world :=
  ordered_run hE (.start hstart) hspawn hadm hhonest

/-- So is every statement that a process of the run has behind it. -/
theorem admitted_of_ran (hE : E.Valid G) {w : M.World} (hstart : E.Inv w)
    (hspawn : ∀ q w, E.Inv w → Arrives q w → (handler q).Assures E (G q) (D q) [] w)
    {events : List (Event M Q)}
    (hadm : Admissible handler Arrives (fun _ => E.Runs) (Pool.start w) events)
    (hhonest : ∀ e ∈ events, E.Honest e) {q : Q} {past : Trace M}
    (hran : ((Pool.start w).run handler events).Ran q past) :
    ∀ a ∈ past, E.Inv a.2 ∧ E.Runs a.1 a.2 := by
  intro a ha
  refine (ordered_start hE hstart hspawn hadm hhonest).admitted a ?_
  exact (traces_start handler w events).subset
    (List.mem_flatten.mpr ⟨past, Pool.mem_traces_iff.mpr ⟨q, hran⟩, ha⟩)

end Sound

/-- Nothing is known of the world and nothing asked of its answers. -/
def unknowing (M : Machine) : Rely M where
  Inv := fun _ => True
  Later := fun _ _ => True
  Runs := fun _ _ => True
  Answers := fun _ _ => True

/-- What a program permits its statements, whatever the others do, holds of all that its processes
have run. -/
theorem emits_of_ran {handler : Q → Prog M B} {P : Q → M.Stmt → M.World → Prop}
    {C : Q → M.Call → Prop}
    (h : ∀ q w, (handler q).Emits (P q) (C q) (fun _ _ => True) w) {w : M.World}
    {events : List (Event M Q)} {q : Q} {past : Trace M}
    (hran : ((Pool.start w).run handler events).Ran q past) : ∀ a ∈ past, P q a.1 a.2 := by
  have hvalid : (unknowing M).Valid (fun q (_ : Trace M) => P q) :=
    ⟨fun _ => trivial, fun _ _ => trivial, fun _ _ _ => ⟨trivial, trivial⟩,
      fun _ _ _ _ _ _ _ => ⟨trivial, trivial⟩⟩
  have hspawn : ∀ q w, (handler q).Assures (unknowing M) (fun _ => P q)
      (fun _ _ _ => True) [] w := by
    intro q w
    refine Assures.mono (fun _ _ _ _ => trivial)
      (Emits.assures (J := fun _ _ => True) ?_ (fun _ _ _ _ _ _ => trivial) (h q w) trivial)
    exact fun s w past hs _ _ => ⟨hs, fun _ => trivial⟩
  have hhonest : ∀ e ∈ events, (unknowing M).Honest e := by
    intro e _
    cases e with
    | resume i answer => exact fun _ => trivial
    | _ => trivial
  have hstands : (unknowing M).Stands (fun q (_ : Trace M) => P q) (fun _ _ _ _ => True)
      ((Pool.start w).run handler events) :=
    run_stands hvalid trivial (fun q w _ _ => hspawn q w)
      (Pool.admissible_true handler (Pool.start w) events) hhonest
  intro a ha
  obtain ⟨_, _, _, hs⟩ := (hstands.kept_of_ran hran).of_mem ha
  exact hs

end Rely

end IpfsGate.Lib
