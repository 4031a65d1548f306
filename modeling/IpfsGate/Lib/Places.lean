import IpfsGate.Lib.History

/-!
# Where a process comes from

The requests of a run may be numbered by their place among its events. The numbered run is the
run, and tells processes of equal requests apart. What a process is held to may then depend on
the world that its own request arrived in, and on what is answered from there on.
-/
namespace IpfsGate.Lib

open Prog (Trace)

/-! ## Renaming requests -/

section Rename

variable {M : Machine} {Q R B : Type} (f : Q → R)

def Process.rename (p : Process M Q B) : Process M R B where
  request := f p.request
  call := p.call
  past := p.past
  resume := p.resume

def Finished.rename (x : Finished M Q B) : Finished M R B where
  request := f x.request
  past := x.past
  result := x.result
  final := x.final

def Event.rename : Event M Q → Event M R
  | .spawn q => .spawn (f q)
  | .resume i answer => .resume i answer
  | .drift d => .drift d

namespace Pool

def rename (S : Pool M Q B) : Pool M R B where
  world := S.world
  parked := S.parked.map (Process.rename f)
  finished := S.finished.map (Finished.rename f)

variable {f}

theorem rename_advance (S : Pool M Q B) (rest : List (Process M Q B)) (q : Q) (past : Trace M)
    (p : Prog M B) : (S.advance rest q past p).rename f =
      (S.rename f).advance (rest.map (Process.rename f)) (f q) past p := by
  have hworld : (S.rename f).world = S.world := rfl
  unfold advance
  rw [hworld]
  generalize p.turn past S.world = out
  obtain ⟨stop, past', w⟩ := out
  cases stop with
  | finished r =>
    simp only [rename, List.map_append, List.map_cons, List.map_nil]
    rfl
  | suspended c k =>
    simp only [rename, List.map_append, List.map_cons, List.map_nil]
    rfl

variable {handler : R → Prog M B}

theorem rename_step (S : Pool M Q B) (e : Event M Q) :
    (S.step (fun q => handler (f q)) e).rename f = (S.rename f).step handler (e.rename f) := by
  cases e with
  | spawn q => exact rename_advance S S.parked q [] (handler (f q))
  | resume i answer =>
    have hat : (S.rename f).parked[i]? = S.parked[i]?.map (Process.rename f) := List.getElem?_map
    rw [step, Event.rename, step, hat]
    cases S.parked[i]? with
    | none => rfl
    | some p =>
      have herase : (S.rename f).parked.eraseIdx i = (S.parked.eraseIdx i).map (Process.rename f) :=
        List.eraseIdx_map _ _ i
      dsimp only [Option.map_some]
      rw [herase]
      exact rename_advance S _ p.request p.past (p.resume (answer p.call))
  | drift d => rfl

/-- A run under other names of its requests is the run. -/
theorem rename_run (S : Pool M Q B) (events : List (Event M Q)) :
    (S.run (fun q => handler (f q)) events).rename f =
      (S.rename f).run handler (events.map (Event.rename f)) := by
  unfold run
  induction events generalizing S with
  | nil => rfl
  | cons e rest ih =>
    rw [List.foldl_cons, List.map_cons, List.foldl_cons, ih, rename_step]

theorem ran_rename {S : Pool M Q B} {r : R} {past : Trace M} :
    (S.rename f).Ran r past ↔ ∃ q, f q = r ∧ S.Ran q past := by
  constructor
  · rintro (⟨x, hx, hr, hpast⟩ | ⟨p, hp, hr, hpast⟩)
    · obtain ⟨y, hy, rfl⟩ := List.mem_map.mp hx
      exact ⟨y.request, hr, Or.inl ⟨y, hy, rfl, hpast⟩⟩
    · obtain ⟨y, hy, rfl⟩ := List.mem_map.mp hp
      exact ⟨y.request, hr, Or.inr ⟨y, hy, rfl, hpast⟩⟩
  · rintro ⟨q, rfl, ⟨x, hx, rfl, hpast⟩ | ⟨p, hp, rfl, hpast⟩⟩
    · exact Or.inl ⟨x.rename f, List.mem_map_of_mem hx, rfl, hpast⟩
    · exact Or.inr ⟨p.rename f, List.mem_map_of_mem hp, rfl, hpast⟩

end Pool

end Rename

/-! ## Numbering -/

namespace Pool

variable {M : Machine} {Q B : Type} {handler : Q → Prog M B}

/-- The events with their requests numbered by their place, which starts at `n`. -/
def numbered : ℕ → List (Event M Q) → List (Event M (ℕ × Q))
  | _, [] => []
  | n, e :: rest => e.rename (fun q => (n, q)) :: numbered (n + 1) rest

theorem numbered_append (n : ℕ) (first rest : List (Event M Q)) :
    numbered n (first ++ rest) = numbered n first ++ numbered (n + first.length) rest := by
  induction first generalizing n with
  | nil => rfl
  | cons e first ih =>
    rw [List.cons_append, numbered, ih, List.length_cons, Nat.add_assoc, Nat.add_comm 1]
    rfl

theorem rename_numbered (n : ℕ) (events : List (Event M Q)) :
    (numbered n events).map (Event.rename Prod.snd) = events := by
  induction events generalizing n with
  | nil => rfl
  | cons e rest ih =>
    rw [numbered, List.map_cons, ih]
    cases e <;> rfl

/-- A numbered request is where its number says. -/
theorem split_of_numbered {n m : ℕ} {q : Q} {events : List (Event M Q)}
    (h : .spawn (m, q) ∈ numbered n events) :
    ∃ before after, events = before ++ .spawn q :: after ∧ m = n + before.length := by
  induction events generalizing n with
  | nil => cases h
  | cons e rest ih =>
    rcases List.mem_cons.mp h with h | h
    · cases e with
      | spawn q' =>
        cases h
        exact ⟨[], rest, rfl, rfl⟩
      | resume i answer => cases h
      | drift d => cases h
    · obtain ⟨before, after, rfl, hm⟩ := ih h
      exact ⟨e :: before, after, rfl, by rw [hm, List.length_cons]; omega⟩

theorem spawned_of_advance {S : Pool M Q B} {rest : List (Process M Q B)}
    (hrest : ∀ p ∈ rest, p ∈ S.parked) {q q' : Q} {past past' : Trace M} {p : Prog M B}
    (h : (S.advance rest q past p).Ran q' past') : (∃ past, S.Ran q' past) ∨ q' = q := by
  unfold advance at h
  split at h
  · rcases h with ⟨x, hx, rfl, rfl⟩ | ⟨y, hy, rfl, rfl⟩
    · rcases List.mem_append.mp hx with hx | hx
      · exact Or.inl ⟨_, Or.inl ⟨x, hx, rfl, rfl⟩⟩
      · exact Or.inr (List.mem_singleton.mp hx ▸ rfl)
    · exact Or.inl ⟨_, Or.inr ⟨y, hrest y hy, rfl, rfl⟩⟩
  · rcases h with ⟨x, hx, rfl, rfl⟩ | ⟨y, hy, rfl, rfl⟩
    · exact Or.inl ⟨_, Or.inl ⟨x, hx, rfl, rfl⟩⟩
    · rcases List.mem_append.mp hy with hy | hy
      · exact Or.inl ⟨_, Or.inr ⟨y, hrest y hy, rfl, rfl⟩⟩
      · exact Or.inr (List.mem_singleton.mp hy ▸ rfl)

/-- Every process of a run was there before, or its request has arrived. -/
theorem spawned_of_ran {S : Pool M Q B} {events : List (Event M Q)} {q : Q} {past : Trace M}
    (h : (S.run handler events).Ran q past) : (∃ past, S.Ran q past) ∨ .spawn q ∈ events := by
  unfold run at h
  induction events generalizing S with
  | nil => exact Or.inl ⟨past, h⟩
  | cons e rest ih =>
    rcases ih h with ⟨past', h'⟩ | h'
    · cases e with
      | spawn q' =>
        rcases spawned_of_advance (fun _ hp => hp) h' with hold | rfl
        · exact Or.inl hold
        · exact Or.inr List.mem_cons_self
      | resume i answer =>
        rw [step] at h'
        cases hp : S.parked[i]? with
        | none =>
          rw [hp] at h'
          exact Or.inl ⟨past', h'⟩
        | some p =>
          rw [hp] at h'
          rcases spawned_of_advance (fun _ hx => List.mem_of_mem_eraseIdx hx) h' with hold | rfl
          · exact Or.inl hold
          · exact Or.inl ⟨p.past, Or.inr ⟨p, List.mem_of_getElem? hp, rfl, rfl⟩⟩
      | drift d => exact Or.inl ⟨past', h'⟩
    · exact Or.inr (List.mem_cons_of_mem _ h')

theorem not_ran_start {w : M.World} {q : Q} {past : Trace M} :
    ¬ (start (B := B) w).Ran q past := by
  rintro (⟨x, hx, _⟩ | ⟨p, hp, _⟩)
  · exact List.not_mem_nil hx
  · exact List.not_mem_nil hp

/-- The numbered run is the run. -/
theorem rename_run_numbered (w : M.World) (events : List (Event M Q)) :
    ((start w).run (fun r : ℕ × Q => handler r.2) (numbered 0 events)).rename Prod.snd =
      (start w).run handler events := by
  rw [rename_run, rename_numbered]
  rfl

/-- The process of the request that arrived with the event at the place has run `past`. -/
def RanAt (handler : Q → Prog M B) (w : M.World) (events : List (Event M Q)) (place : ℕ) (q : Q)
    (past : Trace M) : Prop :=
  ((start w).run (fun r : ℕ × Q => handler r.2) (numbered 0 events)).Ran (place, q) past

/-- Every process of a run comes from a place. -/
theorem place_of_ran {w : M.World} {events : List (Event M Q)} {q : Q} {past : Trace M}
    (h : ((start w).run handler events).Ran q past) :
    ∃ before after, events = before ++ .spawn q :: after ∧
      RanAt handler w events before.length q past := by
  rw [← rename_run_numbered] at h
  obtain ⟨⟨place, q'⟩, rfl, hran⟩ := ran_rename.mp h
  have hspawned : .spawn (place, q') ∈ numbered 0 events :=
    (spawned_of_ran hran).resolve_left (fun ⟨_, hnone⟩ => not_ran_start hnone)
  obtain ⟨before, after, hsplit, rfl⟩ := split_of_numbered hspawned
  rw [Nat.zero_add] at hran
  exact ⟨before, after, hsplit, hran⟩

end Pool

/-! ## Guarantees from a place on -/

namespace Rely

open Pool

variable {M : Machine} {Q B : Type} {E : Rely M}

/-- The rely with other assumptions on the answers. -/
def answering (E : Rely M) (Answers : (c : M.Call) → M.Reply c → Prop) : Rely M :=
  { E with Answers }

variable {A : (c : M.Call) → M.Reply c → Prop}

theorem assures_answering (hA : ∀ c r, A c r → E.Answers c r) {α : Type} {G : Guarantee M}
    {D : Outcome M α} {p : Prog M α} {past : Trace M} {w : M.World}
    (h : p.Assures E G D past w) : p.Assures (E.answering A) G D past w := by
  induction p generalizing past w with
  | ret a => exact h
  | fail e => exact h
  | read k ih => exact ih w h
  | exec s k ih => exact fun hr => ⟨(h hr).1, fun hi => ih _ ((h hr).2 hi)⟩
  | await c k ih => exact fun w' hl hi r ha => ih r (h w' hl hi r (hA c r ha))

theorem Stands.answering (hA : ∀ c r, A c r → E.Answers c r) {G : Q → Guarantee M}
    {D : Q → Outcome M B} {S : Pool M Q B} (h : E.Stands G D S) : (E.answering A).Stands G D S :=
  ⟨h.inv, h.kept, fun p hp w hl hi r ha =>
    assures_answering hA (h.resumable p hp w hl hi r (hA p.call r ha)), h.finished⟩

theorem Stands.congr {G G' : Q → Guarantee M} {D : Q → Outcome M B} {S : Pool M Q B}
    (h : E.Stands G D S) (hsame : ∀ q past, S.Ran q past → G' q = G q) : E.Stands G' D S where
  inv := h.inv
  kept := by
    intro p hp
    rw [hsame _ _ (Or.inr ⟨p, hp, rfl, rfl⟩)]
    exact h.kept p hp
  resumable := by
    intro p hp
    rw [hsame _ _ (Or.inr ⟨p, hp, rfl, rfl⟩)]
    exact h.resumable p hp
  finished := by
    intro x hx
    rw [hsame _ _ (Or.inl ⟨x, hx, rfl, rfl⟩)]
    exact h.finished x hx

theorem honest_numbered {events : List (Event M Q)} (h : ∀ e ∈ events, E.Honest e) (n : ℕ) :
    ∀ e ∈ numbered n events, E.Honest e := by
  induction events generalizing n with
  | nil => exact fun e he => absurd he List.not_mem_nil
  | cons e rest ih =>
    intro e' he'
    rcases List.mem_cons.mp he' with rfl | he'
    · have he := h e List.mem_cons_self
      cases e with
      | resume i answer => exact he
      | _ => trivial
    · exact ih (fun x hx => h x (List.mem_cons_of_mem _ hx)) (n + 1) e' he'

theorem admissible_of_runs {handler : Q → Prog M B} {Arrives : Q → M.World → Prop}
    (hruns : ∀ s w, E.Runs s w) {S : Pool M Q B} {events : List (Event M Q)}
    (harrives : ∀ q w, .spawn q ∈ events → Arrives q w) :
    Admissible handler Arrives (fun _ => E.Runs) S events :=
  ((admissible_arrivals (admissible_true handler S events)).mono
    (fun q w h => harrives q w (spawn_of_arrivals h.1))).mono_runs (fun _ s w _ => hruns s w)

/-- The process of a place is held to a guarantee of its own, the others to those of their
requests. -/
def heldAt (G₀ : Q → Guarantee M) (place : ℕ) (G : Guarantee M) (r : ℕ × Q) : Guarantee M :=
  if r.1 = place then G else G₀ r.2

variable {handler : Q → Prog M B} {G₀ : Q → Guarantee M} {G : Guarantee M} {w : M.World}
  {before after : List (Event M Q)} {q : Q}

theorem heldAt_self {place : ℕ} : heldAt G₀ place G (place, q) = G := if_pos rfl

theorem heldAt_of_ne {place : ℕ} {r : ℕ × Q} (h : r.1 ≠ place) : heldAt G₀ place G r = G₀ r.2 :=
  if_neg h

theorem valid_heldAt (hE : E.Valid G₀) {place : ℕ} (hG : ∀ past s w, G past s w → G₀ q past s w) :
    (E.answering A).Valid (heldAt G₀ place G) where
  refl := hE.refl
  trans := hE.trans
  drift := hE.drift
  step := by
    intro r past s w hg
    by_cases hr : r.1 = place
    · rw [heldAt, if_pos hr] at hg
      exact hE.step q past s w (hG past s w hg)
    · rw [heldAt_of_ne hr] at hg
      exact hE.step r.2 past s w hg

/-- Up to a place every process keeps the guarantee of its request, whatever is answered. -/
theorem stands_before (hE : E.Valid G₀) (hruns : ∀ s w, E.Runs s w)
    (hany : ∀ c r, E.Answers c r) (hstart : E.Inv w)
    (hspawn : ∀ q w, E.Inv w → (handler q).Assures E (G₀ q) (fun _ _ _ => True) [] w) :
    E.Stands (heldAt G₀ before.length G) (fun _ _ _ _ => True)
      ((start w).run (fun r : ℕ × Q => handler r.2) (numbered 0 before)) := by
  have hstands : E.Stands (fun r : ℕ × Q => G₀ r.2) (fun _ _ _ _ => True)
      ((start w).run (fun r : ℕ × Q => handler r.2) (numbered 0 before)) := by
    have hvalid : E.Valid (fun r : ℕ × Q => G₀ r.2) :=
      ⟨hE.refl, hE.trans, hE.drift, fun r => hE.step r.2⟩
    have hadm : Admissible (fun r : ℕ × Q => handler r.2) (fun _ _ => True) (fun _ => E.Runs)
        (start w) (numbered 0 before) := admissible_of_runs hruns (fun _ _ _ => trivial)
    refine run_stands hvalid hstart (fun r w hi _ => hspawn r.2 w hi) hadm ?_
    intro e _
    cases e with
    | resume i answer => exact fun c => hany c (answer c)
    | _ => trivial
  refine hstands.congr (fun r past hran => heldAt_of_ne ?_)
  have hspawned : .spawn r ∈ numbered 0 before :=
    (spawned_of_ran hran).resolve_left (fun ⟨_, hnone⟩ => not_ran_start hnone)
  obtain ⟨first, rest, hsplit, hplace⟩ := split_of_numbered hspawned
  rw [hplace, hsplit, List.length_append, List.length_cons]
  omega

/-- A process keeps what it assures in the world that its request arrives in, if the answers are
honest from there on. -/
theorem kept_of_ranAt (hE : E.Valid G₀) (hruns : ∀ s w, E.Runs s w)
    (hany : ∀ c r, E.Answers c r) (hstart : E.Inv w)
    (hspawn : ∀ q w, E.Inv w → (handler q).Assures E (G₀ q) (fun _ _ _ => True) [] w)
    (hG : ∀ past s w, G past s w → G₀ q past s w)
    (hown : (handler q).Assures (E.answering A) G (fun _ _ _ => True) []
      ((start w).run handler before).world)
    (hhonest : ∀ e ∈ after, (E.answering A).Honest e) {past : Trace M}
    (hran : RanAt handler w (before ++ .spawn q :: after) before.length q past) :
    G.Kept past := by
  have hany' : ∀ c r, A c r → E.Answers c r := fun c r _ => hany c r
  have hfirst : (E.answering A).Stands (heldAt G₀ before.length G) (fun _ _ _ _ => True)
      ((start w).run (fun r : ℕ × Q => handler r.2) (numbered 0 before)) :=
    (stands_before hE hruns hany hstart hspawn).answering hany'
  have hworld : ((start w).run (fun r : ℕ × Q => handler r.2) (numbered 0 before)).world =
      ((start w).run handler before).world :=
    congrArg Pool.world (rename_run_numbered w before)
  unfold RanAt at hran
  rw [numbered_append, Nat.zero_add] at hran
  change ((start w).run _ (numbered 0 before ++
    .spawn (before.length, q) :: numbered (before.length + 1) after)).Ran _ _ at hran
  unfold Pool.run at hran hworld
  rw [List.foldl_append] at hran
  unfold Pool.run at hfirst
  generalize (numbered 0 before).foldl _ _ = S at hfirst hworld hran
  -- the request of the place arrives in the world of the run, the others after it
  have hlast : (E.answering A).Stands (heldAt G₀ before.length G) (fun _ _ _ _ => True)
      (S.run (fun r : ℕ × Q => handler r.2)
        (.spawn (before.length, q) :: numbered (before.length + 1) after)) := by
    have hadm : Admissible (fun r : ℕ × Q => handler r.2)
        (fun r w => r.1 = before.length → r.2 = q ∧ w = S.world) (fun _ => E.Runs) S
        (.spawn (before.length, q) :: numbered (before.length + 1) after) := by
      refine ⟨⟨fun _ => ⟨rfl, rfl⟩, (Prog.meets_true _ _).mono (fun s w _ => hruns s w)⟩, ?_⟩
      refine admissible_of_runs hruns (fun r w' hspawned hr => ?_)
      obtain ⟨first, rest, _, hplace⟩ := split_of_numbered hspawned
      omega
    refine Stands.run (valid_heldAt hE hG) hfirst ?_ hadm ?_
    · intro r w' hi harrives
      by_cases hr : r.1 = before.length
      · obtain ⟨hq, rfl⟩ := harrives hr
        rw [heldAt, if_pos hr, hq, hworld]
        exact hown
      · rw [heldAt_of_ne hr]
        exact assures_answering hany' (hspawn r.2 w' hi)
    · intro e he
      rcases List.mem_cons.mp he with rfl | he
      · trivial
      · exact honest_numbered hhonest _ e he
  have hkept := hlast.kept_of_ran hran
  rw [heldAt_self] at hkept
  exact hkept

end Rely

end IpfsGate.Lib
