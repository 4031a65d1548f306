import IpfsGate.Lib.Logic

/-!
# Rely and guarantee for cooperative programs

A rely says how the world may move while a process is suspended and what may be assumed of
statements and answers. Under a rely a program assures a guarantee for each statement, given
what its process has done before, and a condition on its outcome. Nothing is said about the
calls of other processes; a property that needs them is a protocol.
-/
namespace IpfsGate.Lib

open Prog (Trace Stop)

structure Rely (M : Machine) where
  /-- What holds of the world between any two statements. -/
  Inv : M.World → Prop
  Later : M.World → M.World → Prop
  Runs : M.Stmt → M.World → Prop
  Answers : (c : M.Call) → M.Reply c → Prop

/-- What is guaranteed of a statement of a process, after the statements it ran before. -/
abbrev Guarantee (M : Machine) := Trace M → M.Stmt → M.World → Prop

/-- A condition on the outcome of a process, its trace and the world. -/
abbrev Outcome (M : Machine) (α : Type) := Except M.Fault α → Trace M → M.World → Prop

/-- Every statement of the trace was run under the guarantee. -/
def Guarantee.Kept {M : Machine} (G : Guarantee M) (t : Trace M) : Prop :=
  ∀ past s w rest, t = past ++ (s, w) :: rest → G past s w

namespace Guarantee.Kept

variable {M : Machine} {G : Guarantee M} {t : Trace M} {s : M.Stmt} {w : M.World}

theorem nil : G.Kept [] := by
  intro past s w rest h
  cases past <;> cases h

theorem append (ht : G.Kept t) (hs : G t s w) : G.Kept (t ++ [(s, w)]) := by
  intro past s' w' rest h
  rcases List.eq_nil_or_concat rest with rfl | ⟨rest', x, rfl⟩
  · obtain ⟨rfl, hlast⟩ := List.append_inj' h rfl
    cases hlast
    exact hs
  · rw [List.concat_eq_append, ← List.cons_append, ← List.append_assoc] at h
    exact ht past s' w' rest' (List.append_inj_left' h rfl)

theorem of_initial {u : Trace M} (h : G.Kept t) (hu : u <+: t) : G.Kept u := by
  obtain ⟨rest, rfl⟩ := hu
  intro past s w tail hu
  refine h past s w (tail ++ rest) ?_
  rw [hu, List.append_assoc, List.cons_append]

/-- The guarantee of one entry. -/
theorem of_mem (h : G.Kept t) (hs : (s, w) ∈ t) : ∃ past rest, t = past ++ (s, w) :: rest ∧
    G past s w := by
  obtain ⟨past, rest, rfl⟩ := List.append_of_mem hs
  exact ⟨past, rest, rfl, h past s w rest rfl⟩

end Guarantee.Kept

namespace Prog

variable {M : Machine} {α β : Type}

def Assures (E : Rely M) (G : Guarantee M) (Q : Outcome M α) :
    Prog M α → Trace M → M.World → Prop
  | ret a, past, w => Q (.ok a) past w
  | fail e, past, w => Q (.error e) past w
  | read k, past, w => (k w).Assures E G Q past w
  | exec s k, past, w => E.Runs s w → G past s w ∧
      (E.Inv (M.sem s w).2 →
        (k (M.sem s w).1).Assures E G Q (past ++ [(s, w)]) (M.sem s w).2)
  | await c k, past, w => ∀ w', E.Later w w' → E.Inv w' → ∀ r, E.Answers c r →
      (k r).Assures E G Q past w'

section Rules

variable {E : Rely M} {G : Guarantee M} {past : Trace M} {w : M.World}

theorem Assures.mono {Q Q' : Outcome M α} (hQ : ∀ r past w, Q r past w → Q' r past w)
    {p : Prog M α} (h : p.Assures E G Q past w) : p.Assures E G Q' past w := by
  induction p generalizing past w with
  | ret a => exact hQ _ _ _ h
  | fail e => exact hQ _ _ _ h
  | read k ih => exact ih w h
  | exec s k ih => exact fun hr => ⟨(h hr).1, fun hi => ih _ ((h hr).2 hi)⟩
  | await c k ih => exact fun w' hl hi r ha => ih r (h w' hl hi r ha)

theorem assures_andThen {Q : Outcome M β} {p : Prog M α} {f : Except M.Fault α → Prog M β} :
    (p.andThen f).Assures E G Q past w ↔
      p.Assures E G (fun r past w => (f r).Assures E G Q past w) past w := by
  induction p generalizing past w with
  | ret a => exact Iff.rfl
  | fail e => exact Iff.rfl
  | read k ih => exact ih w
  | exec s k ih =>
    exact imp_congr_right (fun _ => and_congr_right (fun _ => imp_congr_right (fun _ => ih _)))
  | await c k ih =>
    constructor
    · exact fun h w' hl hi r ha => (ih r).mp (h w' hl hi r ha)
    · exact fun h w' hl hi r ha => (ih r).mpr (h w' hl hi r ha)

theorem assures_bind {Q : Outcome M β} {p : Prog M α} {f : α → Prog M β}
    (h : p.Assures E G (fun r past w => match r with
      | .ok a => (f a).Assures E G Q past w
      | .error e => Q (.error e) past w) past w) : (p.bind f).Assures E G Q past w := by
  refine assures_andThen.mpr (Assures.mono ?_ h)
  intro r past w hr
  cases r with
  | ok a => exact hr
  | error e => exact hr

theorem assures_require {Q : Outcome M β} {b : Bool} {e : M.Fault} {f : Unit → Prog M β}
    (hfail : b = false → Q (.error e) past w)
    (hok : b = true → (f ()).Assures E G Q past w) :
    ((require b e).bind f).Assures E G Q past w := by
  unfold require
  by_cases hb : b = true
  · rw [if_pos hb]
    exact hok hb
  · rw [if_neg hb]
    exact hfail (Bool.not_eq_true _ ▸ hb)

theorem assures_liftExcept {Q : Outcome M β} {r : Except M.Fault α} {f : α → Prog M β}
    (hfail : ∀ e, r = .error e → Q (.error e) past w)
    (hok : ∀ a, r = .ok a → (f a).Assures E G Q past w) :
    ((liftExcept r).bind f).Assures E G Q past w := by
  cases r with
  | ok a => exact hok a rfl
  | error e => exact hfail e rfl

/-- A loop, by an invariant that speaks of the elements still to come. -/
theorem assures_fold {Q : Outcome M β} {f : β → α → Prog M β}
    (I : List α → β → Trace M → M.World → Prop)
    (hstep : ∀ a rest b past w, I (a :: rest) b past w →
      (f b a).Assures E G (fun r past w => match r with
        | .ok b' => I rest b' past w
        | .error e => Q (.error e) past w) past w)
    (hdone : ∀ b past w, I [] b past w → Q (.ok b) past w)
    {xs : List α} {b : β} (h : I xs b past w) : (fold f xs b).Assures E G Q past w := by
  induction xs generalizing b past w with
  | nil => exact hdone b past w h
  | cons a rest ih =>
    rw [fold_cons]
    refine assures_bind (Assures.mono ?_ (hstep a rest b past w h))
    intro r past w hr
    cases r with
    | ok b' => exact ih hr
    | error e => exact hr

/-- A program whose statements all keep an assertion that the rely keeps too. -/
theorem Emits.assures {G' : M.Stmt → M.World → Prop} {A : M.Call → Prop}
    {J : Trace M → M.World → Prop} {Q : Except M.Fault α → M.World → Prop}
    (hstmt : ∀ s w past, G' s w → E.Runs s w → J past w → G past s w ∧
      (E.Inv (M.sem s w).2 → J (past ++ [(s, w)]) (M.sem s w).2))
    (hlater : ∀ past w w', J past w → E.Later w w' → E.Inv w' → J past w')
    {p : Prog M α} (h : p.Emits G' A Q w) (hj : J past w) :
    p.Assures E G (fun r past w => J past w ∧ Q r w) past w := by
  induction p generalizing past w with
  | ret a => exact ⟨hj, h⟩
  | fail e => exact ⟨hj, h⟩
  | read k ih => exact ih w h hj
  | exec s k ih =>
    intro hr
    obtain ⟨hg, hnext⟩ := hstmt s w past h.1 hr hj
    exact ⟨hg, fun hi => ih _ h.2 (hnext hi)⟩
  | await c k ih =>
    exact fun w' hl hi r _ => ih r (h.2 r w') (hlater past w w' hj hl hi)

end Rules

end Prog

/-! ## Soundness -/

namespace Rely

open Prog Pool

variable {M : Machine} {Q B : Type}

/-- The answers an event brings are honest. -/
def Honest (E : Rely M) : Event M Q → Prop
  | .resume _ answer => ∀ c, E.Answers c (answer c)
  | _ => True

/-- The world between turns, with what every process has done and can still assure. -/
structure Stands (E : Rely M) (G : Q → Guarantee M) (D : Q → Outcome M B) (S : Pool M Q B) :
    Prop where
  inv : E.Inv S.world
  kept : ∀ p ∈ S.parked, (G p.request).Kept p.past
  resumable : ∀ p ∈ S.parked, ∀ w, E.Later S.world w → E.Inv w → ∀ r, E.Answers p.call r →
    (p.resume r).Assures E (G p.request) (D p.request) p.past w
  finished : ∀ f ∈ S.finished, (G f.request).Kept f.past ∧ D f.request f.result f.past f.final

/-- The rely is a preorder that holds of every step. -/
structure Valid (E : Rely M) (G : Q → Guarantee M) : Prop where
  refl : ∀ w, E.Later w w
  trans : ∀ {a b c}, E.Later a b → E.Later b c → E.Later a c
  drift : ∀ d w, E.Inv w → E.Inv (M.drift d w) ∧ E.Later w (M.drift d w)
  step : ∀ q past s w, G q past s w → E.Runs s w → E.Inv w →
    E.Inv (M.sem s w).2 ∧ E.Later w (M.sem s w).2

/-- What a turn leaves where it stops. -/
def After (E : Rely M) (G : Guarantee M) (D : Outcome M B) :
    Stop M B → Trace M → M.World → Prop
  | .finished r, past, w => D r past w
  | .suspended c k, past, w => ∀ w', E.Later w w' → E.Inv w' → ∀ r, E.Answers c r →
      (k r).Assures E G D past w'

variable {E : Rely M} {G : Q → Guarantee M} {D : Q → Outcome M B}

/-- A program leaves a later world, and a trace that starts with the one it had. -/
theorem assures_grows (hE : E.Valid G) {q : Q} {α : Type} {R : Outcome M α} {p : Prog M α}
    {past : Trace M} {w : M.World} (hi : E.Inv w) (h : p.Assures E (G q) R past w) :
    p.Assures E (G q) (fun r past' w' => past <+: past' ∧ E.Later w w' ∧ R r past' w') past w := by
  induction p generalizing past w with
  | ret a => exact ⟨List.prefix_rfl, hE.refl w, h⟩
  | fail e => exact ⟨List.prefix_rfl, hE.refl w, h⟩
  | read k ih => exact ih w hi h
  | exec s k ih =>
    intro hr
    obtain ⟨hg, hrest⟩ := h hr
    obtain ⟨hi', hl⟩ := hE.step q past s w hg hr hi
    refine ⟨hg, fun _ => Assures.mono ?_ (ih _ hi' (hrest hi'))⟩
    rintro r past' w' ⟨hpast, hl', hR⟩
    exact ⟨(List.prefix_append _ _).trans hpast, hE.trans hl hl', hR⟩
  | await c k ih =>
    intro w' hl hi' r ha
    refine Assures.mono ?_ (ih r hi' (h w' hl hi' r ha))
    rintro r past' w'' ⟨hpast, hl', hR⟩
    exact ⟨hpast, hE.trans hl hl', hR⟩

theorem Stands.start {w : M.World} (h : E.Inv w) : E.Stands G D (Pool.start w) :=
  ⟨h, fun _ hp => absurd hp List.not_mem_nil, fun _ hp => absurd hp List.not_mem_nil,
    fun _ hf => absurd hf List.not_mem_nil⟩

theorem assures_turn (hE : E.Valid G) {q : Q} {p : Prog M B} {past : Trace M} {w : M.World}
    (h : p.Assures E (G q) (D q) past w) (hm : p.Meets E.Runs w) (hi : E.Inv w)
    (hk : (G q).Kept past) :
    E.After (G q) (D q) (p.turn past w).1 (p.turn past w).2.1 (p.turn past w).2.2 ∧
      (G q).Kept (p.turn past w).2.1 ∧ E.Inv (p.turn past w).2.2 ∧
      E.Later w (p.turn past w).2.2 := by
  induction p generalizing past w with
  | ret a => exact ⟨h, hk, hi, hE.refl w⟩
  | fail e => exact ⟨h, hk, hi, hE.refl w⟩
  | read k ih => exact ih w h hm hi hk
  | exec s k ih =>
    obtain ⟨hg, hrest⟩ := h hm.1
    obtain ⟨hi', hl⟩ := hE.step q past s w hg hm.1 hi
    obtain ⟨hafter, hkept, hinv, hlater⟩ := ih _ (hrest hi') hm.2 hi' (hk.append hg)
    exact ⟨hafter, hkept, hinv, hE.trans hl hlater⟩
  | await c k ih => exact ⟨h, hk, hi, hE.refl w⟩

theorem Stands.advance (hE : E.Valid G) {S : Pool M Q B} (h : E.Stands G D S)
    {rest : List (Process M Q B)} (hrest : ∀ p ∈ rest, p ∈ S.parked) {q : Q} {past : Trace M}
    {p : Prog M B} (hp : p.Assures E (G q) (D q) past S.world) (hm : p.Meets E.Runs S.world)
    (hk : (G q).Kept past) : E.Stands G D (S.advance rest q past p) := by
  obtain ⟨hafter, hkept, hinv, hlater⟩ := assures_turn hE hp hm h.inv hk
  unfold Pool.advance
  generalize p.turn past S.world = out at hafter hkept hinv hlater ⊢
  obtain ⟨stop, past', w⟩ := out
  have hresume : ∀ x ∈ rest, ∀ w', E.Later w w' → E.Inv w' → ∀ r, E.Answers x.call r →
      (x.resume r).Assures E (G x.request) (D x.request) x.past w' :=
    fun x hx w' hl hi r ha => h.resumable x (hrest x hx) w' (hE.trans hlater hl) hi r ha
  cases stop with
  | finished r =>
    refine ⟨hinv, fun x hx => h.kept x (hrest x hx), hresume, ?_⟩
    intro f hf
    rcases List.mem_append.mp hf with hf | hf
    · exact h.finished f hf
    · rw [List.mem_singleton] at hf
      rw [hf]
      exact ⟨hkept, hafter⟩
  | suspended c k =>
    refine ⟨hinv, ?_, ?_, h.finished⟩
    · intro x hx
      rcases List.mem_append.mp hx with hx | hx
      · exact h.kept x (hrest x hx)
      · rw [List.mem_singleton] at hx
        rw [hx]
        exact hkept
    · intro x hx
      rcases List.mem_append.mp hx with hx | hx
      · exact hresume x hx
      · rw [List.mem_singleton] at hx
        rw [hx]
        exact hafter

section Sound

variable {handler : Q → Prog M B} {Arrives : Q → M.World → Prop}

theorem Stands.step (hE : E.Valid G) {S : Pool M Q B} (h : E.Stands G D S)
    (hspawn : ∀ q w, E.Inv w → Arrives q w → (handler q).Assures E (G q) (D q) [] w)
    {e : Event M Q} (he : Admits handler Arrives (fun _ => E.Runs) S e) (hhonest : E.Honest e) :
    E.Stands G D (S.step handler e) := by
  cases e with
  | spawn q =>
    exact h.advance hE (fun _ hp => hp) (hspawn q _ h.inv he.1) he.2 Guarantee.Kept.nil
  | resume i answer =>
    rw [Pool.step]
    cases hp : S.parked[i]? with
    | none => exact h
    | some p =>
      have hmem : p ∈ S.parked := List.mem_of_getElem? hp
      exact h.advance hE (fun _ hx => List.mem_of_mem_eraseIdx hx)
        (h.resumable p hmem _ (hE.refl _) h.inv _ (hhonest p.call)) (he p hp) (h.kept p hmem)
  | drift d =>
    obtain ⟨hinv, hlater⟩ := hE.drift d S.world h.inv
    exact ⟨hinv, h.kept, fun p hp w hl => h.resumable p hp w (hE.trans hlater hl), h.finished⟩

theorem Stands.run (hE : E.Valid G) {S : Pool M Q B} (h : E.Stands G D S)
    (hspawn : ∀ q w, E.Inv w → Arrives q w → (handler q).Assures E (G q) (D q) [] w)
    {events : List (Event M Q)} (hadm : Admissible handler Arrives (fun _ => E.Runs) S events)
    (hhonest : ∀ e ∈ events, E.Honest e) : E.Stands G D (S.run handler events) := by
  unfold Pool.run
  induction events generalizing S with
  | nil => exact h
  | cons e rest ih =>
    refine ih ?_ hadm.2 (fun e' he' => hhonest e' (List.mem_cons_of_mem _ he'))
    exact h.step hE hspawn hadm.1 (hhonest e List.mem_cons_self)

/-- In every admissible run with honest answers every process keeps its guarantee and every
finished one has its outcome. -/
theorem run_stands (hE : E.Valid G) {w : M.World} (hstart : E.Inv w)
    (hspawn : ∀ q w, E.Inv w → Arrives q w → (handler q).Assures E (G q) (D q) [] w)
    {events : List (Event M Q)}
    (hadm : Admissible handler Arrives (fun _ => E.Runs) (Pool.start w) events)
    (hhonest : ∀ e ∈ events, E.Honest e) :
    E.Stands G D ((Pool.start w).run handler events) :=
  Stands.run hE (.start hstart) hspawn hadm hhonest

end Sound

/-! ## A process on its own -/

/-- Nobody else takes a turn: the world only drifts while the process is suspended. -/
def alone (M : Machine) (Answers : (c : M.Call) → M.Reply c → Prop) : Rely M where
  Inv := fun _ => True
  Later := fun w w' => ∃ ds : List M.Drift, w' = ds.foldl (fun w d => M.drift d w) w
  Runs := fun _ _ => True
  Answers := Answers

/-- Only the process at the index takes turns. -/
def Lone (i : Nat) : Event M Q → Prop
  | .spawn _ => False
  | .resume j _ => j = i
  | .drift _ => True

section Alone

variable {A : (c : M.Call) → M.Reply c → Prop} {D : Outcome M B}

theorem alone_refl (w : M.World) : (alone M A).Later w w := ⟨[], rfl⟩

theorem alone_drift {a b : M.World} (h : (alone M A).Later a b) (d : M.Drift) :
    (alone M A).Later a (M.drift d b) := by
  obtain ⟨ds, rfl⟩ := h
  exact ⟨ds ++ [d], by rw [List.foldl_append]; rfl⟩

/-- Where the process stands, next to the pool it was started in. -/
inductive Progress (A : (c : M.Call) → M.Reply c → Prop) (D : Outcome M B) (S₀ S : Pool M Q B) :
    Prop where
  | under (p : Process M Q B) (hparked : S.parked = S₀.parked ++ [p])
      (hfinished : S.finished = S₀.finished)
      (hresume : ∀ w, (alone M A).Later S.world w → ∀ r, A p.call r →
        (p.resume r).Assures (alone M A) (fun _ _ _ => True) D p.past w)
  | done (f : Finished M Q B) (hparked : S.parked = S₀.parked)
      (hfinished : S.finished = S₀.finished ++ [f]) (hout : D f.result f.past f.final)
      (hlater : (alone M A).Later f.final S.world)

theorem alone_turn {p : Prog M B} {past : Trace M} {w : M.World}
    (h : p.Assures (alone M A) (fun _ _ _ => True) D past w) :
    (alone M A).After (fun _ _ _ => True) D (p.turn past w).1 (p.turn past w).2.1
      (p.turn past w).2.2 := by
  induction p generalizing past w with
  | ret a => exact h
  | fail e => exact h
  | read k ih => exact ih w h
  | exec s k ih => exact ih _ ((h trivial).2 trivial)
  | await c k ih => exact h

theorem progress_advance {S₀ S : Pool M Q B} (hfinished : S.finished = S₀.finished) {q : Q}
    {past : Trace M} {p : Prog M B}
    (h : p.Assures (alone M A) (fun _ _ _ => True) D past S.world) :
    Progress A D S₀ (S.advance S₀.parked q past p) := by
  have hafter := alone_turn h
  unfold Pool.advance
  generalize p.turn past S.world = out at hafter ⊢
  obtain ⟨stop, past', w⟩ := out
  cases stop with
  | finished r =>
    exact .done { request := q, past := past', result := r, final := w } rfl
      (by dsimp only; rw [hfinished]) hafter (alone_refl w)
  | suspended c k => exact .under _ rfl hfinished (fun w' hl r ha => hafter w' hl trivial r ha)

variable {handler : Q → Prog M B}

theorem Progress.step {S₀ S : Pool M Q B} (h : Progress A D S₀ S) {e : Event M Q}
    (hown : Lone S₀.parked.length e) (hhonest : (alone M A).Honest e) :
    Progress A D S₀ (S.step handler e) := by
  cases e with
  | spawn q => exact hown.elim
  | resume i answer =>
    change i = S₀.parked.length at hown
    cases h with
    | under p hparked hfinished hresume =>
      have hat : S.parked[i]? = some p := by
        rw [hparked, hown, List.getElem?_append_right (Nat.le_refl _), Nat.sub_self]
        rfl
      have hrest : S.parked.eraseIdx i = S₀.parked := by
        rw [hparked, hown, List.eraseIdx_append_of_length_le (Nat.le_refl _), Nat.sub_self]
        exact List.append_nil _
      rw [Pool.step, hat]
      dsimp only
      rw [hrest]
      exact progress_advance hfinished (hresume _ (alone_refl _) _ (hhonest p.call))
    | done f hparked hfinished hout hlater =>
      have hat : S.parked[i]? = none := by
        rw [hparked, hown]
        exact List.getElem?_eq_none (Nat.le_refl _)
      rw [Pool.step, hat]
      exact .done f hparked hfinished hout hlater
  | drift d =>
    cases h with
    | under p hparked hfinished hresume =>
      refine .under p hparked hfinished (fun w hl => hresume w ?_)
      obtain ⟨ds, rfl⟩ := hl
      exact ⟨d :: ds, rfl⟩
    | done f hparked hfinished hout hlater =>
      exact .done f hparked hfinished hout (alone_drift hlater d)

/-- A request that arrives at a pool and runs on its own comes to the outcome it assures. -/
theorem lone_run {S : Pool M Q B} {q : Q} {own : List (Event M Q)}
    (h : (handler q).Assures (alone M A) (fun _ _ _ => True) D [] S.world)
    (hown : ∀ e ∈ own, Lone S.parked.length e ∧ (alone M A).Honest e) :
    Progress A D S (S.run handler (.spawn q :: own)) := by
  have hstart : Progress A D S (S.step handler (.spawn q)) := progress_advance rfl h
  unfold Pool.run
  rw [List.foldl_cons]
  generalize S.step handler (.spawn q) = T at hstart ⊢
  induction own generalizing T with
  | nil => exact hstart
  | cons e rest ih =>
    have he := hown e List.mem_cons_self
    exact ih (fun e' he' => hown e' (List.mem_cons_of_mem _ he')) _ (hstart.step he.1 he.2)

end Alone

end Rely

end IpfsGate.Lib
