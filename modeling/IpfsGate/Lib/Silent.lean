import IpfsGate.Lib.Extend

/-!
# Programs that only look

A silent program runs no statement. In a pool, the processes of silent requests can be taken out:
what remains is a run of the others, on the same worlds and with the same outcomes.
-/
namespace IpfsGate.Lib

open Prog (Trace)

namespace Prog

variable {M : Machine} {α β : Type}

def Silent : Prog M α → Prop
  | ret _ => True
  | fail _ => True
  | read k => ∀ w, (k w).Silent
  | exec _ _ => False
  | await _ k => ∀ r, (k r).Silent

theorem silent_andThen {p : Prog M α} {f : Except M.Fault α → Prog M β} (hp : p.Silent)
    (hf : ∀ r, (f r).Silent) : (p.andThen f).Silent := by
  induction p with
  | ret a => exact hf _
  | fail e => exact hf _
  | read k ih => exact fun w => ih w (hp w)
  | exec s k ih => exact hp.elim
  | await c k ih => exact fun r => ih r (hp r)

theorem Silent.bind {p : Prog M α} {f : α → Prog M β} (hp : p.Silent) (hf : ∀ a, (f a).Silent) :
    (p.bind f).Silent :=
  silent_andThen hp (fun r => by
    cases r with
    | ok a => exact hf a
    | error e => trivial)

theorem Silent.map (g : α → β) {p : Prog M α} (hp : p.Silent) : (g <$> p).Silent :=
  hp.bind (fun _ => trivial)

theorem silent_require {b : Bool} {e : M.Fault} : (require b e : Prog M Unit).Silent := by
  unfold require
  split <;> trivial

theorem silent_liftExcept {r : Except M.Fault α} : (liftExcept r : Prog M α).Silent := by
  cases r <;> trivial

theorem silent_query (f : M.World → α) : (query f).Silent := fun _ => trivial

/-- A silent program is silent on a larger machine. -/
theorem Silent.lift {N : Machine} (X : Extension M N) (g : α → β) {p : Prog M α} (hp : p.Silent) :
    (p.lift X g).Silent := by
  induction p with
  | ret a => trivial
  | fail e => trivial
  | read k ih => exact fun w => ih _ (hp _)
  | exec s k ih => exact hp.elim
  | await c k ih => exact fun r => ih _ (hp _)

/-- The turn of a silent program changes nothing, and what it leaves to do is silent. -/
theorem Silent.turn {p : Prog M α} (hp : p.Silent) (past : Trace M) (w : M.World) :
    (p.turn past w).2 = (past, w) ∧
      ∀ c k, (p.turn past w).1 = .suspended c k → ∀ r, (k r).Silent := by
  induction p with
  | ret a => exact ⟨rfl, fun c k h => by cases h⟩
  | fail e => exact ⟨rfl, fun c k h => by cases h⟩
  | read k ih => exact ih w (hp w)
  | exec s k ih => exact hp.elim
  | await c k ih =>
    refine ⟨rfl, fun c' k' h => ?_⟩
    cases h
    exact hp

end Prog

/-! ## Places in a list -/

section Places

variable {α : Type} {p : α → Bool} {xs : List α} {i : Nat} {x : α}

/-- The place of an element among those that are kept. -/
def place (p : α → Bool) (xs : List α) (i : Nat) : Nat := ((xs.take i).filter p).length

/-- A kept element has its place among those that are kept. -/
theorem place_kept (hx : xs[i]? = some x) (hkept : p x = true) :
    (xs.filter p)[place p xs i]? = some x ∧
      (xs.filter p).eraseIdx (place p xs i) = (xs.eraseIdx i).filter p := by
  obtain ⟨hi, hget⟩ := List.getElem?_eq_some_iff.mp hx
  have hsplit : xs = xs.take i ++ x :: xs.drop (i + 1) := by
    rw [← hget, ← List.drop_eq_getElem_cons hi, List.take_append_drop]
  have hfilter : xs.filter p = (xs.take i).filter p ++ x :: (xs.drop (i + 1)).filter p := by
    conv_lhs => rw [hsplit, List.filter_append]
    simp only [List.filter_cons, hkept, if_true]
  unfold place
  rw [hfilter]
  constructor
  · rw [List.getElem?_append_right (Nat.le_refl _), Nat.sub_self]
    rfl
  · rw [List.eraseIdx_append_of_length_le (Nat.le_refl _), Nat.sub_self, List.eraseIdx_cons_zero,
      List.eraseIdx_eq_take_drop_succ, List.filter_append]

/-- An element that is not kept leaves the others in their places. -/
theorem eraseIdx_unkept (hx : xs[i]? = some x) (hkept : p x = false) :
    (xs.eraseIdx i).filter p = xs.filter p := by
  obtain ⟨hi, hget⟩ := List.getElem?_eq_some_iff.mp hx
  have hsplit : xs = xs.take i ++ x :: xs.drop (i + 1) := by
    rw [← hget, ← List.drop_eq_getElem_cons hi, List.take_append_drop]
  conv_rhs => rw [hsplit, List.filter_append]
  simp only [List.filter_cons, hkept, Bool.false_eq_true, if_false]
  rw [List.eraseIdx_eq_take_drop_succ, List.filter_append]

end Places

namespace Pool

variable {M : Machine} {Q B : Type}

/-- The processes of the requests that are kept. -/
def keep (kept : Q → Bool) (S : Pool M Q B) : Pool M Q B where
  world := S.world
  parked := S.parked.filter (fun p => kept p.request)
  finished := S.finished.filter (fun f => kept f.request)

/-- What is left to run of the other processes is silent. -/
def SilentBut (kept : Q → Bool) (S : Pool M Q B) : Prop :=
  ∀ p ∈ S.parked, kept p.request = false → ∀ r, (p.resume r).Silent

/-- An event, as it is without the requests that are not kept. -/
def keepEvent (kept : Q → Bool) (S : Pool M Q B) : Event M Q → Option (Event M Q)
  | .spawn q => if kept q then some (.spawn q) else none
  | .resume i answer =>
    match S.parked[i]? with
    | none => none
    | some p => if kept p.request then some (.resume (place (fun p => kept p.request) S.parked i) answer) else none
  | .drift d => some (.drift d)

/-- The events that are left of a run. -/
def keepEvents (handler : Q → Prog M B) (kept : Q → Bool) (S : Pool M Q B) :
    List (Event M Q) → List (Event M Q)
  | [] => []
  | e :: rest => (S.keepEvent kept e).toList ++ keepEvents handler kept (S.step handler e) rest

/-- The request that arrives. -/
def arriving : Event M Q → Option Q
  | .spawn q => some q
  | .resume _ _ => none
  | .drift _ => none

variable {handler : Q → Prog M B} {kept : Q → Bool} {S : Pool M Q B}

theorem advance_kept {rest : List (Process M Q B)} {q : Q} {past : Trace M} {p : Prog M B}
    (hkept : kept q = true) :
    (S.advance rest q past p).keep kept =
      (S.keep kept).advance (rest.filter (fun p => kept p.request)) q past p := by
  unfold advance keep
  dsimp only
  generalize p.turn past S.world = out
  obtain ⟨stop, past', w⟩ := out
  cases stop with
  | finished r => simp [hkept]
  | suspended c k => simp [hkept]

theorem advance_unkept {rest : List (Process M Q B)} {q : Q} {past : Trace M} {p : Prog M B}
    (hkept : kept q = false) (hp : p.Silent) :
    (S.advance rest q past p).keep kept =
      { S.keep kept with parked := rest.filter (fun p => kept p.request) } := by
  have hturn := (hp.turn past S.world).1
  unfold advance keep
  generalize p.turn past S.world = out at hturn
  obtain ⟨stop, past', w⟩ := out
  cases hturn
  cases stop with
  | finished r => simp [hkept]
  | suspended c k => simp [hkept]

theorem SilentBut.advance {rest : List (Process M Q B)}
    (hrest : ∀ p ∈ rest, kept p.request = false → ∀ r, (p.resume r).Silent) {q : Q}
    {past : Trace M} {p : Prog M B} (hp : kept q = false → p.Silent) :
    (S.advance rest q past p).SilentBut kept := by
  have hk : kept q = false → ∀ c k, (p.turn past S.world).1 = .suspended c k →
      ∀ r, (k r).Silent := fun hq => ((hp hq).turn past S.world).2
  unfold Pool.advance
  generalize p.turn past S.world = out at hk
  obtain ⟨stop, past', w⟩ := out
  cases stop with
  | finished r => exact hrest
  | suspended c k =>
    intro x hx hx'
    rcases List.mem_append.mp hx with hx | hx
    · exact hrest x hx hx'
    · rw [List.mem_singleton] at hx
      subst hx
      exact hk hx' c k rfl

/-- A step with the other processes taken out is the step that is left of it. -/
theorem SilentBut.step (hsilent : ∀ q, kept q = false → (handler q).Silent)
    (hS : S.SilentBut kept) (e : Event M Q) :
    (S.step handler e).SilentBut kept ∧
      (S.step handler e).keep kept = (S.keep kept).run handler (S.keepEvent kept e).toList := by
  cases e with
  | spawn q =>
    refine ⟨SilentBut.advance hS (hsilent q), ?_⟩
    cases hq : kept q with
    | true =>
      rw [Pool.step, advance_kept hq, keepEvent, if_pos hq]
      rfl
    | false =>
      rw [Pool.step, advance_unkept hq (hsilent q hq), keepEvent, hq, if_neg Bool.false_ne_true]
      rfl
  | resume i answer =>
    rw [Pool.step, keepEvent]
    cases hp : S.parked[i]? with
    | none => exact ⟨hS, rfl⟩
    | some p =>
      dsimp only
      have hmem := List.mem_of_getElem? hp
      refine ⟨SilentBut.advance (fun x hx => hS x (List.mem_of_mem_eraseIdx hx))
        (fun hq => hS p hmem hq _), ?_⟩
      cases hq : kept p.request with
      | true =>
        obtain ⟨hplace, herase⟩ := place_kept (p := fun x : Process M Q B => kept x.request) hp hq
        rw [advance_kept hq, if_pos rfl, ← herase]
        show _ = (S.keep kept).step handler
          (.resume (place (fun x => kept x.request) S.parked i) answer)
        rw [Pool.step, show (S.keep kept).parked[place (fun x => kept x.request) S.parked i]? =
          some p from hplace]
        rfl
      | false =>
        rw [advance_unkept hq (hS p hmem hq _),
          eraseIdx_unkept (p := fun x : Process M Q B => kept x.request) hp hq, if_neg Bool.false_ne_true]
        rfl
  | drift d => exact ⟨hS, rfl⟩

/-- A run with the other processes taken out is the run of the events that are left. -/
theorem SilentBut.run (hsilent : ∀ q, kept q = false → (handler q).Silent)
    (hS : S.SilentBut kept) (events : List (Event M Q)) :
    (S.run handler events).keep kept =
      (S.keep kept).run handler (keepEvents handler kept S events) := by
  induction events generalizing S with
  | nil => rfl
  | cons e rest ih =>
    obtain ⟨hnext, hstep⟩ := hS.step hsilent e
    have hrest := ih hnext
    show ((S.step handler e).run handler rest).keep kept = _
    rw [hrest, hstep, keepEvents]
    unfold run
    rw [List.foldl_append]

/-- The requests that arrive in what is left are those that are kept. -/
theorem arriving_keepEvents (S : Pool M Q B) (events : List (Event M Q)) :
    (keepEvents handler kept S events).filterMap arriving =
      (events.filterMap arriving).filter kept := by
  induction events generalizing S with
  | nil => rfl
  | cons e rest ih =>
    rw [keepEvents, List.filterMap_append, ih]
    cases e with
    | spawn q =>
      cases hq : kept q <;> simp [keepEvent, arriving, hq]
    | resume i answer =>
      show _ = (rest.filterMap arriving).filter kept
      rw [keepEvent]
      split
      · rfl
      · split <;> rfl
    | drift d => rfl

/-- A run of a larger machine whose requests are all of the smaller one comes from events of the
smaller one. -/
theorem exists_lifted {N : Machine} {Q' : Type} (X : Extension M N) (ask : Q → Q')
    (hdrift : Function.Surjective X.drift) (events' : List (Event N Q'))
    (h : ∀ q' ∈ events'.filterMap arriving, ∃ q, ask q = q') :
    ∃ events : List (Event M Q), List.Forall₂ (EventLifts X ask) events events' ∧
      (events.filterMap arriving).map ask = events'.filterMap arriving := by
  induction events' with
  | nil => exact ⟨[], .nil, rfl⟩
  | cons e rest ih =>
    cases e with
    | spawn q' =>
      obtain ⟨q, rfl⟩ := h q' List.mem_cons_self
      obtain ⟨events, hlifts, hasked⟩ := ih (fun q' hq' => h q' (List.mem_cons_of_mem _ hq'))
      exact ⟨.spawn q :: events, .cons (.spawn q) hlifts, congrArg (ask q :: ·) hasked⟩
    | resume i answer =>
      obtain ⟨events, hlifts, hasked⟩ := ih h
      exact ⟨.resume i (fun c => X.reply c (answer (X.call c))) :: events,
        .cons (.resume i _ answer (fun _ => rfl)) hlifts, hasked⟩
    | drift d =>
      obtain ⟨d, rfl⟩ := hdrift d
      obtain ⟨events, hlifts, hasked⟩ := ih h
      exact ⟨.drift d :: events, .cons (.drift d) hlifts, hasked⟩

end Pool

end IpfsGate.Lib
