import IpfsGate.Lib.Program

/-!
# Weakest preconditions for cooperative programs

A protocol says what holds whenever no turn is under way, given the calls that processes wait
for and a ghost value each of them holds. A turn may break it in between. `wp` lets a process
rely on the protocol after every call and makes it restore the protocol before every call.
-/
namespace IpfsGate.Lib

open Prog (Trace Stop)

structure Protocol (M : Machine) (H : Type) where
  Inv : Multiset (M.Call × H) → M.World → Prop
  /-- What may be assumed of a statement, next to the calls of the other processes. -/
  Runs : Multiset M.Call → M.Stmt → M.World → Prop

/-- A condition on the outcome of a program, the other processes, its trace and the world. -/
abbrev Post (M : Machine) (H α : Type) :=
  Except M.Fault α → Multiset (M.Call × H) → Trace M → M.World → Prop

namespace Prog

variable {M : Machine} {H α β : Type}

def wp (L : Protocol M H) (Q : Post M H α) :
    Prog M α → Multiset (M.Call × H) → Trace M → M.World → Prop
  | ret a, frame, past, w => Q (.ok a) frame past w
  | fail e, frame, past, w => Q (.error e) frame past w
  | read k, frame, past, w => (k w).wp L Q frame past w
  | exec s k, frame, past, w =>
    L.Runs (frame.map Prod.fst) s w →
      (k (M.sem s w).1).wp L Q frame (past ++ [(s, w)]) (M.sem s w).2
  | await c k, frame, past, w =>
    ∃ h, L.Inv ((c, h) ::ₘ frame) w ∧
      ∀ frame' w', L.Inv ((c, h) ::ₘ frame') w' → ∀ r, (k r).wp L Q frame' past w'

section Rules

variable {L : Protocol M H} {frame : Multiset (M.Call × H)} {past : Trace M} {w : M.World}

theorem wp_mono {Q Q' : Post M H α} (hQ : ∀ r frame past w, Q r frame past w → Q' r frame past w)
    {p : Prog M α} (h : p.wp L Q frame past w) : p.wp L Q' frame past w := by
  induction p generalizing frame past w with
  | ret a => exact hQ _ _ _ _ h
  | fail e => exact hQ _ _ _ _ h
  | read k ih => exact ih w h
  | exec s k ih => exact fun hr => ih _ (h hr)
  | await c k ih =>
    obtain ⟨g, hinv, hk⟩ := h
    exact ⟨g, hinv, fun frame' w' hi r => ih r (hk frame' w' hi r)⟩

theorem wp_andThen {Q : Post M H β} {p : Prog M α} {f : Except M.Fault α → Prog M β} :
    (p.andThen f).wp L Q frame past w ↔
      p.wp L (fun r frame past w => (f r).wp L Q frame past w) frame past w := by
  induction p generalizing frame past w with
  | ret a => exact Iff.rfl
  | fail e => exact Iff.rfl
  | read k ih => exact ih w
  | exec s k ih => exact imp_congr_right (fun _ => ih _)
  | await c k ih =>
    constructor
    · rintro ⟨g, hinv, hk⟩
      exact ⟨g, hinv, fun frame' w' hi r => (ih r).mp (hk frame' w' hi r)⟩
    · rintro ⟨g, hinv, hk⟩
      exact ⟨g, hinv, fun frame' w' hi r => (ih r).mpr (hk frame' w' hi r)⟩

/-- A bind from what its first part guarantees. -/
theorem wp_bind {Q : Post M H β} {p : Prog M α} {f : α → Prog M β}
    (h : p.wp L (fun r frame past w => match r with
      | .ok a => (f a).wp L Q frame past w
      | .error e => Q (.error e) frame past w) frame past w) :
    (p.bind f).wp L Q frame past w := by
  refine wp_andThen.mpr (wp_mono ?_ h)
  intro r frame past w hr
  cases r with
  | ok a => exact hr
  | error e => exact hr

theorem wp_require {Q : Post M H β} {b : Bool} {e : M.Fault} {f : Unit → Prog M β}
    (hfail : Q (.error e) frame past w)
    (hok : b = true → (f ()).wp L Q frame past w) :
    ((require b e).bind f).wp L Q frame past w := by
  unfold require
  by_cases hb : b = true
  · rw [if_pos hb]
    exact hok hb
  · rw [if_neg hb]
    exact hfail

theorem wp_liftExcept {Q : Post M H β} {r : Except M.Fault α} {f : α → Prog M β}
    (hfail : ∀ e, r = .error e → Q (.error e) frame past w)
    (hok : ∀ a, r = .ok a → (f a).wp L Q frame past w) :
    ((liftExcept r).bind f).wp L Q frame past w := by
  cases r with
  | ok a => exact hok a rfl
  | error e => exact hfail e rfl

/-- A loop, by an invariant that speaks of the elements still to come. -/
theorem wp_fold {Q : Post M H β} {f : β → α → Prog M β}
    (I : List α → β → Multiset (M.Call × H) → Trace M → M.World → Prop)
    (hstep : ∀ a rest b frame past w, I (a :: rest) b frame past w →
      (f b a).wp L (fun r frame past w => match r with
        | .ok b' => I rest b' frame past w
        | .error e => Q (.error e) frame past w) frame past w)
    (hdone : ∀ b frame past w, I [] b frame past w → Q (.ok b) frame past w)
    {xs : List α} {b : β} (h : I xs b frame past w) : (fold f xs b).wp L Q frame past w := by
  induction xs generalizing b frame past w with
  | nil => exact hdone b frame past w h
  | cons a rest ih =>
    rw [fold_cons]
    refine wp_bind (wp_mono ?_ (hstep a rest b frame past w h))
    intro r frame past w hr
    cases r with
    | ok b' => exact ih hr
    | error e => exact hr

end Rules

/-! ## What a program writes -/

/-- Every statement is permitted in the world it runs in and every call is permitted, whatever
the other processes do in between. -/
def Emits (G : M.Stmt → M.World → Prop) (A : M.Call → Prop)
    (Q : Except M.Fault α → M.World → Prop) : Prog M α → M.World → Prop
  | ret a, w => Q (.ok a) w
  | fail e, w => Q (.error e) w
  | read k, w => (k w).Emits G A Q w
  | exec s k, w => G s w ∧ (k (M.sem s w).1).Emits G A Q (M.sem s w).2
  | await c k, _ => A c ∧ ∀ r w', (k r).Emits G A Q w'

section Emits

variable {G : M.Stmt → M.World → Prop} {A : M.Call → Prop} {w : M.World}

theorem Emits.mono {Q Q' : Except M.Fault α → M.World → Prop} (hQ : ∀ r w, Q r w → Q' r w)
    {p : Prog M α} (h : p.Emits G A Q w) : p.Emits G A Q' w := by
  induction p generalizing w with
  | ret a => exact hQ _ _ h
  | fail e => exact hQ _ _ h
  | read k ih => exact ih w h
  | exec s k ih => exact ⟨h.1, ih _ h.2⟩
  | await c k ih => exact ⟨h.1, fun r w' => ih r (h.2 r w')⟩

/-- A program that keeps to a table keeps to every wider one. -/
theorem Emits.weaken {G' : M.Stmt → M.World → Prop} {A' : M.Call → Prop}
    {Q : Except M.Fault α → M.World → Prop} {p : Prog M α} (h : p.Emits G A Q w)
    (hG : ∀ s w, G s w → G' s w) (hA : ∀ c, A c → A' c) : p.Emits G' A' Q w := by
  induction p generalizing w with
  | ret a => exact h
  | fail e => exact h
  | read k ih => exact ih w h
  | exec s k ih => exact ⟨hG s w h.1, ih _ h.2⟩
  | await c k ih => exact ⟨hA c h.1, fun r w' => ih r (h.2 r w')⟩

theorem emits_andThen {Q : Except M.Fault β → M.World → Prop} {p : Prog M α}
    {f : Except M.Fault α → Prog M β} :
    (p.andThen f).Emits G A Q w ↔ p.Emits G A (fun r w => (f r).Emits G A Q w) w := by
  induction p generalizing w with
  | ret a => exact Iff.rfl
  | fail e => exact Iff.rfl
  | read k ih => exact ih w
  | exec s k ih => exact and_congr_right (fun _ => ih _)
  | await c k ih =>
    exact and_congr_right (fun _ => forall_congr' (fun r => forall_congr' (fun _ => ih r)))

theorem emits_bind {Q : Except M.Fault β → M.World → Prop} {p : Prog M α} {f : α → Prog M β}
    (h : p.Emits G A (fun r w => match r with
      | .ok a => (f a).Emits G A Q w
      | .error e => Q (.error e) w) w) : (p.bind f).Emits G A Q w := by
  refine emits_andThen.mpr (Emits.mono ?_ h)
  intro r w hr
  cases r with
  | ok a => exact hr
  | error e => exact hr

/-- A program whose statements all keep an assertion under which it can park keeps it. -/
theorem Emits.wp {L : Protocol M H} {J : Multiset (M.Call × H) → Trace M → M.World → Prop}
    {Q : Except M.Fault α → M.World → Prop}
    (hstmt : ∀ s w frame past, G s w → L.Runs (frame.map Prod.fst) s w → J frame past w →
      J frame (past ++ [(s, w)]) (M.sem s w).2)
    (hpark : ∀ c frame past w, A c → J frame past w → ∃ g, L.Inv ((c, g) ::ₘ frame) w ∧
      ∀ frame' w', L.Inv ((c, g) ::ₘ frame') w' → J frame' past w')
    {p : Prog M α} {frame : Multiset (M.Call × H)} {past : Trace M} {w : M.World}
    (h : p.Emits G A Q w) (hj : J frame past w) :
    p.wp L (fun r frame past w => J frame past w ∧ Q r w) frame past w := by
  induction p generalizing frame past w with
  | ret a => exact ⟨hj, h⟩
  | fail e => exact ⟨hj, h⟩
  | read k ih => exact ih w h hj
  | exec s k ih => exact fun hr => ih _ h.2 (hstmt s w frame past h.1 hr hj)
  | await c k ih =>
    obtain ⟨g, hi, hk⟩ := hpark c frame past w h.1 hj
    exact ⟨g, hi, fun frame' w' hi' r => ih r (h.2 r w') (hk frame' w' hi')⟩

end Emits

end Prog

/-! ## Soundness -/

namespace Protocol

open Prog Pool

variable {M : Machine} {H Q B : Type} (L : Protocol M H)

/-- What a finished process leaves behind. -/
abbrev Done (M : Machine) (Q B : Type) :=
  Q → Except M.Fault B → Trace M → M.World → Prop

def post (D : Done M Q B) (q : Q) : Post M H B :=
  fun r frame past w => L.Inv frame w ∧ D q r past w

/-- Once the protocol holds again, the process can go on whatever the answer. -/
def Resumable (D : Done M Q B) (p : Process M Q B) (h : H) : Prop :=
  ∀ frame w, L.Inv ((p.call, h) ::ₘ frame) w →
    ∀ r, (p.resume r).wp L (L.post D p.request) frame p.past w

/-- The calls and ghosts of the parked processes. -/
def frame (held : List (Process M Q B × H)) : Multiset (M.Call × H) :=
  held.map (fun x => (x.1.call, x.2))

/-- The protocol holds, every parked process can go on, and the finished ones are done. -/
structure Holds (D : Done M Q B) (S : Pool M Q B) (held : List (Process M Q B × H)) : Prop where
  parked : held.map Prod.fst = S.parked
  inv : L.Inv (frame held) S.world
  resumable : ∀ x ∈ held, L.Resumable D x.1 x.2
  finished : ∀ f ∈ S.finished, D f.request f.result f.past f.final

variable {L}

theorem frame_calls (held : List (Process M Q B × H)) :
    (frame held).map Prod.fst = calls (held.map Prod.fst) := by
  simp only [frame, calls, Multiset.map_coe, List.map_map]
  rfl

/-- What a turn has to establish where it stops. -/
def After (L : Protocol M H) (D : Post M H B) (frame : Multiset (M.Call × H)) :
    Stop M B → Trace M → M.World → Prop
  | .finished r, past, w => D r frame past w
  | .suspended c k, past, w => ∃ g, L.Inv ((c, g) ::ₘ frame) w ∧
      ∀ frame' w', L.Inv ((c, g) ::ₘ frame') w' → ∀ r, (k r).wp L D frame' past w'

theorem wp_turn {D : Post M H B} {p : Prog M B} {frame : Multiset (M.Call × H)}
    {past : Trace M} {w : M.World} (h : p.wp L D frame past w)
    (hm : p.Meets (L.Runs (frame.map Prod.fst)) w) :
    L.After D frame (p.turn past w).1 (p.turn past w).2.1 (p.turn past w).2.2 := by
  induction p generalizing past w with
  | ret a => exact h
  | fail e => exact h
  | read k ih => exact ih w h hm
  | exec s k ih => exact ih _ (h hm.1) hm.2
  | await c k ih => exact h

theorem Holds.advance {D : Done M Q B} {S : Pool M Q B} {rest : List (Process M Q B × H)}
    {q : Q} {past : Trace M} {p : Prog M B}
    (hrest : ∀ x ∈ rest, L.Resumable D x.1 x.2)
    (hfin : ∀ f ∈ S.finished, D f.request f.result f.past f.final)
    (hwp : p.wp L (L.post D q) (frame rest) past S.world)
    (hm : p.Meets (L.Runs (calls (rest.map Prod.fst))) S.world) :
    ∃ held, L.Holds D (S.advance (rest.map Prod.fst) q past p) held := by
  rw [← frame_calls] at hm
  have h := wp_turn hwp hm
  unfold Pool.advance
  generalize p.turn past S.world = out at h ⊢
  obtain ⟨stop, past', w⟩ := out
  cases stop with
  | finished r =>
    refine ⟨rest, rfl, h.1, hrest, ?_⟩
    intro f hf
    rcases List.mem_append.mp hf with hf | hf
    · exact hfin f hf
    · rw [List.mem_singleton] at hf
      rw [hf]
      exact h.2
  | suspended c k =>
    obtain ⟨g, hinv, hk⟩ := h
    refine ⟨rest ++ [({ request := q, call := c, past := past', resume := k }, g)], ?_, ?_, ?_,
      hfin⟩
    · simp
    · have hframe : frame (rest ++ [(({ request := q, call := c, past := past', resume := k } :
          Process M Q B), g)]) = (c, g) ::ₘ frame rest := by
        simp only [frame, List.map_append, List.map_cons, List.map_nil]
        exact Multiset.coe_eq_coe.mpr (List.perm_append_singleton _ _)
      rw [hframe]
      exact hinv
    · intro x hx
      rcases List.mem_append.mp hx with hx | hx
      · exact hrest x hx
      · rw [List.mem_singleton] at hx
        rw [hx]
        exact hk

/-- Taking one process out of the frame. -/
theorem frame_eraseIdx {held : List (Process M Q B × H)} {i : Nat} {x : Process M Q B × H}
    (h : held[i]? = some x) : frame held = (x.1.call, x.2) ::ₘ frame (held.eraseIdx i) := by
  obtain ⟨hi, rfl⟩ := List.getElem?_eq_some_iff.mp h
  have hperm : held.Perm (held[i] :: held.eraseIdx i) := (List.getElem_cons_eraseIdx_perm hi).symm
  exact Multiset.coe_eq_coe.mpr (hperm.map _)

section Sound

variable {handler : Q → Prog M B} {Arrives : Q → M.World → Prop} {D : Done M Q B}

/-- Every event a pool admits keeps the protocol. -/
theorem Holds.step {S : Pool M Q B} {held : List (Process M Q B × H)} (h : L.Holds D S held)
    (hdrift : ∀ d frame w, L.Inv frame w → L.Inv frame (M.drift d w))
    (hspawn : ∀ q frame w, L.Inv frame w → Arrives q w →
      (handler q).wp L (L.post D q) frame [] w)
    {e : Event M Q} (he : Admits handler Arrives L.Runs S e) :
    ∃ held', L.Holds D (S.step handler e) held' := by
  cases e with
  | spawn q =>
    have hm := he.2
    rw [← h.parked] at hm
    rw [Pool.step, ← h.parked]
    exact Holds.advance h.resumable h.finished (hspawn q _ _ h.inv he.1) hm
  | resume i answer =>
    rw [Pool.step]
    cases hp : S.parked[i]? with
    | none => exact ⟨held, h⟩
    | some p =>
      have hm := he p hp
      rw [← h.parked, List.getElem?_map, Option.map_eq_some_iff] at hp
      obtain ⟨x, hx, rfl⟩ := hp
      have hinv := h.inv
      rw [frame_eraseIdx hx] at hinv
      have hmem : x ∈ held := List.mem_of_getElem? hx
      have hrest : S.parked.eraseIdx i = (held.eraseIdx i).map Prod.fst := by
        rw [← h.parked, List.eraseIdx_map]
      rw [hrest] at hm ⊢
      exact Holds.advance (fun y hy => h.resumable y (List.mem_of_mem_eraseIdx hy)) h.finished
        (h.resumable x hmem _ _ hinv _) hm
  | drift d => exact ⟨held, h.parked, hdrift d _ _ h.inv, h.resumable, h.finished⟩

/-- In every admissible run the protocol holds after every event and every finished process
is done. -/
theorem run_holds {w : M.World} (hstart : L.Inv 0 w)
    (hdrift : ∀ d frame w, L.Inv frame w → L.Inv frame (M.drift d w))
    (hspawn : ∀ q frame w, L.Inv frame w → Arrives q w →
      (handler q).wp L (L.post D q) frame [] w)
    {events : List (Event M Q)}
    (hadm : Admissible handler Arrives L.Runs (Pool.start w) events) :
    ∃ held, L.Holds D ((Pool.start w).run handler events) held := by
  have hbase : ∃ held, L.Holds D (Pool.start (Q := Q) (B := B) w) held :=
    ⟨[], rfl, hstart, fun x hx => absurd hx List.not_mem_nil,
      fun f hf => absurd hf List.not_mem_nil⟩
  unfold Pool.run
  generalize Pool.start (Q := Q) (B := B) w = S at hadm hbase ⊢
  induction events generalizing S with
  | nil => exact hbase
  | cons e rest ih =>
    obtain ⟨held, h⟩ := hbase
    exact ih _ hadm.2 (h.step hdrift hspawn hadm.1)

end Sound

/-- The protocol of a property of the world alone. -/
def ofWorld (P : M.World → Prop) (Ok : M.Stmt → M.World → Prop) : Protocol M Unit where
  Inv := fun _ => P
  Runs := fun _ => Ok

/-- A property of the world that every permitted statement keeps holds after every admissible
run. -/
theorem run_invariant {handler : Q → Prog M B} {Arrives : Q → M.World → Prop}
    {P : M.World → Prop} {G Ok : M.Stmt → M.World → Prop} {w : M.World} (hstart : P w)
    (hdrift : ∀ d w, P w → P (M.drift d w))
    (hstmt : ∀ s w, G s w → Ok s w → P w → P (M.sem s w).2)
    (hemits : ∀ q w, Arrives q w → (handler q).Emits G (fun _ => True) (fun _ _ => True) w)
    {events : List (Event M Q)}
    (hadm : Admissible handler Arrives (fun _ => Ok) (Pool.start w) events) :
    P ((Pool.start w).run handler events).world := by
  have hspawn : ∀ q frame w, (ofWorld P Ok).Inv frame w → Arrives q w →
      (handler q).wp (ofWorld P Ok) ((ofWorld P Ok).post (fun _ _ _ _ => True) q) frame [] w := by
    intro q frame w hi ha
    refine wp_mono ?_ (Emits.wp (L := ofWorld P Ok) (J := fun _ _ => P)
      (fun s w _ _ hg hr hw => hstmt s w hg hr hw)
      (fun _ _ _ _ _ hw => ⟨(), hw, fun _ _ hw' => hw'⟩) (hemits q w ha) hi)
    intro r frame past w h
    exact ⟨h.1, trivial⟩
  obtain ⟨held, h⟩ := run_holds (L := ofWorld P Ok) hstart (fun d _ => hdrift d) hspawn hadm
  exact h.inv

end Protocol

end IpfsGate.Lib
