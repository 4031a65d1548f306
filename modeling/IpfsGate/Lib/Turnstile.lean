import IpfsGate.Lib.Silent

/-!
# A turnstile before a pool

Every request that arrives is counted, and let in or turned away. What is let in waits until its
process starts, or leaves before that. Behind the turnstile the processes of silent requests can be
taken out, as long as the requests are counted: the others are let in and served as before.
-/
namespace IpfsGate.Lib

/-- `count` gives the error that a request is turned away with, if it is, and the next count. -/
structure Turnstile (M : Machine) (Q C : Type) where
  Count : Type
  start : Count
  count : C → Q → M.World → Count → Option M.Fault × Count

/-- A pool behind a turnstile, with what is let in and what is turned away. -/
structure Entrance {M : Machine} {Q C : Type} (T : Turnstile M Q C) (B : Type) where
  pool : Pool M Q B
  counted : T.Count
  waiting : List Q
  turnedAway : List (Q × M.Fault)

/-- A client's request arrives; one that waits enters or leaves; the rest is as in the pool. -/
inductive Knock (M : Machine) (Q C : Type) where
  | arrive (client : C) (q : Q)
  | enter (i : Nat)
  | leave (i : Nat)
  | resume (i : Nat) (answer : (c : M.Call) → M.Reply c)
  | drift (d : M.Drift)

namespace Entrance

variable {M : Machine} {Q C B : Type} {T : Turnstile M Q C}

def start (T : Turnstile M Q C) (w : M.World) : Entrance T B :=
  { pool := Pool.start w, counted := T.start, waiting := [], turnedAway := [] }

def arrive (S : Entrance T B) (client : C) (q : Q) : Entrance T B :=
  match T.count client q S.pool.world S.counted with
  | (none, counted) => { S with counted, waiting := S.waiting ++ [q] }
  | (some e, counted) => { S with counted, turnedAway := S.turnedAway ++ [(q, e)] }

def step (handler : Q → Prog M B) (S : Entrance T B) : Knock M Q C → Entrance T B
  | .arrive client q => S.arrive client q
  | .enter i =>
    match S.waiting[i]? with
    | none => S
    | some q =>
      { S with pool := S.pool.step handler (.spawn q), waiting := S.waiting.eraseIdx i }
  | .leave i => { S with waiting := S.waiting.eraseIdx i }
  | .resume i answer => { S with pool := S.pool.step handler (.resume i answer) }
  | .drift d => { S with pool := S.pool.step handler (.drift d) }

def run (handler : Q → Prog M B) (S : Entrance T B) (events : List (Knock M Q C)) :
    Entrance T B := events.foldl (step handler) S

/-- The request that arrives, and its client. -/
def arriving : Knock M Q C → Option (C × Q)
  | .arrive client q => some (client, q)
  | _ => none

/-! ## What reaches the pool -/

def poolEvent (S : Entrance T B) : Knock M Q C → Option (Event M Q)
  | .arrive _ _ => none
  | .enter i => S.waiting[i]?.map .spawn
  | .leave _ => none
  | .resume i answer => some (.resume i answer)
  | .drift d => some (.drift d)

/-- The events of the pool in a run. -/
def poolEvents (handler : Q → Prog M B) (S : Entrance T B) :
    List (Knock M Q C) → List (Event M Q)
  | [] => []
  | e :: rest => (S.poolEvent e).toList ++ poolEvents handler (S.step handler e) rest

variable {handler : Q → Prog M B} {S : Entrance T B}

theorem pool_arrive (S : Entrance T B) (client : C) (q : Q) :
    (S.arrive client q).pool = S.pool := by
  unfold arrive
  split <;> rfl

theorem pool_step (e : Knock M Q C) :
    (S.step handler e).pool = S.pool.run handler (S.poolEvent e).toList := by
  cases e with
  | arrive client q => exact pool_arrive S client q
  | enter i =>
    rw [step, poolEvent]
    cases S.waiting[i]? with
    | none => rfl
    | some q => rfl
  | leave i => rfl
  | resume i answer => rfl
  | drift d => rfl

/-- Behind the turnstile the pool runs as it does alone. -/
theorem pool_run (S : Entrance T B) (events : List (Knock M Q C)) :
    (S.run handler events).pool = S.pool.run handler (S.poolEvents handler events) := by
  induction events generalizing S with
  | nil => rfl
  | cons e rest ih =>
    have hrest := ih (S.step handler e)
    rw [pool_step] at hrest
    rw [poolEvents, Pool.run, List.foldl_append]
    exact hrest

/-! ## Taking silent requests out -/

/-- The requests that are kept, behind the turnstile. -/
def keep (kept : Q → Bool) (S : Entrance T B) : Entrance T B where
  pool := S.pool.keep kept
  counted := S.counted
  waiting := S.waiting.filter kept
  turnedAway := S.turnedAway

/-- An event without what the other requests do inside: they are counted, and leave. -/
def keepKnock (kept counts : Q → Bool) (S : Entrance T B) : Knock M Q C → List (Knock M Q C)
  | .arrive client q =>
    if kept q then [.arrive client q]
    else if counts q then
      .arrive client q ::
        (if (T.count client q S.pool.world S.counted).1.isNone
          then [.leave (S.waiting.filter kept).length] else [])
    else []
  | .enter i =>
    match S.waiting[i]? with
    | none => []
    | some q => if kept q then [.enter (place kept S.waiting i)] else []
  | .leave i =>
    match S.waiting[i]? with
    | none => []
    | some q => if kept q then [.leave (place kept S.waiting i)] else []
  | .resume i answer =>
    match S.pool.parked[i]? with
    | none => []
    | some p =>
      if kept p.request then
        [.resume (place (fun p => kept p.request) S.pool.parked i) answer]
      else []
  | .drift d => [.drift d]

def keepKnocks (handler : Q → Prog M B) (kept counts : Q → Bool) (S : Entrance T B) :
    List (Knock M Q C) → List (Knock M Q C)
  | [] => []
  | e :: rest => S.keepKnock kept counts e ++ keepKnocks handler kept counts (S.step handler e) rest

variable {kept counts : Q → Bool}

/-- An arrival that is not kept leaves the count it makes. -/
theorem arrive_keep (hfree : ∀ client q w n, counts q = false → T.count client q w n = (none, n))
    (client : C) (q : Q) :
    (S.arrive client q).keep kept =
      (S.keep kept).run handler (S.keepKnock kept counts (.arrive client q)) := by
  have hkeep : ∀ c, c = T.count client q S.pool.world S.counted →
      (S.keep kept).arrive client q =
        match c with
        | (none, counted) => { S.keep kept with counted, waiting := S.waiting.filter kept ++ [q] }
        | (some e, counted) =>
          { S.keep kept with counted, turnedAway := S.turnedAway ++ [(q, e)] } := by
    rintro c rfl
    rfl
  rw [arrive, keepKnock]
  generalize hcount : T.count client q S.pool.world S.counted = c at hkeep ⊢
  specialize hkeep c rfl
  obtain ⟨e, counted⟩ := c
  by_cases hkept : kept q = true
  · rw [if_pos hkept]
    show _ = (S.keep kept).arrive client q
    rw [hkeep]
    cases e with
    | none => simp [keep, hkept]
    | some e => rfl
  rw [if_neg hkept]
  by_cases hcounts : counts q = true
  · rw [if_pos hcounts]
    cases e with
    | none =>
      show _ = ((S.keep kept).arrive client q).step handler (.leave (S.waiting.filter kept).length)
      rw [hkeep]
      simp [keep, hkept, step, List.eraseIdx_append_of_length_le]
    | some e =>
      show _ = (S.keep kept).arrive client q
      rw [hkeep]
      rfl
  · rw [if_neg hcounts]
    have hin := hfree client q S.pool.world S.counted (Bool.not_eq_true _ ▸ hcounts)
    rw [hcount] at hin
    cases hin
    simp [keep, hkept, run]

/-- A step with the other processes taken out is the step that is left of it. -/
theorem step_keep (hsilent : ∀ q, kept q = false → (handler q).Silent)
    (hfree : ∀ client q w n, counts q = false → T.count client q w n = (none, n))
    (hS : S.pool.SilentBut kept) (e : Knock M Q C) :
    (S.step handler e).pool.SilentBut kept ∧
      (S.step handler e).keep kept = (S.keep kept).run handler (S.keepKnock kept counts e) := by
  cases e with
  | arrive client q =>
    refine ⟨?_, arrive_keep hfree client q⟩
    rw [step, pool_arrive]
    exact hS
  | enter i =>
    rw [step, keepKnock]
    cases hq : S.waiting[i]? with
    | none => exact ⟨hS, rfl⟩
    | some q =>
      obtain ⟨hnext, hpool⟩ := hS.step hsilent (.spawn q)
      refine ⟨hnext, ?_⟩
      dsimp only
      cases hkept : kept q with
      | true =>
        obtain ⟨hplace, herase⟩ := place_kept hq hkept
        rw [Pool.keepEvent, if_pos hkept] at hpool
        show _ = (S.keep kept).step handler (.enter (place kept S.waiting i))
        rw [step, show (S.keep kept).waiting[place kept S.waiting i]? = some q from hplace]
        simp only [keep, hpool, ← herase]
        rfl
      | false =>
        rw [Pool.keepEvent, hkept, if_neg Bool.false_ne_true] at hpool
        rw [if_neg Bool.false_ne_true]
        simp only [keep, hpool, eraseIdx_unkept hq hkept]
        rfl
  | leave i =>
    refine ⟨hS, ?_⟩
    rw [step, keepKnock]
    cases hq : S.waiting[i]? with
    | none =>
      have herase : S.waiting.eraseIdx i = S.waiting :=
        List.eraseIdx_of_length_le (List.getElem?_eq_none_iff.mp hq)
      rw [herase]
      rfl
    | some q =>
      dsimp only
      cases hkept : kept q with
      | true =>
        obtain ⟨_, herase⟩ := place_kept hq hkept
        rw [if_pos rfl]
        show _ = (S.keep kept).step handler (.leave (place kept S.waiting i))
        simp only [keep, step, herase]
      | false =>
        rw [if_neg Bool.false_ne_true]
        simp only [keep, eraseIdx_unkept hq hkept]
        rfl
  | resume i answer =>
    obtain ⟨hnext, hpool⟩ := hS.step hsilent (.resume i answer)
    refine ⟨hnext, ?_⟩
    rw [step, keepKnock]
    rw [Pool.keepEvent] at hpool
    cases hp : S.pool.parked[i]? with
    | none =>
      rw [hp] at hpool
      simp only [keep, hpool]
      rfl
    | some p =>
      rw [hp] at hpool
      dsimp only at hpool ⊢
      cases hkept : kept p.request with
      | true =>
        rw [hkept] at hpool
        simp only [keep, hpool, if_true]
        rfl
      | false =>
        rw [hkept] at hpool
        simp only [keep, hpool, Bool.false_eq_true, if_false]
        rfl
  | drift d => exact ⟨hS, rfl⟩

/-- A run with the other processes taken out is the run of what is left. -/
theorem run_keep (hsilent : ∀ q, kept q = false → (handler q).Silent)
    (hfree : ∀ client q w n, counts q = false → T.count client q w n = (none, n))
    (hS : S.pool.SilentBut kept) (events : List (Knock M Q C)) :
    (S.run handler events).keep kept =
      (S.keep kept).run handler (S.keepKnocks handler kept counts events) := by
  induction events generalizing S with
  | nil => rfl
  | cons e rest ih =>
    obtain ⟨hnext, hstep⟩ := step_keep hsilent hfree hS e
    have hrest := ih hnext
    show ((S.step handler e).run handler rest).keep kept = _
    rw [hrest, hstep, keepKnocks]
    unfold run
    rw [List.foldl_append]

theorem poolEvents_append (S : Entrance T B) (xs ys : List (Knock M Q C)) :
    S.poolEvents handler (xs ++ ys) =
      S.poolEvents handler xs ++ (S.run handler xs).poolEvents handler ys := by
  induction xs generalizing S with
  | nil => rfl
  | cons e xs ih =>
    rw [List.cons_append, poolEvents, ih, poolEvents, List.append_assoc]
    rfl

/-- What is left of an event starts a process if that is of a request that is kept. -/
theorem spawned_keepKnock (S : Entrance T B) (e : Knock M Q C) :
    ((S.keep kept).poolEvents handler (S.keepKnock kept counts e)).filterMap Pool.arriving =
      ((S.poolEvent e).toList.filterMap Pool.arriving).filter kept := by
  cases e with
  | arrive client q =>
    rw [keepKnock]
    split
    · rfl
    · split
      · split <;> rfl
      · rfl
  | enter i =>
    rw [keepKnock, poolEvent]
    cases hq : S.waiting[i]? with
    | none => rfl
    | some q =>
      dsimp only
      by_cases hkept : kept q = true
      · have hplace : (S.keep kept).waiting[place kept S.waiting i]? = some q :=
          (place_kept hq hkept).1
        rw [if_pos hkept, poolEvents, poolEvent, hplace]
        simp [poolEvents, Pool.arriving, hkept]
      · rw [if_neg hkept]
        simp [poolEvents, Pool.arriving, hkept]
  | leave i =>
    rw [keepKnock]
    split
    · rfl
    · split <;> rfl
  | resume i answer =>
    rw [keepKnock]
    split
    · rfl
    · split <;> rfl
  | drift d => rfl

/-- The processes that start in what is left are those of the requests that are kept. -/
theorem spawned_keepKnocks (hsilent : ∀ q, kept q = false → (handler q).Silent)
    (hfree : ∀ client q w n, counts q = false → T.count client q w n = (none, n))
    (hS : S.pool.SilentBut kept) (events : List (Knock M Q C)) :
    ((S.keep kept).poolEvents handler
        (S.keepKnocks handler kept counts events)).filterMap Pool.arriving =
      ((S.poolEvents handler events).filterMap Pool.arriving).filter kept := by
  induction events generalizing S with
  | nil => rfl
  | cons e rest ih =>
    obtain ⟨hnext, hstep⟩ := step_keep hsilent hfree hS e
    rw [keepKnocks, poolEvents_append, List.filterMap_append, spawned_keepKnock, ← hstep, ih hnext,
      poolEvents, List.filterMap_append, List.filter_append]

/-- What is left are the arrivals that are kept or counted. -/
theorem arriving_keepKnocks (S : Entrance T B) (events : List (Knock M Q C)) :
    (S.keepKnocks handler kept counts events).filterMap arriving =
      (events.filterMap arriving).filter (fun cq => kept cq.2 || counts cq.2) := by
  induction events generalizing S with
  | nil => rfl
  | cons e rest ih =>
    rw [keepKnocks, List.filterMap_append, ih]
    cases e with
    | arrive client q =>
      rw [keepKnock]
      cases hkept : kept q with
      | true => simp [arriving, hkept]
      | false =>
        cases hcounts : counts q with
        | true =>
          split <;> simp_all [arriving]
        | false => simp [arriving, hkept, hcounts]
    | drift d => rfl
    | _ =>
      rw [keepKnock]
      split
      · rfl
      · split <;> rfl

end Entrance

end IpfsGate.Lib
