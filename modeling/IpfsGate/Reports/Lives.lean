import IpfsGate.Reports.Attempts

/-!
# Lives of the process

A run is a sequence of lives. Each life starts from the queue that the one before left, without a
client, and stops in the middle of some turn. Over all of them the first settle call for a `ref`
decides what is ever signed for it, and only a verified receipt takes its row from the rows that
are drained.
-/
namespace IpfsGate.Reports

open Lib (Event Leads Pool Register Rely)
open Lib.Prog (Trace)

/-- One life: how the process finds things when it starts, what happens to it, and the event in
whose turn it stops, after so many statements. -/
structure Life (cfg : Config) where
  env : Env
  events : List (Event (machine cfg) Request)
  last : Event (machine cfg) Request
  statements : Nat

variable {cfg : Config}

namespace Life

variable (l : Life cfg) (queue : Queue)

def boot : World := { queue, client := false, env := l.env }

def pool : Pool (machine cfg) Request Answer :=
  (Pool.start (l.boot queue)).run (handler cfg) l.events

/-- What is run before the stop. -/
def trace : Trace (machine cfg) :=
  Pool.history (handler cfg) (Pool.start (l.boot queue)) l.events ++
    ((l.pool queue).stopped (handler cfg) l.statements l.last).1

def left : World := ((l.pool queue).crash (handler cfg) l.statements l.last).world

/-- The requests that arrive. -/
def Arrives (q : Request) : Prop := .spawn q ∈ l.events ++ [l.last]

theorem leads : Leads (machine cfg) (l.boot queue) (l.trace queue) (l.left queue) := by
  have hevents : Leads (machine cfg) (l.boot queue)
      (Pool.history (handler cfg) (Pool.start (l.boot queue)) l.events) (l.pool queue).world := by
    unfold Life.pool
    exact Pool.leads_run (Pool.start _) l.events
  exact hevents.append (Pool.crash_rest (handler cfg) (l.pool queue) l.statements l.last).1

end Life

theorem stands (w : World) (events : List (Event (machine cfg) Request)) :
    (keeping cfg).Stands (fun q _ => Permits cfg (fun q => .spawn q ∈ events) q)
      (fun q r past _ => q.drains = true → Drained cfg r past)
      ((Pool.start w).run (handler cfg) events) := by
  have hadm : Pool.Admissible (handler cfg) (fun q _ => .spawn q ∈ events)
      (fun _ => (keeping cfg).Runs) (Pool.start w) events :=
    (Pool.admissible_arrivals (Pool.admissible_true (handler cfg) (Pool.start w) events)).mono
      (fun q w h => Pool.spawn_of_arrivals h.1)
  refine Rely.run_stands keeping_valid trivial (fun q w _ hq => handler_ends hq) hadm ?_
  intro e _
  cases e with
  | resume i answer => exact fun _ => trivial
  | _ => trivial

/-- Every statement of a life is permitted to a request that arrived in it. -/
theorem Life.permitted (l : Life cfg) (queue : Queue) :
    ∀ a ∈ l.trace queue, ∃ q, Permits cfg l.Arrives q a.1 a.2 := by
  intro a ha
  have hwhole : a ∈ Pool.history (handler cfg) (Pool.start (l.boot queue))
      (l.events ++ [l.last]) := by
    rw [Pool.history_append]
    obtain ⟨rest, hdid, -⟩ := (Pool.crash_rest (handler cfg) (l.pool queue) l.statements l.last).2
    rcases List.mem_append.mp ha with ha | ha
    · exact List.mem_append_left _ ha
    · refine List.mem_append_right _ (List.mem_append_left _ ?_)
      exact hdid ▸ List.mem_append_left _ ha
  have htraces := (Pool.traces_start (handler cfg) (l.boot queue) (l.events ++ [l.last])).symm
  obtain ⟨past, hpast, hmem⟩ := List.mem_flatten.mp (htraces.subset hwhole)
  obtain ⟨q, hran⟩ := Pool.mem_traces_iff.mp hpast
  obtain ⟨_, _, _, hpermits⟩ := ((stands _ _).kept_of_ran hran).of_mem hmem
  exact ⟨q, hpermits⟩

/-- What is run over all lives. -/
def traceOf : Queue → List (Life cfg) → Trace (machine cfg)
  | _, [] => []
  | queue, l :: rest => l.trace queue ++ traceOf (l.left queue).queue rest

def Arrived (lives : List (Life cfg)) (q : Request) : Prop := ∃ l ∈ lives, l.Arrives q

theorem Permits.mono {A A' : Request → Prop} (hA : ∀ q, A q → A' q) {q : Request} {s : Stmt}
    {w : World} (h : Permits cfg A q s w) : Permits cfg A' q s w := by
  cases s with
  | enqueue c => exact ⟨hA _ h.1, h.2⟩
  | markSettled ref receipt => exact ⟨hA _ h.1, h.2⟩
  | markFailed ref receipt => exact ⟨hA _ h.1, h.2⟩
  | _ => exact h

theorem permitted {queue : Queue} {lives : List (Life cfg)} :
    ∀ a ∈ traceOf queue lives, ∃ q, Permits cfg (Arrived lives) q a.1 a.2 := by
  induction lives generalizing queue with
  | nil => exact fun _ ha => absurd ha List.not_mem_nil
  | cons l rest ih =>
    intro a ha
    rcases List.mem_append.mp ha with ha | ha
    · obtain ⟨q, hq⟩ := l.permitted queue a ha
      exact ⟨q, hq.mono (fun _ harrives => ⟨l, List.mem_cons_self, harrives⟩)⟩
    · obtain ⟨q, hq⟩ := ih a ha
      exact ⟨q, hq.mono (fun _ ⟨l', hl', harrives⟩ => ⟨l', List.mem_cons_of_mem _ hl', harrives⟩)⟩

/-! ## What the history says of the queue -/

section Sound

variable {t u : Trace (machine cfg)} {w w' : World} {ref : String} {c : Settle} {r : Row}

/-- The first settle call for the `ref`. -/
def First (t : Trace (machine cfg)) (ref : String) (c : Settle) : Prop :=
  ∃ before w after, t = before ++ (.enqueue c, w) :: after ∧ c.ref = ref ∧
    ∀ c' w', (.enqueue c', w') ∈ before → c'.ref ≠ ref

/-- A receipt for the `ref` was marked. -/
def Marked (t : Trace (machine cfg)) (ref : String) (receipt : Receipt) : Prop :=
  ∃ w, (.markSettled ref receipt, w) ∈ t ∨ (.markFailed ref receipt, w) ∈ t

theorem First.append (h : First t ref c) : First (t ++ u) ref c := by
  obtain ⟨before, w, after, rfl, href, hnone⟩ := h
  exact ⟨before, w, after ++ u, by simp, href, hnone⟩

theorem Marked.append {receipt : Receipt} (h : Marked t ref receipt) :
    Marked (t ++ u) ref receipt := by
  obtain ⟨w, hmark | hmark⟩ := h
  · exact ⟨w, Or.inl (List.mem_append_left _ hmark)⟩
  · exact ⟨w, Or.inr (List.mem_append_left _ hmark)⟩

/-- The row says what the settle call said. -/
structure Row.Holds (r : Row) (c : Settle) : Prop where
  ref : r.ref = c.ref
  factsJson : r.factsJson = c.facts.stringify
  nonce : r.nonce = c.nonce
  createdAt : r.createdAt = c.now

theorem Row.Holds.same {s : Row} (h : r.Holds c) (hsame : s.Same r) : s.Holds c :=
  ⟨hsame.ref.trans h.ref, hsame.factsJson.trans h.factsJson, hsame.nonce.trans h.nonce,
    hsame.createdAt.trans h.createdAt⟩

/-- Where the rows after a statement come from: a row that was there, whose status may have been
marked, or the settle call that found none. -/
inductive Row.From (s : Stmt) (w : World) (r : Row) : Prop where
  | kept (old : Row) (hold : old ∈ w.queue) (hsame : r.Same old) (hstatus : r.status = old.status)
  | marked (old : Row) (hold : old ∈ w.queue) (hsame : r.Same old) (receipt : Receipt)
      (hmark : s = .markSettled old.ref receipt ∨ s = .markFailed old.ref receipt)
  | queued (c : Settle) (hs : s = .enqueue c) (hholds : r.Holds c) (hstatus : r.status = .pending)
      (hnone : ∀ old ∈ w.queue, old.ref ≠ c.ref)

theorem kept (hr : r ∈ w.queue) {s : Stmt} : r.From s w := .kept r hr (.refl r) rfl

theorem from_mark {s : Stmt} {status : ReportStatus} {receipt : Receipt}
    (hs : s = .markSettled ref receipt ∨ s = .markFailed ref receipt) :
    ∀ r ∈ (mark w.queue status ref receipt).2, r.From s w := by
  intro r hr
  obtain ⟨old, hold, rfl⟩ := mem_mark.mp hr
  split
  · next hp =>
    exact .marked old hold ⟨rfl, rfl, rfl, rfl, rfl⟩ receipt (by rw [hp.1]; exact hs)
  · exact kept hold

theorem row_from (s : Stmt) (w : World) : ∀ r ∈ (s.sem cfg w).2.queue, r.From s w := by
  intro r hr
  cases s with
  | connect =>
    have hsame : (connect w).2.queue = w.queue := by
      unfold connect
      split <;> rfl
    exact kept (hsame ▸ hr)
  | enqueue c =>
    rcases Register.mem_insertNew.mp hr with hr | ⟨rfl, hnone⟩
    · exact kept hr
    · exact .queued c rfl ⟨rfl, rfl, rfl, rfl⟩ rfl hnone
  | markAttempt ref =>
    obtain ⟨old, hold, rfl⟩ := mem_markAttempt.mp hr
    split
    · exact .kept old hold ⟨rfl, rfl, rfl, rfl, rfl⟩ rfl
    · exact kept hold
  | markSettled ref receipt => exact from_mark (Or.inl rfl) r hr
  | markFailed ref receipt => exact from_mark (Or.inr rfl) r hr
  | updateReceipt ref receipt =>
    obtain ⟨old, hold, rfl⟩ := mem_updateReceipt.mp hr
    split
    · exact .kept old hold ⟨rfl, rfl, rfl, rfl, rfl⟩ rfl
    · exact kept hold
  | _ => exact kept hr

/-- The queue is what the history made of it. -/
structure Sound (t : Trace (machine cfg)) (queue : Queue) : Prop where
  rows : ∀ r ∈ queue, ∃ c, First t r.ref c ∧ r.Holds c
  queued : ∀ c w, (.enqueue c, w) ∈ t → ∃ r ∈ queue, r.ref = c.ref
  marked : ∀ r ∈ queue, r.status ≠ .pending → ∃ receipt, Marked t r.ref receipt

theorem sound_empty : Sound ([] : Trace (machine cfg)) Register.empty where
  rows := fun r hr => absurd hr (Register.not_mem_empty r)
  queued := fun _ _ h => absurd h List.not_mem_nil
  marked := fun r hr => absurd hr (Register.not_mem_empty r)

theorem Sound.rows_step (h : Sound t w.queue) (s : Stmt) (hr : r ∈ (s.sem cfg w).2.queue) :
    ∃ c, First (t ++ [(s, w)]) r.ref c ∧ r.Holds c := by
  cases row_from s w r hr with
  | kept old hold hsame =>
    obtain ⟨c, hfirst, hholds⟩ := h.rows old hold
    exact ⟨c, hsame.ref ▸ hfirst.append, hholds.same hsame⟩
  | marked old hold hsame =>
    obtain ⟨c, hfirst, hholds⟩ := h.rows old hold
    exact ⟨c, hsame.ref ▸ hfirst.append, hholds.same hsame⟩
  | queued c hs hholds _ hnone =>
    -- an earlier call for the same name would have left a row
    refine ⟨c, ⟨t, w, [], by rw [hs], hholds.ref.symm, fun c' w' hc' href => ?_⟩, hholds⟩
    obtain ⟨old, hold, hname⟩ := h.queued c' w' hc'
    exact hnone old hold (hname.trans (href.trans hholds.ref))

theorem enqueue_queued (w : World) (c : Settle) : ∃ r ∈ (enqueue w.queue c).2, r.ref = c.ref := by
  by_cases hold : ∃ r ∈ w.queue, r.ref = c.ref
  · obtain ⟨r, hr, href⟩ := hold
    exact ⟨r, Register.mem_insertNew.mpr (Or.inl hr), href⟩
  · refine ⟨_, Register.mem_insertNew.mpr (Or.inr ⟨rfl, ?_⟩), rfl⟩
    exact fun r hr href => hold ⟨r, hr, href⟩

theorem Sound.queued_step (h : Sound t w.queue) (s : Stmt)
    (hc : (.enqueue c, w') ∈ t ++ [(s, w)]) : ∃ r ∈ (s.sem cfg w).2.queue, r.ref = c.ref := by
  rcases List.mem_append.mp hc with hc | hc
  · obtain ⟨r, hr, href⟩ := h.queued c w' hc
    obtain ⟨r', hr', hsame⟩ := keeps_sem cfg s w r hr
    exact ⟨r', hr', hsame.ref.trans href⟩
  · cases List.mem_singleton.mp hc
    exact enqueue_queued w c

theorem Sound.marked_step (h : Sound t w.queue) (s : Stmt) (hr : r ∈ (s.sem cfg w).2.queue)
    (hstatus : r.status ≠ .pending) : ∃ receipt, Marked (t ++ [(s, w)]) r.ref receipt := by
  cases row_from s w r hr with
  | kept old hold hsame hsamestatus =>
    obtain ⟨receipt, hmark⟩ := h.marked old hold (hsamestatus ▸ hstatus)
    exact ⟨receipt, hsame.ref ▸ hmark.append⟩
  | marked old _ hsame receipt hmark =>
    refine ⟨receipt, w, ?_⟩
    rw [hsame.ref]
    rcases hmark with rfl | rfl
    · exact Or.inl (List.mem_append_right _ List.mem_cons_self)
    · exact Or.inr (List.mem_append_right _ List.mem_cons_self)
  | queued c _ _ hpending => exact absurd hpending hstatus

theorem Sound.step (h : Sound t w.queue) (s : Stmt) :
    Sound (t ++ [(s, w)]) (s.sem cfg w).2.queue where
  rows := fun _ hr => h.rows_step s hr
  queued := fun _ _ hc => h.queued_step s hc
  marked := fun _ hr hstatus => h.marked_step s hr hstatus

/-- What holds of a history and its queue holds at every statement that follows. -/
theorem Sound.leads (h : Leads (machine cfg) w u w') (hw : Sound t w.queue) :
    Sound (t ++ u) w'.queue ∧
      ∀ before a after, u = before ++ a :: after → Sound (t ++ before) a.2.queue := by
  induction h with
  | nil =>
    rw [List.append_nil]
    exact ⟨hw, fun before a after heq => by cases before <;> cases heq⟩
  | drift env _ ih => exact ih
  | @exec u w' s _ ih =>
    obtain ⟨hlast, hall⟩ := ih
    refine ⟨List.append_assoc t u _ ▸ hlast.step s, fun before a after heq => ?_⟩
    rcases List.eq_nil_or_concat after with rfl | ⟨after', x, rfl⟩
    · obtain ⟨rfl, ha⟩ := List.append_inj' heq rfl
      cases ha
      exact hlast
    · rw [List.concat_eq_append, ← List.cons_append, ← List.append_assoc] at heq
      exact hall before a after' (List.append_inj_left' heq rfl)

theorem Sound.lives {queue : Queue} (lives : List (Life cfg)) (h : Sound t queue) :
    ∀ before a after, traceOf queue lives = before ++ a :: after →
      Sound (t ++ before) a.2.queue := by
  induction lives generalizing t queue with
  | nil =>
    intro before a after heq
    cases before <;> cases heq
  | cons l rest ih =>
    intro before a after heq
    obtain ⟨hleft, hall⟩ := Sound.leads (w := l.boot queue) (l.leads queue) h
    change l.trace queue ++ traceOf (l.left queue).queue rest = before ++ a :: after at heq
    rcases List.append_eq_append_iff.mp heq with ⟨middle, rfl, hrest⟩ | ⟨middle, htrace, hrest⟩
    · rw [← List.append_assoc]
      exact ih hleft middle a after hrest
    · cases middle with
      | nil =>
        rw [List.append_nil] at htrace
        rw [← htrace]
        have hnext := ih hleft [] a after hrest.symm
        rwa [List.append_nil] at hnext
      | cons b middle =>
        cases hrest
        exact hall before a middle htrace

/-- The later of two settle calls for a `ref` is not the first. -/
theorem eq_of_none_before {c' : Settle} {middle after after' : Trace (machine cfg)}
    (heq : (.enqueue c, w) :: after = middle ++ (.enqueue c', w') :: after') (href : c.ref = ref)
    (hnone : ∀ c'' w'', (.enqueue c'', w'') ∈ t ++ middle → c''.ref ≠ ref) : c = c' := by
  cases middle with
  | nil =>
    cases heq
    rfl
  | cons a middle =>
    cases heq
    exact absurd href (hnone c w (List.mem_append_right _ List.mem_cons_self))

theorem First.unique {c' : Settle} (h : First t ref c) (h' : First t ref c') : c = c' := by
  obtain ⟨before, w, after, rfl, href, hnone⟩ := h
  obtain ⟨before', w', after', heq, href', hnone'⟩ := h'
  rcases List.append_eq_append_iff.mp heq with ⟨middle, rfl, hrest⟩ | ⟨middle, rfl, hrest⟩
  · exact eq_of_none_before hrest href hnone'
  · exact (eq_of_none_before hrest href' hnone).symm

theorem First.mem (h : First t ref c) : ∃ w, (.enqueue c, w) ∈ t := by
  obtain ⟨before, w, after, rfl, -, -⟩ := h
  exact ⟨w, List.mem_append_right _ List.mem_cons_self⟩

end Sound

/-! ## What is republished -/

/-- What is run over the lives of a process that starts without a queue. -/
def ran (lives : List (Life cfg)) : Trace (machine cfg) := traceOf Register.empty lives

/-- The report carries what the settle call said. -/
structure Repeats (cfg : Config) (report : EventReport) (c : Settle) : Prop where
  facts : cfg.parse c.facts.stringify = .ok report.facts
  nonce : report.nonce = c.nonce
  createdAt : report.createdAt = c.now

section Ran

variable {lives : List (Life cfg)} {before after : Trace (machine cfg)} {w : World}

theorem sound_ran {a : Stmt × World} (h : ran lives = before ++ a :: after) :
    Sound before a.2.queue := by
  have hsound := sound_empty.lives lives before a after h
  rwa [List.nil_append] at hsound

theorem sign_repeats {report : EventReport} (h : (.sign report, w) ∈ ran lives) :
    ∃ c, First (ran lives) report.ref c ∧ Repeats cfg report c := by
  obtain ⟨before, after, hran⟩ := List.append_of_mem h
  obtain ⟨q, row, hrow, facts, hfacts, rfl⟩ := permitted _ h
  obtain ⟨c, hfirst, hholds⟩ := (sound_ran hran).rows row hrow
  refine ⟨c, hran ▸ hfirst.append, ⟨?_, hholds.nonce, hholds.createdAt⟩⟩
  rw [← hholds.factsJson, hfacts]
  rfl

/-- The settle calls that are queued are the ones that arrive. -/
theorem enqueue_arrived {c : Settle} (h : (.enqueue c, w) ∈ ran lives) :
    ∃ q, Arrived lives q ∧ q.settles cfg = some c := by
  obtain ⟨q, hq⟩ := permitted _ h
  exact ⟨q, hq⟩

theorem marked_verified {ref : String} {receipt : Receipt} (h : Marked before ref receipt)
    (hbefore : before <+: ran lives) :
    Arrived lives (.handleReceipt receipt) ∧ Verified cfg ref receipt := by
  obtain ⟨w, hmark | hmark⟩ := h
  · obtain ⟨_, hq⟩ := permitted _ (hbefore.subset hmark)
    exact hq
  · obtain ⟨_, hq⟩ := permitted _ (hbefore.subset hmark)
    exact hq

theorem pending_or_marked {c : Settle} {w₀ : World} (h : ran lives = before ++ (.pending, w) :: after)
    (hc : (.enqueue c, w₀) ∈ before) :
    (∃ r ∈ pending w.queue, r.ref = c.ref) ∨ ∃ receipt, Marked before c.ref receipt := by
  have hsound := sound_ran h
  obtain ⟨r, hr, href⟩ := hsound.queued c w₀ hc
  by_cases hstatus : r.status = .pending
  · exact Or.inl ⟨r, mem_pending.mpr ⟨hr, hstatus⟩, href⟩
  · obtain ⟨receipt, hmark⟩ := hsound.marked r hr hstatus
    exact Or.inr ⟨receipt, href ▸ hmark⟩

end Ran

/-- Over all lives of the process, what is signed for a `ref` repeats the first settle call for
it. A drain reads the row of every call that was queued before, unless a verified receipt for it
was handled, and a drain that keeps a client attempts all the rows that it read and ends. -/
theorem reports_republished (lives : List (Life cfg)) :
    (∀ ref, (∃ report w, (.sign report, w) ∈ ran lives ∧ report.ref = ref) →
      ∃ c, First (ran lives) ref c ∧ (∃ q, Arrived lives q ∧ q.settles cfg = some c) ∧
        ∀ report w, (.sign report, w) ∈ ran lives → report.ref = ref → Repeats cfg report c) ∧
    (∀ before w after c w₀, ran lives = before ++ (.pending, w) :: after →
      (.enqueue c, w₀) ∈ before →
        (∃ r ∈ pending w.queue, r.ref = c.ref) ∨
        ∃ receipt, Marked before c.ref receipt ∧ Arrived lives (.handleReceipt receipt) ∧
          Verified cfg c.ref receipt) ∧
    (∀ queue, ∀ l ∈ lives, ∀ f ∈ (l.pool queue).finished, f.request.drains = true →
      Drained cfg f.result f.past) ∧
    ∀ rows, (publishRows rows : Handler cfg Unit).Awaits (4 * rows.length) := by
  refine ⟨?_, ?_, ?_, publishRows_awaits⟩
  · rintro ref ⟨report, w, hsign, rfl⟩
    obtain ⟨c, hfirst, -⟩ := sign_repeats hsign
    obtain ⟨w₀, hqueued⟩ := hfirst.mem
    refine ⟨c, hfirst, enqueue_arrived hqueued, fun report' w' hsign' href => ?_⟩
    obtain ⟨c', hfirst', hrepeats⟩ := sign_repeats hsign'
    rw [href] at hfirst'
    exact hfirst.unique hfirst' ▸ hrepeats
  · intro before w after c w₀ hran hc
    rcases pending_or_marked hran hc with hrow | ⟨receipt, hmark⟩
    · exact Or.inl hrow
    · exact Or.inr ⟨receipt, hmark, marked_verified hmark ⟨_, hran.symm⟩⟩
  · intro queue l _ f hf
    exact ((stands (l.boot queue) l.events).finished f hf).2

end IpfsGate.Reports
