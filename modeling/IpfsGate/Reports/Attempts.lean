import IpfsGate.Reports.BoxMode

/-!
# What an attempt does

Whatever the others do while it waits, a process signs nothing but rows that are in the queue, as
they were first queued. A drain goes through all the rows that were pending when it began: what
becomes of one attempt does not keep it from the next, as long as there is a client.
-/
namespace IpfsGate.Reports

open Lib (Prog Rely)
open Lib.Prog (Assures Trace assures_andThen assures_bind)

variable {cfg : Config} {A : Request → Prop} {q : Request} {past past' : Trace (machine cfg)} {w w' : World} {row : Row}

def Request.settles (cfg : Config) : Request → Option Settle
  | .settleClaim a => a.toSettle cfg
  | .settlePayment a => a.toSettle cfg
  | _ => none

/-- A verified receipt for the `ref`. -/
def Verified (cfg : Config) (ref : String) (receipt : Receipt) : Prop :=
  receipt.ref = some ref ∧ cfg.verifyReceiptFromBox receipt = true

/-- What the process of a request runs, of the requests that arrive. -/
def Permits (cfg : Config) (A : Request → Prop) (q : Request) : Stmt → World → Prop
  | .enqueue c, _ => A q ∧ q.settles cfg = some c
  | .sign report, w => ∃ row ∈ w.queue, ∃ facts, cfg.parse row.factsJson = .ok facts ∧
      report = eventReport cfg row facts
  | .markSettled ref receipt, _ => A (.handleReceipt receipt) ∧ Verified cfg ref receipt
  | .markFailed ref receipt, _ => A (.handleReceipt receipt) ∧ Verified cfg ref receipt
  | _, _ => True

/-- Rows stay, and say what they said. -/
def keeping (cfg : Config) : Rely (machine cfg) where
  Inv := fun _ => True
  Later := fun w w' => Keeps w.queue w'.queue
  Runs := fun _ _ => True
  Answers := fun _ _ => True

theorem keeps_sem (cfg : Config) (s : Stmt) (w : World) : Keeps w.queue (s.sem cfg w).2.queue := by
  cases s with
  | enqueue c => exact keeps_enqueue w.queue c
  | markAttempt ref => exact keeps_markAttempt w.queue ref w.env.now
  | markSettled ref receipt => exact keeps_mark w.queue .settled ref receipt
  | markFailed ref receipt => exact keeps_mark w.queue .failed ref receipt
  | updateReceipt ref receipt => exact keeps_updateReceipt w.queue ref receipt
  | connect =>
    change Keeps w.queue (connect w).2.queue
    unfold connect
    split <;> exact .refl w.queue
  | _ => exact .refl w.queue

theorem keeping_valid {G : Request → Lib.Guarantee (machine cfg)} :
    (keeping cfg).Valid G where
  refl := fun w => .refl w.queue
  trans := fun h h' => h.trans h'
  drift := fun _ w _ => ⟨trivial, .refl w.queue⟩
  step := fun _ _ s w _ _ _ => ⟨trivial, keeps_sem cfg s w⟩

/-! ## Attempts -/

/-- Whenever it is asked for, there is a client or a key to make one, and one that is made comes
up. -/
def Works : Stmt × World → Prop
  | (.client, w) => w.client = true ∨ w.env.selfSk.isSome = true
  | (.connect, w) => w.env.transport = .up
  | _ => True

def Working (cfg : Config) (past : Trace (machine cfg)) : Prop := ∀ a ∈ past, Works a

/-- The row's report was signed, if its facts can be read, and counted and handed over, if the
reporter signed it. -/
def Attempted (cfg : Config) (row : Row) (past : Trace (machine cfg)) : Prop :=
  ∀ facts, cfg.parse row.factsJson = .ok facts →
    ∃ w, (.sign (eventReport cfg row facts), w) ∈ past ∧
      ∀ s, signed cfg w.env (eventReport cfg row facts) = some s →
        (∃ w', (.markAttempt row.ref, w') ∈ past) ∧ ∃ w', (.publishReport s, w') ∈ past

theorem Working.of_initial (h : Working cfg past') (hpast : past <+: past') :
    Working cfg past :=
  fun a ha => h a (hpast.subset ha)

theorem Attempted.later (h : Attempted cfg row past) (hpast : past <+: past') :
    Attempted cfg row past' := by
  intro facts hfacts
  obtain ⟨w, hsign, hrest⟩ := h facts hfacts
  refine ⟨w, hpast.subset hsign, fun s hs => ?_⟩
  obtain ⟨⟨w₁, hmark⟩, w₂, hpublish⟩ := hrest s hs
  exact ⟨⟨w₁, hpast.subset hmark⟩, w₂, hpast.subset hpublish⟩

/-- The queue still has the row, in what it says. -/
def Known (row : Row) (w : World) : Prop := ∃ r ∈ w.queue, r.Same row

theorem Known.later (h : Known row w) (hl : Keeps w.queue w'.queue) : Known row w' := by
  obtain ⟨r, hr, hsame⟩ := h
  obtain ⟨r', hr', hsame'⟩ := hl r hr
  exact ⟨r', hr', hsame'.trans hsame⟩

/-- What is signed for a row is what is signed for it later. -/
theorem eventReport_same {r : Row} (h : r.Same row) (facts : Json) :
    eventReport cfg r facts = eventReport cfg row facts := by
  rw [eventReport, eventReport, h.ref, h.nonce, h.createdAt]

theorem permits_sign (h : Known row w) {facts : Json} (hfacts : cfg.parse row.factsJson = .ok facts) :
    Permits cfg A q (.sign (eventReport cfg row facts)) w := by
  obtain ⟨r, hr, hsame⟩ := h
  exact ⟨r, hr, facts, by rw [hsame.factsJson, hfacts], (eventReport_same hsame facts).symm⟩

section Rows

variable {α : Type} {p : Handler cfg α} {R : Lib.Outcome (machine cfg) α}

/-- The condition holds of how the program ends, whatever the others do in between. -/
def Ends (A : Request → Prop) (q : Request) (R : Lib.Outcome (machine cfg) α) (p : Handler cfg α)
    (past : Trace (machine cfg)) (w : World) : Prop :=
  p.Assures (keeping cfg) (fun _ => Permits cfg A q) R past w

/-- On the way rows stay, and the trace grows. -/
theorem Ends.grows (h : Ends A q R p past w) :
    Ends A q (fun r past' w' => past <+: past' ∧ Keeps w.queue w'.queue ∧ R r past' w') p past w :=
  Rely.assures_grows (E := keeping cfg) (G := fun q _ => Permits cfg A q) (q := q) keeping_valid
    trivial h

theorem Ends.bind {β : Type} {f : α → Handler cfg β} {R' : Lib.Outcome (machine cfg) β}
    (h : Ends A q R p past w)
    (hfail : ∀ e past' w', past <+: past' → R (.error e) past' w' → R' (.error e) past' w')
    (hok : ∀ a past' w', past <+: past' → Keeps w.queue w'.queue → R (.ok a) past' w' →
      Ends A q R' (f a) past' w') : Ends A q R' (p.bind f) past w := by
  refine assures_bind (Assures.mono ?_ h.grows)
  rintro r past' w' ⟨hpast, hkeeps, hr⟩
  cases r with
  | ok a => exact hok a past' w' hpast hkeeps hr
  | error e => exact hfail e past' w' hpast hr

theorem Ends.mono {R' : Lib.Outcome (machine cfg) α} (h : Ends A q R p past w)
    (hR : ∀ r past' w', past <+: past' → R r past' w' → R' r past' w') : Ends A q R' p past w := by
  refine Assures.mono ?_ h.grows
  rintro r past' w' ⟨hpast, -, hr⟩
  exact hR r past' w' hpast hr

theorem Ends.attempt (h : Ends A q R p past w) :
    Ends A q (fun r past' w' => ∃ r', r = .ok r' ∧ R r' past' w') (Prog.attempt p) past w := by
  refine assures_andThen.mpr (Assures.mono ?_ h)
  exact fun r _ _ hr => ⟨r, rfl, hr⟩

end Rows

theorem createClient_ends :
    Ends A q (fun r past' _ => Working cfg past' → r = .ok true) createClient past w := by
  intro w' _ _ _ _ _
  refine ⟨trivial, fun _ => ?_⟩
  change Assures _ _ _ (if (connect w').1 = true then _ else _) _ _
  split
  · exact fun _ => rfl
  · next hconnect =>
    intro hworking
    have hup := hworking (.connect, w') (List.mem_append_right _ List.mem_cons_self)
    simp only [Works] at hup
    exact absurd (by rw [connect, hup]) hconnect

theorem ensureClient_ends :
    Ends A q (fun r past' _ => Working cfg past' → r = .ok true) ensureClient past w := by
  refine fun _ => ⟨trivial, fun _ => ?_⟩
  change Assures _ _ _ (if w.client = true then _ else _) _ _
  split
  · exact fun _ => rfl
  · next hclient =>
    change Assures _ _ _ (if w.env.selfSk.isNone = true then _ else _) _ _
    split
    · next hnone =>
      intro hworking
      have hasked := hworking (.client, w) (List.mem_append_right _ List.mem_cons_self)
      rw [Option.isNone_iff_eq_none] at hnone
      simp [Works, hclient, hnone] at hasked
    · exact createClient_ends

/-- The attempt was made, and it came to an end. -/
def Tried (cfg : Config) (row : Row) (r : Except Fault Bool) (past : Trace (machine cfg)) : Prop :=
  (∃ b, r = .ok b) ∧ Attempted cfg row past

theorem handOver_ends {facts : Json} (hfacts : cfg.parse row.factsJson = .ok facts)
    (hsign : (.sign (eventReport cfg row facts), w') ∈ past) :
    Ends A q (fun r past' _ => Tried cfg row r past')
      (handOver row (signed cfg w'.env (eventReport cfg row facts))) past w := by
  cases hs : signed cfg w'.env (eventReport cfg row facts) with
  | none =>
    refine ⟨⟨false, rfl⟩, fun facts' hfacts' => ?_⟩
    cases hfacts.symm.trans hfacts'
    exact ⟨w', hsign, fun s hs' => by rw [hs] at hs'; cases hs'⟩
  | some s =>
    refine fun _ => ⟨trivial, fun _ _ => ⟨trivial, fun _ w'' _ _ b _ => ?_⟩⟩
    refine ⟨⟨b, rfl⟩, fun facts' hfacts' => ?_⟩
    cases hfacts.symm.trans hfacts'
    refine ⟨w', ?_, fun s' hs' => ⟨⟨w, ?_⟩, ?_⟩⟩
    · exact List.mem_append_left _ (List.mem_append_left _ hsign)
    · exact List.mem_append_left _ (List.mem_append_right _ List.mem_cons_self)
    · rw [hs] at hs'
      cases hs'
      exact ⟨_, List.mem_append_right _ List.mem_cons_self⟩

theorem signRow_ends (hrow : Known row w) :
    Ends A q (fun r past' _ => Tried cfg row r past') (signRow row) past w := by
  unfold signRow
  cases hfacts : cfg.parse row.factsJson with
  | error e =>
    refine ⟨⟨false, rfl⟩, fun facts hparsed => ?_⟩
    rw [hfacts] at hparsed
    cases hparsed
  | ok facts =>
    refine fun _ => ⟨permits_sign hrow hfacts, fun _ => ?_⟩
    exact handOver_ends hfacts (List.mem_append_right past (List.mem_singleton_self (_, w)))

/-- With a client the attempt is made, and it ends with an answer. -/
theorem publishRow_ends (hrow : Known row w) :
    Ends A q (fun r past' _ => Working cfg past' → Tried cfg row r past')
      (publishRow row) past w := by
  refine ensureClient_ends.bind (fun e past' w' _ hok hworking => ?_)
    (fun c past' w' _ hkeeps hok => ?_)
  · cases hok hworking
  · intro w'' hl _ _ _
    cases c with
    | false => exact fun hworking => by cases hok hworking
    | true => exact (signRow_ends (hrow.later (hkeeps.trans hl))).mono (fun _ _ _ _ h _ => h)

/-! ## Rows one after the other -/

/-- Induction on the rows: an attempt that was made stays made, and the next row is still known
after it. -/
theorem publishRows_ends {rows : List Row} (hrows : ∀ row ∈ rows, Known row w) :
    Ends A q (fun r past' _ => Working cfg past' →
      r = .ok () ∧ ∀ row ∈ rows, Attempted cfg row past') (publishRows rows) past w := by
  induction rows generalizing past w with
  | nil => exact fun _ => ⟨rfl, List.forall_mem_nil _⟩
  | cons row rest ih =>
    rw [List.forall_mem_cons] at hrows
    have hone : Ends A q (fun r past' _ => Working cfg past' →
        r = .ok () ∧ Attempted cfg row past') (do
          let _ ← publishRow row
          let _ ← perform .returned
          return ()) past w := by
      refine (publishRow_ends hrows.1).bind (fun e past' w' _ htried hworking => ?_)
        (fun b past' w' _ _ htried w'' _ _ _ _ hworking => ⟨rfl, (htried hworking).2⟩)
      obtain ⟨⟨b, hb⟩, -⟩ := htried hworking
      cases hb
    refine hone.bind (fun e past' w' _ htried hworking => ?_) (fun u past' w' _ hkeeps htried => ?_)
    · cases (htried hworking).1
    · refine (ih (fun r hr => (hrows.2 r hr).later hkeeps)).mono ?_
      intro r past'' w'' hpast hrest hworking
      obtain ⟨hr, hall⟩ := hrest hworking
      refine ⟨hr, List.forall_mem_cons.mpr ⟨?_, hall⟩⟩
      exact (htried (hworking.of_initial hpast)).2.later hpast

/-! ## Rows end -/

theorem createClient_awaits : (createClient : Handler cfg Bool).Awaits 1 := by
  intro _ connected
  cases connected <;> trivial

theorem ensureClient_awaits : (ensureClient : Handler cfg Bool).Awaits 1 := by
  intro client
  cases client with
  | true => trivial
  | false =>
    intro w
    show Prog.Awaits (if w.env.selfSk.isNone = true then _ else createClient) 1
    split
    · trivial
    · exact createClient_awaits

theorem signRow_awaits (row : Row) : (signRow row : Handler cfg Bool).Awaits 1 := by
  unfold signRow
  cases cfg.parse row.factsJson with
  | error e => trivial
  | ok facts =>
    intro signed
    cases signed with
    | none => trivial
    | some s => exact fun _ _ _ => trivial

theorem publishRow_awaits (row : Row) : (publishRow row : Handler cfg Bool).Awaits 3 := by
  refine Prog.awaits_bind (n := 2) ensureClient_awaits (fun c => ?_)
  cases c with
  | true => exact fun _ => signRow_awaits row
  | false => exact fun _ => trivial

/-- However the rows fare, the loop over them comes to its end. -/
theorem publishRows_awaits (rows : List Row) :
    (publishRows rows : Handler cfg Unit).Awaits (4 * rows.length) := by
  refine Prog.awaits_fold (fun _ row => ?_) rows ()
  exact Prog.awaits_bind (n := 1) (publishRow_awaits row) (fun _ _ => trivial)

/-- A drain with a client comes to its end, and has attempted every row that was pending when it
began. -/
def Drained {α : Type} (cfg : Config) (r : Except Fault α) (past : Trace (machine cfg)) : Prop :=
  ∃ before w rest, past = before ++ (.pending, w) :: rest ∧ (Working cfg past →
    (∃ a, r = .ok a) ∧ ∀ row ∈ pending w.queue, Attempted cfg row past)

theorem drainOnce_ends :
    Ends A q (fun r past' _ => Drained cfg r past') drainOnce past w := by
  refine fun _ => ⟨trivial, fun _ => ?_⟩
  have hrows : ∀ row ∈ pending w.queue, Known row w :=
    fun row hrow => ⟨row, (mem_pending.mp hrow).1, .refl row⟩
  have hstart : ∀ past' : Trace (machine cfg), past ++ [(.pending, w)] <+: past' →
      ∃ rest, past' = past ++ (.pending, w) :: rest := by
    rintro _ ⟨rest, rfl⟩
    exact ⟨rest, by simp⟩
  refine (publishRows_ends hrows).bind (fun e past' w' hpast hrest => ?_)
    (fun u past' w' hpast _ hrest => ?_)
  · obtain ⟨rest, hstart⟩ := hstart past' hpast
    exact ⟨past, w, rest, hstart, fun hworking => by cases (hrest hworking).1⟩
  · obtain ⟨rest, hstart⟩ := hstart past' hpast
    exact ⟨past, w, rest, hstart, fun hworking => ⟨⟨_, rfl⟩, (hrest hworking).2⟩⟩

/-! ## The other requests -/

theorem settle_ends {c : Settle} (hA : A q) (hq : q.settles cfg = some c) :
    Ends A q (fun _ _ _ => True) (settle c) past w := by
  refine fun _ => ⟨⟨hA, hq⟩, fun _ => ?_⟩
  change Assures _ _ _ (if (enqueue w.queue c).1 = true then _ else _) _ _
  split
  · refine fun _ => ⟨trivial, fun _ => ?_⟩
    change Assures _ _ _ (publishQueued (get (enqueue w.queue c).2 c.ref)) _ _
    cases hrow : get (enqueue w.queue c).2 c.ref with
    | none => exact trivial
    | some row =>
      have hknown : Known row { w with queue := (enqueue w.queue c).2 } :=
        ⟨row, (mem_of_get hrow).1, .refl row⟩
      exact (publishRow_ends hknown).bind (fun _ _ _ _ _ => trivial)
        (fun _ _ _ _ _ _ _ _ _ _ _ => trivial)
  · exact trivial

theorem markRow_ends {ref : String} {receipt : Receipt} (hA : A (.handleReceipt receipt))
    (hverified : Verified cfg ref receipt) :
    Ends A q (fun _ _ _ => True) (markRow ref receipt) past w := by
  unfold markRow
  split
  · exact fun _ => ⟨⟨hA, hverified⟩, fun _ => trivial⟩
  · exact fun _ => ⟨⟨hA, hverified⟩, fun _ => trivial⟩

theorem finalize_ends {ref : String} {receipt : Receipt} (hA : A (.handleReceipt receipt))
    (hverified : Verified cfg ref receipt) (found : Option Row) :
    Ends A q (fun _ _ _ => True) (finalize ref receipt found) past w := by
  cases found with
  | none => exact trivial
  | some row =>
    refine (markRow_ends hA hverified).bind (fun _ _ _ _ _ => trivial) (fun _ _ _ _ _ _ => ?_)
    split
    · exact fun _ _ _ _ _ => trivial
    · split
      · exact fun _ => ⟨trivial, fun _ _ _ _ _ _ => trivial⟩
      · exact trivial

/-- A receipt marks a row only when it has been verified. -/
theorem handleReceipt_ends {receipt : Receipt} (hA : A (.handleReceipt receipt)) :
    Ends A q (fun _ _ _ => True) (handleReceipt receipt) past w := by
  unfold handleReceipt
  cases href : receipt.ref with
  | none => exact trivial
  | some ref =>
    dsimp only
    split
    · exact trivial
    · next hverify =>
      simp only [Bool.or_eq_true, decide_eq_true_eq, Bool.not_eq_eq_eq_not, Bool.not_true,
        not_or, Bool.not_eq_false] at hverify
      exact fun _ => ⟨trivial, fun _ => finalize_ends hA ⟨href, hverify.2⟩ _⟩

theorem start_ends : Ends A q (fun r past' _ => Drained cfg r past') start past w := by
  refine ensureClient_ends.attempt.bind (fun e _ _ _ h => ?_) (fun r past' w' _ _ _ => ?_)
  · obtain ⟨r', hr, -⟩ := h
    cases hr
  · intro w'' _ _ _ _
    refine drainOnce_ends.attempt.bind (fun e _ _ _ h => ?_) (fun r past'' _ _ _ h => ?_)
    · obtain ⟨r', hr, -⟩ := h
      cases hr
    · obtain ⟨r', -, before, w₀, rest, hpast, hdrained⟩ := h
      exact ⟨before, w₀, rest, hpast, fun hworking => ⟨⟨(), rfl⟩, (hdrained hworking).2⟩⟩

def Request.drains : Request → Bool
  | .start => true
  | .drainOnce => true
  | _ => false

theorem Drained.ok {α β : Type} {a : α} {b : β} (h : Drained cfg (.ok a) past) :
    Drained cfg (.ok b) past := by
  obtain ⟨before, w, rest, hpast, hdrained⟩ := h
  exact ⟨before, w, rest, hpast, fun hworking => ⟨⟨b, rfl⟩, (hdrained hworking).2⟩⟩

theorem Drained.error {α β : Type} {e : Fault} (h : Drained cfg (.error e : Except Fault α) past) :
    Drained cfg (.error e : Except Fault β) past := by
  obtain ⟨before, w, rest, hpast, hdrained⟩ := h
  refine ⟨before, w, rest, hpast, fun hworking => ?_⟩
  obtain ⟨a, ha⟩ := (hdrained hworking).1
  cases ha

/-- What a settle call runs once its facts are built, or are not. -/
theorem settles_ends {p : Handler cfg Bool} {found : Option Settle} (hA : A q)
    (hq : q.settles cfg = found) (hnone : found = none → p = Prog.fail Fault.facts)
    (hsome : ∀ c, found = some c → p = settle c) :
    Ends A q (fun _ _ _ => True) p past w := by
  cases hfound : found with
  | none =>
    rw [hnone hfound]
    exact trivial
  | some c =>
    rw [hsome c hfound]
    exact settle_ends hA (hq.trans hfound)

/-- Of a request that does not drain nothing more is asked. -/
theorem Ends.aside {α : Type} {p : Handler cfg α} {f : α → Answer} (hq : q.drains = false)
    (h : Ends A q (fun _ _ _ => True) p past w) :
    Ends A q (fun r past' _ => q.drains = true → Drained cfg r past')
      (p.bind (fun a => Prog.ret (f a))) past w := by
  refine h.bind (fun _ _ _ _ _ hdrains => ?_) (fun _ _ _ _ _ _ hdrains => ?_)
  · rw [hq] at hdrains
    cases hdrains
  · rw [hq] at hdrains
    cases hdrains

theorem handler_ends (hA : A q) :
    Ends A q (fun r past' _ => q.drains = true → Drained cfg r past') (handler cfg q) [] w := by
  cases q with
  | start =>
    exact start_ends.bind (fun _ _ _ _ h _ => h.error) (fun _ _ _ _ _ h _ => h.ok)
  | drainOnce =>
    exact drainOnce_ends.bind (fun _ _ _ _ h _ => h.error) (fun _ _ _ _ _ h _ => h.ok)
  | settleClaim a =>
    apply Ends.aside rfl
    exact settles_ends hA rfl (fun (h : a.toSettle cfg = none) => by rw [settleClaim, h])
      (fun c (h : a.toSettle cfg = some c) => by rw [settleClaim, h])
  | settlePayment a =>
    apply Ends.aside rfl
    exact settles_ends hA rfl (fun (h : a.toSettle cfg = none) => by rw [settlePayment, h])
      (fun c (h : a.toSettle cfg = some c) => by rw [settlePayment, h])
  | handleReceipt receipt =>
    apply Ends.aside rfl
    exact handleReceipt_ends hA

end IpfsGate.Reports
