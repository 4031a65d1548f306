import IpfsGate.Json
import IpfsGate.Lib.Table
import IpfsGate.Schema
import Mathlib.Data.List.Sort

/-!
# The queue of settlement reports

One row for each `ref`. A row keeps the facts as they were first queued, unsigned, and nothing
deletes it; receipts move its status.
-/
namespace IpfsGate.Reports

open Lib (Named Register)

/-- A receipt as it arrives; the box's signature is over all of it. -/
structure Receipt where
  ref : Option String
  status : ReceiptStatus
  rest : Json

structure Row where
  ref : String
  factsJson : String
  nonce : String
  metaJson : Option String
  status : ReportStatus
  createdAt : Int
  lastAttempt : Option Int
  attempts : Nat
  receipt : Option Receipt

instance instNamedRow : Named Row String := ⟨Row.ref⟩

abbrev Queue := Register Row

/-- What a settle call hands to the queue. -/
structure Settle where
  ref : String
  facts : Json
  nonce : String
  now : Int
  metaData : Option Json

/-- `INSERT OR IGNORE`, and whether a row was inserted. -/
def enqueue (queue : Queue) (c : Settle) : Bool × Queue :=
  (!queue.any (fun r => r.ref = c.ref),
    queue.insertNew
      { ref := c.ref
        factsJson := c.facts.stringify
        nonce := c.nonce
        metaJson := (c.metaData.filter Json.truthy).map Json.stringify
        status := .pending
        createdAt := c.now
        lastAttempt := none
        attempts := 0
        receipt := none })

def pending (queue : Queue) : List Row :=
  (queue.rows.filter (fun r => r.status = .pending)).insertionSort
    (fun r s => r.createdAt ≤ s.createdAt)

def get (queue : Queue) (ref : String) : Option Row := queue.find? (fun r => r.ref = ref)

def markAttempt (queue : Queue) (ref : String) (now : Int) : Queue :=
  queue.update (fun r => r.ref = ref)
    (fun r => { r with lastAttempt := some now, attempts := r.attempts + 1 }) (fun _ => rfl)

/-- Move a pending row to the status, and whether there was one. -/
def mark (queue : Queue) (status : ReportStatus) (ref : String) (receipt : Receipt) :
    Bool × Queue :=
  (queue.any (fun r => r.ref = ref && r.status = .pending),
    queue.update (fun r => r.ref = ref && r.status = .pending)
      (fun r => { r with status, receipt := some receipt }) (fun _ => rfl))

def markSettled (queue : Queue) (ref : String) (receipt : Receipt) : Bool × Queue :=
  mark queue .settled ref receipt

def markFailed (queue : Queue) (ref : String) (receipt : Receipt) : Bool × Queue :=
  mark queue .failed ref receipt

def updateReceipt (queue : Queue) (ref : String) (receipt : Receipt) : Queue :=
  queue.update (fun r => r.ref = ref) (fun r => { r with receipt := some receipt })
    (fun _ => rfl)

theorem mem_pending {queue : Queue} {r : Row} :
    r ∈ pending queue ↔ r ∈ queue ∧ r.status = .pending := by
  rw [pending, List.mem_insertionSort, List.mem_filter, Register.mem_rows, decide_eq_true_iff]

theorem mem_of_get {queue : Queue} {ref : String} {r : Row} (h : get queue ref = some r) :
    r ∈ queue ∧ r.ref = ref :=
  ⟨List.mem_of_find?_eq_some h, by simpa using List.find?_some h⟩

theorem mem_markAttempt {queue : Queue} {ref : String} {now : Int} {r : Row} :
    r ∈ markAttempt queue ref now ↔ ∃ old ∈ queue, r =
      if old.ref = ref then { old with lastAttempt := some now, attempts := old.attempts + 1 }
      else old := by
  simp [markAttempt]

theorem mem_mark {queue : Queue} {status : ReportStatus} {ref : String} {receipt : Receipt}
    {r : Row} :
    r ∈ (mark queue status ref receipt).2 ↔ ∃ old ∈ queue, r =
      if old.ref = ref ∧ old.status = .pending then { old with status, receipt := some receipt }
      else old := by
  simp [mark]

theorem mem_updateReceipt {queue : Queue} {ref : String} {receipt : Receipt} {r : Row} :
    r ∈ updateReceipt queue ref receipt ↔ ∃ old ∈ queue, r =
      if old.ref = ref then { old with receipt := some receipt } else old := by
  simp [updateReceipt]

/-! ## What a row keeps -/

/-- The rows say the same, whatever has become of them. -/
structure Row.Same (r s : Row) : Prop where
  ref : r.ref = s.ref
  factsJson : r.factsJson = s.factsJson
  nonce : r.nonce = s.nonce
  metaJson : r.metaJson = s.metaJson
  createdAt : r.createdAt = s.createdAt

theorem Row.Same.refl (r : Row) : r.Same r := ⟨rfl, rfl, rfl, rfl, rfl⟩

theorem Row.Same.trans {r s t : Row} (h : r.Same s) (h' : s.Same t) : r.Same t :=
  ⟨h.ref.trans h'.ref, h.factsJson.trans h'.factsJson, h.nonce.trans h'.nonce,
    h.metaJson.trans h'.metaJson, h.createdAt.trans h'.createdAt⟩

/-- Every row is still there, and says what it said. -/
def Keeps (queue queue' : Queue) : Prop := ∀ r ∈ queue, ∃ r' ∈ queue', r'.Same r

theorem Keeps.refl (queue : Queue) : Keeps queue queue := fun r hr => ⟨r, hr, .refl r⟩

theorem Keeps.trans {a b c : Queue} (h : Keeps a b) (h' : Keeps b c) : Keeps a c := by
  intro r hr
  obtain ⟨s, hs, hsame⟩ := h r hr
  obtain ⟨t, ht, hsame'⟩ := h' s hs
  exact ⟨t, ht, hsame'.trans hsame⟩

theorem keeps_update {queue : Queue} {p : Row → Bool} {f : Row → Row}
    (hname : ∀ r, (f r).ref = r.ref) (hsame : ∀ r, (f r).Same r) :
    Keeps queue (queue.update p f hname) := by
  intro r hr
  refine ⟨if p r then f r else r, Register.mem_update.mpr ⟨r, hr, rfl⟩, ?_⟩
  split
  · exact hsame r
  · exact .refl r

theorem keeps_enqueue (queue : Queue) (c : Settle) : Keeps queue (enqueue queue c).2 :=
  fun r hr => ⟨r, Register.mem_insertNew.mpr (Or.inl hr), .refl r⟩

theorem keeps_markAttempt (queue : Queue) (ref : String) (now : Int) :
    Keeps queue (markAttempt queue ref now) :=
  keeps_update _ (fun _ => ⟨rfl, rfl, rfl, rfl, rfl⟩)

theorem keeps_mark (queue : Queue) (status : ReportStatus) (ref : String) (receipt : Receipt) :
    Keeps queue (mark queue status ref receipt).2 :=
  @keeps_update queue _ (fun r => { r with status, receipt := some receipt }) (fun _ => rfl)
    (fun _ => ⟨rfl, rfl, rfl, rfl, rfl⟩)

theorem keeps_updateReceipt (queue : Queue) (ref : String) (receipt : Receipt) :
    Keeps queue (updateReceipt queue ref receipt) :=
  keeps_update _ (fun _ => ⟨rfl, rfl, rfl, rfl, rfl⟩)

end IpfsGate.Reports
