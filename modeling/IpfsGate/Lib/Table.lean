import Mathlib.Data.List.Pairwise
import Mathlib.Data.List.Nodup

/-!
# Keyed tables and registers

A table hands out serial keys and keeps its rows in insertion order, the way an
auto-increment table does. A register is keyed by a text chosen by the writer and
replaces a row of the same name. Both carry their key discipline as a field, so that a
table with two rows of one key cannot be built.
-/
namespace IpfsGate.Lib

/-- Rows that carry the serial key their table hands out. -/
class Keyed (ρ : Type) where
  key : ρ → Nat

open Keyed (key)

/-- Serial keys start at one, so zero never names a row. -/
structure Table (ρ : Type) [Keyed ρ] where
  rows : List ρ
  next : Nat
  ordered : rows.Pairwise (fun r s => key r < key s)
  serial : ∀ r ∈ rows, 0 < key r ∧ key r < next
  positive : 0 < next

namespace Table

variable {ρ : Type} [Keyed ρ]

instance : Membership ρ (Table ρ) := ⟨fun T r => r ∈ T.rows⟩

theorem mem_rows {T : Table ρ} {r : ρ} : r ∈ T.rows ↔ r ∈ T := Iff.rfl

instance (T : Table ρ) (P : ρ → Prop) [DecidablePred P] : Decidable (∀ r ∈ T, P r) :=
  inferInstanceAs (Decidable (∀ r ∈ T.rows, P r))

instance (T : Table ρ) (P : ρ → Prop) [DecidablePred P] : Decidable (∃ r ∈ T, P r) :=
  inferInstanceAs (Decidable (∃ r ∈ T.rows, P r))

def empty : Table ρ where
  rows := []
  next := 1
  ordered := List.Pairwise.nil
  serial := by intro r hr; simp at hr
  positive := Nat.one_pos

/-- Append a row built from the next serial key. -/
def insert (T : Table ρ) (mk : Nat → ρ) (h : ∀ n, key (mk n) = n) : Table ρ where
  rows := T.rows ++ [mk T.next]
  next := T.next + 1
  ordered := by
    rw [List.pairwise_append]
    refine ⟨T.ordered, List.pairwise_singleton _ _, ?_⟩
    intro r hr s hs
    rw [List.mem_singleton] at hs
    rw [hs, h]
    exact (T.serial r hr).2
  serial := by
    intro r hr
    rcases List.mem_append.mp hr with hr | hr
    · have hlt := T.serial r hr
      omega
    · rw [List.mem_singleton] at hr
      rw [hr, h]
      have hpos := T.positive
      omega
  positive := Nat.succ_pos _

/-- Rewrite the selected rows in place, keeping every key. -/
def update (T : Table ρ) (p : ρ → Bool) (f : ρ → ρ)
    (hf : ∀ r, key (f r) = key r) : Table ρ where
  rows := T.rows.map (fun r => if p r then f r else r)
  next := T.next
  ordered := by
    rw [List.pairwise_map]
    refine T.ordered.imp ?_
    intro r s hrs
    have hr : key (if p r then f r else r) = key r := by split <;> simp [hf]
    have hs : key (if p s then f s else s) = key s := by split <;> simp [hf]
    rw [hr, hs]
    exact hrs
  serial := by
    intro r hr
    obtain ⟨s, hs, rfl⟩ := List.mem_map.mp hr
    have hk : key (if p s then f s else s) = key s := by split <;> simp [hf]
    rw [hk]
    exact T.serial s hs
  positive := T.positive

def find? (T : Table ρ) (n : Nat) : Option ρ := T.rows.find? (fun r => key r == n)

def filter (T : Table ρ) (p : ρ → Bool) : List ρ := T.rows.filter p

/-- How many rows an update or a query selects. -/
def count (T : Table ρ) (p : ρ → Bool) : Nat := T.rows.countP p

@[simp] theorem insert_next (T : Table ρ) (mk : Nat → ρ) (h) :
    (T.insert mk h).next = T.next + 1 := rfl

@[simp] theorem update_next (T : Table ρ) (p : ρ → Bool) (f : ρ → ρ) (hf) :
    (T.update p f hf).next = T.next := rfl

@[simp] theorem not_mem_empty (r : ρ) : r ∉ (empty : Table ρ) := by
  intro h
  exact List.not_mem_nil h

@[simp] theorem mem_filter {T : Table ρ} {p : ρ → Bool} {r : ρ} :
    r ∈ T.filter p ↔ r ∈ T ∧ p r := List.mem_filter

@[simp] theorem mem_insert {T : Table ρ} {mk : Nat → ρ} {h} {r : ρ} :
    r ∈ T.insert mk h ↔ r ∈ T ∨ r = mk T.next := by
  rw [← mem_rows]
  simp only [insert, List.mem_append, List.mem_singleton, mem_rows]

@[simp] theorem mem_update {T : Table ρ} {p : ρ → Bool} {f : ρ → ρ} {h} {r : ρ} :
    r ∈ T.update p f h ↔ ∃ s ∈ T, r = if p s then f s else s := by
  rw [← mem_rows]
  simp only [update, List.mem_map, mem_rows]
  constructor
  · rintro ⟨s, hs, rfl⟩
    exact ⟨s, hs, rfl⟩
  · rintro ⟨s, hs, rfl⟩
    exact ⟨s, hs, rfl⟩

theorem mem_update_of_mem {T : Table ρ} {p : ρ → Bool} {f : ρ → ρ} {hf} {r : ρ} (hr : r ∈ T) :
    (if p r then f r else r) ∈ T.update p f hf := mem_update.mpr ⟨r, hr, rfl⟩

theorem key_lt_next {T : Table ρ} {r : ρ} (hr : r ∈ T) : key r < T.next := (T.serial r hr).2

theorem ne_next {T : Table ρ} {r : ρ} (hr : r ∈ T) : key r ≠ T.next :=
  Nat.ne_of_lt (key_lt_next hr)

theorem nodup (T : Table ρ) : T.rows.Nodup := by
  refine T.ordered.imp ?_
  intro r s hrs he
  rw [he] at hrs
  exact Nat.lt_irrefl _ hrs

/-- One key names at most one row. -/
theorem eq_of_key {T : Table ρ} {r s : ρ} (hr : r ∈ T) (hs : s ∈ T) (hk : key r = key s) :
    r = s := by
  have hp : T.rows.Pairwise (fun r s => key r = key s → r = s) :=
    T.ordered.imp (fun hlt he => absurd he (Nat.ne_of_lt hlt))
  have hsymm : Std.Symm (fun r s : ρ => key r = key s → r = s) :=
    ⟨fun _ _ h he => (h he.symm).symm⟩
  exact hp.forall_of_forall (fun _ _ _ => rfl) hr hs hk

theorem find?_eq_some {T : Table ρ} {n : Nat} {r : ρ} :
    T.find? n = some r ↔ r ∈ T ∧ key r = n := by
  constructor
  · intro h
    have hp := List.find?_some h
    exact ⟨List.mem_of_find?_eq_some h, by simpa using hp⟩
  · rintro ⟨hr, hn⟩
    cases h : T.find? n with
    | none =>
      have hno := List.find?_eq_none.mp h r hr
      simp [hn] at hno
    | some s =>
      have hs := List.find?_some h
      have hkey : key s = key r := by rw [hn]; simpa using hs
      rw [eq_of_key (List.mem_of_find?_eq_some h) hr hkey]

/-- A selection that no two rows share has at most one row. -/
theorem filter_length_le_one {T : Table ρ} {p : ρ → Bool}
    (h : ∀ r ∈ T, ∀ s ∈ T, p r = true → p s = true → r = s) : (T.filter p).length ≤ 1 := by
  have hnodup : (T.filter p).Nodup := T.nodup.filter p
  have hmem : ∀ r ∈ T.filter p, r ∈ T ∧ p r = true := fun r => mem_filter.mp
  generalize T.filter p = rows at hnodup hmem ⊢
  cases rows with
  | nil => exact Nat.zero_le _
  | cons r rest =>
    cases rest with
    | nil => exact Nat.le_refl _
    | cons s rest =>
      have hr := hmem r List.mem_cons_self
      have hs := hmem s (List.mem_cons_of_mem _ List.mem_cons_self)
      have heq := h r hr.1 s hs.1 hr.2 hs.2
      rw [heq] at hnodup
      exact absurd List.mem_cons_self (List.nodup_cons.mp hnodup).1

end Table

/-- Rows that carry the name their register is keyed by. -/
class Named (ρ : Type) (κ : outParam Type) where
  name : ρ → κ

open Named (name)

structure Register (ρ : Type) {κ : Type} [Named ρ κ] where
  rows : List ρ
  distinct : rows.Pairwise (fun r s => name r ≠ name s)

namespace Register

variable {ρ κ : Type} [Named ρ κ]

instance : Membership ρ (Register ρ) := ⟨fun R r => r ∈ R.rows⟩

theorem mem_rows {R : Register ρ} {r : ρ} : r ∈ R.rows ↔ r ∈ R := Iff.rfl

def empty : Register ρ := ⟨[], List.Pairwise.nil⟩

@[simp] theorem not_mem_empty (r : ρ) : r ∉ (empty : Register ρ) := by
  intro h
  exact List.not_mem_nil h

/-- Rewrite the selected rows in place, keeping every name. -/
def update (R : Register ρ) (p : ρ → Bool) (f : ρ → ρ)
    (hf : ∀ r, name (f r) = name r) : Register ρ where
  rows := R.rows.map (fun r => if p r then f r else r)
  distinct := by
    rw [List.pairwise_map]
    refine R.distinct.imp ?_
    intro r s hrs
    have hr : name (if p r then f r else r) = name r := by split <;> simp [hf]
    have hs : name (if p s then f s else s) = name s := by split <;> simp [hf]
    rw [hr, hs]
    exact hrs

def find? (R : Register ρ) (p : ρ → Bool) : Option ρ := R.rows.find? p

def any (R : Register ρ) (p : ρ → Bool) : Bool := R.rows.any p

@[simp] theorem mem_update {R : Register ρ} {p : ρ → Bool} {f : ρ → ρ} {h} {r : ρ} :
    r ∈ R.update p f h ↔ ∃ s ∈ R, r = if p s then f s else s := by
  rw [← mem_rows]
  simp only [update, List.mem_map, mem_rows]
  constructor
  · rintro ⟨s, hs, rfl⟩
    exact ⟨s, hs, rfl⟩
  · rintro ⟨s, hs, rfl⟩
    exact ⟨s, hs, rfl⟩

/-- A name stands for one row. -/
theorem eq_of_name {R : Register ρ} {r s : ρ} (hr : r ∈ R) (hs : s ∈ R)
    (h : name r = name s) : r = s := by
  have hp : R.rows.Pairwise (fun r s => name r = name s → r = s) :=
    R.distinct.imp (fun hne he => absurd he hne)
  have hsymm : Std.Symm (fun r s : ρ => name r = name s → r = s) :=
    ⟨fun _ _ h he => (h he.symm).symm⟩
  exact hp.forall_of_forall (fun _ _ _ => rfl) hr hs h

@[simp] theorem any_iff {R : Register ρ} {p : ρ → Bool} : R.any p = true ↔ ∃ r ∈ R, p r := by
  simp only [any, List.any_eq_true, mem_rows]

theorem any_eq_isSome_find? (R : Register ρ) (p : ρ → Bool) : R.any p = (R.find? p).isSome := by
  rw [Bool.eq_iff_iff, find?, List.find?_isSome, any, List.any_eq_true]

/-- An update that leaves no row selected by the query adds nothing to its answer. -/
theorem any_of_any_update {R : Register ρ} {p q : ρ → Bool} {f : ρ → ρ}
    (hf : ∀ r, name (f r) = name r) (hq : ∀ r, q (f r) = false)
    (h : (R.update p f hf).any q = true) : R.any q = true := by
  rw [any_iff] at h ⊢
  obtain ⟨r, hr, hqr⟩ := h
  obtain ⟨s, hs, rfl⟩ := mem_update.mp hr
  by_cases hp : p s = true
  · rw [if_pos hp, hq] at hqr
    cases hqr
  · rw [if_neg hp] at hqr
    exact ⟨s, hs, hqr⟩

variable [DecidableEq κ]

/-- Insert a row, dropping the row that held its name. -/
def replace (R : Register ρ) (row : ρ) : Register ρ where
  rows := R.rows.filter (fun r => name r ≠ name row) ++ [row]
  distinct := by
    rw [List.pairwise_append]
    refine ⟨R.distinct.filter _, List.pairwise_singleton _ _, ?_⟩
    intro r hr s hs
    rw [List.mem_singleton] at hs
    simp only [ne_eq, decide_not, List.mem_filter, Bool.not_eq_eq_eq_not, Bool.not_true,
      decide_eq_false_iff_not] at hr
    rw [hs]
    exact hr.2

/-- Drop the row of a name. -/
def erase (R : Register ρ) (k : κ) : Register ρ where
  rows := R.rows.filter (fun r => name r ≠ k)
  distinct := R.distinct.filter _

/-- `INSERT OR IGNORE`: a row whose name is taken is left out. -/
def insertNew (R : Register ρ) (row : ρ) : Register ρ where
  rows := if R.rows.any (fun r => name r = name row) then R.rows else R.rows ++ [row]
  distinct := by
    split
    · exact R.distinct
    · rename_i hnew
      rw [List.pairwise_append]
      refine ⟨R.distinct, List.pairwise_singleton _ _, ?_⟩
      intro r hr s hs hname
      rw [List.mem_singleton] at hs
      rw [hs] at hname
      exact hnew (List.any_eq_true.mpr ⟨r, hr, decide_eq_true hname⟩)

@[simp] theorem mem_replace {R : Register ρ} {row r : ρ} :
    r ∈ R.replace row ↔ (r ∈ R ∧ name r ≠ name row) ∨ r = row := by
  rw [← mem_rows]
  simp only [replace, List.mem_append, List.mem_singleton, List.mem_filter, mem_rows,
    decide_eq_true_eq]

theorem mem_insertNew {R : Register ρ} {row r : ρ} :
    r ∈ R.insertNew row ↔ r ∈ R ∨ (r = row ∧ ∀ s ∈ R, name s ≠ name row) := by
  rw [← mem_rows]
  unfold insertNew
  dsimp only
  split
  · rename_i hold
    obtain ⟨s, hs, hname⟩ := List.any_eq_true.mp hold
    constructor
    · exact Or.inl
    · rintro (h | ⟨_, hnew⟩)
      · exact h
      · exact absurd (of_decide_eq_true hname) (hnew s hs)
  · rename_i hnew
    have hfresh : ∀ s ∈ R, name s ≠ name row := by
      intro s hs hname
      exact hnew (List.any_eq_true.mpr ⟨s, hs, decide_eq_true hname⟩)
    rw [List.mem_append, List.mem_singleton]
    constructor
    · rintro (h | h)
      · exact Or.inl h
      · exact Or.inr ⟨h, hfresh⟩
    · rintro (h | ⟨h, _⟩)
      · exact Or.inl h
      · exact Or.inr h

/-- A replacement adds at most the new row to the answer of a query. -/
theorem any_of_any_replace {R : Register ρ} {row : ρ} {q : ρ → Bool}
    (h : (R.replace row).any q = true) : R.any q = true ∨ q row = true := by
  rw [any_iff] at h ⊢
  obtain ⟨r, hr, hqr⟩ := h
  rcases mem_replace.mp hr with ⟨hold, _⟩ | rfl
  · exact Or.inl ⟨r, hold, hqr⟩
  · exact Or.inr hqr

/-- A replacement by a row that answers a query about its name keeps every answer. -/
theorem any_replace_of_any {R : Register ρ} {row : ρ} {q : ρ → Bool}
    (hq : ∀ r, name r = name row → q r = true → q row = true) (h : R.any q = true) :
    (R.replace row).any q = true := by
  rw [any_iff] at h ⊢
  obtain ⟨r, hr, hqr⟩ := h
  by_cases hn : name r = name row
  · exact ⟨row, mem_replace.mpr (Or.inr rfl), hq r hn hqr⟩
  · exact ⟨r, mem_replace.mpr (Or.inl ⟨hr, hn⟩), hqr⟩

/-- The rows of one name are the row it stands for, if any. -/
theorem filter_name (R : Register ρ) (k : κ) :
    R.rows.filter (fun r => name r = k) = (R.find? (fun r => name r = k)).toList := by
  obtain ⟨rows, hdistinct⟩ := R
  show rows.filter _ = (rows.find? _).toList
  induction rows with
  | nil => rfl
  | cons r rest ih =>
    obtain ⟨hr, hrest⟩ := List.pairwise_cons.mp hdistinct
    by_cases hk : name r = k
    · have hnone : rest.filter (fun s => name s = k) = [] := by
        rw [List.filter_eq_nil_iff]
        intro s hs
        simp [← hk, (hr s hs).symm]
      simp [hk, hnone]
    · simpa [hk] using ih hrest

/-- A rewritten row answers to its name. -/
theorem find?_update (R : Register ρ) {p : ρ → Bool} {f : ρ → ρ} (hf : ∀ r, name (f r) = name r)
    (k : κ) : (R.update p f hf).find? (fun r => name r = k) =
      (R.find? (fun r => name r = k)).map (fun r => if p r then f r else r) := by
  have hname : (fun r => decide (name (if p r then f r else r) = k)) =
      fun r => decide (name r = k) := by
    funext r
    split <;> simp [hf]
  show (R.rows.map _).find? _ = _
  rw [List.find?_map]
  exact congrArg (fun q => (R.rows.find? q).map _) hname

theorem find?_insertNew (R : Register ρ) (row : ρ) (k : κ) :
    (R.insertNew row).find? (fun r => name r = k) =
      (R.find? (fun r => name r = k)).or (if name row = k then some row else none) := by
  have hany := R.any_eq_isSome_find? (fun r => decide (name r = name row))
  unfold insertNew find? any at *
  dsimp only
  rw [hany]
  split
  · rename_i hold
    by_cases hk : name row = k
    · rw [← hk, Option.or_of_isSome hold]
    · rw [if_neg hk, Option.or_none]
  · rw [List.find?_append, List.find?_singleton]
    simp only [decide_eq_true_eq]

theorem find?_erase (R : Register ρ) (a k : κ) :
    (R.erase a).find? (fun r => name r = k) =
      if k = a then none else R.find? (fun r => name r = k) := by
  simp only [find?, erase, List.find?_filter]
  by_cases hk : k = a
  · rw [if_pos hk, List.find?_eq_none]
    intro r _
    simp [hk]
  · rw [if_neg hk]
    congr 1
    funext r
    by_cases hr : name r = k
    · simp [hr, hk]
    · simp [hr]

/-- After a replacement the name answers with the new row, and the others as before. -/
theorem find?_replace (R : Register ρ) (row : ρ) (live : ρ → Bool) (hlive : live row = true)
    (k : κ) : (R.replace row).find? (fun r => name r = k && live r) =
      if k = name row then some row else R.find? (fun r => name r = k && live r) := by
  simp only [find?, replace, List.find?_append, List.find?_filter, List.find?_singleton, hlive,
    Bool.and_true, decide_eq_true_eq]
  by_cases hk : k = name row
  · have hnone : R.rows.find?
        (fun r => decide (name r ≠ name row ∧ (decide (name r = k) && live r) = true)) = none := by
      rw [List.find?_eq_none]
      intro r _
      simp +contextual [hk]
    rw [hnone, if_pos hk.symm, if_pos hk, Option.none_or]
  · have hsame :
        (fun r => decide (name r ≠ name row ∧ (decide (name r = k) && live r) = true)) =
          fun r => decide (name r = k) && live r := by
      funext r
      by_cases hr : name r = k
      · simp [hr, hk]
      · simp [hr]
    rw [hsame, if_neg (fun h => hk h.symm), if_neg hk, Option.or_none]

/-- After the live row of a name was retired the name has no answer, and the others as before. -/
theorem find?_retire (R : Register ρ) (a : κ) (live : ρ → Bool) (f : ρ → ρ)
    (hf : ∀ r, name (f r) = name r) (hdead : ∀ r, live (f r) = false) (k : κ) :
    (R.update (fun r => name r = a && live r) f hf).find? (fun r => name r = k && live r) =
      if k = a then none else R.find? (fun r => name r = k && live r) := by
  by_cases hk : k = a
  · rw [if_pos hk]
    show List.find? _ (List.map _ _) = none
    rw [List.find?_eq_none]
    intro r hr
    obtain ⟨s, _, rfl⟩ := List.mem_map.mp hr
    split
    · simp [hdead]
    · rw [hk]
      assumption
  · rw [if_neg hk]
    show List.find? _ (List.map _ _) = _
    rw [List.find?_map]
    have hsame : ((fun r => decide (name r = k) && live r) ∘
        fun r => if (decide (name r = a) && live r) = true then f r else r) =
        fun r => decide (name r = k) && live r := by
      funext r
      by_cases hr : name r = a
      · have hne : name r ≠ k := fun h => hk (h.symm.trans hr)
        simp only [Function.comp_apply]
        split <;> simp [hf, hne]
      · simp [hr]
    rw [hsame]
    show Option.map _ (R.find? _) = R.find? _
    cases hrow : R.find? (fun r => decide (name r = k) && live r) with
    | none => rfl
    | some r =>
      have hp := List.find?_some hrow
      simp only [Bool.and_eq_true, decide_eq_true_eq] at hp
      have hne : name r ≠ a := fun h => hk (hp.1.symm.trans h)
      simp [hne]

end Register

/-- `SELECT DISTINCT`, and the values of a JavaScript `Set`: first occurrences only. -/
theorem nodup_eraseDups {α : Type} [BEq α] [LawfulBEq α] (l : List α) : l.eraseDups.Nodup := by
  induction h : l.length using Nat.strongRecOn generalizing l with
  | ind n ih =>
    cases l with
    | nil => exact List.nodup_nil
    | cons a as =>
      rw [List.eraseDups_cons, List.nodup_cons]
      have hlen : (as.filter (fun b => !b == a)).length < n := by
        have hle := List.length_filter_le (fun b => !b == a) as
        rw [List.length_cons] at h
        omega
      refine ⟨?_, ih _ hlen _ rfl⟩
      rw [List.mem_eraseDups, List.mem_filter]
      simp

theorem eraseDups_of_nodup {α : Type} [BEq α] [LawfulBEq α] {l : List α} (h : l.Nodup) :
    l.eraseDups = l := by
  induction l with
  | nil => rfl
  | cons a as ih =>
    obtain ⟨ha, has⟩ := List.nodup_cons.mp h
    have hkeep : as.filter (fun b => !b == a) = as := by
      rw [List.filter_eq_self]
      intro b hb
      have hne : b ≠ a := fun hba => ha (hba ▸ hb)
      simp [hne]
    rw [List.eraseDups_cons, hkeep, ih has]

end IpfsGate.Lib
