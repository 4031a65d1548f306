import Mathlib.Data.List.DropRight

/-!
# Trimming and splitting texts

A text is a list of characters. Trimming takes away what satisfies a test at both ends, and a
text is split where the longest run of such characters at its start ends.
-/
namespace IpfsGate.Lib

variable {α : Type} {p : α → Bool} {lead text trail : List α}

def trimWhile (p : α → Bool) (text : List α) : List α := (text.dropWhile p).rdropWhile p

theorem rdropWhile_append_of_pos (h : ∀ c ∈ trail, p c = true) :
    (text ++ trail).rdropWhile p = text.rdropWhile p := by
  rw [List.rdropWhile, List.reverse_append, List.dropWhile_append_of_pos, ← List.rdropWhile]
  intro c hc
  exact h c (List.mem_reverse.mp hc)

/-- What stands between is left, if none of it is to go. -/
theorem trimWhile_padded (hlead : ∀ c ∈ lead, p c = true) (htrail : ∀ c ∈ trail, p c = true)
    (htext : ∀ c ∈ text, p c = false) (hne : text ≠ []) :
    trimWhile p (lead ++ text ++ trail) = text := by
  have hstart : (lead ++ text ++ trail).dropWhile p = text ++ trail := by
    obtain ⟨first, rest, rfl⟩ := List.exists_cons_of_ne_nil hne
    have hno : ¬ p first = true := by simp [htext first List.mem_cons_self]
    rw [List.append_assoc, List.dropWhile_append_of_pos hlead, List.cons_append,
      List.dropWhile_cons_of_neg hno]
  rw [trimWhile, hstart, rdropWhile_append_of_pos htrail, List.rdropWhile_eq_self_iff]
  intro h
  simp [htext _ (List.getLast_mem h)]

/-- A text is what trimming leaves of it, between what it takes away. -/
theorem exists_trimWhile (p : α → Bool) (text : List α) : ∃ lead trail,
    text = lead ++ trimWhile p text ++ trail ∧ (∀ c ∈ lead, p c = true) ∧
      ∀ c ∈ trail, p c = true := by
  refine ⟨text.takeWhile p, (text.dropWhile p).rtakeWhile p, ?_,
    fun c hc => List.mem_takeWhile_imp hc, fun c hc => List.mem_rtakeWhile_imp hc⟩
  rw [List.append_assoc, trimWhile, List.rdropWhile_append_rtakeWhile,
    List.takeWhile_append_dropWhile]

theorem dropWhile_append_stop {stop : α} (hstop : p stop = false) :
    (lead ++ stop :: text).dropWhile p = lead.dropWhile p ++ stop :: text := by
  have hself : (stop :: text).dropWhile p = stop :: text :=
    List.dropWhile_cons_of_neg (by simp [hstop])
  rw [List.dropWhile_append, hself]
  split
  · next hnil => rw [List.isEmpty_iff.mp hnil, List.nil_append]
  · rfl

theorem rdropWhile_append_stop {stop : α} (hstop : p stop = false) :
    (text ++ [stop] ++ trail).rdropWhile p = text ++ [stop] ++ trail.rdropWhile p := by
  rw [List.rdropWhile, List.rdropWhile, List.reverse_append, List.reverse_append,
    List.reverse_singleton, List.singleton_append, dropWhile_append_stop hstop]
  simp

/-- What is trimmed off stands before and behind a text that neither starts nor ends with it. -/
theorem trimWhile_around {first last : α} (hfirst : p first = false) (hlast : p last = false) :
    trimWhile p (lead ++ (first :: text ++ [last]) ++ trail) =
      lead.dropWhile p ++ (first :: text ++ [last]) ++ trail.rdropWhile p := by
  rw [trimWhile, List.append_assoc, List.cons_append, List.cons_append,
    dropWhile_append_stop hfirst]
  have hend : (lead.dropWhile p ++ first :: text ++ [last] ++ trail).rdropWhile p =
      lead.dropWhile p ++ first :: text ++ [last] ++ trail.rdropWhile p :=
    rdropWhile_append_stop hlast
  simpa using hend

/-- The run of characters that pass the test ends at the first that does not. -/
theorem span_stop (hlead : ∀ c ∈ lead, p c = true) {stop : α} (hstop : p stop = false) :
    (lead ++ stop :: text).takeWhile p = lead ∧
      (lead ++ stop :: text).dropWhile p = stop :: text := by
  have hno : ¬ p stop = true := by simp [hstop]
  constructor
  · rw [List.takeWhile_append_of_pos hlead, List.takeWhile_cons_of_neg hno, List.append_nil]
  · rw [List.dropWhile_append_of_pos hlead, List.dropWhile_cons_of_neg hno]

end IpfsGate.Lib
