import Mathlib.Data.List.Sort

/-!
# Ranks in a list

The rank of an element is the number of elements that come no later in a given order. Ranks
compare the way the order does, and where no two elements tie they count upwards along the
sorted list; so a queue can be kept by its ranks instead of by the order itself.
-/
namespace IpfsGate.Lib

variable {α : Type} (r : α → α → Prop) [DecidableRel r]

/-- How many elements of the list come no later than this one. -/
def rank (l : List α) (a : α) : Nat := l.countP (fun b => r b a)

variable {r} {l : List α}

theorem rank_perm {l' : List α} (h : l.Perm l') (a : α) : rank r l a = rank r l' a := h.countP_eq _

/-- A count grows with the condition, by the elements that only the wider one selects. -/
theorem countP_lt_of_imp {p q : α → Bool} {a : α} (ha : a ∈ l)
    (hpq : ∀ c ∈ l, p c = true → q c = true) (hp : p a = false) (hq : q a = true) :
    l.countP p < l.countP q := by
  obtain ⟨s, t, rfl⟩ := List.append_of_mem ha
  have hs : s.countP p ≤ s.countP q :=
    List.countP_mono_left (fun c hc => hpq c (List.mem_append_left _ hc))
  have ht : t.countP p ≤ t.countP q :=
    List.countP_mono_left (fun c hc => hpq c (List.mem_append_right _ (List.mem_cons_of_mem _ hc)))
  simp only [List.countP_append, List.countP_cons, hp, hq, Bool.false_eq_true, if_false, if_true]
  omega

section Order

variable [Std.Total r]

/-- Along a list in which everything comes strictly later, ranks count upwards from one. -/
theorem map_rank_of_strict (h : l.Pairwise (fun a b => r a b ∧ ¬ r b a)) :
    l.map (rank r l) = List.range' 1 l.length := by
  induction l with
  | nil => rfl
  | cons a rest ih =>
    obtain ⟨hfirst, hrest⟩ := List.pairwise_cons.mp h
    have hhead : rank r (a :: rest) a = 1 := by
      have hnone : rest.countP (fun b => decide (r b a)) = 0 :=
        List.countP_eq_zero.mpr (fun b hb => by simpa using (hfirst b hb).2)
      unfold rank
      rw [List.countP_cons, hnone, if_pos (by simpa using refl_of r a)]
    have htail : ∀ b ∈ rest, rank r (a :: rest) b = 1 + rank r rest b := by
      intro b hb
      unfold rank
      rw [List.countP_cons, if_pos (by simpa using (hfirst b hb).1), Nat.add_comm]
    have hmap : rest.map (rank r (a :: rest)) = (rest.map (rank r rest)).map (1 + ·) := by
      rw [List.map_map]
      exact List.map_congr_left htail
    rw [List.map_cons, hhead, hmap, ih hrest, List.length_cons, List.range'_succ,
      List.map_add_range']

variable [IsTrans α r]

/-- Ranks compare the way the elements do. -/
theorem rank_le_rank_iff {a b : α} (ha : a ∈ l) : rank r l a ≤ rank r l b ↔ r a b := by
  constructor
  · intro hle
    by_contra hab
    have hba : r b a := (Std.Total.total a b).resolve_left hab
    have hlt : rank r l b < rank r l a := by
      refine countP_lt_of_imp ha (fun c _ hc => ?_) (by simpa using hab)
        (by simpa using refl_of r a)
      simp only [decide_eq_true_eq] at hc ⊢
      exact IsTrans.trans c b a hc hba
    omega
  · intro hab
    refine List.countP_mono_left (fun c _ hc => ?_)
    simp only [decide_eq_true_eq] at hc ⊢
    exact IsTrans.trans c a b hc hab

/-- Ranks count upwards along the sorted list. -/
theorem map_rank_insertionSort (hnodup : l.Nodup)
    (htie : ∀ a ∈ l, ∀ b ∈ l, r a b → r b a → a = b) :
    (l.insertionSort r).map (rank r l) = List.range' 1 l.length := by
  have hperm := List.perm_insertionSort r l
  have hsorted := List.pairwise_insertionSort r l
  have hdistinct : (l.insertionSort r).Nodup := hperm.nodup_iff.mpr hnodup
  have hstrict : (l.insertionSort r).Pairwise (fun a b => r a b ∧ ¬ r b a) := by
    refine (hsorted.and hdistinct).imp_of_mem ?_
    intro a b ha hb hab
    exact ⟨hab.1, fun hba => hab.2
      (htie a (hperm.mem_iff.mp ha) b (hperm.mem_iff.mp hb) hab.1 hba)⟩
  have hranks := map_rank_of_strict hstrict
  rw [hperm.length_eq] at hranks
  rw [← hranks]
  exact List.map_congr_left (fun a _ => rank_perm hperm.symm a)

end Order

/-! ## Appending at the end of the order -/

theorem orderedInsert_concat {a x : α} (h : r a x) :
    ∀ l : List α, (l ++ [x]).orderedInsert r a = l.orderedInsert r a ++ [x]
  | [] => by
    rw [List.nil_append, List.orderedInsert_cons, if_pos h]
    rfl
  | b :: l => by
    rw [List.cons_append, List.orderedInsert_cons, List.orderedInsert_cons]
    split
    · rfl
    · rw [orderedInsert_concat h l, List.cons_append]

/-- What comes after everything else is sorted to the end. -/
theorem insertionSort_concat {x : α} (h : ∀ a ∈ l, r a x) :
    (l ++ [x]).insertionSort r = l.insertionSort r ++ [x] := by
  induction l with
  | nil => rfl
  | cons a l ih =>
    rw [List.cons_append, List.insertionSort_cons, List.insertionSort_cons,
      ih (fun b hb => h b (List.mem_cons_of_mem _ hb)),
      orderedInsert_concat (h a List.mem_cons_self)]

end IpfsGate.Lib
