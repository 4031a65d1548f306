import Mathlib.Data.List.Induction

/-!
# Texts put together from fields

Fields are written one after another with a separator between them and no escaping. What can be
read back depends on where the separator may occur: a field without it is found from either end,
so one field in the middle may hold anything.
-/
namespace IpfsGate.Lib.Separated

/-- A string in a template stands for itself. -/
theorem toString_string (s : String) : toString s = s := rfl

/-- A number written out can be read back. -/
theorem repr_inj {m n : Nat} (h : m.repr = n.repr) : m = n := by
  have hdigits : Nat.toDigits 10 m = Nat.toDigits 10 n := by
    rw [← Nat.toList_repr, h, Nat.toList_repr]
  rw [← Nat.ofDigitChars_ten_toDigits (n := m), hdigits, Nat.ofDigitChars_ten_toDigits]

variable {α : Type} {sep : α} {a b a' b' : List α}

/-- The first field ends at the first separator. -/
theorem split_first (h : a ++ sep :: b = a' ++ sep :: b') (ha : sep ∉ a) (ha' : sep ∉ a') :
    a = a' ∧ b = b' := by
  induction a generalizing a' with
  | nil =>
    cases a' with
    | nil => exact ⟨rfl, List.tail_eq_of_cons_eq h⟩
    | cons x a' =>
      rw [List.nil_append, List.cons_append] at h
      exact absurd (List.head_eq_of_cons_eq h ▸ List.mem_cons_self) ha'
  | cons x a ih =>
    cases a' with
    | nil =>
      rw [List.nil_append, List.cons_append] at h
      exact absurd (List.head_eq_of_cons_eq h ▸ List.mem_cons_self) ha
    | cons y a' =>
      rw [List.cons_append, List.cons_append] at h
      obtain ⟨rfl, hrest⟩ := List.cons.inj h
      obtain ⟨rfl, rfl⟩ := ih hrest (fun hx => ha (List.mem_cons_of_mem _ hx))
        (fun hx => ha' (List.mem_cons_of_mem _ hx))
      exact ⟨rfl, rfl⟩

/-- The last field starts after the last separator. -/
theorem split_last (h : a ++ sep :: b = a' ++ sep :: b') (hb : sep ∉ b) (hb' : sep ∉ b') :
    a = a' ∧ b = b' := by
  have hrev : b.reverse ++ sep :: a.reverse = b'.reverse ++ sep :: a'.reverse := by
    simpa using congrArg List.reverse h
  obtain ⟨hbb, haa⟩ := split_first hrev (by simpa using hb) (by simpa using hb')
  exact ⟨List.reverse_inj.mp haa, List.reverse_inj.mp hbb⟩

/-! ## One free field -/

/-- Fields before and after one that may hold the separator itself. -/
def framed (sep : α) (before : List (List α)) (free : List α) (after : List (List α)) : List α :=
  before.foldr (fun f rest => f ++ sep :: rest) (after.foldl (fun rest f => rest ++ sep :: f) free)

variable {free free' : List α} {before before' after after' : List (List α)}

theorem framed_cons (f : List α) (before : List (List α)) (free : List α)
    (after : List (List α)) :
    framed sep (f :: before) free after = f ++ sep :: framed sep before free after := rfl

/-- Fields after the free one are read from the end. -/
theorem framed_after (hlen : after.length = after'.length)
    (h : framed sep [] free after = framed sep [] free' after')
    (hafter : ∀ f ∈ after, sep ∉ f) (hafter' : ∀ f ∈ after', sep ∉ f) :
    free = free' ∧ after = after' := by
  induction after using List.reverseRecOn generalizing after' with
  | nil =>
    obtain rfl : after' = [] := List.length_eq_zero_iff.mp hlen.symm
    exact ⟨h, rfl⟩
  | append_singleton rest f ih =>
    cases after' using List.reverseRecOn with
    | nil => simp at hlen
    | append_singleton rest' f' =>
      simp only [framed, List.foldr_nil, List.foldl_append, List.foldl_cons, List.foldl_nil] at h
      obtain ⟨hrest, rfl⟩ := split_last h (hafter f (by simp)) (hafter' f' (by simp))
      obtain ⟨hfree, rfl⟩ := ih (by simpa using hlen) hrest
        (fun g hg => hafter g (by simp [hg])) (fun g hg => hafter' g (by simp [hg]))
      exact ⟨hfree, rfl⟩

/-- Of two texts with as many fields on either side of the free one, every field is the same. -/
theorem framed_inj (hbefore : before.length = before'.length) (hlen : after.length = after'.length)
    (h : framed sep before free after = framed sep before' free' after')
    (hb : ∀ f ∈ before, sep ∉ f) (hb' : ∀ f ∈ before', sep ∉ f)
    (ha : ∀ f ∈ after, sep ∉ f) (ha' : ∀ f ∈ after', sep ∉ f) :
    before = before' ∧ free = free' ∧ after = after' := by
  induction before generalizing before' with
  | nil =>
    obtain rfl : before' = [] := List.length_eq_zero_iff.mp hbefore.symm
    exact ⟨rfl, framed_after hlen h ha ha'⟩
  | cons f rest ih =>
    cases before' with
    | nil => simp at hbefore
    | cons f' rest' =>
      rw [framed_cons, framed_cons] at h
      obtain ⟨rfl, hrest⟩ := split_first h (hb f List.mem_cons_self) (hb' f' List.mem_cons_self)
      obtain ⟨rfl, hfree⟩ := ih (by simpa using hbefore) hrest
        (fun g hg => hb g (List.mem_cons_of_mem _ hg))
        (fun g hg => hb' g (List.mem_cons_of_mem _ hg))
      exact ⟨rfl, hfree⟩

/-! ## Lists of fields -/

/-- A joined text holds what its fields hold, and the separator. -/
theorem not_mem_intercalate {x : α} {fields : List (List α)} (hx : x ≠ sep)
    (h : ∀ f ∈ fields, x ∉ f) : x ∉ [sep].intercalate fields := by
  induction fields with
  | nil => simp
  | cons f rest ih =>
    have hrest := ih (fun g hg => h g (List.mem_cons_of_mem _ hg))
    have hfirst := h f List.mem_cons_self
    cases rest with
    | nil => rwa [List.intercalate_singleton]
    | cons g rest =>
      rw [List.intercalate_cons_cons]
      simp only [List.mem_append, List.mem_singleton, not_or]
      exact ⟨⟨hfirst, hx⟩, hrest⟩

theorem intercalate_ne_nil {f : List α} (hf : f ≠ []) (rest : List (List α)) :
    [sep].intercalate (f :: rest) ≠ [] := by
  cases rest with
  | nil => simpa using hf
  | cons g rest => simp [hf]

/-- A field that stands alone has no separator, where more than one do. -/
theorem intercalate_single_ne {f f' g' : List α} (hf : sep ∉ f) (rest' : List (List α)) :
    [sep].intercalate [f] ≠ [sep].intercalate (f' :: g' :: rest') := by
  intro h
  apply hf
  simp only [List.intercalate_singleton, List.intercalate_cons_cons] at h
  rw [h]
  simp

/-- Two lists of non-empty fields without the separator that are joined to the same text are the
same list. -/
theorem intercalate_inj {fields fields' : List (List α)}
    (h : [sep].intercalate fields = [sep].intercalate fields')
    (hf : ∀ f ∈ fields, f ≠ [] ∧ sep ∉ f) (hf' : ∀ f ∈ fields', f ≠ [] ∧ sep ∉ f) :
    fields = fields' := by
  induction fields generalizing fields' with
  | nil =>
    cases fields' with
    | nil => rfl
    | cons f rest => exact absurd h.symm (intercalate_ne_nil (hf' f List.mem_cons_self).1 rest)
  | cons f rest ih =>
    have hfirst := hf f List.mem_cons_self
    cases fields' with
    | nil => exact absurd h (intercalate_ne_nil hfirst.1 rest)
    | cons f' rest' =>
      have hfirst' := hf' f' List.mem_cons_self
      cases rest with
      | nil =>
        cases rest' with
        | nil => simpa using h
        | cons g' rest' => exact absurd h (intercalate_single_ne hfirst.2 rest')
      | cons g rest =>
        cases rest' with
        | nil => exact absurd h.symm (intercalate_single_ne hfirst'.2 rest)
        | cons g' rest' =>
          simp only [List.intercalate_cons_cons, List.append_assoc, List.singleton_append] at h
          obtain ⟨rfl, hrest⟩ := split_first h hfirst.2 hfirst'.2
          rw [ih hrest (fun x hx => hf x (List.mem_cons_of_mem _ hx))
            (fun x hx => hf' x (List.mem_cons_of_mem _ hx))]

end IpfsGate.Lib.Separated
