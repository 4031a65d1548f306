import IpfsGate.Lib.Separated
import Mathlib.Data.List.Sort
import Mathlib.Tactic.Linarith

/-!
# Texts in the order of their code units

A script compares two texts by their 16-bit code units, where a character past the first plane is
a pair of surrogates. The order is total and tells any two texts apart, so sorting a list of texts
depends on nothing but what is in it.
-/
namespace IpfsGate.Lib.Utf16

/-- The code units of a character. -/
def charUnits (c : Char) : List Nat :=
  if c.toNat < 0x10000 then [c.toNat]
  else [0xD800 + (c.toNat - 0x10000) / 0x400, 0xDC00 + (c.toNat - 0x10000) % 0x400]

def units (text : List Char) : List Nat := text.flatMap charUnits

/-- No character is a surrogate. -/
theorem toNat_cases (c : Char) : c.toNat < 0xD800 ∨ (0xDFFF < c.toNat ∧ c.toNat < 0x110000) :=
  c.valid

theorem charUnits_prefix {c d : Char} {rest rest' : List Nat}
    (h : charUnits c ++ rest = charUnits d ++ rest') : c = d ∧ rest = rest' := by
  have hc := toNat_cases c
  have hd := toNat_cases d
  unfold charUnits at h
  split at h
  · split at h
    · simp only [List.cons_append, List.nil_append, List.cons.injEq] at h
      exact ⟨Char.toNat_inj.mp h.1, h.2⟩
    · simp only [List.cons_append, List.nil_append, List.cons.injEq] at h
      omega
  · split at h
    · simp only [List.cons_append, List.nil_append, List.cons.injEq] at h
      omega
    · simp only [List.cons_append, List.nil_append, List.cons.injEq] at h
      obtain ⟨hhigh, hlow, hrest⟩ := h
      refine ⟨Char.toNat_inj.mp ?_, hrest⟩
      omega

theorem charUnits_ne_nil (c : Char) : charUnits c ≠ [] := by
  unfold charUnits
  split <;> simp

theorem units_inj {a b : List Char} (h : units a = units b) : a = b := by
  induction a generalizing b with
  | nil =>
    cases b with
    | nil => rfl
    | cons d b => simp [units, charUnits_ne_nil] at h
  | cons c a ih =>
    cases b with
    | nil => simp [units, charUnits_ne_nil] at h
    | cons d b =>
      obtain ⟨rfl, hrest⟩ := charUnits_prefix h
      rw [ih hrest]

/-- `a` does not come after `b`. -/
def UnitsLE (a b : String) : Prop := List.le (units a.toList) (units b.toList)

instance : DecidableRel UnitsLE := fun a b => List.decidableLE (units a.toList) (units b.toList)

instance : IsTrans String UnitsLE := ⟨fun _ _ _ hab hbc => List.le_trans hab hbc⟩

instance : Std.Total UnitsLE := ⟨fun _ _ => List.le_total _ _⟩

theorem UnitsLE.antisymm {a b : String} (hab : UnitsLE a b) (hba : UnitsLE b a) : a = b :=
  String.toList_inj.mp (units_inj (List.le_antisymm hab hba))

/-- `sort` without a comparison of its own. -/
def sort (texts : List String) : List String := texts.insertionSort UnitsLE

theorem sort_perm (texts : List String) : (sort texts).Perm texts := List.perm_insertionSort _ _

theorem mem_sort {texts : List String} {s : String} : s ∈ sort texts ↔ s ∈ texts :=
  (sort_perm texts).mem_iff

/-- Sorting forgets the order and nothing else. -/
theorem sort_eq_iff {texts texts' : List String} : sort texts = sort texts' ↔ texts.Perm texts' := by
  constructor
  · intro h
    exact (sort_perm texts).symm.trans (h ▸ sort_perm texts')
  · intro h
    have hperm := ((sort_perm texts).trans h).trans (sort_perm texts').symm
    exact hperm.eq_of_pairwise (fun _ _ _ _ => UnitsLE.antisymm)
      (List.pairwise_insertionSort UnitsLE _) (List.pairwise_insertionSort UnitsLE _)

/-! ## Sorted names, joined by commas -/

/-- A name that can be told apart where it stands among others, between commas and bars. -/
def Plain (name : String) : Prop := name ≠ "" ∧ ',' ∉ name.toList ∧ '|' ∉ name.toList

instance (name : String) : Decidable (Plain name) := inferInstanceAs (Decidable (_ ∧ _))

variable {names names' : List String}

theorem joined_no_bar (h : ∀ a ∈ names, Plain a) :
    '|' ∉ (",".intercalate (sort names)).toList := by
  rw [String.toList_intercalate]
  apply Separated.not_mem_intercalate (by decide)
  intro a ha
  obtain ⟨s, hs, rfl⟩ := List.mem_map.mp ha
  exact (h s (mem_sort.mp hs)).2.2

/-- The joined names are the names. -/
theorem perm_of_joined (h : ∀ a ∈ names, Plain a) (h' : ∀ a ∈ names', Plain a)
    (hjoin : (",".intercalate (sort names)).toList = (",".intercalate (sort names')).toList) :
    names.Perm names' := by
  have hplain : ∀ {l : List String}, (∀ a ∈ l, Plain a) →
      ∀ a ∈ (sort l).map String.toList, a ≠ [] ∧ ',' ∉ a := by
    intro l hl a ha
    obtain ⟨s, hs, rfl⟩ := List.mem_map.mp ha
    obtain ⟨hne, hcomma, _⟩ := hl s (mem_sort.mp hs)
    exact ⟨fun hnil => hne (String.toList_inj.mp hnil), hcomma⟩
  rw [String.toList_intercalate, String.toList_intercalate] at hjoin
  exact sort_eq_iff.mp (List.map_injective_iff.mpr (fun _ _ => String.toList_inj.mp)
    (Separated.intercalate_inj hjoin (hplain h) (hplain h')))

end IpfsGate.Lib.Utf16
