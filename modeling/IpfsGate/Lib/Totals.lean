import IpfsGate.Lib.Table
import Mathlib.Algebra.Order.BigOperators.Group.List
import Mathlib.Algebra.Order.Ring.Nat

/-!
# Totals over the rows of a table

The sum of a number over the selected rows, as `SELECT SUM(..) .. WHERE` computes it. An
insertion adds the new row's part and an update changes the total by what it does to each row.
-/
namespace IpfsGate.Lib.Table

variable {ρ : Type} [Keyed ρ] {T : Table ρ} {p q : ρ → Bool} {f g : ρ → Nat}

def total (T : Table ρ) (p : ρ → Bool) (f : ρ → Nat) : Nat := ((T.filter p).map f).sum

/-- What one row adds. -/
def weight (p : ρ → Bool) (f : ρ → Nat) (r : ρ) : Nat := if p r then f r else 0

theorem total_eq_sum : T.total p f = (T.rows.map (weight p f)).sum := by
  unfold total filter
  induction T.rows with
  | nil => rfl
  | cons r rest ih =>
    rw [List.map_cons, List.sum_cons, ← ih, weight]
    by_cases hp : p r = true
    · rw [List.filter_cons_of_pos hp, if_pos hp, List.map_cons, List.sum_cons]
    · rw [List.filter_cons_of_neg hp, if_neg hp, Nat.zero_add]

theorem total_mono (h : ∀ r ∈ T, weight p f r ≤ weight q g r) : T.total p f ≤ T.total q g := by
  rw [total_eq_sum, total_eq_sum]
  exact List.sum_le_sum h

theorem total_insert {mk : Nat → ρ} (hmk : ∀ n, Keyed.key (mk n) = n) :
    (T.insert mk hmk).total p f = T.total p f + weight p f (mk T.next) := by
  rw [total_eq_sum, total_eq_sum]
  simp only [insert, List.map_append, List.map_cons, List.map_nil, List.sum_append, List.sum_cons,
    List.sum_nil, Nat.add_zero]

section Update

variable {s : ρ → Bool} {u : ρ → ρ} (hu : ∀ r, Keyed.key (u r) = Keyed.key r)

theorem total_update : (T.update s u hu).total p f =
    (T.rows.map (fun r => weight p f (if s r then u r else r))).sum := by
  rw [total_eq_sum]
  simp only [update, List.map_map]
  rfl

/-- An update that raises no row's part raises no total. -/
theorem total_update_le (h : ∀ r ∈ T, s r = true → weight p f (u r) ≤ weight p f r) :
    (T.update s u hu).total p f ≤ T.total p f := by
  rw [total_update hu, total_eq_sum]
  refine List.sum_le_sum (fun r hr => ?_)
  by_cases hs : s r = true
  · rw [if_pos hs]
    exact h r hr hs
  · rw [if_neg hs]

/-- One that also takes a part of one row lowers the total by it. -/
theorem total_update_drop {r₀ : ρ} {d : Nat}
    (h : ∀ r ∈ T, s r = true → weight p f (u r) ≤ weight p f r) (hr₀ : r₀ ∈ T)
    (hs₀ : s r₀ = true) (hd : weight p f (u r₀) + d ≤ weight p f r₀) :
    (T.update s u hu).total p f + d ≤ T.total p f := by
  have hrow : ∀ r ∈ T, weight p f (if s r then u r else r) ≤ weight p f r := by
    intro r hr
    by_cases hs : s r = true
    · rw [if_pos hs]
      exact h r hr hs
    · rw [if_neg hs]
  obtain ⟨before, after, hsplit⟩ := List.append_of_mem hr₀
  have hbefore := List.sum_le_sum
    (fun r (hr : r ∈ before) => hrow r (by
      change r ∈ T.rows
      rw [hsplit]
      exact List.mem_append_left _ hr))
  have hafter := List.sum_le_sum
    (fun r (hr : r ∈ after) => hrow r (by
      change r ∈ T.rows
      rw [hsplit]
      exact List.mem_append_right _ (List.mem_cons_of_mem _ hr)))
  rw [total_update hu, total_eq_sum, hsplit]
  simp only [List.map_append, List.map_cons, List.sum_append, List.sum_cons, if_pos hs₀]
  omega

end Update

end IpfsGate.Lib.Table
