import IpfsGate.Migrations.Versions
import IpfsGate.Lib.Ranks

/-!
# The rebuild of the claims table

File 006 copies every claims row into a table of the new definition and then numbers the
guardians of each CID. The number of a guardian is its rank among the backstops of its CID in
the order of pledging, by the rowids that the rows had before the copy.
-/
namespace IpfsGate.Migrations

open Lib (rank)

/-- The claims after the rebuild. -/
def rebuilt (rows : List ClaimRow) : List ClaimRow := backfillRows (copyRows rows)

theorem writes_rebuild (d : Data) :
    writes rebuild d = { d with claims := rebuilt d.claims, claimsNew := [] } := rfl

/-- What becomes of a row: its columns stay, except for the new kind and the pledge columns. -/
structure Carried (r r' : ClaimRow) : Prop where
  columns : { r' with
    rowid := r.rowid, kind := r.kind, pledgeOrder := r.pledgeOrder
    pledgeBudget := r.pledgeBudget } = r
  kind : r'.kind = r.kind.renamed
  budget : r'.pledgeBudget = if r.kind = .backstop then some r.amountPaid else none

theorem Carried.cid {r r' : ClaimRow} (h : Carried r r') : r'.cid = r.cid := by
  have hcolumn := congrArg ClaimRow.cid h.columns
  exact hcolumn

theorem Carried.state {r r' : ClaimRow} (h : Carried r r') : r'.state = r.state := by
  have hcolumn := congrArg ClaimRow.state h.columns
  exact hcolumn

theorem Carried.createdTs {r r' : ClaimRow} (h : Carried r r') : r'.createdTs = r.createdTs := by
  have hcolumn := congrArg ClaimRow.createdTs h.columns
  exact hcolumn

theorem renamed_eq_guardian {k : HostKind} (h : k ≠ .guardian) :
    k.renamed = .guardian ↔ k = .backstop := by
  cases k with
  | guardian => exact absurd rfl h
  | _ => decide

/-- The row that the numbering leaves in the place of a copy. -/
def backfilled (copies : List ClaimRow) (r : ClaimRow) : ClaimRow :=
  if r.kind = .guardian then
    { r with pledgeOrder := some (copies.countP (fun c2 =>
        c2.cid = r.cid && c2.kind = .guardian && decide (PledgedBy c2 r))) }
  else r

theorem rebuilt_eq (rows : List ClaimRow) :
    rebuilt rows =
      rows.zipIdx.map (fun p => backfilled (copyRows rows) (p.1.copied (p.2 + 1))) := by
  change (rows.zipIdx.map (fun p => p.1.copied (p.2 + 1))).map (backfilled (copyRows rows)) = _
  rw [List.map_map]
  rfl

theorem length_rebuilt (rows : List ClaimRow) : (rebuilt rows).length = rows.length := by
  rw [rebuilt_eq, List.length_map, List.length_zipIdx]

theorem carried_backfilled (copies : List ClaimRow) (r : ClaimRow) (rowid : Nat) :
    Carried r (backfilled copies (r.copied rowid)) := by
  unfold backfilled
  split
  · exact ⟨rfl, rfl, rfl⟩
  · exact ⟨rfl, rfl, rfl⟩

theorem rowid_backfilled (copies : List ClaimRow) (r : ClaimRow) :
    (backfilled copies r).rowid = r.rowid := by
  unfold backfilled
  split <;> rfl

theorem stamped_backfilled {copies : List ClaimRow} {r : ClaimRow}
    (h : (backfilled copies r).kind = .guardian) :
    ∃ n, (backfilled copies r).pledgeOrder = some n := by
  unfold backfilled at h ⊢
  split
  case isTrue => exact ⟨_, rfl⟩
  case isFalse hne =>
    rw [if_neg hne] at h
    exact absurd h hne

theorem rebuilt_carried (rows : List ClaimRow) : List.Forall₂ Carried rows (rebuilt rows) := by
  have h : List.Forall₂ Carried (rows.zipIdx.map Prod.fst)
      (rows.zipIdx.map (fun p => backfilled (copyRows rows) (p.1.copied (p.2 + 1)))) := by
    rw [List.forall₂_map_left_iff, List.forall₂_map_right_iff, List.forall₂_same]
    intro p _
    exact carried_backfilled _ _ _
  rwa [List.zipIdx_map_fst, ← rebuilt_eq] at h

/-! ## Rebuilding twice -/

theorem carried_of_mem {rows : List ClaimRow} {r' : ClaimRow} (h : r' ∈ rebuilt rows) :
    ∃ r ∈ rows, Carried r r' := by
  rw [rebuilt_eq] at h
  obtain ⟨p, hp, rfl⟩ := List.mem_map.mp h
  exact ⟨p.1, List.fst_mem_of_mem_zipIdx hp, carried_backfilled _ _ _⟩

theorem mem_carried {rows : List ClaimRow} {r : ClaimRow} (h : r ∈ rows) :
    ∃ r' ∈ rebuilt rows, Carried r r' := by
  rw [← List.zipIdx_map_fst 0 rows] at h
  obtain ⟨p, hp, rfl⟩ := List.mem_map.mp h
  rw [rebuilt_eq]
  exact ⟨_, List.mem_map_of_mem hp, carried_backfilled _ _ _⟩

theorem kind_of_mem_rebuilt {rows : List ClaimRow} {r' : ClaimRow} (h : r' ∈ rebuilt rows) :
    r'.kind ≠ .backstop := by
  obtain ⟨r, _, hcarried⟩ := carried_of_mem h
  rw [hcarried.kind]
  cases r.kind <;> decide

theorem renamed_of_ne {k : HostKind} (h : k ≠ .backstop) : k.renamed = k := by
  cases k with
  | backstop => exact absurd rfl h
  | _ => rfl

/-- A second rebuild forgets the budgets of the first. -/
theorem budget_of_mem_twice {rows : List ClaimRow} {r' : ClaimRow}
    (h : r' ∈ rebuilt (rebuilt rows)) : r'.pledgeBudget = none := by
  obtain ⟨r, hr, hcarried⟩ := carried_of_mem h
  rw [hcarried.budget, if_neg (kind_of_mem_rebuilt hr)]

/-- Without guardians there is nothing to number. -/
theorem rebuilt_of_hosts {rows : List ClaimRow} (hback : ∀ r ∈ rows, r.kind ≠ .backstop)
    (hguard : ∀ r ∈ rows, r.kind ≠ .guardian) : rebuilt rows = copyRows rows := by
  rw [rebuilt_eq]
  refine List.map_congr_left (fun p hp => ?_)
  have hmem := List.fst_mem_of_mem_zipIdx hp
  have hb := hback _ hmem
  have hg := hguard _ hmem
  have hkind : (p.1.copied (p.2 + 1)).kind = p.1.kind := renamed_of_ne hb
  exact if_neg (by rw [hkind]; exact hg)

theorem copyRows_copyRows {rows : List ClaimRow} (hback : ∀ r ∈ rows, r.kind ≠ .backstop) :
    copyRows (copyRows rows) = copyRows rows := by
  refine List.ext_getElem (by simp only [copyRows, List.length_map, List.length_zipIdx])
    (fun i _ hi => ?_)
  have hlt : i < rows.length := by
    simpa only [copyRows, List.length_map, List.length_zipIdx] using hi
  have hkind := hback rows[i] (List.getElem_mem hlt)
  simp only [copyRows, List.getElem_map, List.getElem_zipIdx, Nat.zero_add]
  unfold ClaimRow.copied
  simp only [renamed_of_ne hkind, if_neg hkind]

/-- The rebuild of rows without guardians is stable; that of a backstop is not. -/
theorem rebuilt_twice_iff {rows : List ClaimRow} (hguard : ∀ r ∈ rows, r.kind ≠ .guardian) :
    rebuilt (rebuilt rows) = rebuilt rows ↔ ∀ r ∈ rows, r.kind ≠ .backstop := by
  constructor
  · intro heq r hr hback
    obtain ⟨r', hr', hcarried⟩ := mem_carried hr
    rw [← heq] at hr'
    have hbudget := hcarried.budget
    rw [if_pos hback, budget_of_mem_twice hr'] at hbudget
    cases hbudget
  · intro hback
    have hfirst := rebuilt_of_hosts hback hguard
    have hkinds : ∀ r' ∈ rebuilt rows, r'.kind ≠ .guardian := by
      intro r' hr'
      obtain ⟨r, hr, hcarried⟩ := carried_of_mem hr'
      rw [hcarried.kind, renamed_of_ne (hback r hr)]
      exact hguard r hr
    rw [rebuilt_of_hosts (fun _ => kind_of_mem_rebuilt) hkinds, hfirst, copyRows_copyRows hback]

end IpfsGate.Migrations
