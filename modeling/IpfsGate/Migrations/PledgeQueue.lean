import IpfsGate.Migrations.Rebuild
import IpfsGate.PledgeOrder

/-!
# The pledge queue across the rebuild

Before the rebuild the queue of a CID was ordered by pledge time and rowid; after it the queue
goes by the stamped slots. The slots are ranks in the old order, so both queues list the same
rows in the same order, and a later pledge takes a slot behind all of them.
-/
namespace IpfsGate.Migrations

open Quota LedgerRun PledgeOrder
open Lib (Table rank)
open Lib (Script.run)

/-- The rows of the old and the new table for the guardians of a CID, in pledging order. -/
def guardianRows (cid : Cid) (before after : List ClaimRow) : List (ClaimRow × ClaimRow) :=
  ((before.zip after).filter (fun p => p.2.cid = cid && p.2.kind = .guardian)).insertionSort
    (fun p q => PledgedBy p.1 q.1)

/-- The queue as version 5 read it, with the rows that replaced its rows. -/
def queueBefore (cid : Cid) (before after : List ClaimRow) : List (ClaimRow × ClaimRow) :=
  ((before.zip after).filter (fun p =>
    p.1.cid = cid && p.1.state = .dormant && p.1.kind = .backstop)).insertionSort
    (fun p q => PledgedBy p.1 q.1)

def HostKind.claimKind : HostKind → ClaimKind
  | original => .original
  | ownCopy => .ownCopy
  | backstop | guardian => .guardian

/-- The row as the gate reads it. -/
def ClaimRow.claim (r : ClaimRow) (rowid : Nat) : Claim :=
  { claimId := rowid, orderId := r.orderId, cid := r.cid, owner := r.owner, pinId := r.pinId
    sizeBytes := r.sizeBytes, sizeMB := r.sizeMB, rateLocked := r.rateLocked
    paidHours := r.paidHours, copiesRequested := r.copiesRequested, kind := r.kind.claimKind
    state := r.state, amountPaid := r.amountPaid, currency := r.currency
    paymentId := r.paymentId, startTs := r.startTs, expiryTs := r.expiryTs
    createdTs := r.createdTs, pledgeOrder := r.pledgeOrder, pledgeBudget := r.pledgeBudget }

def openClaims (rows : List ClaimRow) : Table Claim :=
  rows.foldl (fun T r => T.insert r.claim (fun _ => rfl)) Table.empty

/-- Pledges one after the other, with the CID and the id of every claim they create. -/
def pledgeAll (db : Db) : List (Int × Pledge) → List (Cid × Nat) × Db
  | [] => ([], db)
  | (t, g) :: rest =>
    let (created, mid) := pledge db t g
    let (more, after) := pledgeAll mid rest
    ((g.cid, created.claimId) :: more, after)

theorem pledgeAll_cons (db : Db) (t : Int) (g : Pledge) (rest : List (Int × Pledge)) :
    pledgeAll db ((t, g) :: rest) =
      ((g.cid, db.claims.next) :: (pledgeAll (LedgerRun.pledge db t g).2 rest).1,
        (pledgeAll (LedgerRun.pledge db t g).2 rest).2) := rfl

/-! ## Later pledges -/

/-- Every guardian has a slot. -/
def Stamped (db : Db) : Prop :=
  ∀ c ∈ db.claims, c.kind = .guardian → ∃ n, c.pledgeOrder = some n

theorem Stamped.pledge {db : Db} (h : Stamped db) (t : Int) (g : Pledge) :
    Stamped (LedgerRun.pledge db t g).2 := by
  intro c hc hk
  rcases mem_createOrderWithClaim.mp hc with hc | rfl
  · exact h c hc hk
  · have hslot : pledgeOrderFor db (g.claim t) = some (nextPledgeOrder db g.cid) := if_pos rfl
    exact ⟨_, hslot⟩

/-- A pledge goes to the end of the queue of its CID. -/
theorem queue_pledge {db : Db} (h : Stamped db) (t : Int) (g : Pledge) (cid : Cid) :
    getDormantGuardiansForCid (LedgerRun.pledge db t g).2 cid =
      getDormantGuardiansForCid db cid ++
        if g.cid = cid then [newClaimRow db t (g.claim t)] else [] := by
  have hrows : (LedgerRun.pledge db t g).2.claims.rows =
      db.claims.rows ++ [newClaimRow db t (g.claim t)] := rfl
  have hnew : isDormantGuardian cid (newClaimRow db t (g.claim t)) = decide (g.cid = cid) := by
    change (decide (g.cid = cid) && true && true) = _
    rw [Bool.and_true, Bool.and_true]
  unfold getDormantGuardiansForCid Table.filter
  rw [hrows, List.filter_append]
  by_cases hcid : g.cid = cid
  · rw [if_pos hcid, List.filter_cons_of_pos (by rw [hnew]; exact decide_eq_true hcid),
      List.filter_nil]
    refine Lib.insertionSort_concat (fun c hc => ?_)
    obtain ⟨hmem, hqueued⟩ := List.mem_filter.mp hc
    simp only [isDormantGuardian, Bool.and_eq_true, decide_eq_true_eq] at hqueued
    obtain ⟨⟨hccid, _⟩, hkind⟩ := hqueued
    obtain ⟨n, hn⟩ := h c hmem hkind
    have hslot := pledgeSlot_lt_next hmem hkind hn
    refine .inl ?_
    rw [pledgeSlot, hn]
    change n < nextPledgeOrder db g.cid
    rw [hcid, ← hccid]
    exact hslot
  · have hskip : ¬ isDormantGuardian cid (newClaimRow db t (g.claim t)) = true := by
      rw [hnew]
      exact decide_eq_true_iff.not.mpr hcid
    rw [if_neg hcid, List.filter_cons_of_neg hskip, List.filter_nil, List.append_nil,
      List.append_nil]

theorem queue_pledgeAll (cid : Cid) (pledges : List (Int × Pledge)) :
    ∀ {db : Db}, Stamped db →
      (getDormantGuardiansForCid (pledgeAll db pledges).2 cid).map (·.claimId) =
        (getDormantGuardiansForCid db cid).map (·.claimId) ++
          ((pledgeAll db pledges).1.filter (·.1 = cid)).map (·.2) := by
  induction pledges with
  | nil =>
    intro db _
    exact (List.append_nil _).symm
  | cons p rest ih =>
    intro db h
    obtain ⟨t, g⟩ := p
    rw [pledgeAll_cons, ih (h.pledge t g), queue_pledge h, List.map_append, List.append_assoc]
    by_cases hcid : g.cid = cid
    · simp only [List.filter_cons, hcid, decide_true, if_true, List.map_cons]
      rfl
    · simp only [List.filter_cons, hcid, decide_false, if_false, List.map_nil, List.nil_append,
        Bool.false_eq_true]

/-! ## Slots are ranks -/

instance : Std.Total PledgedBy := ⟨by intro a b; unfold PledgedBy; omega⟩

instance : IsTrans ClaimRow PledgedBy := ⟨by intro a b c; unfold PledgedBy; omega⟩

theorem zip_rebuilt (rows : List ClaimRow) :
    rows.zip (rebuilt rows) = rows.zipIdx.map (fun p =>
      (p.1, backfilled (copyRows rows) (p.1.copied (p.2 + 1)))) := by
  rw [rebuilt_eq]
  conv_lhs => arg 1; rw [← List.zipIdx_map_fst 0 rows]
  exact List.zip_map'

def backstopsOf (cid : Cid) (rows : List ClaimRow) : List ClaimRow :=
  rows.filter (fun r => r.cid = cid && r.kind = .backstop)

theorem mem_zip_rebuilt {rows : List ClaimRow} {p : ClaimRow × ClaimRow}
    (hp : p ∈ rows.zip (rebuilt rows)) :
    ∃ i, (p.1, i) ∈ rows.zipIdx ∧ p.2 = backfilled (copyRows rows) (p.1.copied (i + 1)) := by
  rw [zip_rebuilt] at hp
  obtain ⟨q, hq, rfl⟩ := List.mem_map.mp hp
  exact ⟨q.2, hq, rfl⟩

theorem map_fst_zip_rebuilt (rows : List ClaimRow) :
    (rows.zip (rebuilt rows)).map Prod.fst = rows :=
  List.map_fst_zip (Nat.le_of_eq (length_rebuilt rows).symm)

section

variable {rows : List ClaimRow} (hord : rows.Pairwise (fun r r' => r.rowid < r'.rowid))
include hord

/-- Rows stand in the order of their rowids. -/
theorem rowid_le_iff {p q : ClaimRow × Nat} (hp : p ∈ rows.zipIdx) (hq : q ∈ rows.zipIdx) :
    p.1.rowid ≤ q.1.rowid ↔ p.2 ≤ q.2 := by
  obtain ⟨hi, hpi⟩ := List.mem_zipIdx' hp
  obtain ⟨hj, hqj⟩ := List.mem_zipIdx' hq
  have hget := List.pairwise_iff_getElem.mp hord
  rw [hpi, hqj]
  rcases Nat.lt_trichotomy p.2 q.2 with hlt | heq | hlt
  · have h := hget _ _ hi hj hlt
    omega
  · simp only [heq, Nat.le_refl]
  · have h := hget _ _ hj hi hlt
    omega

theorem rowid_injective {a b : ClaimRow} (ha : a ∈ rows) (hb : b ∈ rows)
    (heq : a.rowid = b.rowid) : a = b := by
  have hnodup : (rows.map ClaimRow.rowid).Nodup :=
    List.pairwise_map.mpr (hord.imp Nat.ne_of_lt)
  exact List.inj_on_of_nodup_map hnodup ha hb heq

theorem pledgedBy_copied_iff {p q : ClaimRow × Nat} (hp : p ∈ rows.zipIdx)
    (hq : q ∈ rows.zipIdx) :
    PledgedBy (q.1.copied (q.2 + 1)) (p.1.copied (p.2 + 1)) ↔ PledgedBy q.1 p.1 := by
  have hrowid := rowid_le_iff hord hq hp
  change (_ < _ ∨ (_ = _ ∧ q.2 + 1 ≤ p.2 + 1)) ↔ (_ < _ ∨ (_ = _ ∧ q.1.rowid ≤ p.1.rowid))
  rw [hrowid, Nat.add_le_add_iff_right]
  exact Iff.rfl

/-- The slot of a migrated guardian is its rank in the old order. -/
theorem slot_backfilled (hguard : ∀ r ∈ rows, r.kind ≠ .guardian) {p : ClaimRow × Nat}
    (hp : p ∈ rows.zipIdx) (hback : p.1.kind = .backstop) :
    (backfilled (copyRows rows) (p.1.copied (p.2 + 1))).pledgeOrder =
      some (rank PledgedBy (backstopsOf p.1.cid rows) p.1) := by
  have hkind : (p.1.copied (p.2 + 1)).kind = .guardian := by
    change p.1.kind.renamed = .guardian
    rw [hback]
    rfl
  unfold backfilled
  rw [if_pos hkind]
  change some _ = some _
  congr 1
  unfold copyRows rank backstopsOf
  rw [List.countP_map, List.countP_filter]
  conv_rhs => rw [← List.zipIdx_map_fst 0 rows, List.countP_map]
  refine List.countP_congr (fun q hq => ?_)
  have hpledged := pledgedBy_copied_iff hord hp hq
  have hrenamed := renamed_eq_guardian (hguard q.1 (List.fst_mem_of_mem_zipIdx hq))
  simp only [Function.comp_apply, Bool.and_eq_true, decide_eq_true_eq]
  change (q.1.cid = p.1.cid ∧ q.1.kind.renamed = .guardian) ∧ _ ↔ _
  rw [hrenamed, hpledged]
  exact and_comm

/-- The slots of a CID count upwards in the order of pledging. -/
theorem guardianRows_numbered (hguard : ∀ r ∈ rows, r.kind ≠ .guardian) (cid : Cid) :
    (guardianRows cid rows (rebuilt rows)).map (·.2.pledgeOrder) =
      (List.range' 1 (guardianRows cid rows (rebuilt rows)).length).map some := by
  have hfilter : (rows.zip (rebuilt rows)).filter
        (fun p => p.2.cid = cid && p.2.kind = .guardian) =
      (rows.zip (rebuilt rows)).filter (fun p => p.1.cid = cid && p.1.kind = .backstop) := by
    refine List.filter_congr (fun p hp => ?_)
    have hcarried := List.forall₂_zip (rebuilt_carried rows) hp
    have hkind := renamed_eq_guardian (hguard p.1 (List.of_mem_zip hp).1)
    rw [hcarried.cid, hcarried.kind, decide_eq_decide.mpr hkind]
  have hfst : (guardianRows cid rows (rebuilt rows)).map Prod.fst =
      (backstopsOf cid rows).insertionSort PledgedBy := by
    unfold guardianRows backstopsOf
    rw [hfilter, List.map_insertionSort _ PledgedBy Prod.fst _ (fun _ _ _ _ => Iff.rfl)]
    conv_rhs => rw [← map_fst_zip_rebuilt rows, List.filter_map]
    rfl
  have hslot : ∀ p ∈ guardianRows cid rows (rebuilt rows),
      p.2.pledgeOrder = some (rank PledgedBy (backstopsOf cid rows) p.1) := by
    intro p hp
    unfold guardianRows at hp
    rw [List.mem_insertionSort, hfilter] at hp
    obtain ⟨hzip, hsel⟩ := List.mem_filter.mp hp
    simp only [Bool.and_eq_true, decide_eq_true_eq] at hsel
    obtain ⟨hcid, hback⟩ := hsel
    obtain ⟨i, hi, hnew⟩ := mem_zip_rebuilt hzip
    rw [hnew, ← hcid]
    exact slot_backfilled hord hguard hi hback
  have hnodup : (backstopsOf cid rows).Nodup := by
    refine List.Pairwise.filter _ (hord.imp ?_)
    intro a b hlt heq
    rw [heq] at hlt
    exact Nat.lt_irrefl _ hlt
  have htie : ∀ a ∈ backstopsOf cid rows, ∀ b ∈ backstopsOf cid rows,
      PledgedBy a b → PledgedBy b a → a = b := by
    intro a ha b hb hab hba
    refine rowid_injective hord (List.mem_of_mem_filter ha) (List.mem_of_mem_filter hb) ?_
    unfold PledgedBy at hab hba
    omega
  have hranks := Lib.map_rank_insertionSort hnodup htie
  have hlength : (guardianRows cid rows (rebuilt rows)).length = (backstopsOf cid rows).length := by
    rw [← List.length_map Prod.fst, hfst, List.length_insertionSort]
  calc (guardianRows cid rows (rebuilt rows)).map (·.2.pledgeOrder)
      = (guardianRows cid rows (rebuilt rows)).map
          (fun p => some (rank PledgedBy (backstopsOf cid rows) p.1)) :=
        List.map_congr_left hslot
    _ = (((guardianRows cid rows (rebuilt rows)).map Prod.fst).map
          (rank PledgedBy (backstopsOf cid rows))).map some := by
        rw [List.map_map, List.map_map]
        rfl
    _ = _ := by rw [hfst, hranks, hlength]

/-- Slots and the old order rank two migrated guardians alike. -/
theorem queuesBefore_iff (hguard : ∀ r ∈ rows, r.kind ≠ .guardian) {p q : ClaimRow × ClaimRow}
    (hp : p ∈ rows.zip (rebuilt rows)) (hq : q ∈ rows.zip (rebuilt rows))
    (hpback : p.1.kind = .backstop) (hqback : q.1.kind = .backstop) (hcid : p.1.cid = q.1.cid) :
    PledgedBy p.1 q.1 ↔ QueuesBefore (p.2.claim p.2.rowid) (q.2.claim q.2.rowid) := by
  obtain ⟨i, hi, hpnew⟩ := mem_zip_rebuilt hp
  obtain ⟨j, hj, hqnew⟩ := mem_zip_rebuilt hq
  have hpcreated := (List.forall₂_zip (rebuilt_carried rows) hp).createdTs
  have hqcreated := (List.forall₂_zip (rebuilt_carried rows) hq).createdTs
  have hmem : ∀ {r : ClaimRow}, r ∈ rows → r.kind = .backstop →
      r ∈ backstopsOf r.cid rows := by
    intro r hr hback
    exact List.mem_filter.mpr ⟨hr, by simp only [hback, decide_true, Bool.and_self]⟩
  have hpmem := hmem (List.of_mem_zip hp).1 hpback
  have hqmem := hmem (List.of_mem_zip hq).1 hqback
  have hpslot : pledgeSlot (p.2.claim p.2.rowid) =
      rank PledgedBy (backstopsOf p.1.cid rows) p.1 := by
    change p.2.pledgeOrder.getD _ = _
    rw [hpnew, slot_backfilled hord hguard hi hpback]
    rfl
  have hqslot : pledgeSlot (q.2.claim q.2.rowid) =
      rank PledgedBy (backstopsOf p.1.cid rows) q.1 := by
    change q.2.pledgeOrder.getD _ = _
    rw [hqnew, slot_backfilled hord hguard hj hqback, hcid]
    rfl
  have hprank : rank PledgedBy (backstopsOf p.1.cid rows) p.1 ≤
      rank PledgedBy (backstopsOf p.1.cid rows) q.1 ↔ PledgedBy p.1 q.1 :=
    Lib.rank_le_rank_iff hpmem
  have hqrank : rank PledgedBy (backstopsOf p.1.cid rows) q.1 ≤
      rank PledgedBy (backstopsOf p.1.cid rows) p.1 ↔ PledgedBy q.1 p.1 :=
    Lib.rank_le_rank_iff (by rw [hcid]; exact hqmem)
  constructor
  · intro hle
    have hranks := hprank.mpr hle
    rcases Nat.lt_or_eq_of_le hranks with hlt | heq
    · left
      rw [hpslot, hqslot]
      exact hlt
    · right
      have hge := hqrank.mp (Nat.le_of_eq heq.symm)
      have hrowid : p.1.rowid = q.1.rowid := by
        unfold PledgedBy at hle hge
        omega
      have hcreated : p.1.createdTs = q.1.createdTs := by
        unfold PledgedBy at hle hge
        omega
      have hij : i ≤ j := (rowid_le_iff hord hi hj).mp (Nat.le_of_eq hrowid)
      refine ⟨by rw [hpslot, hqslot, heq], .inr ⟨?_, ?_⟩⟩
      · exact hpcreated.trans (hcreated.trans hqcreated.symm)
      · change p.2.rowid ≤ q.2.rowid
        rw [hpnew, hqnew, rowid_backfilled, rowid_backfilled]
        exact Nat.succ_le_succ hij
  · intro hbefore
    rw [← hprank, ← hpslot, ← hqslot]
    rcases hbefore with hlt | ⟨heq, _⟩
    · exact Nat.le_of_lt hlt
    · exact Nat.le_of_eq heq

end

theorem openClaims_rows (rows : List ClaimRow) :
    (openClaims rows).rows = (rows.zipIdx 1).map (fun p => p.1.claim p.2) := by
  have hfold : ∀ (rows : List ClaimRow) (T : Table Claim),
      (rows.foldl (fun T r => T.insert r.claim (fun _ => rfl)) T).rows =
        T.rows ++ (rows.zipIdx T.next).map (fun p => p.1.claim p.2) := by
    intro rows
    induction rows with
    | nil =>
      intro T
      exact (List.append_nil _).symm
    | cons r rest ih =>
      intro T
      rw [List.foldl_cons, ih, List.zipIdx_cons, List.map_cons]
      exact List.append_assoc _ _ _
  exact hfold rows Table.empty

/-- The rebuilt table is opened under the rowids that the copy gave out. -/
theorem openClaims_rebuilt (rows : List ClaimRow) :
    (openClaims (rebuilt rows)).rows =
      (rows.zip (rebuilt rows)).map (fun p => p.2.claim p.2.rowid) := by
  have hsnd : (rows.zip (rebuilt rows)).map (fun p => p.2.claim p.2.rowid) =
      (rebuilt rows).map (fun r => r.claim r.rowid) := by
    conv_rhs => rw [← List.map_snd_zip (Nat.le_of_eq (length_rebuilt rows)), List.map_map]
    rfl
  rw [hsnd, openClaims_rows]
  refine List.ext_getElem (by rw [List.length_map, List.length_map, List.length_zipIdx])
    (fun i _ hi => ?_)
  have hrowid : ∀ (h : i < (rebuilt rows).length), (rebuilt rows)[i].rowid = 1 + i := by
    intro h
    simp only [rebuilt_eq, List.getElem_map, List.getElem_zipIdx, rowid_backfilled]
    change 0 + i + 1 = 1 + i
    omega
  rw [List.length_map] at hi
  simp only [List.getElem_map, List.getElem_zipIdx, hrowid hi]

/-- The queue after the rebuild lists the rows of the queue before it. -/
theorem queue_rebuilt {rows : List ClaimRow}
    (hord : rows.Pairwise (fun r r' => r.rowid < r'.rowid))
    (hguard : ∀ r ∈ rows, r.kind ≠ .guardian) (db : Db) (cid : Cid) :
    getDormantGuardiansForCid { db with claims := openClaims (rebuilt rows) } cid =
      (queueBefore cid rows (rebuilt rows)).map (fun p => p.2.claim p.2.rowid) := by
  have hfilter : (rows.zip (rebuilt rows)).filter
        (isDormantGuardian cid ∘ fun p => p.2.claim p.2.rowid) =
      (rows.zip (rebuilt rows)).filter (fun p =>
        p.1.cid = cid && p.1.state = .dormant && p.1.kind = .backstop) := by
    refine List.filter_congr (fun p hp => ?_)
    have hcarried := List.forall₂_zip (rebuilt_carried rows) hp
    have hkind := renamed_eq_guardian (hguard p.1 (List.of_mem_zip hp).1)
    have hclaimKind : p.2.kind.claimKind = .guardian ↔ p.1.kind = .backstop := by
      rw [hcarried.kind, ← hkind]
      cases p.1.kind <;> decide
    change (decide (p.2.cid = cid) && decide (p.2.state = .dormant) &&
      decide (p.2.kind.claimKind = .guardian)) = _
    rw [hcarried.cid, hcarried.state, decide_eq_decide.mpr hclaimKind]
  unfold getDormantGuardiansForCid queueBefore Table.filter
  rw [openClaims_rebuilt, List.filter_map, hfilter]
  refine (List.map_insertionSort _ QueuesBefore _ _ (fun p hp q hq => ?_)).symm
  obtain ⟨hpzip, hpsel⟩ := List.mem_filter.mp hp
  obtain ⟨hqzip, hqsel⟩ := List.mem_filter.mp hq
  simp only [Bool.and_eq_true, decide_eq_true_eq] at hpsel hqsel
  obtain ⟨⟨hpcid, _⟩, hpback⟩ := hpsel
  obtain ⟨⟨hqcid, _⟩, hqback⟩ := hqsel
  exact queuesBefore_iff hord hguard hpzip hqzip hpback hqback (hpcid.trans hqcid.symm)

theorem stamped_rebuilt (rows : List ClaimRow) (db : Db) :
    Stamped { db with claims := openClaims (rebuilt rows) } := by
  intro c hc hk
  have hrow : c ∈ (openClaims (rebuilt rows)).rows := hc
  rw [openClaims_rebuilt] at hrow
  obtain ⟨p, hp, rfl⟩ := List.mem_map.mp hrow
  obtain ⟨i, _, hnew⟩ := mem_zip_rebuilt hp
  have hkind : p.2.kind = .guardian := by
    have hne := kind_of_mem_rebuilt (List.of_mem_zip hp).2
    have hclaim : p.2.kind.claimKind = .guardian := hk
    cases hold : p.2.kind with
    | backstop => exact absurd hold hne
    | guardian => rfl
    | original => rw [hold] at hclaim; cases hclaim
    | ownCopy => rw [hold] at hclaim; cases hclaim
  rw [hnew] at hkind
  change ∃ n, p.2.pledgeOrder = some n
  rw [hnew]
  exact stamped_backfilled hkind

/-- File 006 keeps every row, numbers the guardians of each CID in pledging order, and leaves
the queue as it was; later pledges come behind it. -/
theorem guardian_keeps_queue {s : Store} (h : AtVersion 5 s) :
    ∃ after, Script.run Step.exec guardian.steps s = .ok after ∧
      List.Forall₂ Carried s.data.claims after.data.claims ∧
      (∀ cid, (guardianRows cid s.data.claims after.data.claims).map (·.2.pledgeOrder) =
        (List.range' 1 (guardianRows cid s.data.claims after.data.claims).length).map some) ∧
      ∀ (db : Db) (pledges : List (Int × Pledge)) (cid : Cid),
        let opened := { db with claims := openClaims after.data.claims }
        (getDormantGuardiansForCid (pledgeAll opened pledges).2 cid).map (·.claimId) =
          (queueBefore cid s.data.claims after.data.claims).map (·.2.rowid) ++
            ((pledgeAll opened pledges).1.filter (·.1 = cid)).map (·.2) := by
  have hguard : ∀ r ∈ s.data.claims, r.kind ≠ .guardian := by
    intro r hr
    simpa using h.kinds r hr
  have hschema : s.schema = schemaOf 5 := by
    rcases h.schema with hschema | ⟨hzero, _⟩
    · exact hschema
    · cases hzero
  have hwrites : (writes (flat guardian.steps) s.data).claims = rebuilt s.data.claims :=
    congrArg Data.claims (writes_rebuild s.data)
  obtain ⟨S, hfile⟩ : ∃ S, Script.run Stmt.alter (flat guardian.steps) (schemaOf 5) = .ok S :=
    ⟨schemaOf 6, by decide +kernel⟩
  refine ⟨⟨S, writes (flat guardian.steps) s.data⟩, ?_, ?_, ?_, ?_⟩
  · rw [run_steps_ok, hschema]
    exact ⟨hfile, rfl⟩
  · rw [hwrites]
    exact rebuilt_carried _
  · intro cid
    rw [hwrites]
    exact guardianRows_numbered h.ordered hguard cid
  · intro db pledges cid
    change (getDormantGuardiansForCid (pledgeAll
      { db with claims := openClaims (rebuilt s.data.claims) } pledges).2 cid).map _ = _
    rw [queue_pledgeAll cid pledges (stamped_rebuilt _ db), queue_rebuilt h.ordered hguard,
      List.map_map]
    rfl

/-- Three pledges of which two were made at the same time. -/
def threePledges : Store :=
  versionFive [backstopRow 2 "alice" 5, backstopRow 3 "bob" 5, backstopRow 7 "carol" 1]

theorem guardian_keeps_queue_threePledges :
    AtVersion 5 threePledges ∧ ∃ after,
      Script.run Step.exec guardian.steps threePledges = .ok after ∧
      (guardianRows "Qm" threePledges.data.claims after.data.claims).map (·.2.pledgeOrder) =
        [some 1, some 2, some 3] := by
  have hversion : AtVersion 5 threePledges := versionFive_atVersion (by decide) (by decide)
  obtain ⟨after, hrun, _, hnumbered, _⟩ := guardian_keeps_queue hversion
  obtain ⟨_, hdata⟩ := run_steps_ok.mp hrun
  refine ⟨hversion, after, hrun, ?_⟩
  rw [hnumbered, hdata]
  decide +kernel

end IpfsGate.Migrations
