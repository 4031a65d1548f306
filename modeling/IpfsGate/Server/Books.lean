import IpfsGate.Voiding
import IpfsGate.Server.Runs
import Mathlib.Data.Multiset.Bind
import Mathlib.Tactic.Abel

/-!
# The refund books

Every cancelled claim is refunded at most once, because the transaction that cancels it hands
its row to one handler, which owes the refund until it has recorded it. The books count what is
recorded together with what the suspended handlers still owe.
-/
namespace IpfsGate.Server

open Quota Moderation LedgerRun
open Lib (Table)

/-- What a refunds row says for good. -/
structure Payout where
  claimId : Nat
  toAccount : Account
  amount : Coins
  createdTs : Int

def Payout.of (r : Refund) : Payout :=
  { claimId := r.claimId, toAccount := r.toAccount, amount := r.amount, createdTs := r.createdTs }

def payouts (db : Db) : List Payout := db.refunds.rows.map Payout.of

theorem mem_payouts {db : Db} {p : Payout} : p ∈ payouts db ↔ ∃ r ∈ db.refunds, Payout.of r = p :=
  List.mem_map

/-- What a handler still owes, as the rows were before they were cancelled, and what it has
recorded. -/
structure Docket where
  owed : List Claim
  paid : List Payout

def Docket.clean : Docket := { owed := [], paid := [] }

def paidIds (db : Db) : Multiset Nat := (payouts db).map Payout.claimId

def owedIds (held : Multiset Docket) : Multiset Nat :=
  held.bind (fun d => (d.owed.map Claim.claimId : Multiset Nat))

@[simp] theorem owedIds_cons (d : Docket) (held : Multiset Docket) :
    owedIds (d ::ₘ held) = (d.owed.map Claim.claimId : Multiset Nat) + owedIds held :=
  Multiset.cons_bind _ _ _

theorem mem_owedIds {held : Multiset Docket} {n : Nat} :
    n ∈ owedIds held ↔ ∃ d ∈ held, ∃ c ∈ d.owed, c.claimId = n := by
  simp [owedIds]

/-- A cancelled claim of the owner, by its id. -/
def CancelledFor (db : Db) (claimId : Nat) (owner : Account) : Prop :=
  ∃ c ∈ db.claims, c.claimId = claimId ∧ c.owner = owner ∧ c.state = .cancelled

structure Books (held : Multiset Docket) (db : Db) : Prop where
  sized : Sized db
  /-- Every claim is recorded or owed at most once. -/
  once : (paidIds db + owedIds held).Nodup
  recorded : ∀ p ∈ payouts db, CancelledFor db p.claimId p.toAccount
  owed : ∀ d ∈ held, ∀ c ∈ d.owed, 0 < c.sizeBytes ∧ CancelledFor db c.claimId c.owner
  paid : ∀ d ∈ held, ∀ p ∈ d.paid, p ∈ payouts db

/-- Claims rows stay, with their owner, and what is cancelled stays cancelled. -/
structure Retains (before after : Db) : Prop where
  kept : ∀ c ∈ before.claims, ∃ d ∈ after.claims, d.claimId = c.claimId ∧ d.owner = c.owner ∧
    (c.state = .cancelled → d.state = .cancelled)
  sized : Sized before → Sized after

theorem Retains.refl (db : Db) : Retains db db := ⟨fun c hc => ⟨c, hc, rfl, rfl, id⟩, id⟩

theorem Retains.trans {a b c : Db} (h₁ : Retains a b) (h₂ : Retains b c) : Retains a c where
  kept := by
    intro x hx
    obtain ⟨y, hy, hid, hown, hst⟩ := h₁.kept x hx
    obtain ⟨z, hz, hid', hown', hst'⟩ := h₂.kept y hy
    exact ⟨z, hz, hid'.trans hid, hown'.trans hown, fun h => hst' (hst h)⟩
  sized := fun h => h₂.sized (h₁.sized h)

theorem retains_of_voids {a b : Db} {V : List Claim} (h : Voids a b V) : Retains a b where
  kept := by
    intro c hc
    obtain ⟨d, hd, hid, hown, hst⟩ := h.kept c hc
    exact ⟨d, hd, hid, hown, fun hs => hst.mpr (Or.inl hs)⟩
  sized := h.sized

theorem CancelledFor.mono {a b : Db} (h : Retains a b) {n : Nat} {owner : Account}
    (hc : CancelledFor a n owner) : CancelledFor b n owner := by
  obtain ⟨c, hc, hid, hown, hst⟩ := hc
  obtain ⟨d, hd, hid', hown', hst'⟩ := h.kept c hc
  exact ⟨d, hd, hid'.trans hid, hown'.trans hown, hst' hst⟩

namespace Books

variable {held : Multiset Docket} {d : Docket} {a b : Db}

theorem empty : Books 0 Db.empty where
  sized := .empty
  once := by simp [paidIds, payouts, owedIds, Db.empty, Table.empty]
  recorded := fun p hp => absurd hp List.not_mem_nil
  owed := fun d hd => absurd hd (Multiset.notMem_zero d)
  paid := fun d hd => absurd hd (Multiset.notMem_zero d)

/-- A step that records no refund and reopens no claim. -/
theorem keep (h : Books held a) (hr : Retains a b) (hp : payouts b = payouts a) :
    Books held b where
  sized := hr.sized h.sized
  once := by
    unfold paidIds
    rw [hp]
    exact h.once
  recorded := by
    rw [hp]
    exact fun p hp => (h.recorded p hp).mono hr
  owed := fun d hd c hc => ⟨(h.owed d hd c hc).1, (h.owed d hd c hc).2.mono hr⟩
  paid := by
    rw [hp]
    exact h.paid

/-- A claim that is recorded or owed is not open. -/
theorem not_open (h : Books held a) {c : Claim} (hc : c ∈ a.claims) (ho : isOpen c = true) :
    c.claimId ∉ paidIds a + owedIds held := by
  have hno : ∀ owner, ¬ CancelledFor a c.claimId owner := by
    rintro owner ⟨e, he, hid, _, hst⟩
    have hec : e = c := Table.eq_of_key he hc hid
    rw [hec] at hst
    simp [isOpen, hst] at ho
  intro hmem
  rcases Multiset.mem_add.mp hmem with hmem | hmem
  · simp only [paidIds, Multiset.mem_coe, List.mem_map] at hmem
    obtain ⟨p, hp, hid⟩ := hmem
    exact hno _ (hid ▸ h.recorded p hp)
  · obtain ⟨e, he, x, hx, hid⟩ := mem_owedIds.mp hmem
    exact hno _ (hid ▸ (h.owed e he x hx).2)

/-- The claims a transaction cancels are owed by the handler that ran it. -/
theorem void (h : Books (d ::ₘ held) a) {V : List Claim} (hv : Voids a b V)
    (hp : payouts b = payouts a) : Books ({ d with owed := V ++ d.owed } ::ₘ held) b := by
  have hkeep := h.keep (retains_of_voids hv) hp
  refine ⟨hkeep.sized, ?_, hkeep.recorded, ?_, ?_⟩
  · have hids : (V.map Claim.claimId).Nodup := by
      refine hv.nodup.map_on ?_
      intro x hx y hy hid
      exact Table.eq_of_key (hv.opened x hx).1 (hv.opened y hy).1 hid
    have hsplit : paidIds b + owedIds ({ d with owed := V ++ d.owed } ::ₘ held) =
        (V.map Claim.claimId : Multiset Nat) + (paidIds b + owedIds (d ::ₘ held)) := by
      rw [owedIds_cons, owedIds_cons, List.map_append, ← Multiset.coe_add]
      abel
    rw [hsplit, Multiset.nodup_add]
    refine ⟨Multiset.coe_nodup.mpr hids, hkeep.once, ?_⟩
    rw [Multiset.disjoint_left]
    intro n hn
    obtain ⟨c, hc, rfl⟩ := List.mem_map.mp (Multiset.mem_coe.mp hn)
    have hno := h.not_open (hv.opened c hc).1 (hv.opened c hc).2
    unfold paidIds at hno ⊢
    rw [hp]
    exact hno
  · intro e he c hc
    rcases Multiset.mem_cons.mp he with rfl | he
    · rcases List.mem_append.mp hc with hc | hc
      · obtain ⟨hm, _⟩ := hv.opened c hc
        obtain ⟨x, hx, hid, hown, hst⟩ := hv.kept c hm
        exact ⟨h.sized.claims c hm, x, hx, hid, hown, hst.mpr (Or.inr hc)⟩
      · exact hkeep.owed d (Multiset.mem_cons_self _ _) c hc
    · exact hkeep.owed e (Multiset.mem_cons_of_mem he) c hc
  · intro e he p hpe
    rcases Multiset.mem_cons.mp he with rfl | he
    · exact hkeep.paid d (Multiset.mem_cons_self _ _) p hpe
    · exact hkeep.paid e (Multiset.mem_cons_of_mem he) p hpe

/-- Recording the refund of a claim that is owed. -/
theorem record {c : Claim} {rest : List Claim} {paid : List Payout} {p : Payout}
    (h : Books ({ owed := c :: rest, paid } ::ₘ held) a)
    (hpayouts : payouts b = payouts a ++ [p]) (hclaims : b.claims = a.claims)
    (hpins : b.pins = a.pins) (hid : p.claimId = c.claimId) (hown : p.toAccount = c.owner) :
    Books ({ owed := rest, paid := p :: paid } ::ₘ held) b := by
  have hr : Retains a b := retains_of_voids (.of_eq hpins hclaims)
  have hold : ∀ q ∈ payouts a, q ∈ payouts b := by
    intro q hq
    rw [hpayouts]
    exact List.mem_append_left _ hq
  have howed := h.owed _ (Multiset.mem_cons_self _ _)
  refine ⟨hr.sized h.sized, ?_, ?_, ?_, ?_⟩
  · have hsplit : paidIds b + owedIds ({ owed := rest, paid := p :: paid } ::ₘ held) =
        paidIds a + owedIds ({ owed := c :: rest, paid } ::ₘ held) := by
      have hb : paidIds b = paidIds a + {c.claimId} := by
        unfold paidIds
        rw [hpayouts, List.map_append, ← Multiset.coe_add, List.map_singleton, hid]
        rfl
      rw [hb, owedIds_cons, owedIds_cons, List.map_cons, ← Multiset.cons_coe,
        ← Multiset.singleton_add]
      abel
    rw [hsplit]
    exact h.once
  · intro q hq
    rw [hpayouts] at hq
    rcases List.mem_append.mp hq with hq | hq
    · exact (h.recorded q hq).mono hr
    · rw [List.mem_singleton] at hq
      rw [hq, hid, hown]
      exact (howed c List.mem_cons_self).2.mono hr
  · intro e he x hx
    rcases Multiset.mem_cons.mp he with rfl | he
    · have hx' := howed x (List.mem_cons_of_mem _ hx)
      exact ⟨hx'.1, hx'.2.mono hr⟩
    · have hx' := h.owed e (Multiset.mem_cons_of_mem he) x hx
      exact ⟨hx'.1, hx'.2.mono hr⟩
  · intro e he q hq
    rcases Multiset.mem_cons.mp he with rfl | he
    · rcases List.mem_cons.mp hq with rfl | hq
      · rw [hpayouts]
        exact List.mem_append_right _ (List.mem_singleton_self _)
      · exact hold q (h.paid _ (Multiset.mem_cons_self _ _) q hq)
    · exact hold q (h.paid e (Multiset.mem_cons_of_mem he) q hq)

/-- A handler that owes nothing leaves the books in order. -/
theorem drop (h : Books (d ::ₘ held) a) : Books held a where
  sized := h.sized
  once := by
    refine Multiset.nodup_of_le ?_ h.once
    rw [owedIds_cons]
    exact add_le_add_right (Multiset.le_add_left _ _) _
  recorded := h.recorded
  owed := fun e he => h.owed e (Multiset.mem_cons_of_mem he)
  paid := fun e he => h.paid e (Multiset.mem_cons_of_mem he)

theorem open_clean (h : Books held a) : Books (.clean ::ₘ held) a where
  sized := h.sized
  once := by simpa [Docket.clean] using h.once
  recorded := h.recorded
  owed := by
    intro e he
    rcases Multiset.mem_cons.mp he with rfl | he
    · exact fun c hc => absurd hc List.not_mem_nil
    · exact h.owed e he
  paid := by
    intro e he
    rcases Multiset.mem_cons.mp he with rfl | he
    · exact fun c hc => absurd hc List.not_mem_nil
    · exact h.paid e he

end Books

/-! ## Statements -/

/-- The statements that neither cancel claims nor record refunds. -/
def Stmt.quiet : Stmt → Bool
  | .cancelClaim .. | .endActiveClaimForRelease _ | .banAccount .. | .takedownCid ..
  | .importTakedowns _ | .recordRefund _ => false
  | _ => true

theorem payouts_of_op {cfg : Config} {s : Stmt} {op : LedgerOp} (hop : s.op = some op)
    (w : World) : payouts (s.sem cfg w).2.db = payouts w.db := by
  obtain ⟨reservations, hsem⟩ := sem_op cfg hop w
  unfold payouts
  rw [hsem]
  exact congrArg (fun t => t.rows.map Payout.of) (refunds_apply cfg w.db w.now op)

/-- The settlement of a refund rewrites its status only. -/
theorem payouts_of_quiet (cfg : Config) {s : Stmt} (hs : s.quiet = true) (w : World) :
    payouts (s.sem cfg w).2.db = payouts w.db := by
  cases hop : s.op with
  | some op => exact payouts_of_op hop w
  | none =>
    cases s with
    | createReservation uploader sizeBytes mode quote =>
      refine fallible_ind (P := fun after => payouts after = payouts w.db) rfl (fun _ _ hok => ?_)
      obtain ⟨_, rfl⟩ := createReservation_writes hok
      rfl
    | recordPayment p =>
      refine fallible_ind (P := fun after => payouts after = payouts w.db) rfl (fun _ _ hok => ?_)
      obtain ⟨_, rfl⟩ := recordPayment_writes hok
      rfl
    | unbanAccount hiveAccount admin =>
      obtain ⟨_, _, heq, _⟩ := unbanAccount_writes cfg w.db w.now hiveAccount admin
      exact (congrArg payouts heq).trans rfl
    | untakedownCid cid admin =>
      obtain ⟨_, _, heq, _⟩ := untakedownCid_writes w.db w.now cid admin
      exact (congrArg payouts heq).trans rfl
    | addToWhitelist r =>
      obtain ⟨_, _, heq⟩ := addToWhitelist_writes cfg w.db w.now r
      exact (congrArg payouts heq).trans rfl
    | removeFromWhitelist hiveAccount removedBy =>
      obtain ⟨_, _, heq⟩ := removeFromWhitelist_writes cfg w.db w.now hiveAccount removedBy
      exact (congrArg payouts heq).trans rfl
    | recordReleaseConsent orderId releaser sig =>
      simp only [Stmt.sem, Stmt.silent, recordReleaseConsent]
      split <;> rfl
    | recordReceipt orderId recipient proofHash sig =>
      simp only [Stmt.sem, Stmt.silent, recordReceipt]
      split <;> rfl
    | markRefundSettled refundId status txId =>
      simp only [Stmt.sem, Stmt.silent, markRefundSettled, payouts, Table.update, List.map_map]
      refine List.map_congr_left (fun r _ => ?_)
      simp only [Function.comp]
      split <;> rfl
    | importTakedowns list => cases hs
    | recordRefund n => cases hs
    | cancelClaim _ _ _ => cases hs
    | endActiveClaimForRelease _ => cases hs
    | banAccount _ _ _ _ => cases hs
    | takedownCid _ _ _ _ => cases hs
    | _ => first | rfl | cases hop

/-- Quiet statements cancel nothing. -/
theorem voids_of_quiet (cfg : Config) {s : Stmt} {w : World} (hq : s.quiet = true)
    (hs : s.Checked w) : Voids w.db (s.sem cfg w).2.db [] := by
  cases hop : s.op with
  | some op =>
    have hcancels : op.cancels = false := by
      cases s <;> cases hop <;> first | rfl | cases hq
    have hnonempty : op.Nonempty := by
      cases s <;> cases hop <;> first | exact hs.2 | exact hs | trivial
    obtain ⟨reservations, hsem⟩ := sem_op cfg hop w
    rw [hsem]
    exact (voids_quiet cfg w.db w.now hcancels hnonempty).trans (.of_eq rfl rfl)
  | none =>
    have himport : ∀ list, s ≠ .importTakedowns list := by
      rintro list rfl
      cases hq
    have hrelax := sem_relaxes cfg hop himport w
    exact .of_eq hrelax.pins hrelax.claims

theorem retains_importTakedowns (cfg : Config) (db : Db) (t : Int) (list : List ImportEntry) :
    Retains db (importTakedowns cfg db t list).2 := by
  refine importTakedowns_keeps ?_ (Retains.refl db) list
  intro mid cid reason policy admin hmid
  refine hmid.trans (committed_ind (Retains.refl mid) (fun d after hok => ?_))
  obtain ⟨p, rfl⟩ := takedownCid_ok hok
  exact retains_of_voids (Voids.takedownTransaction mid t cid reason p admin)

theorem payouts_importTakedowns (cfg : Config) (db : Db) (t : Int) (list : List ImportEntry) :
    payouts (importTakedowns cfg db t list).2 = payouts db := by
  refine importTakedowns_keeps (P := fun after => payouts after = payouts db) ?_ rfl list
  intro mid cid reason policy admin hmid
  unfold payouts at hmid ⊢
  rw [refunds_apply]
  exact hmid

/-- A claim that the statement moves to cancelled, as it was before. -/
def Cancels (cfg : Config) (s : Stmt) (w : World) (c : Claim) : Prop :=
  c ∈ w.db.claims ∧ c.state ≠ .cancelled ∧
    ∃ d ∈ (s.sem cfg w).2.db.claims, d.claimId = c.claimId ∧ d.state = .cancelled

theorem Cancels.mem {cfg : Config} {s : Stmt} {w : World} {V : List Claim} {c : Claim}
    (h : Cancels cfg s w c) (hv : Voids w.db (s.sem cfg w).2.db V) : c ∈ V := by
  obtain ⟨hc, hopen, d, hd, hid, hst⟩ := h
  obtain ⟨e, he, hid', _, hiff⟩ := hv.kept c hc
  have hed : e = d := Table.eq_of_key he hd (hid'.trans hid.symm)
  rw [hed] at hiff
  exact (hiff.mp hst).resolve_left hopen

end IpfsGate.Server
