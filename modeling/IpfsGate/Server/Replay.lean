import IpfsGate.Server.Backing

/-!
# One payment, one effect

A transaction id gets one payments row, because the insert fails on a second. The row pays for
one effect, because a request adds at most one row and spends it at most once.
-/
namespace IpfsGate.Server

open Lib Lib.Prog
open Lib (Table)

/-- The payments rows that the extensions of the run rest on, one entry for each extension. -/
def extensionPayments {cfg : Config} (S : Gate cfg) : List (Option Nat) :=
  S.traces.flatMap (fun past => (purse past).extended)

/-- A transaction id has one payments row, and the row funds one claim or one extension. -/
structure FundedOnce {cfg : Config} (S : Gate cfg) : Prop where
  recorded : ∀ p ∈ S.world.db.payments, ∀ q ∈ S.world.db.payments, p.txId = q.txId → p = q
  claims : ∀ c ∈ S.world.db.claims, ∀ d ∈ S.world.db.claims, c.paymentId = d.paymentId → c = d
  extensions : (extensionPayments S).Nodup
  apart : ∀ c ∈ S.world.db.claims, some c.paymentId ∉ extensionPayments S
  claimsPaid : ∀ c ∈ S.world.db.claims, ∃ p ∈ S.world.db.payments, p.id = c.paymentId
  extensionsPaid : ∀ x ∈ extensionPayments S, ∃ p ∈ S.world.db.payments, some p.id = x

section Runs

variable {cfg : Config} {t : Int} {events : List (GateEvent cfg)}

/-- Each request of the run spends at most the one row it added, and that once. -/
theorem balanced_serve {past : Trace (machine cfg)} (h : past ∈ (serve cfg t events).traces) :
    (purse past).Balanced := by
  have hstands := serve_justified (Kept.any cfg _ _ _ t) (Pool.admissible_true (handle cfg) _ events)
    (answered_any events)
  obtain ⟨q, hran⟩ := Pool.mem_traces_iff.mp h
  have hkept := hstands.kept_of_ran hran
  rcases List.eq_nil_or_concat past with rfl | ⟨init, ⟨s, w⟩, rfl⟩
  · exact .unpaid
  · rw [List.concat_eq_append] at hkept ⊢
    exact (hkept init s w [] rfl).balanced

variable (cfg t events) in
/-- What is spent over the whole run, claims and extensions, is among what was recorded. -/
theorem spent_sublist :
    ∃ spent : List (Option Nat), spent.Perm
        ((paymentIds (serve cfg t events).world.db).map some ++
          extensionPayments (serve cfg t events)) ∧
      ∃ recorded : List (Option Nat), recorded.Perm
        (((serve cfg t events).world.db.payments.rows.map Payment.id).map some) ∧
        spent.Sublist recorded := by
  refine ⟨(serve cfg t events).traces.flatMap
    (fun past => (purse past).created.map some ++ (purse past).extended), ?_,
    (serve cfg t events).traces.flatMap (fun past => (purse past).recorded.map some), ?_, ?_⟩
  · refine (List.flatMap_append_perm _ _ _).symm.trans (List.Perm.append_right _ ?_)
    rw [← List.map_flatMap]
    exact created_serve.map some
  · rw [← List.map_flatMap]
    exact recorded_serve.map some
  · have hall : ∀ past ∈ (serve cfg t events).traces, (purse past).Balanced :=
      fun past hpast => balanced_serve hpast
    generalize (serve cfg t events).traces = traces at hall
    induction traces with
    | nil => exact List.Sublist.slnil
    | cons past rest ih =>
      rw [List.flatMap_cons, List.flatMap_cons]
      refine (hall past List.mem_cons_self).sublist.append ?_
      exact ih (fun p hp => hall p (List.mem_cons_of_mem _ hp))

/-- Replay safety: in every state of every run, each transaction id is recorded once and funds
at most one claim or one extension. -/
theorem funded_once (cfg : Config) (t : Int) (events : List (GateEvent cfg)) :
    FundedOnce (serve cfg t events) := by
  obtain ⟨spent, hspent, recorded, hrecorded, hsub⟩ := spent_sublist cfg t events
  have hids : ((serve cfg t events).world.db.payments.rows.map Payment.id).Nodup :=
    List.pairwise_map.mpr
      ((serve cfg t events).world.db.payments.ordered.imp (fun hlt => Nat.ne_of_lt hlt))
  have hnodup : ((paymentIds (serve cfg t events).world.db).map some ++
      extensionPayments (serve cfg t events)).Nodup := by
    refine hspent.nodup_iff.mp (hsub.nodup (hrecorded.nodup_iff.mpr ?_))
    exact hids.map (Option.some_injective _)
  have hpaid : ∀ x ∈ (paymentIds (serve cfg t events).world.db).map some ++
      extensionPayments (serve cfg t events),
      ∃ p ∈ (serve cfg t events).world.db.payments, some p.id = x := by
    intro x hx
    have hmem := hrecorded.subset (hsub.subset (hspent.symm.subset hx))
    rw [List.map_map] at hmem
    exact List.mem_map.mp hmem
  have hclaim : ∀ c ∈ (serve cfg t events).world.db.claims,
      some c.paymentId ∈ (paymentIds (serve cfg t events).world.db).map some :=
    fun c hc => List.mem_map_of_mem (List.mem_map_of_mem hc)
  obtain ⟨hclaims, hextensions, hapart⟩ := List.nodup_append'.mp hnodup
  refine ⟨?_, ?_, hextensions, ?_, ?_, ?_⟩
  · exact fun p hp q hq htx => List.inj_on_of_nodup_map txIds_serve hp hq htx
  · have honce : (paymentIds (serve cfg t events).world.db).Nodup := hclaims.of_map _
    exact fun c hc d hd hid => List.inj_on_of_nodup_map honce hc hd hid
  · exact fun c hc hx => hapart (hclaim c hc) hx
  · intro c hc
    obtain ⟨p, hp, hid⟩ := hpaid _ (List.mem_append_left _ (hclaim c hc))
    exact ⟨p, hp, Option.some.inj hid⟩
  · exact fun x hx => hpaid x (List.mem_append_right _ hx)

end Runs

end IpfsGate.Server
