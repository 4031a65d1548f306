import IpfsGate.Server.Backing

/-!
# Paid requests take effect

An extension and an own copy record their payment in a statement of its own and then run the
transaction that grants what was paid for. It looks again at the claim or the CID, which were
checked before the payment was verified, and may refuse. Where it does not, a request that has
ended has recorded its payment and its effect, or neither.
-/
namespace IpfsGate.Server

open Quota Pricing LedgerRun
open Lib Lib.Prog
open Lib (Table)

/-- The claim grew by the hours, and nothing else about it changed. -/
def Extends (cfg : Config) (b : ExtendRequest) (s : Stmt) (w : World) : Prop :=
  ∃ extraHours, billableHours cfg b.extraHours = .ok extraHours ∧
    ∃ c ∈ w.db.claims, c.claimId = b.claimId ∧ c.state = .active ∧
      { c with paidHours := c.paidHours + extraHours
               expiryTs := c.expiryTs + extraHours * hourMs } ∈ (s.sem cfg w).2.db.claims

/-- There is a new claim of the owner on the CID, funded by the payment. -/
def Creates (cfg : Config) (kind : ClaimKind) (state : ClaimState) (cid : Cid) (owner : Account)
    (paymentId : Nat) (s : Stmt) (w : World) : Prop :=
  ∃ c ∈ (s.sem cfg w).2.db.claims, c ∉ w.db.claims ∧ c.kind = kind ∧ c.state = state ∧
    c.cid = cid ∧ c.owner = cfg.toLowerCase owner ∧ c.paymentId = paymentId

/-- What a request pays for. -/
def Effect (cfg : Config) (q : Request) (paymentId : Nat) (s : Stmt) (w : World) : Prop :=
  match q with
  | .extend b => Extends cfg b s w
  | .ownCopy b => Creates cfg .ownCopy .active b.cid b.owner paymentId s w
  | .guardianPledge b | .backstopPledge b =>
    Creates cfg .guardian .dormant b.cid b.pledger paymentId s w
  | _ => False

/-- A finished request has committed the effect of every payments row it added, and one that
failed has added none. -/
structure AllOrNothing (cfg : Config) (f : Finished (machine cfg) Request Body) : Prop where
  effected : ∀ id ∈ (purse f.past).recorded, ∃ a ∈ f.past, Effect cfg f.request id a.1 a.2
  unpaid : f.result.isOk = false → (purse f.past).recorded = []

/-- A claim is extended while it is active, and an own copy written while its CID is hosted. -/
def Stmt.GrantsLive : Stmt → World → Prop
  | .extendClaim claimId _ _, w => ∃ c ∈ w.db.claims, c.claimId = claimId ∧ c.state = .active
  | .createOwnCopyClaim n, w => hasActivePinForCid w.db n.cid = true
  | _, _ => True

instance (s : Stmt) (w : World) : Decidable (s.GrantsLive w) := by
  induction s using Stmt.casesOn <;> unfold Stmt.GrantsLive <;> infer_instance

section Grants

variable {cfg : Config} {w : World}

/-- An own copy of a hosted CID is not refused. -/
theorem createOwnCopyClaim_of_hosted {n : OwnCopyRequest}
    (h : hasActivePinForCid w.db n.cid = true) :
    (Quota.createOwnCopyClaim w.db w.now n).isOk = true := by
  obtain ⟨p, hp⟩ := hasActivePinForCid_iff.mp h
  unfold Quota.createOwnCopyClaim
  cases hinfo : getLatestPinInfoForCid w.db n.cid with
  | none =>
    unfold getLatestPinInfoForCid at hinfo
    rw [Option.map_eq_none_iff, List.argmax_eq_none] at hinfo
    have hmem : p ∈ w.db.pins.filter (fun p => p.cid = n.cid) :=
      Table.mem_filter.mpr ⟨hp.mem, decide_eq_true hp.cid_eq⟩
    rw [hinfo] at hmem
    exact absurd hmem List.not_mem_nil
  | some info =>
    simp only [h, Bool.not_true, Bool.false_eq_true, ↓reduceIte]
    rfl

/-- An active claim is extended for its owner. -/
theorem extendClaim_of_active {c : Claim} {extraHours : Int} (hc : c ∈ w.db.claims)
    (hactive : c.state = .active) :
    (Quota.extendClaim w.db c.claimId c.owner extraHours).isOk = true := by
  have hfind : w.db.claims.find? c.claimId = some c := Table.find?_eq_some.mpr ⟨hc, rfl⟩
  unfold Quota.extendClaim getClaim
  rw [hfind]
  simp only [ne_eq, not_true_eq_false, hactive, ↓reduceIte]
  rfl

theorem effect_of_ownCopy {n : OwnCopyRequest}
    (h : (Quota.createOwnCopyClaim w.db w.now n).isOk = true) {owner : Account}
    (howner : n.owner = cfg.toLowerCase owner) :
    Creates cfg .ownCopy .active n.cid owner n.paymentId (.createOwnCopyClaim n) w := by
  cases hrun : Quota.createOwnCopyClaim w.db w.now n with
  | error e =>
    rw [hrun] at h
    cases h
  | ok r =>
    obtain ⟨info, _, _, hafter⟩ := createOwnCopyClaim_ok hrun
    have hsem : ((Stmt.createOwnCopyClaim n).sem cfg w).2.db = r.2 := by
      simp only [Stmt.sem, hrun, Stmt.fallible]
    refine ⟨newClaimRow (insertPin w.db w.now (n.pin w.now info)) w.now
      (n.claim w.now info w.db.pins.next), ?_, ?_, ?_⟩
    · rw [hsem, hafter]
      exact mem_createOrderWithClaim.mpr (Or.inr rfl)
    · exact fun hold => Table.ne_next hold rfl
    · exact ⟨rfl, rfl, rfl, howner, rfl⟩

theorem effect_of_pledge {g : Pledge} {owner : Account}
    (howner : g.owner = cfg.toLowerCase owner) :
    Creates cfg .guardian .dormant g.cid owner g.paymentId (.pledge g) w :=
  ⟨newClaimRow w.db w.now (g.claim w.now), mem_createOrderWithClaim.mpr (Or.inr rfl),
    fun hold => Table.ne_next hold rfl, rfl, rfl, rfl, howner, rfl⟩

theorem effect_of_extend {b : ExtendRequest} {owner : Account} {extraHours : Int}
    (hhours : billableHours cfg b.extraHours = .ok extraHours)
    (h : (Quota.extendClaim w.db b.claimId owner extraHours).isOk = true) :
    Extends cfg b (.extendClaim b.claimId owner extraHours) w := by
  cases hrun : Quota.extendClaim w.db b.claimId owner extraHours with
  | error e =>
    rw [hrun] at h
    cases h
  | ok r =>
    obtain ⟨c, hc, hid, _, hactive, hclaims, _⟩ := extendClaim_ok hrun
    have hsem : ((Stmt.extendClaim b.claimId owner extraHours).sem cfg w).2.db = r.2 := by
      simp only [Stmt.sem, hrun, Stmt.fallible]
    refine ⟨extraHours, hhours, c, hc, hid, hactive, ?_⟩
    rw [hsem]
    refine (hclaims _).mpr ⟨c, hc, ?_⟩
    unfold extendedClaim
    rw [if_pos hid]

end Grants

section Requests

variable {cfg : Config} {A : Answers} {Arrives : Request → World → Prop} {q : Request}
  {past : Trace (machine cfg)} {s : Stmt} {w : World}

/-- On a live claim or CID the granting transaction is not refused. -/
theorem not_refused (hj : Justified cfg A Arrives q past s w) (hlive : s.GrantsLive w) :
    ¬ Refuses s w := by
  intro href
  cases s with
  | createOwnCopyClaim n =>
    change (Quota.createOwnCopyClaim w.db w.now n).isOk = false at href
    rw [createOwnCopyClaim_of_hosted hlive] at href
    cases href
  | extendClaim claimId owner extraHours =>
    have hq := hj.tabled.1
    cases q with
    | extend b =>
      obtain ⟨w₀, quote, _, hev, hback⟩ := hj.backed
      obtain ⟨c, hc, hid, hactive⟩ := hlive
      obtain ⟨hmem, hquoted, _⟩ := checkExtend_ok hback.checked
      -- the claim that was quoted still has its owner
      obtain ⟨d, hd, hdid, hdown⟩ := hev.claims _ hmem
      have hcd : c = d := Table.eq_of_key hc hd
        ((hid.trans hback.claimId).trans (hquoted.symm.trans hdid.symm))
      have howner : owner = c.owner := by rw [hback.owner, hcd, hdown]
      change (Quota.extendClaim w.db claimId owner extraHours).isOk = false at href
      rw [howner, ← hid, extendClaim_of_active hc hactive] at href
      cases href
    | _ => cases hq
  | _ => exact href

theorem not_grants (hc : fundedClaim (s, w) = none) (hl : lengthens (s, w) = false) :
    ¬ Grants s w := by
  rintro (h | h)
  · rw [hc] at h
    cases h
  · rw [hl] at h
    cases h

/-- A granting transaction that succeeds is the effect the request paid for. -/
theorem effect_of_grants (hj : Justified cfg A Arrives q past s w) (hbuys : q.buys = true)
    (hgrants : Grants s w) : ∃ id, (purse (past ++ [(s, w)])).recorded = [id] ∧
      Effect cfg q id s w := by
  have hrecorded : ∀ {id : Nat}, purse past = .held id → paymentOf (s, w) = none →
      (purse (past ++ [(s, w)])).recorded = [id] := by
    intro id hheld hnone
    rw [purse_append, hheld, Purse.note, hnone]
    rfl
  have hq := hj.tabled.1
  cases q with
  | guardianPledge b =>
    cases s with
    | pledge g =>
      obtain ⟨_, _, _, _, hback⟩ := hj.backed
      refine ⟨_, hrecorded hback.held rfl, ?_⟩
      change Creates cfg .guardian .dormant b.cid b.pledger g.paymentId (.pledge g) w
      rw [← hback.cid]
      exact effect_of_pledge hback.owner
    | _ => first
      | exact absurd hq Bool.false_ne_true
      | exact absurd hgrants (not_grants rfl rfl)
  | backstopPledge b =>
    cases s with
    | pledge g =>
      obtain ⟨_, _, _, _, hback⟩ := hj.backed
      refine ⟨_, hrecorded hback.held rfl, ?_⟩
      change Creates cfg .guardian .dormant b.cid b.pledger g.paymentId (.pledge g) w
      rw [← hback.cid]
      exact effect_of_pledge hback.owner
    | _ => first
      | exact absurd hq Bool.false_ne_true
      | exact absurd hgrants (not_grants rfl rfl)
  | ownCopy b =>
    cases s with
    | createOwnCopyClaim n =>
      obtain ⟨_, _, _, _, hback⟩ := hj.backed
      refine ⟨_, hrecorded hback.held rfl, ?_⟩
      have hok : (Quota.createOwnCopyClaim w.db w.now n).isOk = true := by
        rcases hgrants with hg | hg
        · change ((Quota.createOwnCopyClaim w.db w.now n).toOption.map _).isSome = true at hg
          cases hrun : Quota.createOwnCopyClaim w.db w.now n with
          | error e =>
            rw [hrun] at hg
            cases hg
          | ok r => rfl
        · cases hg
      change Creates cfg .ownCopy .active b.cid b.owner n.paymentId (.createOwnCopyClaim n) w
      rw [← hback.cid]
      exact effect_of_ownCopy hok hback.owner
    | _ => first
      | exact absurd hq Bool.false_ne_true
      | exact absurd hgrants (not_grants rfl rfl)
  | extend b =>
    cases s with
    | extendClaim claimId owner extraHours =>
      obtain ⟨_, _, _, _, hback⟩ := hj.backed
      obtain ⟨id, hheld⟩ := hback.held
      refine ⟨id, hrecorded hheld rfl, ?_⟩
      rcases hgrants with hg | hg
      · cases hg
      · rw [hback.claimId] at hg ⊢
        exact effect_of_extend hback.hours hg
    | _ => first
      | exact absurd hq Bool.false_ne_true
      | exact absurd hgrants (not_grants rfl rfl)
  | _ => cases hbuys

end Requests

/-- In every run in which claims are extended while active and own copies written while their
CID is hosted, every paid request that has ended is all or nothing. -/
theorem paid_effected (cfg : Config) (t : Int) (events : List (GateEvent cfg))
    (h : Guarded cfg Stmt.GrantsLive t events) :
    ∀ f ∈ (serve cfg t events).finished, f.request.buys = true → AllOrNothing cfg f := by
  intro f hf hbuys
  have hstands := serve_justified (Kept.any cfg _ _ _ t) h (answered_any events)
  obtain ⟨hkept, hdone⟩ := hstands.finished f hf
  have hlive : ∀ a ∈ f.past, Stmt.GrantsLive a.1 a.2 :=
    Pool.traces_meet h (Pool.mem_traces.mpr (Or.inl ⟨f, hf, rfl⟩))
  -- the last statement of the request, refused or not, ran on a live claim or CID
  have hlast : ∀ {past' s w}, f.past = past' ++ [(s, w)] → ¬ Refuses s w ∧
      (Grants s w → ∃ id, (purse f.past).recorded = [id] ∧ Effect cfg f.request id s w) := by
    intro past' s w hpast
    have hj := hkept past' s w [] hpast
    have hmem : (s, w) ∈ f.past := by
      rw [hpast]
      exact List.mem_append_right _ (List.mem_singleton_self _)
    refine ⟨not_refused hj (hlive (s, w) hmem), fun hgrants => ?_⟩
    rw [hpast]
    exact effect_of_grants hj hbuys hgrants
  have hend := hdone hbuys
  cases hresult : f.result with
  | error e =>
    rw [hresult] at hend
    have hnone : (purse f.past).recorded = [] := by
      rcases hend with hnone | ⟨past', s, w, hpast, href⟩
      · exact hnone
      · exact absurd href (hlast hpast).1
    exact ⟨fun id hid => absurd (hnone ▸ hid) List.not_mem_nil, fun _ => hnone⟩
  | ok body =>
    rw [hresult] at hend
    obtain ⟨past', s, w, hpast, hgrants⟩ := hend
    obtain ⟨id, hrecorded, heffect⟩ := (hlast hpast).2 hgrants
    refine ⟨fun id' hid' => ?_, fun hfail => ?_⟩
    · rw [hrecorded, List.mem_singleton] at hid'
      rw [hid', hpast]
      exact ⟨(s, w), List.mem_append_right _ (List.mem_singleton_self _), heffect⟩
    · rw [hresult] at hfail
      cases hfail

section Sampled

open Sample

/-- Alice buys two more hours for her claim. -/
def extendFirst : Request :=
  .extend { claimId := 1, extraHours := .fin 2, txId := "ipfs-gate:extend:1" }

def extended : List (GateEvent config) := hostedByAlice ++ [.spawn extendFirst] ++ resumed 2 0

theorem paid_effected_extended :
    Guarded config Stmt.GrantsLive 0 extended ∧
    ∀ f ∈ (serve config 0 extended).finished, f.request.buys = true → AllOrNothing config f :=
  ⟨by decide +kernel, paid_effected config 0 extended (by decide +kernel)⟩

/-- Alice cancels the claim while her payment for it is being verified. -/
def extendedTooLate : List (GateEvent config) :=
  hostedByAlice ++ [.spawn extendFirst] ++ resumed 1 0 ++ [.spawn (cancelBy "alice" 1)] ++
    resumed 1 1 ++ resumed 1 0

theorem paid_for_nothing : ¬ ∀ f ∈ (serve config 0 extendedTooLate).finished,
    f.request.buys = true → AllOrNothing config f := by
  have hlost : ∃ f ∈ (serve config 0 extendedTooLate).finished, f.request.buys = true ∧
      f.result.isOk = false ∧ (purse f.past).recorded ≠ [] := by decide +kernel
  obtain ⟨f, hf, hbuys, hfail, hpaid⟩ := hlost
  exact fun h => hpaid ((h f hf hbuys).unpaid hfail)

end Sampled

end IpfsGate.Server
