import IpfsGate.Lib.Notes
import IpfsGate.Server.Orders
import IpfsGate.Server.Policies

/-!
# When a release takes effect

A signed release and a proven receipt are two routes to the same decision. Both decide in the turn
in which the chain confirms the key: the consent is recorded, and if the policy is met the order's
claim is ended before anybody else takes a turn. What a request counts for is therefore known from
the accounts whose requests were accepted before.
-/
namespace IpfsGate.Server

open Quota LedgerRun
open Lib Lib.Prog
open Lib (Table Pool)

/-! ## The policy -/

/-- The request of the account meets the order's policy, after accepted requests of others. -/
def Fires (o : Order) (before : List Account) (a : Account) : Prop :=
  a = o.owner ∨ (o.releasePolicy.type = .anyOf ∧ a ∈ o.releasePolicy.addresses) ∨
    (o.releasePolicy.type = .allOf ∧ ∀ b ∈ o.releasePolicy.addresses, b ∈ before ++ [a])

instance (o : Order) (before : List Account) (a : Account) : Decidable (Fires o before a) := by
  unfold Fires
  infer_instance

/-- None of the accepted requests has met the policy. -/
def Unfired (o : Order) (accepted : List Account) : Prop :=
  ∀ before a, before ++ [a] <+: accepted → ¬ Fires o before a

/-- What is stored of an order whose addresses are account names: an owner in lower case, and
addresses for the policies that need them. -/
structure Named (cfg : Config) (o : Order) : Prop where
  addresses : ∀ a ∈ o.releasePolicy.addresses, isAccountName a = true
  owner : cfg.toLowerCase o.owner = o.owner
  listed : o.releasePolicy.type ≠ .ownerOnly → o.releasePolicy.addresses ≠ []

section Policy

variable {cfg : Config} {o : Order} {accepted : List Account} {a : Account}

theorem unfired_nil : Unfired o [] := by
  intro before a h
  have hlen := h.length_le
  simp at hlen

theorem unfired_append : Unfired o (accepted ++ [a]) ↔ Unfired o accepted ∧ ¬ Fires o accepted a := by
  constructor
  · intro h
    exact ⟨fun before b hb => h before b (hb.trans (List.prefix_append _ _)),
      h accepted a (List.prefix_refl _)⟩
  · rintro ⟨hold, hnew⟩ before b hb
    rcases List.prefix_concat_iff.mp hb with heq | hb
    · obtain ⟨rfl, hlast⟩ := List.append_inj' heq rfl
      cases hlast
      exact hnew
    · exact hold before b hb

/-- While an order waits for all of its addresses, one is missing. -/
theorem missing_of_unfired (h : Unfired o accepted) (htype : o.releasePolicy.type = .allOf)
    (hlisted : o.releasePolicy.addresses ≠ []) :
    ¬ ∀ b ∈ o.releasePolicy.addresses, b ∈ accepted := by
  intro hall
  rcases List.eq_nil_or_concat accepted with rfl | ⟨before, x, rfl⟩
  · obtain ⟨b, hb⟩ := List.exists_mem_of_ne_nil _ hlisted
    exact List.not_mem_nil (hall b hb)
  · rw [List.concat_eq_append] at h hall
    exact h before x (List.prefix_refl _) (Or.inr (Or.inr ⟨htype, hall⟩))

/-- What the decision on an account name says. -/
structure Decides (o : Order) (consented : List Account) (a : Account) (d : Decision) : Prop where
  ends : d.ends = true ↔ a = o.owner ∨
    (o.releasePolicy.type = .anyOf ∧ a ∈ o.releasePolicy.addresses) ∨
    (o.releasePolicy.type = .allOf ∧ a ∈ o.releasePolicy.addresses ∧
      ∀ b ∈ o.releasePolicy.addresses, b = a ∨ b ∈ consented)
  records : d.recordsConsent = true ↔
    a ≠ o.owner ∧ o.releasePolicy.type = .allOf ∧ a ∈ o.releasePolicy.addresses
  authorized : d.authorized = false → d.ends = false ∧ d.recordsConsent = false

/-- Normalising a policy of account names again keeps who is listed. -/
theorem normalize_named (hnames : ∀ a, isAccountName a = true → cfg.toLowerCase a = a)
    (hn : Named cfg o) : ∃ p, normalizeReleasePolicy cfg o.releasePolicy.type.text
      o.releasePolicy.addresses = .ok p ∧ p.type = o.releasePolicy.type ∧
      ∀ x, x ∈ p.addresses ↔ x ∈ o.releasePolicy.addresses := by
  have hstays : ∀ b ∈ o.releasePolicy.addresses, dropAt (cfg.toLowerCase b) = b := by
    intro b hb
    rw [hnames b (hn.addresses b hb), dropAt_of_name (hn.addresses b hb)]
  have hmem : ∀ x, x ∈ stripped cfg o.releasePolicy.addresses ↔
      x ∈ o.releasePolicy.addresses := by
    intro x
    rw [mem_stripped]
    constructor
    · rintro ⟨⟨b, hb, rfl⟩, _⟩
      rw [hstays b hb]
      exact hb
    · intro hx
      exact ⟨⟨x, hx, hstays x hx⟩, ne_empty_of_name (hn.addresses x hx)⟩
  refine ⟨⟨o.releasePolicy.type, stripped cfg o.releasePolicy.addresses⟩,
    normalizeReleasePolicy_ok.mpr ⟨parseReleaseType_text _, rfl, fun htype hnil => ?_⟩, rfl, hmem⟩
  obtain ⟨b, hb⟩ := List.exists_mem_of_ne_nil _ (hn.listed htype)
  exact List.ne_nil_of_mem ((hmem b).mpr hb) hnil

theorem evaluateRelease_decides (hnames : ∀ a, isAccountName a = true → cfg.toLowerCase a = a)
    (hn : Named cfg o) (ha : isAccountName a = true) (consented : List Account) :
    ∃ d, evaluateRelease cfg o.releasePolicy o.owner a consented = .ok d ∧
      Decides o (consented.map cfg.toLowerCase) a d := by
  obtain ⟨p, hp, htype, hmem⟩ := normalize_named hnames hn
  have hwho : dropAt (cfg.toLowerCase a) = a := by rw [hnames a ha, dropAt_of_name ha]
  unfold evaluateRelease
  rw [hp, hwho, hn.owner]
  dsimp only [Bind.bind, Except.bind]
  by_cases hown : a = o.owner
  · have htest : (a ≠ "" && a = o.owner) = true := by simp [← hown, ne_empty_of_name ha]
    rw [if_pos htest]
    exact ⟨_, rfl, ⟨by simp [hown], by simp [hown], by simp⟩⟩
  · have htest : ¬ (a ≠ "" && a = o.owner) = true := by simp [hown]
    rw [if_neg htest, htype]
    cases hkind : o.releasePolicy.type with
    | ownerOnly => exact ⟨_, rfl, ⟨by simp [hown, hkind], by simp [hkind], by simp⟩⟩
    | anyOf =>
      by_cases hin : a ∈ o.releasePolicy.addresses
      · have hcontains : p.addresses.contains a = true := by simpa using (hmem a).mpr hin
        simp only [hcontains, if_true]
        exact ⟨_, rfl, ⟨by simp [hkind, hin], by simp [hkind], by simp⟩⟩
      · have hcontains : ¬ p.addresses.contains a = true := by simpa [hmem a] using hin
        simp only [hcontains]
        exact ⟨_, rfl, ⟨by simp [hown, hkind, hin], by simp [hkind], by simp⟩⟩
    | allOf =>
      by_cases hin : a ∈ o.releasePolicy.addresses
      · have hcontains : p.addresses.contains a = true := by simpa using (hmem a).mpr hin
        simp only [hcontains, if_true]
        exact ⟨_, rfl, ⟨by simp [hown, hkind, hin, hmem], by simp [hown, hkind, hin], by simp⟩⟩
      · have hcontains : ¬ p.addresses.contains a = true := by simpa [hmem a] using hin
        simp only [hcontains]
        exact ⟨_, rfl, ⟨by simp [hown, hkind, hin], by simp [hin], by simp⟩⟩

end Policy

/-! ## The order's claim -/

/-- The order has an active claim. -/
def Hosts (db : Db) (orderId : Nat) : Prop := (getActiveClaimForOrder db orderId).isSome = true

instance (db : Db) (orderId : Nat) : Decidable (Hosts db orderId) := by
  unfold Hosts
  infer_instance

theorem hosts_iff {db : Db} {orderId : Nat} :
    Hosts db orderId ↔ ∃ c ∈ db.claims, c.orderId = orderId ∧ c.state = .active := by
  unfold Hosts getActiveClaimForOrder
  rw [List.find?_isSome]
  simp only [Bool.and_eq_true, decide_eq_true_eq, Table.mem_rows]

/-- The order has one claim, which does not wait for a turn to host. -/
structure OneClaim (db : Db) (orderId : Nat) : Prop where
  sole : ∀ c ∈ db.claims, ∀ d ∈ db.claims, c.orderId = orderId → d.orderId = orderId →
    c.claimId = d.claimId
  awake : ∀ c ∈ db.claims, c.orderId = orderId → c.state ≠ .dormant

/-- The order's claims are the same. -/
def SameClaims (orderId : Nat) (a b : Db) : Prop :=
  ∀ c, c.orderId = orderId → (c ∈ b.claims ↔ c ∈ a.claims)

section Claims

variable {db after : Db} {t : Int} {orderId : Nat}

theorem OneClaim.same (h : OneClaim db orderId) (hs : SameClaims orderId db after) :
    OneClaim after orderId := by
  constructor
  · intro c hc d hd hco hdo
    exact h.sole c ((hs c hco).mp hc) d ((hs d hdo).mp hd) hco hdo
  · intro c hc hco
    exact h.awake c ((hs c hco).mp hc) hco

theorem SameClaims.hosts (hs : SameClaims orderId db after) :
    Hosts after orderId ↔ Hosts db orderId := by
  rw [hosts_iff, hosts_iff]
  constructor
  · rintro ⟨c, hc, hco, ha⟩
    exact ⟨c, (hs c hco).mp hc, hco, ha⟩
  · rintro ⟨c, hc, hco, ha⟩
    exact ⟨c, (hs c hco).mpr hc, hco, ha⟩

/-- A claim that is not dormant is not promoted. -/
theorem sameClaims_promote (hawake : ∀ c ∈ db.claims, c.orderId = orderId → c.state ≠ .dormant)
    (g : Claim) : SameClaims orderId db (promote db t g) := by
  intro c hco
  rw [mem_claims_promote]
  constructor
  · rintro ⟨d, hd, rfl⟩
    split at hco
    · rename_i hsel
      have hdorm := hawake d hd hco
      simp [hdorm] at hsel
    · rename_i hsel
      rw [if_neg hsel]
      exact hd
  · intro hc
    refine ⟨c, hc, ?_⟩
    rw [if_neg]
    simp [hawake c hc hco]

theorem sameClaims_reconcileAll
    (hawake : ∀ c ∈ db.claims, c.orderId = orderId → c.state ≠ .dormant) (cids : List Cid) :
    SameClaims orderId db (reconcileAll db t cids).2 := by
  refine reconcileAll_preserves (SameClaims orderId db) t ?_ cids db (fun c _ => Iff.rfl)
  intro mid cid g hmid _ _ _ c hco
  rw [← hmid c hco]
  refine sameClaims_promote (fun d hd hdo => ?_) g c hco
  exact hawake d ((hmid d hdo).mp hd) hdo

/-- Ending another order's claim. -/
theorem sameClaims_retire (h : OneClaim db orderId) {claim : Claim} (hm : claim ∈ db.claims)
    (hother : claim.orderId ≠ orderId) (reason : String) :
    SameClaims orderId db (retire db t claim reason).2 := by
  have hend : SameClaims orderId db (endClaim db t claim reason) := by
    intro c hco
    have hskip : ∀ d ∈ db.claims, d.orderId = orderId →
        (d.claimId = claim.claimId && (d.state = .active || d.state = .dormant)) = false := by
      intro d hd hdo
      have hne : d.claimId ≠ claim.claimId := by
        intro hid
        have heq : d = claim := Table.eq_of_key hd hm hid
        exact hother (heq ▸ hdo)
      simp [hne]
    change c ∈ (closeClaims db .cancelled _).claims ↔ _
    rw [mem_closeClaims]
    constructor
    · rintro ⟨d, hd, rfl⟩
      rw [closedClaim_orderId] at hco
      rw [closedClaim_of_skip (hskip d hd hco)]
      exact hd
    · intro hc
      exact ⟨c, hc, (closedClaim_of_skip (hskip c hc hco)).symm⟩
  rw [retire_eq]
  intro c hco
  rw [← hend c hco]
  refine sameClaims_reconcileAll (fun d hd hdo => ?_) _ c hco
  exact h.awake d ((hend d hdo).mp hd) hdo

/-- Ending the order's own claim. -/
theorem retire_own (h : OneClaim db orderId) {claim : Claim} (hm : claim ∈ db.claims)
    (hown : claim.orderId = orderId) (reason : String) :
    OneClaim (retire db t claim reason).2 orderId ∧
      ¬ Hosts (retire db t claim reason).2 orderId := by
  have hended : ∀ c ∈ (endClaim db t claim reason).claims, c.orderId = orderId →
      c.claimId = claim.claimId ∧ c.state ≠ .active ∧ c.state ≠ .dormant := by
    intro c hc hco
    change c ∈ (closeClaims db .cancelled _).claims at hc
    obtain ⟨d, hd, rfl⟩ := mem_closeClaims.mp hc
    rw [closedClaim_orderId] at hco
    have hid := h.sole d hd claim hm hco hown
    refine ⟨by rw [closedClaim_claimId, hid], fun ha => ?_, fun hdorm => ?_⟩
    · obtain ⟨hact, hsel⟩ := (closedClaim_state (by decide)).mp ha
      simp [hid, hact] at hsel
    · exact h.awake d hd hco ((closedClaim_state (by decide)).mp hdorm).1
  have hone : OneClaim (endClaim db t claim reason) orderId := by
    constructor
    · intro c hc d hd hco hdo
      rw [(hended c hc hco).1, (hended d hd hdo).1]
    · exact fun c hc hco => (hended c hc hco).2.2
  have hsame := sameClaims_reconcileAll (t := t) hone.awake [claim.cid]
  rw [retire_eq]
  refine ⟨hone.same hsame, fun hhosts => ?_⟩
  obtain ⟨c, hc, hco, ha⟩ := hosts_iff.mp (hsame.hosts.mp hhosts)
  exact (hended c hc hco).2.1 ha

end Claims

/-! ## The tally of accepted requests -/

/-- The order stands, it hosts as long as no accepted request has met its policy, and until then
its consents are the listed accounts whose requests were accepted. -/
structure Tally (cfg : Config) (o : Order) (accepted : List Account) (w : World) : Prop where
  order : getOrder w.db o.orderId = some o
  one : OneClaim w.db o.orderId
  hosts : Hosts w.db o.orderId ↔ Unfired o accepted
  consents : Unfired o accepted → o.releasePolicy.type = .allOf →
    ∀ a ∈ o.releasePolicy.addresses,
      (a ∈ (getReleaseConsents w.db o.orderId).map cfg.toLowerCase ↔ a ∈ accepted)

/-- What recording a decision writes. -/
structure Noticed (cfg : Config) (o : Order) (a : Account) (d : Decision) (w w' : World) :
    Prop where
  orders : w'.db.orders = w.db.orders
  claims : w'.db.claims = w.db.claims
  consents : ∀ b, b ∈ (getReleaseConsents w'.db o.orderId).map cfg.toLowerCase ↔
    b ∈ (getReleaseConsents w.db o.orderId).map cfg.toLowerCase ∨
      (d.recordsConsent = true ∧ b = a)

section Tallies

variable {cfg : Config} {o : Order} {accepted : List Account} {a : Account} {d : Decision}
  {w w' : World}

theorem Tally.congr (h : Tally cfg o accepted w) (horders : w'.db.orders = w.db.orders)
    (hclaims : w'.db.claims = w.db.claims)
    (hconsents : getReleaseConsents w'.db o.orderId = getReleaseConsents w.db o.orderId) :
    Tally cfg o accepted w' := by
  have hsame : SameClaims o.orderId w.db w'.db := fun c _ => by rw [hclaims]
  refine ⟨?_, h.one.same hsame, hsame.hosts.trans h.hosts, ?_⟩
  · have horder := h.order
    unfold getOrder at horder ⊢
    rw [horders]
    exact horder
  · rw [hconsents]
    exact h.consents

/-- While the order waits, a request meets its policy exactly if the decision says so. -/
theorem Tally.fires (h : Tally cfg o accepted w) (hn : Named cfg o) (hu : Unfired o accepted)
    (hd : Decides o ((getReleaseConsents w.db o.orderId).map cfg.toLowerCase) a d) :
    Fires o accepted a ↔ d.ends = true := by
  rw [hd.ends]
  refine or_congr_right (or_congr_right (and_congr_right (fun htype => ?_)))
  have hconsents := h.consents hu htype
  constructor
  · intro hall
    have hin : a ∈ o.releasePolicy.addresses := by
      by_contra hout
      refine missing_of_unfired hu htype (hn.listed (by simp [htype])) (fun b hb => ?_)
      rcases List.mem_append.mp (hall b hb) with hb' | hb'
      · exact hb'
      · rw [List.mem_singleton] at hb'
        exact absurd (hb' ▸ hb) hout
    refine ⟨hin, fun b hb => ?_⟩
    rcases List.mem_append.mp (hall b hb) with hb' | hb'
    · exact Or.inr ((hconsents b hb).mpr hb')
    · exact Or.inl (List.mem_singleton.mp hb')
  · rintro ⟨_, hall⟩ b hb
    rcases hall b hb with rfl | hb'
    · exact List.mem_append_right _ (List.mem_singleton_self b)
    · exact List.mem_append_left _ ((hconsents b hb).mp hb')

/-- A request that does not meet the policy leaves the order waiting, with its consent if it is
one. -/
theorem Tally.waits (h : Tally cfg o accepted w) (hn : Named cfg o)
    (hd : Decides o ((getReleaseConsents w.db o.orderId).map cfg.toLowerCase) a d)
    (hends : d.ends = false) (hnoticed : Noticed cfg o a d w w') :
    Tally cfg o (accepted ++ [a]) w' := by
  have hsame : SameClaims o.orderId w.db w'.db := fun c _ => by rw [hnoticed.claims]
  have hunfired : Unfired o (accepted ++ [a]) ↔ Unfired o accepted := by
    rw [unfired_append]
    refine ⟨fun hu => hu.1, fun hu => ⟨hu, fun hf => ?_⟩⟩
    rw [h.fires hn hu hd, hends] at hf
    cases hf
  refine ⟨?_, h.one.same hsame, ?_, ?_⟩
  · have horder := h.order
    unfold getOrder at horder ⊢
    rw [hnoticed.orders]
    exact horder
  · rw [hsame.hosts, h.hosts, hunfired]
  · intro hu htype b hb
    rw [hnoticed.consents, h.consents (hunfired.mp hu) htype b hb, List.mem_append,
      List.mem_singleton]
    refine or_congr_right ⟨fun hr => hr.2, fun hba => ⟨?_, hba⟩⟩
    have howner : a ≠ o.owner := by
      intro hown
      rw [hd.ends.mpr (Or.inl hown)] at hends
      cases hends
    exact hd.records.mpr ⟨howner, htype, hba ▸ hb⟩

theorem mem_recorded {db : Db} {t : Int} {orderId : Nat} {sig : String} {b : Account}
    (hlower : cfg.toLowerCase a = a) :
    b ∈ (getReleaseConsents (Quota.recordReleaseConsent cfg db t orderId a sig) orderId).map
        cfg.toLowerCase ↔
      b ∈ (getReleaseConsents db orderId).map cfg.toLowerCase ∨ b = a := by
  unfold Quota.recordReleaseConsent
  dsimp only
  rw [hlower]
  split
  · rename_i hany
    obtain ⟨c, hc, hmatch⟩ := List.any_eq_true.mp hany
    simp only [Bool.and_eq_true, decide_eq_true_eq] at hmatch
    constructor
    · exact Or.inl
    · rintro (hb | rfl)
      · exact hb
      · refine List.mem_map.mpr ⟨c.releaser, List.mem_map.mpr ⟨c, ?_, rfl⟩, ?_⟩
        · exact List.mem_filter.mpr ⟨hc, by simp [hmatch.1]⟩
        · rw [hmatch.2, hlower]
  · simp [getReleaseConsents, List.filter_append, hlower]

/-- Recording a consent leaves orders and claims alone. -/
theorem recorded_aside (db : Db) (t : Int) (orderId : Nat) (sig : String) :
    (Quota.recordReleaseConsent cfg db t orderId a sig).orders = db.orders ∧
      (Quota.recordReleaseConsent cfg db t orderId a sig).claims = db.claims := by
  unfold Quota.recordReleaseConsent
  dsimp only
  split
  · exact ⟨rfl, rfl⟩
  · exact ⟨rfl, rfl⟩

theorem consents_recorded_other {db : Db} {t : Int} {n orderId : Nat} {sig : String}
    (hne : n ≠ orderId) :
    getReleaseConsents (Quota.recordReleaseConsent cfg db t n a sig) orderId =
      getReleaseConsents db orderId := by
  unfold Quota.recordReleaseConsent
  dsimp only
  split
  · rfl
  · simp [getReleaseConsents, List.filter_append, hne]

theorem consents_retire (db : Db) (t : Int) (claim : Claim) (reason : String) :
    (retire db t claim reason).2.releaseConsents = db.releaseConsents := by
  rw [retire_eq]
  exact reconcileAll_preserves (fun after => after.releaseConsents = db.releaseConsents) t
    (fun _ _ _ h _ _ _ => h) _ (endClaim db t claim reason) rfl

/-- The claim of another order ends. -/
theorem Tally.endOther (h : Tally cfg o accepted w) {claim : Claim} (hm : claim ∈ w.db.claims)
    (hother : claim.orderId ≠ o.orderId) (reason : String) :
    Tally cfg o accepted { w with db := (retire w.db w.now claim reason).2 } := by
  have hsame := sameClaims_retire (t := w.now) h.one hm hother reason
  refine ⟨?_, h.one.same hsame, hsame.hosts.trans h.hosts, ?_⟩
  · have horder := h.order
    unfold getOrder at horder ⊢
    dsimp only
    rw [orders_retire]
    exact horder
  · unfold getReleaseConsents
    dsimp only
    rw [consents_retire]
    exact h.consents

/-- Once a request has met the policy, the order stays ended. -/
theorem Tally.fired (horder : getOrder w.db o.orderId = some o) (hone : OneClaim w.db o.orderId)
    (hgone : ¬ Hosts w.db o.orderId) (hfired : ¬ Unfired o accepted) : Tally cfg o accepted w :=
  ⟨horder, hone, iff_of_false hgone hfired, fun hu => absurd hu hfired⟩

/-- The order's own claim ends, when a request has met the policy. -/
theorem Tally.endOwn (horder : getOrder w.db o.orderId = some o)
    (hone : OneClaim w.db o.orderId) (hfired : ¬ Unfired o accepted) {claim : Claim}
    (hm : claim ∈ w.db.claims) (hown : claim.orderId = o.orderId) (reason : String) :
    Tally cfg o accepted { w with db := (retire w.db w.now claim reason).2 } := by
  obtain ⟨hone', hgone⟩ := retire_own (t := w.now) hone hm hown reason
  refine .fired ?_ hone' hgone hfired
  unfold getOrder at horder ⊢
  dsimp only
  rw [orders_retire]
  exact horder

end Tallies

/-! ## One turn -/

/-- What follows a decision: refunds and a clean-up. -/
def Stmt.isSettling : Stmt → Bool
  | .recordRefund _ | .markRefundSettled .. | .enqueueReport .. | .unpinFromKubo _ => true
  | _ => false

/-- A part of a handler that only settles. -/
abbrev Tidies (cfg : Config) {α : Type} (p : Handler cfg α) (w : World) : Prop :=
  Keeps cfg (fun s _ => s.isSettling = true) (fun c => c.isSettling = true) p w

/-- A process that only settles from here on. -/
def WindsDown (cfg : Config) (α : Type) (c : Call) (k : c.Reply → Handler cfg α) : Prop :=
  c.isSettling = true ∧ ∀ r w, Tidies cfg (k r) w

/-- The turn keeps the tally, and what the process does later settles. -/
abbrev Concludes (cfg : Config) (o : Order) (accepted : List Account) (α : Type) :
    Stop (machine cfg) α → World → Prop :=
  Pool.Stays (M := machine cfg) (Tally cfg o accepted) (WindsDown cfg α)

section Turns

variable {cfg : Config} {α β : Type} {o : Order} {accepted : List Account} {a : Account}
  {d : Decision} {w : World}

theorem tally_settling {s : Stmt} (hs : s.isSettling = true) (h : Tally cfg o accepted w) :
    Tally cfg o accepted (s.sem cfg w).2 := by
  cases s <;> first
    | exact h.congr rfl rfl rfl
    | cases hs

theorem permits_settling : PermitsRefunds (fun s _ => s.isSettling = true) :=
  ⟨fun _ _ => rfl, fun _ _ _ => rfl, fun _ _ _ _ _ => rfl⟩

theorem concludes_of_tidies {p : Handler cfg α} (hp : Tidies cfg p w)
    (h : Tally cfg o accepted w) :
    p.Turns (M := machine cfg) (Concludes cfg o accepted α) w := by
  refine Turns.mono ?_ (Emits.turns (M := machine cfg)
    (fun s w hs hj => tally_settling hs hj) hp h)
  intro stop w hstop
  cases stop with
  | finished r => exact hstop.1
  | suspended c k => exact ⟨hstop.1, hstop.2⟩

theorem concludes_bind {p : Handler cfg β} {f : β → Handler cfg α}
    (hp : p.Turns (M := machine cfg) (Concludes cfg o accepted β) w)
    (hf : ∀ b w, Tidies cfg (f b) w) :
    (Prog.bind p f).Turns (M := machine cfg) (Concludes cfg o accepted α) w := by
  refine turns_bind (Turns.mono ?_ hp)
  intro stop w hstop
  cases stop with
  | finished r =>
    cases r with
    | ok b => exact concludes_of_tidies (hf b w) hstop
    | error e => exact hstop
  | suspended c k => exact ⟨hstop.1, hstop.2.1, fun r w => Keeps.bind (hstop.2.2 r w) hf⟩

/-- A turn that starts by asking the database. -/
theorem turns_ask {R : Stop (machine cfg) α → World → Prop} {g : Db → β} {f : β → Handler cfg α}
    (h : (f (g w.db)).Turns (M := machine cfg) R w) :
    (Prog.bind (ask g) f).Turns (M := machine cfg) R w := h

/-- What an order's ending does, by what the ending of its claim does. -/
theorem endOrder_concludes {orderId : Nat} {reason : String}
    (hnone : getActiveClaimForOrder w.db orderId = none → Tally cfg o accepted w)
    (hsome : ∀ active, getActiveClaimForOrder w.db orderId = some active →
      (∀ e, Quota.endActiveClaimForRelease w.db w.now active.claimId = .error e →
        Tally cfg o accepted w) ∧
      ∀ e after, Quota.endActiveClaimForRelease w.db w.now active.claimId = .ok (e, after) →
        Tally cfg o accepted { w with db := after }) :
    (endOrder orderId reason : Handler cfg ReleaseOutcome).Turns (M := machine cfg)
      (Concludes cfg o accepted _) w := by
  unfold endOrder
  refine turns_ask ?_
  cases hactive : getActiveClaimForOrder w.db orderId with
  | none => exact hnone hactive
  | some active =>
    obtain ⟨herror, hok⟩ := hsome active hactive
    change Turns (M := machine cfg) _ (Prog.bind (Prog.liftExcept
      (Stmt.fallible w (Quota.endActiveClaimForRelease w.db w.now active.claimId)).1) _)
      (Stmt.fallible w (Quota.endActiveClaimForRelease w.db w.now active.claimId)).2
    cases hrun : Quota.endActiveClaimForRelease w.db w.now active.claimId with
    | error e => exact herror e hrun
    | ok r =>
      obtain ⟨e, after⟩ := r
      refine concludes_of_tidies ?_ (hok e after hrun)
      refine Keeps.liftExcept (fun e _ => ?_)
      refine Keeps.bind (keeps_settleClaimRefund permits_settling (fun _ hc => hc)) (fun _ w => ?_)
      exact Keeps.bind (keeps_unpinIfLast (fun _ _ => rfl) (fun _ hc => hc)) (fun _ _ => trivial)

theorem getActiveClaimForOrder_some {db : Db} {orderId : Nat} {c : Claim}
    (h : getActiveClaimForOrder db orderId = some c) :
    c ∈ db.claims ∧ c.orderId = orderId ∧ c.state = .active := by
  have hmem : c ∈ db.claims := List.mem_of_find?_eq_some h
  have hsel := List.find?_some h
  simp only [Bool.and_eq_true, decide_eq_true_eq] at hsel
  exact ⟨hmem, hsel⟩

/-- An active claim that is in the table can be ended. -/
theorem endActiveClaimForRelease_active {db : Db} {t : Int} {c : Claim} (hc : c ∈ db.claims)
    (ha : c.state = .active) :
    Quota.endActiveClaimForRelease db t c.claimId = .ok (retire db t c "released") := by
  have hfind : db.claims.find? c.claimId = some c := Table.find?_eq_some.mpr ⟨hc, rfl⟩
  unfold Quota.endActiveClaimForRelease getClaim
  rw [hfind]
  simp [ha]

theorem endOrder_other {orderId : Nat} (h : Tally cfg o accepted w) (hne : orderId ≠ o.orderId)
    (reason : String) :
    (endOrder orderId reason : Handler cfg ReleaseOutcome).Turns (M := machine cfg)
      (Concludes cfg o accepted _) w := by
  refine endOrder_concludes (fun _ => h) (fun active hactive => ⟨fun _ _ => h, ?_⟩)
  intro e after hrun
  obtain ⟨hm, hid, ha⟩ := getActiveClaimForOrder_some hactive
  rw [endActiveClaimForRelease_active hm ha] at hrun
  cases hrun
  exact h.endOther hm (fun he => hne (hid.symm.trans he)) _

theorem endOrder_own (horder : getOrder w.db o.orderId = some o)
    (hone : OneClaim w.db o.orderId) (hfired : ¬ Unfired o accepted) (reason : String) :
    (endOrder o.orderId reason : Handler cfg ReleaseOutcome).Turns (M := machine cfg)
      (Concludes cfg o accepted _) w := by
  refine endOrder_concludes (fun hnone => ?_) (fun active hactive => ?_)
  · refine .fired horder hone (fun hhosts => ?_) hfired
    unfold Hosts at hhosts
    rw [hnone] at hhosts
    cases hhosts
  · obtain ⟨hm, hid, ha⟩ := getActiveClaimForOrder_some hactive
    rw [endActiveClaimForRelease_active hm ha]
    refine ⟨fun _ hrun => (nomatch hrun), fun e after hrun => ?_⟩
    cases hrun
    exact .endOwn horder hone hfired hm hid _

theorem recordConsent_turns {sig : String} (hlower : cfg.toLowerCase a = a) :
    (recordConsent o a sig d : Handler cfg Unit).Turns (M := machine cfg)
      (fun stop w' => stop = .finished (.ok ()) ∧ Noticed cfg o a d w w') w := by
  unfold recordConsent
  by_cases hr : d.recordsConsent = true
  · rw [if_pos hr]
    obtain ⟨horders, hclaims⟩ := recorded_aside w.db w.now o.orderId sig
    refine ⟨rfl, horders, hclaims, fun b => ?_⟩
    refine (mem_recorded hlower).trans (or_congr_right ?_)
    exact ⟨fun hb => ⟨hr, hb⟩, fun hb => hb.2⟩
  · rw [if_neg hr]
    refine ⟨rfl, rfl, rfl, fun b => ?_⟩
    simp [hr]

/-- Acting on a decision counts the request. -/
theorem actOnDecision_concludes (h : Tally cfg o accepted w) (hn : Named cfg o)
    (hlower : cfg.toLowerCase a = a)
    (hd : Decides o ((getReleaseConsents w.db o.orderId).map cfg.toLowerCase) a d)
    (sig reason : String) :
    (actOnDecision o a sig d reason : Handler cfg ReleaseOutcome).Turns (M := machine cfg)
      (Concludes cfg o (accepted ++ [a]) _) w := by
  unfold actOnDecision
  refine turns_bind (Turns.mono ?_ (recordConsent_turns hlower))
  rintro stop w' ⟨rfl, hnoticed⟩
  cases hends : d.ends with
  | false => exact h.waits hn hd hends hnoticed
  | true =>
    have hfired : ¬ Unfired o (accepted ++ [a]) := by
      rw [unfired_append]
      rintro ⟨hu, hnot⟩
      exact hnot ((h.fires hn hu hd).mpr hends)
    have horder := h.order
    unfold getOrder at horder
    rw [← hnoticed.orders] at horder
    refine endOrder_own horder (h.one.same (fun c _ => ?_)) hfired reason
    rw [hnoticed.claims]

/-- Acting on a decision about another order counts for nothing. -/
theorem actOnDecision_other (h : Tally cfg o accepted w) {order : Order}
    (hne : order.orderId ≠ o.orderId) (a : Account) (d : Decision) (sig reason : String) :
    (actOnDecision order a sig d reason : Handler cfg ReleaseOutcome).Turns (M := machine cfg)
      (Concludes cfg o accepted _) w := by
  have hrecord : (recordConsent order a sig d : Handler cfg Unit).Turns (M := machine cfg)
      (fun stop w' => stop = .finished (.ok ()) ∧ Tally cfg o accepted w') w := by
    unfold recordConsent
    split
    · obtain ⟨horders, hclaims⟩ := recorded_aside w.db w.now order.orderId sig
      exact ⟨rfl, h.congr horders hclaims (consents_recorded_other hne)⟩
    · exact ⟨rfl, h⟩
  unfold actOnDecision
  refine turns_bind (Turns.mono ?_ hrecord)
  rintro stop w' ⟨rfl, h'⟩
  cases hends : d.ends with
  | false => exact h'
  | true => exact endOrder_other h' hne reason

end Turns

end IpfsGate.Server
