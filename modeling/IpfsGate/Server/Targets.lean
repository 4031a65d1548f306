import IpfsGate.Server.Claimless

/-!
# What a ban and a takedown touch

A takedown touches the rows of its CID. A ban touches the rows of its account, and on a file
that the account leaves without a host it also hands the baton to the first guardian of another
account. Everything else stays as it was, for any overlap of owners, files and queues.
-/
namespace IpfsGate.Server

open Quota Moderation LedgerRun
open Lib (Table)

/-- `voided` holds the open claims of the target, each row once. -/
structure Collects (before : Db) (target : Claim → Prop) (voided : List Claim) : Prop where
  rows : ∀ c, c ∈ voided ↔
    c ∈ before.claims ∧ target c ∧ (c.state = .active ∨ c.state = .dormant)
  once : voided.Nodup

theorem collects_filter {db : Db} {target : Claim → Prop} {select : Claim → Bool}
    (h : ∀ c, select c = true ↔ target c ∧ isOpen c = true) :
    Collects db target (db.claims.filter select) where
  rows := by
    intro c
    rw [Table.mem_filter, h]
    simp only [isOpen, Bool.or_eq_true, decide_eq_true_eq]
  once := db.claims.nodup.filter _

/-- `g` takes over a file that a ban of the account leaves without a host: it is first among the
queued guardians of other accounts. -/
structure Successor (db : Db) (account : Account) (cid : Cid) (g : Claim) : Prop where
  lost : ∃ c ∈ db.claims, c.cid = cid ∧ c.owner = account ∧ c.state = .active
  unhosted : ∀ p, ActivePin db cid p → p.uploader = account
  queued : DormantGuardian db cid g
  other : g.owner ≠ account
  first : ∀ e, DormantGuardian db cid e → e.owner ≠ account → QueuesBefore g e

/-- The row of a guardian that became active on a pin. -/
def activeOn (g : Claim) (t : Int) (p : Pin) : Claim :=
  { g with state := .active, startTs := t, expiryTs := t + g.paidHours * Pricing.hourMs,
           pinId := some p.id }

/-- Of the other accounts' rows on the file, the guardian's changes and the pin is added. -/
structure TakesOver (before after : Db) (t : Int) (account : Account) (cid : Cid) (g : Claim)
    (p : Pin) : Prop where
  fresh : ∀ q ∈ before.pins, q.id ≠ p.id
  hosts : ActivePin after cid p
  owned : p.uploader = g.owner
  pins : ∀ q, q.cid = cid → q.uploader ≠ account → (q ∈ after.pins ↔ q ∈ before.pins ∨ q = p)
  claims : ∀ c, c.cid = cid → c.owner ≠ account →
    (c ∈ after.claims ↔ (c ∈ before.claims ∧ c.claimId ≠ g.claimId) ∨ c = activeOn g t p)

/-- The effect of a ban on claims and pins. -/
structure BansOnly (before after : Db) (t : Int) (account : Account) (voided : List Claim) :
    Prop where
  collects : Collects before (fun c => c.owner = account) voided
  noClaim : ∀ c ∈ after.claims, c.owner = account → c.state ≠ .active ∧ c.state ≠ .dormant
  noPin : ∀ p ∈ after.pins, p.uploader = account → p.status ≠ .active
  claims : ∀ c, c.owner ≠ account → (∀ g, ¬ Successor before account c.cid g) →
    (c ∈ after.claims ↔ c ∈ before.claims)
  pins : ∀ p, p.uploader ≠ account → (∀ g, ¬ Successor before account p.cid g) →
    (p ∈ after.pins ↔ p ∈ before.pins)
  succeeded : ∀ cid g, Successor before account cid g →
    ∃ p, TakesOver before after t account cid g p

/-- The effect of a takedown on claims and pins. -/
structure TakesDownOnly (before after : Db) (cid : Cid) (voided : List Claim) : Prop where
  collects : Collects before (fun c => c.cid = cid) voided
  noClaim : ∀ c ∈ after.claims, c.cid = cid → c.state ≠ .active ∧ c.state ≠ .dormant
  noPin : ∀ p, ¬ ActivePin after cid p
  others : ∀ other, other ≠ cid → SameOn other before after
  nobody : ∀ other g, ¬ Promoted before after other g

/-- A claim that a void left is not open if the void selected its target's open claims. -/
theorem closedClaim_shut {select : Claim → Bool} {d : Claim}
    (h : isOpen d = true → select d = true) :
    (closedClaim .cancelled select d).state ≠ .active ∧
      (closedClaim .cancelled select d).state ≠ .dormant := by
  simp only [isOpen, Bool.or_eq_true, decide_eq_true_eq] at h
  constructor
  · intro ha
    obtain ⟨hd, hsel⟩ := (closedClaim_state (by decide)).mp ha
    rw [h (Or.inl hd)] at hsel
    cases hsel
  · intro ha
    obtain ⟨hd, hsel⟩ := (closedClaim_state (by decide)).mp ha
    rw [h (Or.inr hd)] at hsel
    cases hsel

section Ban

variable {db : Db} {t : Int} {account reason : String} {policy : RefundPolicy} {admin : String}

/-- The void leaves the claims of other accounts alone. -/
theorem claims_voidAccount {c : Claim} (hne : c.owner ≠ account) :
    c ∈ (voidAccount db t account reason policy admin).claims ↔ c ∈ db.claims := by
  have hskip : ∀ d : Claim, d.owner ≠ account →
      closedClaim .cancelled (isOwnedBy account) d = d :=
    fun d hd => closedClaim_of_skip (by simp [isOwnedBy, hd])
  have hmem : c ∈ (voidAccount db t account reason policy admin).claims ↔
      ∃ d ∈ db.claims, c = closedClaim .cancelled (isOwnedBy account) d := mem_closeClaims
  rw [hmem]
  constructor
  · rintro ⟨d, hd, rfl⟩
    rw [closedClaim_owner] at hne
    rw [hskip d hne]
    exact hd
  · intro hc
    exact ⟨c, hc, (hskip c hne).symm⟩

/-- The void leaves the pins of other accounts alone. -/
theorem pins_voidAccount {p : Pin} (hne : p.uploader ≠ account) :
    p ∈ (voidAccount db t account reason policy admin).pins ↔ p ∈ db.pins := by
  have hskip : ∀ q : Pin, q.uploader ≠ account →
      leftPin t .banned (fun _ => some reason) (fun q => q.uploader = account) q = q :=
    fun q hq => leftPin_of_skip (by simp [hq])
  have hmem : p ∈ (voidAccount db t account reason policy admin).pins ↔ ∃ q ∈ db.pins,
      p = leftPin t .banned (fun _ => some reason) (fun q => q.uploader = account) q :=
    mem_endPins
  rw [hmem]
  constructor
  · rintro ⟨q, hq, rfl⟩
    rw [leftPin_uploader] at hne
    rw [hskip q hne]
    exact hq
  · intro hp
    exact ⟨p, hp, (hskip p hne).symm⟩

variable (db t account reason policy admin) in
/-- The void itself leaves the account nothing open. -/
theorem voidAccount_shut :
    (∀ c ∈ (voidAccount db t account reason policy admin).claims, c.owner = account →
        c.state ≠ .active ∧ c.state ≠ .dormant) ∧
      ∀ p ∈ (voidAccount db t account reason policy admin).pins, p.uploader = account →
        p.status ≠ .active := by
  constructor
  · intro c hc hown
    obtain ⟨d, _, rfl⟩ := mem_closeClaims.mp hc
    rw [closedClaim_owner] at hown
    exact closedClaim_shut (fun ho => by simp [isOwnedBy, hown, ho])
  · intro p hp hup ha
    exact (activePin_voidAccount.mp ⟨hp, rfl, ha⟩).2 hup

/-- A promotion on a CID after the void makes the successor the host. -/
theorem successor_of_promoted {a : Db} {cid : Cid} {g : Claim}
    (hm : cid ∈ reconciledCids db account)
    (ha : SameOn cid (voidAccount db t account reason policy admin) a)
    (hno : ∀ p, ¬ ActivePin a cid p) (hg : DormantGuardian a cid g)
    (hfirst : ∀ c, DormantGuardian a cid c → QueuesBefore g c) :
    Successor db account cid g := by
  obtain ⟨hqueued, hother⟩ := dormantGuardian_voidAccount.mp (ha.dormantGuardian.mpr hg)
  refine ⟨mem_reconciledCids.mp hm, fun p hp => ?_, hqueued, hother, fun e he hne => ?_⟩
  · by_contra hne
    exact hno p (ha.activePin.mp (activePin_voidAccount.mpr ⟨hp, hne⟩))
  · exact hfirst e (ha.dormantGuardian.mp (dormantGuardian_voidAccount.mpr ⟨he, hne⟩))

theorem Successor.unique {cid : Cid} {g g' : Claim} (h : Successor db account cid g)
    (h' : Successor db account cid g') : g = g' :=
  queuesBefore_antisymm h.queued.mem h'.queued.mem (h.first g' h'.queued h'.other)
    (h'.first g h.queued h.other)

/-- The rows of other accounts on a CID, when the loop left the CID as the void did. -/
theorem others_of_sameOn {cid : Cid} {after : Db}
    (hs : SameOn cid (voidAccount db t account reason policy admin) after) :
    (∀ c, c.cid = cid → c.owner ≠ account → (c ∈ after.claims ↔ c ∈ db.claims)) ∧
      ∀ p, p.cid = cid → p.uploader ≠ account → (p ∈ after.pins ↔ p ∈ db.pins) :=
  ⟨fun c hc hne => (hs.claims c hc).symm.trans (claims_voidAccount hne),
   fun p hp hne => (hs.pins p hp).symm.trans (pins_voidAccount hne)⟩

/-- The rows of other accounts on a CID after a promotion there. -/
theorem takesOver_of_promoted {a after : Db} {cid : Cid} {g : Claim}
    (ha : SameOn cid (voidAccount db t account reason policy admin) a)
    (hnext : (voidAccount db t account reason policy admin).pins.next ≤ a.pins.next)
    (hg : DormantGuardian a cid g) (hb : SameOn cid (promote a t g) after) :
    TakesOver db after t account cid g (promotedPin a t g) := by
  obtain ⟨hclaims, hpins⟩ := others_of_sameOn ha
  refine ⟨fun q hq hid => ?_, ?_, rfl, fun q hq hne => ?_, fun c hc hne => ?_⟩
  · have hlt : q.id < db.pins.next := Table.key_lt_next hq
    have hvoid : (voidAccount db t account reason policy admin).pins.next = db.pins.next := rfl
    have hnew : (promotedPin a t g).id = a.pins.next := rfl
    omega
  · exact hb.activePin.mp ⟨mem_pins_promote.mpr (Or.inr rfl), hg.cid_eq, rfl⟩
  · rw [← hb.pins q hq, mem_pins_promote, hpins q hq hne]
  · rw [← hb.claims c hc, claims_promote_cases hg, hclaims c hc hne]
    exact Iff.rfl

/-- Everything a ban can do to the other accounts' rows of one CID. -/
inductive BanShare (db after : Db) (t : Int) (account : Account) (cid : Cid) : Prop where
  | same (hno : ∀ g, ¬ Successor db account cid g)
      (hclaims : ∀ c, c.cid = cid → c.owner ≠ account → (c ∈ after.claims ↔ c ∈ db.claims))
      (hpins : ∀ p, p.cid = cid → p.uploader ≠ account → (p ∈ after.pins ↔ p ∈ db.pins))
  | passed (g : Claim) (p : Pin) (hg : Successor db account cid g)
      (ht : TakesOver db after t account cid g p)

variable (db t account reason policy admin) in
theorem banShare (cid : Cid) :
    BanShare db (banTransaction db t account reason policy admin).2 t account cid := by
  cases share_ban db t account reason policy admin cid with
  | skipped hn hsame hu =>
    obtain ⟨hclaims, hpins⟩ := others_of_sameOn hsame
    exact .same (fun g hg => hn (mem_reconciledCids.mpr hg.lost)) hclaims hpins
  | stepped a b r hm ha hnext hr hb hu =>
    cases hr with
    | hosted p hp =>
      obtain ⟨hclaims, hpins⟩ := others_of_sameOn (ha.trans hb)
      obtain ⟨hold, hne⟩ := activePin_voidAccount.mp (ha.activePin.mpr hp)
      exact .same (fun g hg => hne (hg.unhosted p hold)) hclaims hpins
    | dropped hno hq =>
      obtain ⟨hclaims, hpins⟩ := others_of_sameOn (ha.trans hb)
      refine .same (fun g hg => hq g ?_) hclaims hpins
      exact ha.dormantGuardian.mp (dormantGuardian_voidAccount.mpr ⟨hg.queued, hg.other⟩)
    | promoted g hno hg hfirst =>
      exact .passed g _ (successor_of_promoted hm ha hno hg hfirst)
        (takesOver_of_promoted ha hnext hg hb)

variable (db t account reason policy admin) in
/-- The loop adds nothing of the account. -/
theorem ban_shut :
    (∀ c ∈ (banTransaction db t account reason policy admin).2.claims, c.owner = account →
        c.state ≠ .active ∧ c.state ≠ .dormant) ∧
      ∀ p ∈ (banTransaction db t account reason policy admin).2.pins, p.uploader = account →
        p.status ≠ .active := by
  refine reconcileAll_preserves (fun after =>
    (∀ c ∈ after.claims, c.owner = account → c.state ≠ .active ∧ c.state ≠ .dormant) ∧
      ∀ p ∈ after.pins, p.uploader = account → p.status ≠ .active) t ?_ _ _
    (voidAccount_shut db t account reason policy admin)
  rintro after cid g ⟨hclaims, hpins⟩ _ hg _
  -- a guardian of the account would still be open
  have hother : g.owner ≠ account := fun hown => (hclaims g hg.mem hown).2 hg.dormant
  constructor
  · intro c hc hown
    rcases (claims_promote_cases hg).mp hc with ⟨hold, _⟩ | rfl
    · exact hclaims c hold hown
    · exact absurd hown hother
  · intro p hp hup
    rcases mem_pins_promote.mp hp with hold | rfl
    · exact hpins p hold hup
    · exact absurd hup hother

variable (db t account reason policy admin) in
theorem bansOnly :
    BansOnly db (banTransaction db t account reason policy admin).2 t account
      (banTransaction db t account reason policy admin).1.voidedClaims := by
  obtain ⟨hclaims, hpins⟩ := ban_shut db t account reason policy admin
  refine ⟨collects_filter (fun c => ?_), hclaims, hpins, fun c hne hno => ?_,
    fun p hne hno => ?_, fun cid g hg => ?_⟩
  · simp only [isOwnedBy, Bool.and_eq_true, decide_eq_true_eq]
  · cases banShare db t account reason policy admin c.cid with
    | same _ hsame _ => exact hsame c rfl hne
    | passed g p hg _ => exact absurd hg (hno g)
  · cases banShare db t account reason policy admin p.cid with
    | same _ _ hsame => exact hsame p rfl hne
    | passed g p hg _ => exact absurd hg (hno g)
  · cases banShare db t account reason policy admin cid with
    | same hno _ _ => exact absurd hg (hno g)
    | passed g' p hg' ht =>
      obtain rfl := hg.unique hg'
      exact ⟨p, ht⟩

end Ban

section Takedown

variable (db : Db) (t : Int) (cid reason : String) (policy : RefundPolicy) (admin : String)

/-- A takedown rewrites rows of its own CID only. -/
theorem sameOn_takedown {other : Cid} (hne : other ≠ cid) :
    SameOn other db (takedownTransaction db t cid reason policy admin).2 := by
  constructor
  · intro p hp
    have hmem : p ∈ (takedownTransaction db t cid reason policy admin).2.pins ↔ ∃ q ∈ db.pins,
        p = leftPin t .takedown (fun _ => some reason) (fun q => q.cid = cid) q := mem_endPins
    have hskip : ∀ q : Pin, q.cid = other →
        leftPin t .takedown (fun _ => some reason) (fun q => q.cid = cid) q = q :=
      fun q hq => leftPin_of_skip (by simp [hq, hne])
    rw [hmem]
    constructor
    · intro hold
      exact ⟨p, hold, (hskip p hp).symm⟩
    · rintro ⟨q, hq, rfl⟩
      rw [leftPin_cid] at hp
      rw [hskip q hp]
      exact hq
  · intro c hc
    have hmem : c ∈ (takedownTransaction db t cid reason policy admin).2.claims ↔
        ∃ d ∈ db.claims, c = closedClaim .cancelled (isHostedOn cid) d := mem_closeClaims
    have hskip : ∀ d : Claim, d.cid = other →
        closedClaim .cancelled (isHostedOn cid) d = d :=
      fun d hd => closedClaim_of_skip (by simp [isHostedOn, hd, hne])
    rw [hmem]
    constructor
    · intro hold
      exact ⟨c, hold, (hskip c hc).symm⟩
    · rintro ⟨d, hd, rfl⟩
      rw [closedClaim_cid] at hc
      rw [hskip d hc]
      exact hd

theorem takesDownOnly :
    TakesDownOnly db (takedownTransaction db t cid reason policy admin).2 cid
      (takedownTransaction db t cid reason policy admin).1.voidedClaims := by
  have hcloses : Closes db (takedownTransaction db t cid reason policy admin).2 :=
    closes_of_closeClaims (by decide) (by decide) (fun _ => mem_closeClaims)
  refine ⟨collects_filter (fun c => ?_), fun c hc hcid => ?_, fun p hp => ?_,
    fun other hne => sameOn_takedown db t cid reason policy admin hne, fun other g hg => ?_⟩
  · simp only [isHostedOn, Bool.and_eq_true, decide_eq_true_eq]
  · obtain ⟨d, _, rfl⟩ := mem_closeClaims.mp hc
    rw [closedClaim_cid] at hcid
    exact closedClaim_shut (fun ho => by simp [isHostedOn, hcid, ho])
  · obtain ⟨q, _, rfl⟩ := mem_endPins.mp hp.mem
    have hsel := ((leftPin_active (by decide)).mp hp.active).2
    rw [decide_eq_false_iff_not] at hsel
    exact hsel (leftPin_cid.symm.trans hp.cid_eq)
  · exact hcloses.not_promoted hg.mem hg.active hg.was_dormant

end Takedown

/-- A call that returned had the effect, and one that threw changed nothing. -/
def Effective {α : Type} (w : World) (P : α → Db → Prop) : Except Fault α × World → Prop
  | (.ok a, after) => P a after.db
  | (.error _, after) => after = w

theorem Effective.fallible {α : Type} {w : World} {P : α → Db → Prop}
    {r : Except Fault (α × Db)} (h : ∀ a after, r = .ok (a, after) → P a after) :
    Effective w P (Stmt.fallible w r) := by
  cases r with
  | ok out => exact h out.1 out.2 rfl
  | error e => exact rfl

/-- From every database a ban touches its account and the first guardian behind it, a takedown
touches its CID, and a call that throws touches nothing. -/
theorem touches_targets (cfg : Config) (w : World) (hiveAccount : String) (cid : Cid)
    (reason : String) (policy : Option RefundPolicy) (admin : String) :
    Effective w
        (fun b after =>
          BansOnly w.db after w.now (cfg.toLowerCase hiveAccount) b.voidedClaims)
        ((Stmt.banAccount hiveAccount reason policy admin).sem cfg w) ∧
      Effective w (fun d after => TakesDownOnly w.db after cid d.voidedClaims)
        ((Stmt.takedownCid cid reason policy admin).sem cfg w) := by
  constructor
  · refine Effective.fallible (fun b after hrun => ?_)
    obtain ⟨p, _, heq⟩ := banAccount_result hrun
    have hban := bansOnly w.db w.now (cfg.toLowerCase hiveAccount) reason p admin
    rw [heq] at hban
    exact hban
  · refine Effective.fallible (fun d after hrun => ?_)
    have htakedown := takesDownOnly w.db w.now cid reason
      (policy.getD cfg.defaultRefundPolicy) admin
    rw [takedownCid_result hrun] at htakedown
    exact htakedown

example :
    (banTransaction BatonPass.guardedDb 10 "alice" "abuse" .prorata "operator").2.claims.rows.map
        (fun c => (c.owner, c.state, c.pinId)) =
      [("alice", .cancelled, some 1), ("bob", .active, some 2)] := by decide

end IpfsGate.Server
