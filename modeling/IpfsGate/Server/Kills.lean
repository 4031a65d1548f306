import IpfsGate.Server.Runs

/-!
# Takedowns and bans are final

A takedown ends everything on a CID and a ban ends everything of an account. What is live
afterwards can only come from a write for that CID or account, since extensions and promotions
stay with the CID and the owner of a row that was open before.
-/
namespace IpfsGate.Server

open Quota Moderation LedgerRun
open Lib (Table Register)

/-- No open claim and no active pin is of a killed CID and owner. -/
structure Clear (K : Cid → Account → Prop) (db : Db) : Prop where
  pins : ∀ p ∈ db.pins, p.status = .active → ¬ K p.cid p.uploader
  claims : ∀ c ∈ db.claims, isOpen c = true → ¬ K c.cid c.owner

namespace Clear

variable {cfg : Config} {K : Cid → Account → Prop} {db after : Db} {t : Int}

theorem empty (K : Cid → Account → Prop) : Clear K Db.empty :=
  ⟨fun p hp => absurd hp (Table.not_mem_empty p), fun c hc => absurd hc (Table.not_mem_empty c)⟩

theorem weaken {K' : Cid → Account → Prop} (h : Clear K db)
    (hK : ∀ cid owner, K' cid owner → K cid owner) : Clear K' db :=
  ⟨fun p hp ha hk => h.pins p hp ha (hK _ _ hk), fun c hc ho hk => h.claims c hc ho (hK _ _ hk)⟩

theorem congr (h : Clear K db) (hpins : after.pins = db.pins)
    (hclaims : after.claims = db.claims) : Clear K after :=
  ⟨hpins ▸ h.pins, hclaims ▸ h.claims⟩

/-- Closing claims and ending pins opens nothing, and kills what it selects. -/
theorem voiding (h : Clear K db) {K' : Cid → Account → Prop} {state : ClaimState}
    {status : PinStatus} {reason : Pin → Option String} {selectClaim : Claim → Bool}
    {selectPin : Pin → Bool}
    (hclaims : ∀ c, c ∈ after.claims ↔ ∃ d ∈ db.claims, c = closedClaim state selectClaim d)
    (hpins : ∀ p, p ∈ after.pins ↔ ∃ q ∈ db.pins, p = leftPin t status reason selectPin q)
    (hactive : state ≠ .active) (hdormant : state ≠ .dormant) (hstatus : status ≠ .active)
    (hclaim : ∀ c, isOpen c = true → selectClaim c = false → K' c.cid c.owner → K c.cid c.owner)
    (hpin : ∀ p, p.status = .active → selectPin p = false → K' p.cid p.uploader →
      K p.cid p.uploader) : Clear K' after := by
  constructor
  · intro p hp ha hk
    obtain ⟨q, hq, rfl⟩ := (hpins p).mp hp
    rw [leftPin_cid, leftPin_uploader] at hk
    obtain ⟨hqa, hsel⟩ := (leftPin_active hstatus).mp ha
    exact h.pins q hq hqa (hpin q hqa hsel hk)
  · intro c hc ho hk
    obtain ⟨d, hd, rfl⟩ := (hclaims c).mp hc
    rw [closedClaim_cid, closedClaim_owner] at hk
    simp only [isOpen, Bool.or_eq_true, decide_eq_true_eq, closedClaim_state hactive,
      closedClaim_state hdormant, ← or_and_right] at ho
    have hopen : isOpen d = true := by simpa [isOpen] using ho.1
    exact h.claims d hd hopen (hclaim d hopen ho.2 hk)

theorem ending (h : Clear K db) {state : ClaimState} {status : PinStatus}
    {reason : Pin → Option String} {selectClaim : Claim → Bool} {selectPin : Pin → Bool}
    (hclaims : ∀ c, c ∈ after.claims ↔ ∃ d ∈ db.claims, c = closedClaim state selectClaim d)
    (hpins : ∀ p, p ∈ after.pins ↔ ∃ q ∈ db.pins, p = leftPin t status reason selectPin q)
    (hactive : state ≠ .active) (hdormant : state ≠ .dormant) (hstatus : status ≠ .active) :
    Clear K after :=
  h.voiding hclaims hpins hactive hdormant hstatus (fun _ _ _ hk => hk) (fun _ _ _ hk => hk)

theorem endPins (h : Clear K db) {status : PinStatus} {reason : Pin → Option String}
    {select : Pin → Bool} (hs : status ≠ .active) :
    Clear K (Quota.endPins db t status reason select) := by
  refine ⟨?_, h.claims⟩
  intro p hp ha
  obtain ⟨q, hq, rfl⟩ := mem_endPins.mp hp
  rw [leftPin_cid, leftPin_uploader]
  exact h.pins q hq ((leftPin_active hs).mp ha).1

theorem closeClaims (h : Clear K db) {select : Claim → Bool} :
    Clear K (Quota.closeClaims db .cancelled select) := by
  have hidle : ∀ p, p ∈ (Quota.closeClaims db .cancelled select).pins ↔
      ∃ q ∈ db.pins, p = leftPin 0 .expired (fun _ => none) (fun _ => false) q := by
    intro p
    simp only [leftPin, Bool.false_and, Bool.false_eq_true, ↓reduceIte, exists_eq_right']
    rfl
  exact h.ending (fun _ => mem_closeClaims) hidle (by decide) (by decide) (by decide)

/-- A promotion goes on with the CID and the owner of an open claim. -/
theorem promote (h : Clear K db) {g : Claim} {cid : Cid} (hg : DormantGuardian db cid g) :
    Clear K (Quota.promote db t g) := by
  have hopen : ¬ K g.cid g.owner := h.claims g hg.mem (by simp [isOpen, hg.dormant])
  constructor
  · intro p hp ha
    rcases mem_pins_promote.mp hp with hp | rfl
    · exact h.pins p hp ha
    · exact hopen
  · intro c hc ho
    rcases (claims_promote_cases hg).mp hc with ⟨hc, _⟩ | rfl
    · exact h.claims c hc ho
    · exact hopen

theorem reconcileAll (h : Clear K db) (t : Int) (cids : List Cid) :
    Clear K (Quota.reconcileAll db t cids).2 :=
  reconcileAll_preserves (Clear K) t (fun _ _ _ hdb _ hg _ => hdb.promote hg) cids db h

/-- A takedown kills everything on its CID. -/
theorem takedownTransaction (h : Clear K db) (cid : Cid) (reason : String)
    (policy : RefundPolicy) (admin : String) :
    Clear (fun c o => K c o ∨ c = cid)
      (Moderation.takedownTransaction db t cid reason policy admin).2 := by
  have hvoid : Clear (fun c o => K c o ∨ c = cid) (voidCid db t cid reason admin) := by
    refine h.voiding (fun _ => mem_closeClaims) (fun _ => mem_endPins) (by decide) (by decide)
      (by decide) ?_ ?_
    · intro c ho hsel hk
      simp only [isHostedOn, ho, Bool.and_true, decide_eq_false_iff_not] at hsel
      exact hk.resolve_right hsel
    · intro p _ hsel hk
      exact hk.resolve_right (by simpa using hsel)
  exact hvoid.congr rfl rfl

/-- A ban kills everything of its account; the promotions that follow are for others. -/
theorem banTransaction (h : Clear K db) (account : Account) (reason : String)
    (policy : RefundPolicy) (admin : String) :
    Clear (fun c o => K c o ∨ o = account)
      (Moderation.banTransaction db t account reason policy admin).2 := by
  have hvoid : Clear (fun c o => K c o ∨ o = account)
      (voidAccount db t account reason policy admin) := by
    refine h.voiding (fun _ => mem_closeClaims) (fun _ => mem_endPins) (by decide) (by decide)
      (by decide) ?_ ?_
    · intro c ho hsel hk
      simp only [isOwnedBy, ho, Bool.and_true, decide_eq_false_iff_not] at hsel
      exact hk.resolve_right hsel
    · intro p _ hsel hk
      exact hk.resolve_right (by simpa using hsel)
  exact (hvoid.reconcileAll t _).congr rfl rfl

theorem retire (h : Clear K db) (claim : Claim) (reason : String) :
    Clear K (Quota.retire db t claim reason).2 := by
  rw [retire_eq]
  refine reconcileAll ?_ t _
  exact h.ending (fun _ => mem_closeClaims) (fun _ => mem_endPins) (by decide) (by decide)
    (by decide)

theorem createOrderWithClaim (h : Clear K db) {n : NewClaim} (hn : ¬ K n.cid n.owner) :
    Clear K (Quota.createOrderWithClaim db t n).2 := by
  refine ⟨h.pins, ?_⟩
  intro c hc ho
  rcases mem_createOrderWithClaim.mp hc with hc | rfl
  · exact h.claims c hc ho
  · exact hn

theorem insertPin (h : Clear K db) {p : NewPin} (hp : ¬ K p.cid p.uploader) :
    Clear K (Quota.insertPin db t p) := by
  refine ⟨?_, h.claims⟩
  intro q hq ha
  rcases mem_insertPin.mp hq with hq | rfl
  · exact h.pins q hq ha
  · exact hp

theorem extendClaim (h : Clear K db) {claimId : Nat} {owner : Account} {extraHours : Int}
    {c : Claim} (hrun : Quota.extendClaim db claimId owner extraHours = .ok (c, after)) :
    Clear K after := by
  obtain ⟨claim, _, _, _, _, hclaims, hpins⟩ := extendClaim_ok hrun
  constructor
  · intro p hp ha
    obtain ⟨q, hq, rfl⟩ := (hpins p).mp hp
    rw [extendedPin_cid, extendedPin_uploader]
    exact h.pins q hq (by simpa using ha)
  · intro c hc ho
    obtain ⟨d, hd, rfl⟩ := (hclaims c).mp hc
    rw [extendedClaim_cid, extendedClaim_owner]
    exact h.claims d hd (by simpa [isOpen] using ho)

end Clear

/-- The CID and the owner of the row an operation adds, if it adds one. -/
def creates (db : Db) : LedgerOp → Option (Cid × Account)
  | .upload u => some (u.cid, u.owner)
  | .ownCopy n => if hasActivePinForCid db n.cid then some (n.cid, n.owner) else none
  | .pledge g => some (g.cid, g.owner)
  | _ => none

theorem creates_ownCopy {db : Db} {n : OwnCopyRequest} {row : Cid × Account} :
    creates db (.ownCopy n) = some row ↔ (∃ p, ActivePin db n.cid p) ∧ (n.cid, n.owner) = row := by
  rw [← hasActivePinForCid_iff]
  unfold creates
  split <;> simp_all

/-- What an operation leaves open was open before or is the row it adds. -/
theorem Clear.apply {cfg : Config} {K : Cid → Account → Prop} {db : Db} {t : Int}
    (h : Clear K db) (op : LedgerOp)
    (hnew : ∀ row, creates db op = some row → ¬ K row.1 row.2) : Clear K (op.apply cfg db t) := by
  cases op with
  | upload u =>
    have hu : ¬ K u.cid u.owner := hnew _ rfl
    exact (h.insertPin hu).createOrderWithClaim hu
  | ownCopy n =>
    refine committed_ind h (fun _ _ hrun => ?_)
    obtain ⟨info, _, hactive, rfl⟩ := createOwnCopyClaim_ok hrun
    have hn : ¬ K n.cid n.owner := hnew _ (creates_ownCopy.mpr ⟨hactive, rfl⟩)
    exact (h.insertPin hn).createOrderWithClaim hn
  | pledge g => exact h.createOrderWithClaim (hnew _ rfl)
  | extend claimId owner extraHours => exact committed_ind h (fun _ _ hrun => h.extendClaim hrun)
  | cancel claimId owner asAdmin =>
    refine committed_ind h (fun _ _ hrun => ?_)
    obtain ⟨_, hcases⟩ := cancelClaim_ok hrun
    rcases hcases with ⟨_, _, rfl⟩ | ⟨_, _, rfl⟩
    · exact h.closeClaims
    · exact h.retire _ _
  | release claimId =>
    refine committed_ind h (fun _ _ hrun => ?_)
    obtain ⟨_, _, _, rfl⟩ := endActiveClaimForRelease_ok hrun
    exact h.retire _ _
  | removePin cid uploader => exact h.endPins (by decide)
  | ban hiveAccount reason policy admin =>
    refine committed_ind h (fun b after hok => ?_)
    obtain ⟨p, rfl⟩ := banAccount_ok hok
    exact (h.banTransaction _ reason p admin).weaken (fun _ _ => Or.inl)
  | takedown cid reason policy admin =>
    refine committed_ind h (fun d after hok => ?_)
    obtain ⟨p, rfl⟩ := takedownCid_ok hok
    exact (h.takedownTransaction cid reason p admin).weaken (fun _ _ => Or.inl)
  | sweep =>
    refine Clear.reconcileAll (Clear.endPins ?_ (by decide)) t _
    exact h.ending (fun _ => mem_closeClaims) (fun _ => mem_endPins) (by decide) (by decide)
      (by decide)

/-! ## Who is banned and what is blocked -/

/-- A ban blocks nothing and bans one account. -/
theorem banTransaction_registers {db : Db} {t : Int} {account reason : String}
    {policy : RefundPolicy} {admin : String} :
    (banTransaction db t account reason policy admin).2.blockedCids = db.blockedCids ∧
    ∀ a, isAccountBanned (banTransaction db t account reason policy admin).2 a = true →
      isAccountBanned db a = true ∨ a = account := by
  have hsame := SameAside.banTransaction db t account reason policy admin
  refine ⟨hsame.blocked, fun a ha => ?_⟩
  rw [isAccountBanned, hsame.banned] at ha
  rcases Register.any_of_any_replace ha with h | h
  · exact Or.inl h
  · simp only [Option.isNone_none, Bool.and_true, decide_eq_true_eq] at h
    exact Or.inr h.symm

/-- A takedown bans nobody and blocks one CID. -/
theorem takedownTransaction_registers {db : Db} {t : Int} {cid : Cid} {reason : String}
    {policy : RefundPolicy} {admin : String} :
    (takedownTransaction db t cid reason policy admin).2.bannedAccounts = db.bannedAccounts ∧
    ∀ c, isCidBlocked (takedownTransaction db t cid reason policy admin).2 c = true →
      isCidBlocked db c = true ∨ c = cid := by
  refine ⟨rfl, fun c hc => ?_⟩
  rcases Register.any_of_any_replace hc with h | h
  · exact Or.inl h
  · simp only [Option.isNone_none, Bool.and_true, decide_eq_true_eq] at h
    exact Or.inr h.symm

/-- Whoever is banned and whatever is blocked stays so. -/
structure Stands (a b : Db) : Prop where
  banned : ∀ x, isAccountBanned a x = true → isAccountBanned b x = true
  blocked : ∀ c, isCidBlocked a c = true → isCidBlocked b c = true

theorem SameAside.stands {a b : Db} (h : SameAside a b) : Stands a b := by
  constructor
  · intro x hx
    rwa [isAccountBanned, h.banned]
  · intro c hc
    rwa [isCidBlocked, h.blocked]

theorem banTransaction_stands (db : Db) (t : Int) (account : Account) (reason : String)
    (policy : RefundPolicy) (admin : String) :
    Stands db (banTransaction db t account reason policy admin).2 ∧
      isAccountBanned (banTransaction db t account reason policy admin).2 account = true := by
  have hloop := SameAside.banTransaction db t account reason policy admin
  refine ⟨⟨fun x hx => hloop.stands.banned x ?_, hloop.stands.blocked⟩,
    hloop.stands.banned account ?_⟩
  · refine Register.any_replace_of_any ?_ hx
    intro r hname hq
    simp_all
  · exact Register.any_iff.mpr ⟨_, Register.mem_replace.mpr (Or.inr rfl), by simp⟩

/-! ## A takedown is final -/

/-- The CID has no active pin, no active claim and no dormant claim. -/
structure ContentGone (db : Db) (cid : Cid) : Prop where
  pins : ∀ p ∈ db.pins, p.cid = cid → p.status ≠ .active
  claims : ∀ c ∈ db.claims, c.cid = cid → c.state ≠ .active ∧ c.state ≠ .dormant

instance (db : Db) (cid : Cid) : Decidable (ContentGone db cid) :=
  decidable_of_iff ((∀ p ∈ db.pins, p.cid = cid → p.status ≠ .active) ∧
    ∀ c ∈ db.claims, c.cid = cid → c.state ≠ .active ∧ c.state ≠ .dormant)
    ⟨fun h => ⟨h.1, h.2⟩, fun h => ⟨h.pins, h.claims⟩⟩

/-- The block check, made when a pledge is written. -/
def Stmt.PledgesUnblocked : Stmt → World → Prop
  | .pledge g, w => isCidBlocked w.db g.cid = false
  | _, _ => True

instance (s : Stmt) (w : World) : Decidable (s.PledgesUnblocked w) := by
  induction s using Stmt.casesOn <;> unfold Stmt.PledgesUnblocked <;> infer_instance

/-- Killed by a takedown. -/
def Blocked (db : Db) (cid : Cid) (_ : Account) : Prop := isCidBlocked db cid = true

/-- Killed by a ban. -/
def BannedOwner (db : Db) (_ : Cid) (owner : Account) : Prop := isAccountBanned db owner = true

section Registers

variable {cfg : Config} {db : Db} {t : Int} {op : LedgerOp}

/-- An operation that adds no row on a blocked CID leaves every blocked CID clear. -/
theorem clear_blocked_apply (h : Clear (Blocked db) db)
    (hnew : ∀ row, creates db op = some row → ¬ Blocked db row.1 row.2) :
    Clear (Blocked (op.apply cfg db t)) (op.apply cfg db t) := by
  by_cases htakedown : ∃ cid reason policy admin, op = .takedown cid reason policy admin
  · obtain ⟨cid, reason, policy, admin, rfl⟩ := htakedown
    refine committed_ind (P := fun after => Clear (Blocked after) after) h (fun d after hok => ?_)
    obtain ⟨p, rfl⟩ := takedownCid_ok hok
    exact (h.takedownTransaction cid reason p admin).weaken
      (fun c _ => takedownTransaction_registers.2 c)
  · refine (h.apply op hnew).weaken (fun cid _ hb => ?_)
    by_cases hban : ∃ account reason policy admin, op = .ban account reason policy admin
    · obtain ⟨account, reason, policy, admin, rfl⟩ := hban
      refine committed_ind (P := fun after => isCidBlocked after cid = true →
        isCidBlocked db cid = true) id (fun b after hok hb => ?_) hb
      obtain ⟨p, rfl⟩ := banAccount_ok hok
      rwa [isCidBlocked, banTransaction_registers.1] at hb
    · have hsame := SameAside.apply cfg db t op hban htakedown
      rwa [Blocked, isCidBlocked, hsame.blocked] at hb

/-- An operation that adds no row of a banned account leaves every banned account clear. -/
theorem clear_banned_apply (h : Clear (BannedOwner db) db)
    (hnew : ∀ row, creates db op = some row → ¬ BannedOwner db row.1 row.2) :
    Clear (BannedOwner (op.apply cfg db t)) (op.apply cfg db t) := by
  by_cases hban : ∃ account reason policy admin, op = .ban account reason policy admin
  · obtain ⟨account, reason, policy, admin, rfl⟩ := hban
    refine committed_ind (P := fun after => Clear (BannedOwner after) after) h
      (fun d after hok => ?_)
    obtain ⟨p, rfl⟩ := banAccount_ok hok
    exact (h.banTransaction _ reason p admin).weaken (fun _ o => banTransaction_registers.2 o)
  · refine (h.apply op hnew).weaken (fun _ owner hb => ?_)
    by_cases htakedown : ∃ cid reason policy admin, op = .takedown cid reason policy admin
    · obtain ⟨cid, reason, policy, admin, rfl⟩ := htakedown
      refine committed_ind (P := fun after => isAccountBanned after owner = true →
        isAccountBanned db owner = true) id (fun d after hok hb => ?_) hb
      obtain ⟨p, rfl⟩ := takedownCid_ok hok
      rwa [isAccountBanned, takedownTransaction_registers.1] at hb
    · have hsame := SameAside.apply cfg db t op hban htakedown
      rwa [BannedOwner, isAccountBanned, hsame.banned] at hb

end Registers

/-- The row a statement adds is on no blocked CID: an upload checks in the same turn, an own
copy needs an active pin, and a pledge is written under the condition. -/
theorem unblocked_of_created {s : Stmt} {op : LedgerOp} {w : World} (hop : s.op = some op)
    (hs : s.Checked w) (hok : s.PledgesUnblocked w) (h : Clear (Blocked w.db) w.db) {row}
    (hrow : creates w.db op = some row) : ¬ Blocked w.db row.1 row.2 := by
  unfold Blocked
  cases s <;> cases hop <;> try cases hrow
  · rename_i u
    rw [show isCidBlocked w.db u.cid = false from hs.1]
    exact Bool.false_ne_true
  · rename_i n
    obtain ⟨⟨p, hp⟩, rfl⟩ := creates_ownCopy.mp hrow
    have hclear := h.pins p hp.mem hp.active
    rwa [Blocked, hp.cid_eq] at hclear
  · rename_i g
    rw [show isCidBlocked w.db g.cid = false from hok]
    exact Bool.false_ne_true

/-- In every run in which each pledge is written while its CID is not blocked, nothing on a
blocked CID is live. -/
theorem takedown_final (cfg : Config) (t : Int) (events : List (GateEvent cfg))
    (h : Guarded cfg Stmt.PledgesUnblocked t events) (cid : Cid)
    (hblocked : isCidBlocked (serve cfg t events).world.db cid = true) :
    ContentGone (serve cfg t events).world.db cid := by
  have hclear : Clear (Blocked (serve cfg t events).world.db) (serve cfg t events).world.db := by
    refine serve_keeps cfg (P := fun db => Clear (Blocked db) db) (Clear.empty _) ?_ ?_ ?_ h
    · intro a b hab ha
      exact (ha.congr hab.pins hab.claims).weaken (fun c _ => hab.blocked c)
    · intro s op w hop hs hok hw
      exact clear_blocked_apply hw (fun _ => unblocked_of_created hop hs hok hw)
    · intro db t cid reason policy admin hdb
      exact clear_blocked_apply hdb (fun _ hrow => by cases hrow)
  constructor
  · intro p hp hcid ha
    exact hclear.pins p hp ha (hcid ▸ hblocked)
  · intro c hc hcid
    have hopen : isOpen c ≠ true := fun ho => hclear.claims c hc ho (hcid ▸ hblocked)
    simp only [isOpen, ne_eq, Bool.or_eq_true, decide_eq_true_eq, not_or] at hopen
    exact hopen

/-! ## A ban is final -/

/-- The account owns no active pin, no active claim and no dormant claim. -/
structure IdentityGone (db : Db) (account : Account) : Prop where
  pins : ∀ p ∈ db.pins, p.uploader = account → p.status ≠ .active
  claims : ∀ c ∈ db.claims, c.owner = account → c.state ≠ .active ∧ c.state ≠ .dormant

instance (db : Db) (account : Account) : Decidable (IdentityGone db account) :=
  decidable_of_iff ((∀ p ∈ db.pins, p.uploader = account → p.status ≠ .active) ∧
    ∀ c ∈ db.claims, c.owner = account → c.state ≠ .active ∧ c.state ≠ .dormant)
    ⟨fun h => ⟨h.1, h.2⟩, fun h => ⟨h.pins, h.claims⟩⟩

/-- The ban check, made when the rows of an upload, an own copy or a pledge are written. -/
def Stmt.WritesUnbanned : Stmt → World → Prop
  | .finaliseUpload _ u, w => isAccountBanned w.db u.owner = false
  | .createOwnCopyClaim n, w => isAccountBanned w.db n.owner = false
  | .pledge g, w => isAccountBanned w.db g.owner = false
  | _, _ => True

instance (s : Stmt) (w : World) : Decidable (s.WritesUnbanned w) := by
  induction s using Stmt.casesOn <;> unfold Stmt.WritesUnbanned <;> infer_instance

theorem unbanned_of_created {s : Stmt} {op : LedgerOp} {w : World} (hop : s.op = some op)
    (hok : s.WritesUnbanned w) {row} (hrow : creates w.db op = some row) :
    ¬ BannedOwner w.db row.1 row.2 := by
  unfold BannedOwner
  cases s <;> cases hop <;> try cases hrow
  · rename_i u
    rw [show isAccountBanned w.db u.owner = false from hok]
    exact Bool.false_ne_true
  · rename_i n
    obtain ⟨_, rfl⟩ := creates_ownCopy.mp hrow
    rw [show isAccountBanned w.db n.owner = false from hok]
    exact Bool.false_ne_true
  · rename_i g
    rw [show isAccountBanned w.db g.owner = false from hok]
    exact Bool.false_ne_true

/-- In every run in which uploads, own copies and pledges are written while their owner is not
banned, nothing of a banned account is live. -/
theorem ban_final (cfg : Config) (t : Int) (events : List (GateEvent cfg))
    (h : Guarded cfg Stmt.WritesUnbanned t events) (account : Account)
    (hbanned : isAccountBanned (serve cfg t events).world.db account = true) :
    IdentityGone (serve cfg t events).world.db account := by
  have hclear : Clear (BannedOwner (serve cfg t events).world.db)
      (serve cfg t events).world.db := by
    refine serve_keeps cfg (P := fun db => Clear (BannedOwner db) db) (Clear.empty _) ?_ ?_ ?_ h
    · intro a b hab ha
      exact (ha.congr hab.pins hab.claims).weaken (fun _ o => hab.banned o)
    · intro s op w hop _ hok hw
      exact clear_banned_apply hw (fun _ => unbanned_of_created hop hok)
    · intro db t cid reason policy admin hdb
      exact clear_banned_apply hdb (fun _ hrow => by cases hrow)
  constructor
  · intro p hp hown ha
    exact hclear.pins p hp ha (hown ▸ hbanned)
  · intro c hc hown
    have hopen : isOpen c ≠ true := fun ho => hclear.claims c hc ho (hown ▸ hbanned)
    simp only [isOpen, ne_eq, Bool.or_eq_true, decide_eq_true_eq, not_or] at hopen
    exact hopen

section Sampled

open Sample

/-- Bob's pledge is queued before the operator takes the file down. -/
def takedownAfterPledge : List (GateEvent config) :=
  hostedByAlice ++ [.spawn (pledgeBy "bob")] ++ resumed 3 0 ++ [.spawn takedownBafy] ++ resumed 2 0

theorem takedown_final_after_pledge :
    ContentGone (serve config 0 takedownAfterPledge).world.db "bafy" :=
  takedown_final config 0 takedownAfterPledge (by decide +kernel) "bafy" (by decide +kernel)

/-- The operator takes the file down while Bob's payment is being verified. -/
def takedownBeforePledge : List (GateEvent config) :=
  hostedByAlice ++ [.spawn (pledgeBy "bob")] ++ resumed 2 0 ++ [.spawn takedownBafy] ++
    resumed 1 1 ++ resumed 1 0

theorem pledge_survives_takedown :
    isCidBlocked (serve config 0 takedownBeforePledge).world.db "bafy" = true ∧
      ¬ ContentGone (serve config 0 takedownBeforePledge).world.db "bafy" := by
  decide +kernel

/-- Alice's upload is complete before she is banned. -/
def banAfterUpload : List (GateEvent config) :=
  hostedByAlice ++ [.spawn banAlice] ++ resumed 2 0

theorem ban_final_after_upload : IdentityGone (serve config 0 banAfterUpload).world.db "alice" :=
  ban_final config 0 banAfterUpload (by decide +kernel) "alice" (by decide +kernel)

/-- Alice is banned while Kubo pins her file. -/
def banBeforeUpload : List (GateEvent config) :=
  [.spawn (reserveBy "alice"), .spawn (uploadOf 1 "bafy")] ++ resumed 5 0 ++ [.spawn banAlice] ++
    resumed 1 1 ++ resumed 1 0

theorem upload_survives_ban :
    isAccountBanned (serve config 0 banBeforeUpload).world.db "alice" = true ∧
      ¬ IdentityGone (serve config 0 banBeforeUpload).world.db "alice" := by
  decide +kernel

end Sampled

end IpfsGate.Server
