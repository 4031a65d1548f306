import IpfsGate.ModerationLog
import IpfsGate.Lib.Grows
import IpfsGate.Lib.Separated
import IpfsGate.Server.Evolution
import IpfsGate.Server.Frame
import IpfsGate.Server.Visits

/-!
# The audit trail of the site

Every change of the moderation tables and every refund that is noted by hand leaves its line in
the log in the transaction that makes it. In every state of every run the log therefore tells the
standings; and while the requests name payments by their ids and give reasons that can be bound,
also which payments were refunded by hand and in which transaction.
-/
namespace IpfsGate.Server

open Quota Moderation LedgerRun ModerationLog
open Lib (Pool Prog Protocol Table)

/-- The lines that note a refund of the payment. -/
def refundNotes (log : List LogRow) (paymentId : Nat) : List LogRow :=
  log.filter (fun r =>
    r.action = "refund_issued" && r.targetType = "payment" && r.target = toString paymentId)

/-- What the last of these lines says of the payment. -/
def told (notes : List LogRow) : PaymentMark :=
  match notes.getLast? with
  | none => { status := .confirmed, refundTxId := none, refundAt := none }
  | some row =>
    { status := .refunded
      refundTxId :=
        match row.metadata with
        | some (.refundIssued refundTxId) => refundTxId.bound.toOption.join
        | _ => none
      refundAt := some row.timestamp }

/-! ## What a statement writes to the log -/

/-- The log grows by lines about moderation, which tell what changed. -/
structure Chronicles (t : Int) (db after : Db) : Prop where
  appended : ∃ rows, after.moderationLog.rows = db.moderationLog.rows ++ rows ∧
    ∀ r ∈ rows, r.action ≠ "refund_issued" ∧ r.timestamp = t
  replays : Replays db → Replays after

namespace Chronicles

variable {cfg : Config} {t : Int} {a b c : Db}

theorem of_same (h : SameModeration a b) : Chronicles t a b where
  appended := ⟨[], by rw [h.log, List.append_nil], fun _ hr => absurd hr List.not_mem_nil⟩
  replays := by
    intro ha
    unfold Replays at ha ⊢
    rw [h.log, h.standings]
    exact ha

theorem refl (db : Db) : Chronicles t db db := of_same ⟨rfl, rfl, rfl, rfl⟩

theorem trans (h₁ : Chronicles t a b) (h₂ : Chronicles t b c) : Chronicles t a c where
  appended := by
    obtain ⟨rows₁, hb, hrows₁⟩ := h₁.appended
    obtain ⟨rows₂, hc, hrows₂⟩ := h₂.appended
    refine ⟨rows₁ ++ rows₂, by rw [hc, hb, List.append_assoc], fun r hr => ?_⟩
    rcases List.mem_append.mp hr with hr | hr
    · exact hrows₁ r hr
    · exact hrows₂ r hr
  replays := fun ha => h₂.replays (h₁.replays ha)

/-- One line is written behind what changed. -/
theorem of_line (hreplays : Replays a → Replays b)
    (hline : ∃ row, b.moderationLog.rows = a.moderationLog.rows ++ [row] ∧
      row.action ≠ "refund_issued" ∧ row.timestamp = t) : Chronicles t a b where
  appended := by
    obtain ⟨row, hrows, haction, htime⟩ := hline
    refine ⟨[row], hrows, fun r hr => ?_⟩
    rw [List.mem_singleton] at hr
    subst hr
    exact ⟨haction, htime⟩
  replays := hreplays

theorem banAccount {hiveAccount reason admin : String} {policy : Option RefundPolicy}
    {out : Banned} (hok : Moderation.banAccount cfg a t hiveAccount reason policy admin =
      .ok (out, b)) : Chronicles t a b := by
  have hreplays : Replays a → Replays b := fun ha => replays_banAccount ha hok
  obtain ⟨p, rfl⟩ := banAccount_ok hok
  have hsame := sameModeration_reconcileAll t
    ((((a.claims.filter (isOwnedBy (cfg.toLowerCase hiveAccount))).filter
      (fun c => c.state = .active)).map Claim.cid).eraseDups)
    (voidAccount a t (cfg.toLowerCase hiveAccount) reason p admin)
  exact of_line hreplays ⟨_, congrArg (· ++ [_]) (congrArg Table.rows hsame.log), by simp, rfl⟩

theorem takedownCid {cid reason admin : String} {policy : Option RefundPolicy} {out : TakenDown}
    (hok : Moderation.takedownCid cfg a t cid reason policy admin = .ok (out, b)) :
    Chronicles t a b := by
  have hreplays : Replays a → Replays b := fun ha => replays_takedownCid ha hok
  obtain ⟨p, rfl⟩ := takedownCid_ok hok
  exact of_line hreplays ⟨_, rfl, by simp, rfl⟩

/-- An admin that has a name is not null. -/
theorem bound_text {admin : String} {bound : Option String}
    (h : (Arg.withDefault adminId (.text admin)).bound = .ok bound) : bound = some admin :=
  (Except.ok.inj h).symm

theorem named_text {admin : String} : (Arg.withDefault adminId (.text admin)).bound ≠ .ok none :=
  fun h => by cases bound_text h

theorem unbanAccount (hiveAccount admin : String) :
    Chronicles t a (Moderation.unbanAccount cfg a t hiveAccount admin).2 := by
  have hreplays : Replays a → Replays (Moderation.unbanAccount cfg a t hiveAccount admin).2 :=
    fun ha => replays_unbanAccount ha (fun h => named_text h.1)
  rcases unbanAccount_cases cfg a t hiveAccount admin with
    ⟨_, heq⟩ | ⟨unbannedBy, _, hbound, _, heq⟩
  · rw [heq]
    exact .refl a
  · rw [bound_text hbound] at heq
    rw [heq] at hreplays ⊢
    exact of_line hreplays ⟨_, rfl, by simp, rfl⟩

theorem untakedownCid (cid admin : String) :
    Chronicles t a (Moderation.untakedownCid a t cid admin).2 := by
  have hreplays : Replays a → Replays (Moderation.untakedownCid a t cid admin).2 :=
    fun ha => replays_untakedownCid ha (fun h => named_text h.1)
  rcases untakedownCid_cases a t cid admin with
    ⟨_, heq⟩ | ⟨unblockedBy, c, _, _, hbound, _, heq⟩
  · rw [heq]
    exact .refl a
  · rw [bound_text hbound] at heq
    rw [heq] at hreplays ⊢
    exact of_line hreplays ⟨_, rfl, by simp, rfl⟩

theorem addToWhitelist (r : WhitelistRequest) :
    Chronicles t a (Moderation.addToWhitelist cfg a t r).2 := by
  have hreplays : Replays a → Replays (Moderation.addToWhitelist cfg a t r).2 :=
    fun ha => replays_addToWhitelist ha r
  rcases addToWhitelist_cases cfg a t r with ⟨_, heq⟩ | ⟨addedBy, note, heq⟩
  · rw [heq]
    exact .refl a
  · rw [heq] at hreplays ⊢
    exact of_line hreplays ⟨_, rfl, by simp, rfl⟩

theorem removeFromWhitelist (hiveAccount removedBy : String) :
    Chronicles t a (Moderation.removeFromWhitelist cfg a t hiveAccount removedBy).2 := by
  have hreplays : Replays a →
      Replays (Moderation.removeFromWhitelist cfg a t hiveAccount removedBy).2 :=
    fun ha => replays_removeFromWhitelist ha (fun h => named_text h.1)
  rcases removeFromWhitelist_cases cfg a t hiveAccount removedBy with
    ⟨_, heq⟩ | ⟨by', _, hbound, _, heq⟩
  · rw [heq]
    exact .refl a
  · rw [bound_text hbound] at heq
    rw [heq] at hreplays ⊢
    exact of_line hreplays ⟨_, rfl, by simp, rfl⟩

theorem reconcileAll (h : SameModeration a b) (cids : List Cid) :
    Chronicles t a (Quota.reconcileAll b t cids).2 :=
  (of_same h).trans (of_same (sameModeration_reconcileAll t cids b))

theorem retire (db : Db) (claim : Claim) (reason : String) :
    Chronicles t db (Quota.retire db t claim reason).2 := by
  have hend : SameModeration db (endClaim db t claim reason) := ⟨rfl, rfl, rfl, rfl⟩
  rw [retire_eq]
  exact reconcileAll hend _

/-- An operation of the ledger writes to the log only when it is a ban or a takedown. -/
theorem apply (cfg : Config) (db : Db) (t : Int) (op : LedgerOp) :
    Chronicles t db (op.apply cfg db t) := by
  cases op with
  | upload u => exact of_same ⟨rfl, rfl, rfl, rfl⟩
  | ownCopy n =>
    refine committed_ind (refl db) (fun _ _ hrun => ?_)
    obtain ⟨info, _, _, rfl⟩ := createOwnCopyClaim_ok hrun
    exact of_same ⟨rfl, rfl, rfl, rfl⟩
  | pledge g => exact of_same ⟨rfl, rfl, rfl, rfl⟩
  | extend claimId owner extraHours =>
    refine committed_ind (refl db) (fun _ _ hrun => ?_)
    unfold extendClaim at hrun
    split at hrun
    · cases hrun
    split at hrun
    · cases hrun
    split at hrun
    · cases hrun
    · cases hrun
      exact of_same ⟨rfl, rfl, rfl, rfl⟩
  | cancel claimId owner asAdmin =>
    refine committed_ind (refl db) (fun _ _ hrun => ?_)
    obtain ⟨_, hcases⟩ := cancelClaim_ok hrun
    rcases hcases with ⟨_, _, rfl⟩ | ⟨_, _, rfl⟩
    · exact of_same ⟨rfl, rfl, rfl, rfl⟩
    · exact retire _ _ _
  | release claimId =>
    refine committed_ind (refl db) (fun _ _ hrun => ?_)
    obtain ⟨_, _, _, rfl⟩ := endActiveClaimForRelease_ok hrun
    exact retire _ _ _
  | removePin cid uploader => exact of_same ⟨rfl, rfl, rfl, rfl⟩
  | ban hiveAccount reason policy admin =>
    exact committed_ind (refl db) (fun _ _ hok => banAccount hok)
  | takedown cid reason policy admin =>
    exact committed_ind (refl db) (fun _ _ hok => takedownCid hok)
  | sweep =>
    have hend : SameModeration db (expireOverdue (expireReservations db t) t) :=
      ⟨rfl, rfl, rfl, rfl⟩
    exact reconcileAll hend _

end Chronicles

/-- A line that a handler writes by itself tells of a pin. -/
def Stmt.Told : Stmt → Prop
  | .audit e => e.action = "pin_delete"
  | _ => True

theorem handle_told (cfg : Config) (q : Request) (w : World) :
    Keeps cfg (fun s w => s.Checked w ∧ s.Told) (fun _ => True) (handle cfg q) w := by
  have hsettles : PermitsRefunds (fun s w => s.Checked w ∧ s.Told) :=
    ⟨fun _ _ => ⟨trivial, trivial⟩, fun _ _ _ => ⟨trivial, trivial⟩, fun _ _ _ _ hs => ⟨hs, trivial⟩⟩
  cases q with
  | pinsDelete b =>
    apply Keeps.map
    refine Keeps.require (fun _ => Keeps.bind (keeps_verifyAdminAuth (fun _ _ => trivial))
      (fun adminId w' => Keeps.ask (Keeps.require (fun _ => ?_))))
    refine Keeps.bind (Keeps.fold (fun out c w => ?_) _ _ _) (fun out w' => ?_)
    · refine Keeps.transact ⟨trivial, trivial⟩ (fun o w' => Keeps.liftExcept (fun e _ => ?_))
      exact Keeps.bind (keeps_settleForcedRefund hsettles (fun _ _ => trivial)) (fun _ _ => trivial)
    · refine Keeps.bind (keeps_unpinIfLast (fun _ _ => ⟨trivial, trivial⟩) (fun _ _ => trivial))
        (fun _ _ => ?_)
      exact Keeps.transact ⟨trivial, rfl⟩ (fun _ _ => trivial)
  | _ =>
    -- the other handlers leave the log to the functions they call
    refine (handle_follows cfg _ w).weaken (fun s _ hs => ⟨hs.2, ?_⟩) (fun _ _ => trivial)
    cases s with
    | audit e => cases hs.1
    | _ => trivial

/-- A statement of the gate writes about moderation or nothing, and what it writes is told. -/
theorem chronicles_sem (cfg : Config) {s : Stmt} (h : s.Told) (w : World) :
    Chronicles w.now w.db (s.sem cfg w).2.db := by
  cases hs : s.op with
  | some op =>
    obtain ⟨reservations, hsem⟩ := sem_op cfg hs w
    rw [hsem]
    exact (Chronicles.apply cfg w.db w.now op).trans (.of_same ⟨rfl, rfl, rfl, rfl⟩)
  | none =>
    cases s with
    | createReservation uploader sizeBytes mode quote =>
      refine fallible_ind (.refl _) (fun _ _ hok => ?_)
      obtain ⟨_, rfl⟩ := createReservation_writes hok
      exact .of_same ⟨rfl, rfl, rfl, rfl⟩
    | recordPayment p =>
      refine fallible_ind (.refl _) (fun _ _ hok => ?_)
      obtain ⟨_, rfl⟩ := recordPayment_writes hok
      exact .of_same ⟨rfl, rfl, rfl, rfl⟩
    | unbanAccount hiveAccount admin => exact .unbanAccount hiveAccount admin
    | untakedownCid cid admin => exact .untakedownCid cid admin
    | addToWhitelist r => exact .addToWhitelist r
    | removeFromWhitelist hiveAccount removedBy =>
      exact .removeFromWhitelist hiveAccount removedBy
    | importTakedowns list =>
      exact importTakedowns_keeps (P := Chronicles w.now w.db)
        (fun db _ _ _ _ hdb => hdb.trans (.apply cfg db w.now _)) (.refl _) list
    | audit e =>
      change e.action = "pin_delete" at h
      refine .of_line (fun ha => ?_) ⟨_, rfl, ?_, rfl⟩
      · apply replays_audit w.db ha rfl
        unfold replayRow AuditEntry.row
        simp only [h]
        rfl
      · show e.action ≠ "refund_issued"
        rw [h]
        simp
    | recordReleaseConsent orderId releaser sig =>
      simp only [Stmt.sem, Stmt.silent, recordReleaseConsent]
      split <;> exact .of_same ⟨rfl, rfl, rfl, rfl⟩
    | recordReceipt orderId recipient proofHash sig =>
      simp only [Stmt.sem, Stmt.silent, recordReceipt]
      split <;> exact .of_same ⟨rfl, rfl, rfl, rfl⟩
    | finaliseUpload _ _ => cases hs
    | createOwnCopyClaim _ => cases hs
    | pledge _ => cases hs
    | extendClaim _ _ _ => cases hs
    | cancelClaim _ _ _ => cases hs
    | endActiveClaimForRelease _ => cases hs
    | removePinForUploader _ _ => cases hs
    | banAccount _ _ _ _ => cases hs
    | takedownCid _ _ _ _ => cases hs
    | sweep => cases hs
    | _ => exact .of_same ⟨rfl, rfl, rfl, rfl⟩

/-! ## The notes of refunds -/

section Notes

variable {log rows : List LogRow} {paymentId : Nat}

/-- Lines about moderation note no refund. -/
theorem refundNotes_append (h : ∀ r ∈ rows, r.action ≠ "refund_issued") :
    refundNotes (log ++ rows) paymentId = refundNotes log paymentId := by
  unfold refundNotes
  rw [List.filter_append, List.append_right_eq_self, List.filter_eq_nil_iff]
  intro r hr
  simp [h r hr]

/-- A note is found under the id that it gives as the text of its target. -/
theorem refundNotes_note {row : LogRow} {id : Nat} (haction : row.action = "refund_issued")
    (htype : row.targetType = "payment") (htarget : row.target = toString id) :
    refundNotes (log ++ [row]) paymentId =
      if paymentId = id then refundNotes log paymentId ++ [row]
      else refundNotes log paymentId := by
  unfold refundNotes
  rw [List.filter_append]
  by_cases h : paymentId = id
  · subst h
    rw [if_pos rfl]
    congr 1
    simp [haction, htype, htarget]
  · have hne : toString id ≠ toString paymentId := fun he => h (Lib.Separated.repr_inj he).symm
    rw [if_neg h, List.append_right_eq_self]
    simp only [List.filter_cons, htarget, hne, decide_false, Bool.and_false,
      Bool.false_eq_true, if_false, List.filter_nil]

/-- A payment that is not marked refunded has no notes. -/
theorem notes_nil {notes : List LogRow} (h : (told notes).status ≠ .refunded) : notes = [] := by
  unfold told at h
  split at h
  · rename_i hlast
    exact List.getLast?_eq_none_iff.mp hlast
  · exact absurd rfl h

end Notes

/-! ## Payments and their marks -/

/-- A statement of the gate adds a payment, confirmed, or leaves payments and marks alone. -/
theorem marks_sem (cfg : Config) {s : Stmt} {w : Site} (hs : s.Checked w.world) :
    ((s.sem cfg w.world).2.db.payments = w.world.db.payments ∧
      marksAfter w.marks s (s.sem cfg w.world).1 = w.marks) ∨
    ∃ p : Payment, p.id = w.world.db.payments.next ∧
      (s.sem cfg w.world).2.db.payments.rows = w.world.db.payments.rows ++ [p] ∧
      marksAfter w.marks s (s.sem cfg w.world).1 = Function.update w.marks p.id (told []) := by
  cases s with
  | recordPayment n =>
    change n.status = .confirmed at hs
    simp only [Stmt.sem, Quota.recordPayment]
    split
    · exact Or.inl ⟨rfl, rfl⟩
    · refine Or.inr ⟨_, rfl, rfl, ?_⟩
      simp only [marksAfter, Stmt.fallible, hs]
      rfl
  | _ => exact Or.inl ⟨same_of_not_writesTo cfg .payments rfl w.world, rfl⟩

theorem refundedPayment_ok {w : Site} {paymentId : PaymentRef} {refundTxId : Arg} {p : Payment}
    {refundTx : Option String}
    (h : refundedPayment w paymentId refundTxId = .ok (p, refundTx)) :
    p ∈ w.world.db.payments ∧ (w.marks p.id).status ≠ .refunded ∧
      refundTxId.bound = .ok refundTx ∧ ∃ text, paymentId = .value text (some p.id) := by
  unfold refundedPayment at h
  obtain ⟨_, hnamed, h⟩ := ok_of_bind h
  obtain ⟨_, _, h⟩ := ok_of_bind h
  obtain ⟨row, hrow, h⟩ := ok_of_bind h
  cases hfind : row.bind w.world.db.payments.find? with
  | none =>
    rw [hfind] at h
    cases h
  | some pmt =>
    rw [hfind] at h
    obtain ⟨_, hopen, h⟩ := ok_of_bind h
    obtain ⟨tx, htx, h⟩ := ok_of_bind h
    cases h
    obtain ⟨id, rfl, hsome⟩ := Option.bind_eq_some_iff.mp hfind
    obtain ⟨hp, hid⟩ := Table.find?_eq_some.mp hsome
    change p.id = id at hid
    subst hid
    refine ⟨hp, of_decide_eq_true (check_ok.mp hopen), htx, ?_⟩
    cases paymentId with
    | missing => cases hnamed
    | refused => cases hrow
    | value text _ =>
      cases hrow
      exact ⟨text, rfl⟩

/-- A note of a refund throws before its first write; or it marks the payment, and then writes its
line, or throws when the reason cannot be bound. -/
theorem logManualRefund_cases (w : Site) (paymentId : PaymentRef) (refundTxId reason : Arg) :
    (∃ fault, logManualRefund w paymentId refundTxId reason = (.error fault, w)) ∨
    ∃ p refundTx text, p ∈ w.world.db.payments ∧ (w.marks p.id).status ≠ .refunded ∧
      refundTxId.bound = .ok refundTx ∧ paymentId = .value text (some p.id) ∧
      ((∃ fault, reason = .refused ∧ logManualRefund w paymentId refundTxId reason =
          (.error fault, markPaymentRefunded w p.id refundTx)) ∨
        ∃ reason', (logManualRefund w paymentId refundTxId reason).2 =
          { markPaymentRefunded w p.id refundTx with
            world := { w.world with
              db := (audit w.world.db w.world.now
                (refundEntry paymentId refundTxId reason')).2 } }) := by
  unfold logManualRefund
  cases hpaid : refundedPayment w paymentId refundTxId with
  | error fault => exact Or.inl ⟨fault, rfl⟩
  | ok found =>
    obtain ⟨p, refundTx⟩ := found
    obtain ⟨hp, hopen, htx, text, hid⟩ := refundedPayment_ok hpaid
    refine Or.inr ⟨p, refundTx, text, hp, hopen, htx, hid, ?_⟩
    dsimp only
    cases hreason : reason.orNull.bound with
    | error fault =>
      refine Or.inl ⟨fault, ?_, rfl⟩
      cases reason with
      | refused => rfl
      | text s =>
        unfold Arg.orNull at hreason
        split at hreason <;> cases hreason
      | _ => cases hreason
    | ok reason' => exact Or.inr ⟨reason', rfl⟩

/-- What the log has to tell of the site, whatever the notes of refunds say. -/
structure Trail (w : Site) : Prop where
  replays : Replays w.world.db
  settled : ∀ p ∈ w.world.db.payments,
    (w.marks p.id).status = .confirmed ∨ (w.marks p.id).status = .refunded
  ordered : w.world.db.moderationLog.rows.Pairwise (fun r s => r.timestamp ≤ s.timestamp)
  past : ∀ r ∈ w.world.db.moderationLog.rows, r.timestamp ≤ w.world.now

/-- The notes of refunds are in step with the payments. -/
structure Noted (w : Site) : Prop where
  /-- A payment is marked as its notes say, confirmed when there is none. -/
  marked : ∀ p ∈ w.world.db.payments,
    w.marks p.id = told (refundNotes w.world.db.moderationLog.rows p.id)
  once : ∀ id, (refundNotes w.world.db.moderationLog.rows id).length ≤ 1
  named : ∀ r ∈ w.world.db.moderationLog.rows, r.action = "refund_issued" →
    ∃ p ∈ w.world.db.payments, r.target = toString p.id

namespace Trail

variable {cfg : Config} {w : Site}

/-- Lines of now are written behind those of before. -/
theorem ordered_append (h : Trail w) {rows : List LogRow}
    (hrows : ∀ r ∈ rows, r.timestamp = w.world.now) :
    (w.world.db.moderationLog.rows ++ rows).Pairwise (fun r s => r.timestamp ≤ s.timestamp) ∧
      ∀ r ∈ w.world.db.moderationLog.rows ++ rows, r.timestamp ≤ w.world.now := by
  constructor
  · rw [List.pairwise_append]
    refine ⟨h.ordered, ?_, fun r hr s hs => ?_⟩
    · apply List.pairwise_of_forall_mem_list
      intro r hr s hs
      rw [hrows r hr, hrows s hs]
    · rw [hrows s hs]
      exact h.past r hr
  · intro r hr
    rcases List.mem_append.mp hr with hr | hr
    · exact h.past r hr
    · exact (hrows r hr).le

theorem gate (h : Trail w) {s : Stmt} (hchecked : s.Checked w.world) (hs : s.Told) :
    Trail ((SiteStmt.gate s).sem cfg w).2 := by
  have hc := chronicles_sem cfg hs w.world
  obtain ⟨rows, hlog, hrows⟩ := hc.appended
  obtain ⟨hordered, hpast⟩ := h.ordered_append (fun r hr => (hrows r hr).2)
  rw [← hlog] at hordered hpast
  refine ⟨hc.replays h.replays, fun p hp => ?_, hordered, fun r hr => ?_⟩
  · show (marksAfter w.marks s (s.sem cfg w.world).1 p.id).status = _ ∨
      (marksAfter w.marks s (s.sem cfg w.world).1 p.id).status = _
    change p ∈ (s.sem cfg w.world).2.db.payments at hp
    rcases marks_sem cfg hchecked with ⟨hsame, hmarks⟩ | ⟨q, hq, hadded, hmarks⟩
    · rw [hsame] at hp
      rw [hmarks]
      exact h.settled p hp
    · rw [← Table.mem_rows, hadded] at hp
      rw [hmarks]
      rcases List.mem_append.mp hp with hp | hp
      · have hne : p.id ≠ q.id := fun he => Table.ne_next hp (he.trans hq)
        rw [Function.update_of_ne hne]
        exact h.settled p hp
      · rw [List.mem_singleton] at hp
        rw [hp, Function.update_self]
        exact Or.inl rfl
  · show r.timestamp ≤ (s.sem cfg w.world).2.now
    rw [clock_sem]
    exact hpast r hr

/-- A payment that is marked refunded is settled, as the others are. -/
theorem settled_mark (h : Trail w) (id : Nat) (refundTx : Option String) :
    ∀ p ∈ w.world.db.payments,
      ((markPaymentRefunded w id refundTx).marks p.id).status = .confirmed ∨
        ((markPaymentRefunded w id refundTx).marks p.id).status = .refunded := by
  intro p hp
  show (Function.update w.marks id _ p.id).status = _ ∨ (Function.update w.marks id _ p.id).status = _
  by_cases hid : p.id = id
  · rw [hid, Function.update_self]
    exact Or.inr rfl
  · rw [Function.update_of_ne hid]
    exact h.settled p hp

theorem logManualRefund (h : Trail w) (paymentId : PaymentRef) (refundTxId reason : Arg) :
    Trail (Server.logManualRefund w paymentId refundTxId reason).2 := by
  rcases logManualRefund_cases w paymentId refundTxId reason with
    ⟨_, heq⟩ | ⟨p, refundTx, _, _, _, _, _, ⟨_, _, heq⟩ | ⟨reason', heq⟩⟩
  · rw [heq]
    exact h
  · rw [heq]
    exact ⟨h.replays, h.settled_mark p.id refundTx, h.ordered, h.past⟩
  · rw [heq]
    have hnow : ∀ r ∈ [AuditEntry.row (refundEntry paymentId refundTxId reason') w.world.now
        w.world.db.moderationLog.next], r.timestamp = w.world.now := by
      intro r hr
      rw [List.mem_singleton] at hr
      rw [hr]
      rfl
    obtain ⟨hordered, hpast⟩ := h.ordered_append hnow
    exact ⟨replays_audit w.world.db h.replays rfl _ rfl, h.settled_mark p.id refundTx, hordered,
      hpast⟩

theorem drift (h : Trail w) (ms : Nat) :
    Trail { w with world := { w.world with now := w.world.now + ms } } :=
  ⟨h.replays, h.settled, h.ordered, fun r hr => by
    have hle := h.past r hr
    show r.timestamp ≤ w.world.now + ms
    omega⟩

theorem start (marks : Nat → PaymentMark) (t : Int) : Trail { world := World.boot t, marks } where
  replays := replays_empty
  settled := fun _ hp => absurd hp List.not_mem_nil
  ordered := .nil
  past := fun _ hr => absurd hr List.not_mem_nil

end Trail

namespace Noted

variable {cfg : Config} {w : Site}

/-- A payment that is not there has no notes. -/
theorem unnoted (h : Noted w) {id : Nat} (hid : ∀ p ∈ w.world.db.payments, p.id ≠ id) :
    refundNotes w.world.db.moderationLog.rows id = [] := by
  unfold refundNotes
  rw [List.filter_eq_nil_iff]
  intro r hr hnote
  simp only [Bool.and_eq_true, decide_eq_true_eq] at hnote
  obtain ⟨p, hp, htarget⟩ := h.named r hr hnote.1.1
  exact hid p hp (Lib.Separated.repr_inj (htarget.symm.trans hnote.2))

theorem gate (h : Noted w) {s : Stmt} (hchecked : s.Checked w.world) (hs : s.Told) :
    Noted ((SiteStmt.gate s).sem cfg w).2 := by
  obtain ⟨rows, hlog, hrows⟩ := (chronicles_sem cfg hs w.world).appended
  have hnotes : ∀ id, refundNotes (s.sem cfg w.world).2.db.moderationLog.rows id =
      refundNotes w.world.db.moderationLog.rows id := by
    intro id
    rw [hlog]
    exact refundNotes_append (fun r hr => (hrows r hr).1)
  have hold : ∀ r ∈ (s.sem cfg w.world).2.db.moderationLog.rows, r.action = "refund_issued" →
      r ∈ w.world.db.moderationLog.rows := by
    intro r hr hnote
    rw [hlog] at hr
    rcases List.mem_append.mp hr with hr | hr
    · exact hr
    · exact absurd hnote (hrows r hr).1
  refine ⟨fun p hp => ?_, fun id => ?_, fun r hr hnote => ?_⟩
  · show marksAfter w.marks s (s.sem cfg w.world).1 p.id =
      told (refundNotes (s.sem cfg w.world).2.db.moderationLog.rows p.id)
    rw [hnotes]
    change p ∈ (s.sem cfg w.world).2.db.payments at hp
    rcases marks_sem cfg hchecked with ⟨hsame, hmarks⟩ | ⟨q, hq, hadded, hmarks⟩
    · rw [hsame] at hp
      rw [hmarks]
      exact h.marked p hp
    · rw [← Table.mem_rows, hadded] at hp
      rw [hmarks]
      rcases List.mem_append.mp hp with hp | hp
      · have hne : p.id ≠ q.id := fun he => Table.ne_next hp (he.trans hq)
        rw [Function.update_of_ne hne]
        exact h.marked p hp
      · -- the new payment has an id that no line can name yet
        rw [List.mem_singleton] at hp
        subst hp
        rw [Function.update_self, h.unnoted (fun x hx he => Table.ne_next hx (he.trans hq))]
  · show (refundNotes (s.sem cfg w.world).2.db.moderationLog.rows id).length ≤ 1
    rw [hnotes]
    exact h.once id
  · obtain ⟨p, hp, htarget⟩ := h.named r (hold r hr hnote) hnote
    refine ⟨p, ?_, htarget⟩
    show p ∈ (s.sem cfg w.world).2.db.payments
    rcases marks_sem cfg hchecked with ⟨hsame, _⟩ | ⟨q, _, hadded, _⟩
    · rw [hsame]
      exact hp
    · rw [← Table.mem_rows, hadded]
      exact List.mem_append_left _ hp

/-- A note that names its payment by its id, with a reason that can be bound. -/
theorem logManualRefund (h : Noted w) {paymentId : PaymentRef} {refundTxId reason : Arg}
    (hid : ∀ text row, paymentId = .value text (some row) → text = toString row)
    (hreason : reason ≠ .refused) :
    Noted (Server.logManualRefund w paymentId refundTxId reason).2 := by
  rcases logManualRefund_cases w paymentId refundTxId reason with
    ⟨_, heq⟩ | ⟨p, refundTx, text, hp, hopen, htx, rfl, ⟨_, hrefused, _⟩ | ⟨reason', heq⟩⟩
  · rw [heq]
    exact h
  · exact absurd hrefused hreason
  obtain rfl := hid text p.id rfl
  rw [heq]
  have hnone : refundNotes w.world.db.moderationLog.rows p.id = [] := by
    apply notes_nil
    rw [← h.marked p hp]
    exact hopen
  let line := AuditEntry.row (refundEntry (.value (toString p.id) (some p.id)) refundTxId reason')
    w.world.now w.world.db.moderationLog.next
  have hnotes : ∀ id, refundNotes (w.world.db.moderationLog.rows ++ [line]) id =
      if id = p.id then [line] else refundNotes w.world.db.moderationLog.rows id := by
    intro id
    have htarget : line.target = toString p.id := rfl
    rw [refundNotes_note rfl rfl htarget]
    by_cases hid : id = p.id
    · rw [if_pos hid, if_pos hid, hid, hnone, List.nil_append]
    · rw [if_neg hid, if_neg hid]
  refine ⟨fun x hx => ?_, fun id => ?_, fun r hr hnote => ?_⟩
  · show Function.update w.marks p.id _ x.id =
      told (refundNotes (w.world.db.moderationLog.rows ++ [line]) x.id)
    rw [hnotes]
    by_cases hxp : x.id = p.id
    · rw [if_pos hxp, hxp, Function.update_self]
      show _ = ({ status := .refunded, refundTxId := refundTxId.bound.toOption.join,
                  refundAt := some w.world.now } : PaymentMark)
      rw [htx]
      rfl
    · rw [if_neg hxp, Function.update_of_ne hxp]
      exact h.marked x hx
  · show (refundNotes (w.world.db.moderationLog.rows ++ [line]) id).length ≤ 1
    rw [hnotes]
    split
    · exact Nat.le_refl 1
    · exact h.once id
  · rcases List.mem_append.mp hr with hr | hr
    · exact h.named r hr hnote
    · rw [List.mem_singleton] at hr
      exact ⟨p, hp, congrArg LogRow.target hr⟩

theorem start (marks : Nat → PaymentMark) (t : Int) : Noted { world := World.boot t, marks } where
  marked := fun _ hp => absurd hp List.not_mem_nil
  once := fun _ => Nat.zero_le 1
  named := fun _ hr => absurd hr List.not_mem_nil

end Noted

/-! ## Runs of the site -/

/-- A request that names its payment by its id, when it names one, and whose reason can be bound. -/
structure LogRefundRequest.Plain (b : LogRefundRequest) : Prop where
  named : ∀ text row, b.paymentId = .value text (some row) → text = toString row
  bound : b.reason ≠ .refused

/-- The statements of the site, with what their handlers checked, the lines they write, and the
requests that note refunds. -/
def SiteStmt.Told (P : LogRefundRequest → Prop) : SiteStmt → Site → Prop
  | .gate s, w => s.Checked w.world ∧ s.Told
  | .logManualRefund paymentId refundTxId reason, _ =>
    ∃ auth, P { paymentId, refundTxId, reason, auth }

/-- Every handler of the site keeps to them. -/
theorem visit_told (cfg : Config) {P : LogRefundRequest → Prop} (q : SiteRequest)
    (hP : ∀ b, q = .logRefund b → P b) (w : Site) :
    (visit cfg q).Emits (M := siteMachine cfg) (SiteStmt.Told P) (fun _ => True) (fun _ _ => True)
      w := by
  cases hq : q.writes with
  | false => exact (visit_silent cfg hq).emits w
  | true =>
    cases q with
    | gate q =>
      exact Prog.Emits.lift (siteExtension cfg) _ (fun _ _ hs => hs) (handle_told cfg q w.world)
    | logRefund b =>
      refine Prog.Emits.bind (Prog.Emits.bind
        ((silent_inGate id (silent_requireAdmin b.auth)).emits w) (fun _ w' => ?_))
        (fun _ _ => trivial)
      refine Prog.Emits.bind ⟨⟨b.auth, hP b rfl⟩, trivial⟩ (fun out w' => ?_)
      exact Prog.Emits.bind (Prog.silent_liftExcept.emits w') (fun _ _ => trivial)
    | _ => cases hq

theorem trail_host (cfg : Config) (marks : Nat → PaymentMark) (t : Int)
    (events : List (SiteEvent cfg)) :
    Trail (host cfg { world := World.boot t, marks } events).world := by
  have hadm := Pool.admissible_true (visit cfg)
    (Pool.start { world := World.boot t, marks } : SitePool cfg) events
  refine Protocol.run_invariant (M := siteMachine cfg) (G := SiteStmt.Told (fun _ => True))
    (Trail.start marks t) (fun ms _ h => h.drift ms) ?_
    (fun q w _ => visit_told cfg q (fun _ _ => trivial) w) hadm
  intro s w hs _ h
  cases s with
  | gate s => exact h.gate hs.1 hs.2
  | logManualRefund paymentId refundTxId reason => exact h.logManualRefund _ _ _

theorem noted_host (cfg : Config) (marks : Nat → PaymentMark) (t : Int)
    {events : List (SiteEvent cfg)} (hplain : ∀ b, .logRefund b ∈ arrived events → b.Plain) :
    Noted (host cfg { world := World.boot t, marks } events).world := by
  have hadm := Pool.admissible_arrivals (Pool.admissible_true (visit cfg)
    (Pool.start { world := World.boot t, marks } : SitePool cfg) events)
  refine Protocol.run_invariant (M := siteMachine cfg) (G := SiteStmt.Told LogRefundRequest.Plain)
    (Noted.start marks t) (fun ms _ h => ⟨h.marked, h.once, h.named⟩) ?_
    (fun q w hq => visit_told cfg q (fun b hb => hplain b ?_) w) hadm
  · intro s w hs _ h
    cases s with
    | gate s => exact h.gate hs.1 hs.2
    | logManualRefund paymentId refundTxId reason =>
      obtain ⟨auth, hplain⟩ := hs
      exact h.logManualRefund hplain.named hplain.bound
  · exact List.mem_filterMap.mpr ⟨.spawn q, Pool.spawn_of_arrivals hq.1, congrArg some hb⟩

section Sampled

open Sample

def siteAnswer : (c : SiteCall) → c.Reply
  | .gate c => answer c
  | .kuboCidOfFile _ => .ok ()
  | .kuboCat .. => .unreachable ""
  | .kuboStats => .unreachable ""

def noteRefund (reason : Arg) : LogRefundRequest where
  paymentId := .value "1" (some 1)
  refundTxId := "refund-tx"
  reason
  auth := operator

/-- Alice pays for an upload, and the operator notes that she was paid back. -/
def paidBack (reason : Arg) : List (SiteEvent config) :=
  [.spawn (.gate (reserveBy "alice")), .spawn (.gate (uploadOf 1 "bafy"))] ++
    List.replicate 6 (.resume 0 siteAnswer) ++ [.spawn (.logRefund (noteRefund reason))]

def unmarked : Site where
  world := World.boot 0
  marks := fun _ => { status := .confirmed, refundTxId := none, refundAt := none }

/-- A reason that cannot be bound leaves the payment marked, and no line. -/
example :
    let w := (host config unmarked (paidBack .refused)).world
    (w.marks 1).status = .refunded ∧ refundNotes w.world.db.moderationLog.rows 1 = [] := by
  decide +kernel

end Sampled

/-! ## No orphans -/

namespace Trail

variable {w : Site}

theorem paymentsOf_nil (h : Trail w) {status : PaymentStatus} (hc : status ≠ .confirmed)
    (hr : status ≠ .refunded) : paymentsOf w status = [] := by
  unfold paymentsOf Table.filter
  rw [List.filter_eq_nil_iff]
  intro p hp hstatus
  rw [decide_eq_true_eq] at hstatus
  rcases h.settled p hp with hs | hs
  · exact hc (hstatus.symm.trans hs)
  · exact hr (hstatus.symm.trans hs)

theorem counts (h : Trail w) : (paymentsOf w .confirmed).length + (paymentsOf w .refunded).length =
    w.world.db.payments.rows.length := by
  have hsplit : paymentsOf w .refunded =
      w.world.db.payments.rows.filter (fun p => !((w.marks p.id).status = .confirmed)) := by
    apply List.filter_congr
    intro p hp
    rcases h.settled p hp with hs | hs <;> simp [hs]
  rw [hsplit]
  exact (List.length_eq_length_filter_add _).symm

end Trail

/-- No payment is ever listed as an orphan: the operator's list of them is empty in every state of
every run, and the statistics count every payment as confirmed or as refunded. -/
theorem no_orphans (cfg : Config) (marks : Nat → PaymentMark) (t : Int)
    (events : List (SiteEvent cfg)) (kubo : KuboStats) :
    let w := (host cfg { world := World.boot t, marks } events).world
    let counts := (statsReply cfg w kubo).payments
    listOrphanPayments w = [] ∧ counts.orphan = 0 ∧ counts.paidUnconfirmed = 0 ∧
      counts.confirmed + counts.refunded = w.world.db.payments.rows.length := by
  intro w counts
  have h : Trail w := trail_host cfg marks t events
  have hnone : w.world.db.payments.filter (isOrphan w) = [] := by
    unfold Table.filter
    rw [List.filter_eq_nil_iff]
    intro p hp horphan
    rcases h.settled p hp with hs | hs <;> simp [isOrphan, hs] at horphan
  refine ⟨?_, ?_, ?_, h.counts⟩
  · unfold listOrphanPayments
    rw [hnone]
    rfl
  · exact congrArg List.length (h.paymentsOf_nil (by decide) (by decide))
  · exact congrArg List.length (h.paymentsOf_nil (by decide) (by decide))

/-! ## What stays -/

/-- What the site does not take back. -/
structure Remembers (a b : Site) : Prop where
  evolves : Evolves a.world b.world
  log : a.world.db.moderationLog.rows <+: b.world.db.moderationLog.rows
  refunded : ∀ p ∈ a.world.db.payments, (a.marks p.id).status = .refunded →
    b.marks p.id = a.marks p.id

namespace Remembers

theorem refl (w : Site) : Remembers w w := ⟨.refl _, List.prefix_rfl, fun _ _ _ => rfl⟩

theorem trans {a b c : Site} (h₁ : Remembers a b) (h₂ : Remembers b c) : Remembers a c where
  evolves := h₁.evolves.trans h₂.evolves
  log := h₁.log.trans h₂.log
  refunded := by
    intro p hp hrefunded
    have hb := h₁.refunded p hp hrefunded
    rw [← hb] at hrefunded
    exact (h₂.refunded p (h₁.evolves.payments.subset hp) hrefunded).trans hb

theorem gate (cfg : Config) {s : Stmt} {w : Site} (hchecked : s.Checked w.world) (htold : s.Told) :
    Remembers w ((SiteStmt.gate s).sem cfg w).2 where
  evolves := evolves_sem cfg hchecked
  log := by
    obtain ⟨rows, hlog, _⟩ := (chronicles_sem cfg htold w.world).appended
    exact ⟨rows, hlog.symm⟩
  refunded := by
    intro p hp _
    show marksAfter w.marks s (s.sem cfg w.world).1 p.id = w.marks p.id
    rcases marks_sem cfg hchecked with ⟨_, hmarks⟩ | ⟨q, hq, _, hmarks⟩
    · rw [hmarks]
    · have hne : p.id ≠ q.id := fun he => Table.ne_next hp (he.trans hq)
      rw [hmarks, Function.update_of_ne hne]

/-- The payment that is marked was not refunded before. -/
theorem mark {w : Site} {id : Nat} (hopen : (w.marks id).status ≠ .refunded)
    (refundTx : Option String) : ∀ p ∈ w.world.db.payments, (w.marks p.id).status = .refunded →
      (markPaymentRefunded w id refundTx).marks p.id = w.marks p.id := by
  intro p _ hrefunded
  have hne : p.id ≠ id := fun he => hopen (he ▸ hrefunded)
  exact Function.update_of_ne hne _ _

theorem logManualRefund (w : Site) (paymentId : PaymentRef) (refundTxId reason : Arg) :
    Remembers w (Server.logManualRefund w paymentId refundTxId reason).2 := by
  rcases logManualRefund_cases w paymentId refundTxId reason with
    ⟨_, heq⟩ | ⟨p, refundTx, _, _, hopen, _, _, ⟨_, _, heq⟩ | ⟨reason', heq⟩⟩
  · rw [heq]
    exact .refl w
  · rw [heq]
    exact ⟨.refl _, List.prefix_rfl, mark hopen refundTx⟩
  · rw [heq]
    exact ⟨⟨Int.le_refl _, fun c hc => ⟨c, hc, rfl, rfl⟩, List.prefix_rfl,
      fun r hr => ⟨r, hr, .refl r⟩⟩, List.prefix_append _ _, mark hopen refundTx⟩

end Remembers

/-- From any point of a run of the site to any later one, lines of the log, payments and notes of
refunds stay as they are. -/
theorem site_remembers (cfg : Config) (w : Site) (events more : List (SiteEvent cfg)) :
    Remembers (host cfg w events).world (host cfg w (events ++ more)).world := by
  have hforward : Pool.Forward (M := siteMachine cfg) (SiteStmt.Told (fun _ => True)) Remembers := by
    refine ⟨Remembers.refl, Remembers.trans, fun ms w => ?_, fun s w hs => ?_⟩
    · exact ⟨@Evolves.drift cfg ms w.world, List.prefix_rfl, fun _ _ _ => rfl⟩
    · cases s with
      | gate s => exact .gate cfg hs.1 hs.2
      | logManualRefund paymentId refundTxId reason => exact .logManualRefund w _ _ _
  exact Pool.run_grows hforward (fun q => visit_told cfg q (fun _ _ => trivial)) w events more

end IpfsGate.Server
