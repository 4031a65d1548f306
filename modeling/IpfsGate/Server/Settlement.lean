import IpfsGate.Server.Books

/-!
# Every cancelled claim is settled once

The handlers that cancel claims, each followed from the transaction that cancels to the refund
of every claim it returned. A handler may suspend while it owes refunds; the books carry them.
-/
namespace IpfsGate.Server

open Quota Moderation LedgerRun Pricing
open Lib Lib.Prog
open Prog (Trace)

/-- The refund the role of a claim prescribes, by the request that cancelled it: what the user
endings pay, and the forced endings under their policy. -/
def prescribed (cfg : Config) (q : Request) (c : Claim) (t : Int) : Except Fault Coins :=
  match q with
  | .cancel _ | .uploadsDelete _ | .release _ | .receipt _ => userRefund cfg c t
  | .ban b => forcedRefundAmount cfg c (b.refundPolicy.getD .none) false t
  | .takedown b =>
    forcedRefundAmount cfg c (b.refundPolicy.getD cfg.defaultRefundPolicy) (isInnocent c) t
  | .pinsDelete b => forcedRefundAmount cfg c (b.refundPolicy.getD .prorata) false t
  | _ => forcedRefundAmount cfg c cfg.defaultRefundPolicy (isInnocent c) t

/-- The payout settles the claim as the request prescribes, at the time it was recorded. -/
structure Settles (cfg : Config) (q : Request) (c : Claim) (p : Payout) : Prop where
  claimId : p.claimId = c.claimId
  toOwner : p.toAccount = c.owner
  amount : ∃ a, prescribed cfg q c p.createdTs = .ok a ∧ p.amount = max 0 a

instance (cfg : Config) (q : Request) (c : Claim) (p : Payout) :
    Decidable (Settles cfg q c p) :=
  decidable_of_iff (p.claimId = c.claimId ∧ p.toAccount = c.owner ∧
      (prescribed cfg q c p.createdTs).toOption.any (fun a => p.amount = max 0 a) = true) (by
    constructor
    · rintro ⟨hid, hown, hamount⟩
      refine ⟨hid, hown, ?_⟩
      cases ha : prescribed cfg q c p.createdTs with
      | error e => simp [ha, Except.toOption] at hamount
      | ok a => exact ⟨a, rfl, by simpa [ha, Except.toOption] using hamount⟩
    · rintro ⟨hid, hown, a, ha, hamount⟩
      exact ⟨hid, hown, by simpa [ha, Except.toOption] using hamount⟩)

def books (cfg : Config) (Ok : Stmt → World → Prop) : Protocol (machine cfg) Docket where
  Inv := fun frame w => Books (frame.map Prod.snd) w.db
  Runs := fun _ => Ok

/-- What a handler may rely on between its statements: the books, and that each claim it
cancelled so far is still owed or recorded as prescribed. -/
structure Holding (cfg : Config) (q : Request) (d : Docket) (frame : Multiset (Call × Docket))
    (past : Trace (machine cfg)) (w : World) : Prop where
  books : Books (d ::ₘ frame.map Prod.snd) w.db
  tracks : ∀ x ∈ past, ∀ c, Cancels cfg x.1 x.2 c →
    c ∈ d.owed ∨ ∃ p ∈ d.paid, Settles cfg q c p

section Handlers

variable {cfg : Config} {Ok : Stmt → World → Prop} {q : Request} {d : Docket}
  {frame : Multiset (Call × Docket)} {past : Trace (machine cfg)} {w : World} {α β : Type}

namespace Holding

theorem start (h : Books (frame.map Prod.snd) w.db) : Holding cfg q .clean frame [] w :=
  ⟨h.open_clean, fun _ hx => absurd hx List.not_mem_nil⟩

/-- A statement that cancels nothing. -/
theorem quiet (h : Holding cfg q d frame past w) {s : Stmt} (hs : s.quiet = true)
    (hc : s.Checked w) : Holding cfg q d frame (past ++ [(s, w)]) (s.sem cfg w).2 := by
  have hv := voids_of_quiet cfg hs hc
  refine ⟨h.books.keep (retains_of_voids hv) (payouts_of_quiet cfg hs w), ?_⟩
  intro x hx c hcancel
  rcases List.mem_append.mp hx with hx | hx
  · exact h.tracks x hx c hcancel
  · rw [List.mem_singleton] at hx
    subst hx
    exact absurd (hcancel.mem hv) List.not_mem_nil

/-- A transaction that cancels claims leaves them owed. -/
theorem void (h : Holding cfg q d frame past w) {s : Stmt} {V : List Claim}
    (hv : Voids w.db (s.sem cfg w).2.db V) (hp : payouts (s.sem cfg w).2.db = payouts w.db) :
    Holding cfg q { d with owed := V ++ d.owed } frame (past ++ [(s, w)]) (s.sem cfg w).2 := by
  refine ⟨h.books.void hv hp, ?_⟩
  intro x hx c hcancel
  rcases List.mem_append.mp hx with hx | hx
  · exact (h.tracks x hx c hcancel).imp_left (List.mem_append_right _)
  · rw [List.mem_singleton] at hx
    subst hx
    exact Or.inl (List.mem_append_left _ (hcancel.mem hv))

/-- A transaction that is rolled back. -/
theorem failed (h : Holding cfg q d frame past w) {s : Stmt} (hs : (s.sem cfg w).2 = w) :
    Holding cfg q d frame (past ++ [(s, w)]) (s.sem cfg w).2 := by
  have hv : Voids w.db (s.sem cfg w).2.db [] := .of_eq (by rw [hs]) (by rw [hs])
  exact h.void hv (by rw [hs])

/-- The row that refunds the claim that is next in line. -/
theorem record {c : Claim} {rest : List Claim} {paid : List Payout} {n : NewRefund}
    (h : Holding cfg q { owed := c :: rest, paid } frame past w) (hid : n.claimId = c.claimId)
    (hown : n.toAccount = c.owner)
    (hamount : ∃ a, prescribed cfg q c w.now = .ok a ∧ n.amount = max 0 a) :
    Holding cfg q
      { owed := rest, paid := ⟨n.claimId, n.toAccount, n.amount, w.now⟩ :: paid }
      frame (past ++ [(.recordRefund n, w)]) ((Stmt.recordRefund n).sem cfg w).2 := by
  have hpayouts : payouts ((Stmt.recordRefund n).sem cfg w).2.db =
      payouts w.db ++ [⟨n.claimId, n.toAccount, n.amount, w.now⟩] := by
    simp only [Stmt.sem, Stmt.total, recordRefund, payouts, Table.insert, List.map_append]
    rfl
  have hv : Voids w.db ((Stmt.recordRefund n).sem cfg w).2.db [] := .of_eq rfl rfl
  refine ⟨h.books.record hpayouts rfl rfl hid hown, ?_⟩
  intro x hx c' hcancel
  rcases List.mem_append.mp hx with hx | hx
  · rcases h.tracks x hx c' hcancel with howed | ⟨p, hp, hs⟩
    · rcases List.mem_cons.mp howed with rfl | hrest
      · exact Or.inr ⟨_, List.mem_cons_self, hid, hown, hamount⟩
      · exact Or.inl hrest
    · exact Or.inr ⟨p, List.mem_cons_of_mem _ hp, hs⟩
  · rw [List.mem_singleton] at hx
    subst hx
    exact absurd (hcancel.mem hv) List.not_mem_nil

end Holding

/-- Once nothing is owed, the books hold and every cancelled claim is recorded. -/
abbrev Clean (cfg : Config) (q : Request) {α : Type} : Post (machine cfg) Docket α :=
  fun _ frame past w => ∃ paid, Holding cfg q { owed := [], paid } frame past w

/-- A suspension: the docket goes along. -/
theorem wp_await {Q : Post (machine cfg) Docket β} {c : Call} {f : c.Reply → Handler cfg β}
    (h : Holding cfg q d frame past w)
    (hk : ∀ r frame w, Holding cfg q d frame past w → (f r).wp (books cfg Ok) Q frame past w) :
    (Prog.bind (perform c) f).wp (books cfg Ok) Q frame past w := by
  refine ⟨d, ?_, ?_⟩
  · change Books (((c, d) ::ₘ frame).map Prod.snd) w.db
    rw [Multiset.map_cons]
    exact h.books
  · intro frame' w' hi r
    change Books (((c, d) ::ₘ frame').map Prod.snd) w'.db at hi
    rw [Multiset.map_cons] at hi
    exact hk r frame' w' ⟨hi, h.tracks⟩

theorem wp_ask {L : Protocol (machine cfg) Docket} {Q : Post (machine cfg) Docket β}
    {g : Db → α} {f : α → Handler cfg β} (h : (f (g w.db)).wp L Q frame past w) :
    (Prog.bind (ask g) f).wp L Q frame past w := h

/-- Quiet statements only. -/
abbrev Quiet (s : Stmt) (w : World) : Prop := s.quiet = true ∧ s.Checked w

/-- A part of a handler that runs quiet statements keeps the docket. -/
theorem wp_quiet {Q : Except Fault α → World → Prop} {p : Handler cfg α}
    (hp : p.Emits (M := machine cfg) Quiet (fun _ => True) Q w)
    (h : Holding cfg q d frame past w) :
    p.wp (books cfg Ok) (fun r frame past w => Holding cfg q d frame past w ∧ Q r w)
      frame past w := by
  refine Emits.wp (M := machine cfg) (L := books cfg Ok) (J := Holding cfg q d) ?_ ?_ hp h
  · intro s w frame past hs _ hold
    exact hold.quiet hs.1 hs.2
  · intro c frame past w _ hold
    refine ⟨d, ?_, ?_⟩
    · change Books (((c, d) ::ₘ frame).map Prod.snd) w.db
      rw [Multiset.map_cons]
      exact hold.books
    · intro frame' w' hi
      change Books (((c, d) ::ₘ frame').map Prod.snd) w'.db at hi
      rw [Multiset.map_cons] at hi
      exact ⟨hi, hold.tracks⟩

/-- A quiet part, then the rest of the handler. -/
theorem wp_quiet_bind {Q : Post (machine cfg) Docket β} {p : Handler cfg α}
    {f : α → Handler cfg β} (hp : Keeps cfg Quiet (fun _ => True) p w)
    (h : Holding cfg q d frame past w)
    (hfail : ∀ e frame past w, Holding cfg q d frame past w → Q (.error e) frame past w)
    (hok : ∀ a frame past w, Holding cfg q d frame past w →
      (f a).wp (books cfg Ok) Q frame past w) :
    (Prog.bind p f).wp (books cfg Ok) Q frame past w := by
  refine wp_bind (wp_mono ?_ (wp_quiet hp h))
  intro r frame past w hr
  cases r with
  | ok a => exact hok a frame past w hr.1
  | error e => exact hfail e frame past w hr.1

/-! ## Refunds -/

theorem calculateRefund_ok (cfg : Config) {claim : Claim} (hsize : 0 < claim.sizeBytes) (t : Int) :
    ∃ r, calculateRefund cfg claim t = .ok r := by
  obtain ⟨mb, hmb⟩ := billableMB_of_pos cfg hsize
  unfold calculateRefund
  split
  · exact ⟨_, rfl⟩
  · rw [hmb]
    dsimp only [Bind.bind, Except.bind]
    split
    · exact ⟨_, rfl⟩
    · exact ⟨_, rfl⟩

/-- A claim with a size has a user refund. -/
theorem userRefund_ok (cfg : Config) {claim : Claim} (hsize : 0 < claim.sizeBytes) (t : Int) :
    ∃ a, userRefund cfg claim t = .ok a := by
  unfold userRefund
  split
  · exact ⟨_, rfl⟩
  · obtain ⟨r, hr⟩ := calculateRefund_ok cfg hsize t
    rw [hr]
    exact ⟨_, rfl⟩

theorem forcedRefundAmount_ok (cfg : Config) {claim : Claim} (hsize : 0 < claim.sizeBytes)
    (policy : RefundPolicy) (innocent : Bool) (t : Int) :
    ∃ a, forcedRefundAmount cfg claim policy innocent t = .ok a := by
  obtain ⟨r, hr⟩ := calculateRefund_ok cfg hsize t
  unfold forcedRefundAmount
  rw [hr]
  by_cases hi : innocent = true
  · rw [if_pos hi]
    exact ⟨_, rfl⟩
  · rw [if_neg hi]
    by_cases hp : policy = .none
    · rw [if_pos hp]
      exact ⟨_, rfl⟩
    · rw [if_neg hp]
      by_cases hd : claim.state = .dormant
      · rw [if_pos hd]
        exact ⟨_, rfl⟩
      · rw [if_neg hd]
        exact ⟨_, rfl⟩

/-- Succeeds, whatever the world answers. -/
abbrev Succeeds {α : Type} : Except Fault α → World → Prop := fun r _ => ∃ a, r = .ok a

theorem sendRefund_succeeds {dest : Account} {amount : Coins} {currency memo : String} :
    (sendRefund dest amount currency memo : Handler cfg _).Emits (M := machine cfg) Quiet
      (fun _ => True) Succeeds w := by
  unfold sendRefund
  split
  · exact ⟨trivial, fun _ _ => ⟨_, rfl⟩⟩
  · dsimp only
    split
    · exact ⟨trivial, fun _ _ => ⟨_, rfl⟩⟩
    · refine ⟨trivial, fun sent w' => ?_⟩
      cases sent <;> exact ⟨_, rfl⟩

theorem settleClaim_succeeds {claim : Claim} {trigger : String} {refundId : Nat} :
    (settleClaim claim trigger refundId : Handler cfg _).Emits (M := machine cfg) Quiet
      (fun _ => True) Succeeds w := by
  unfold settleClaim
  change Prog.Emits (M := machine cfg) Quiet (fun _ => True) Succeeds (ite _ _ _) w
  split
  · refine ⟨⟨rfl, trivial⟩, ?_⟩
    change Prog.Emits (M := machine cfg) Quiet (fun _ => True) Succeeds (ite _ _ _) _
    split
    · exact ⟨trivial, fun _ _ => ⟨trivial, fun _ _ => ⟨_, rfl⟩⟩⟩
    · exact ⟨trivial, fun _ _ => ⟨_, rfl⟩⟩
  · exact ⟨trivial, fun _ _ => ⟨_, rfl⟩⟩

theorem payRefund_succeeds {claim : Claim} {amount : Coins} {memo reason : String}
    {refundId : Nat} :
    (payRefund claim amount memo reason refundId : Handler cfg _).Emits (M := machine cfg) Quiet
      (fun _ => True) Succeeds w := by
  unfold payRefund
  dsimp only
  split
  · refine emits_bind (Emits.mono ?_ settleClaim_succeeds)
    rintro r w' ⟨u, rfl⟩
    exact ⟨_, rfl⟩
  · refine emits_bind (Emits.mono ?_ sendRefund_succeeds)
    rintro r w' ⟨sent, rfl⟩
    dsimp only
    split
    · exact ⟨⟨rfl, RefundStatus.noConfusion⟩, _, rfl⟩
    · exact ⟨_, rfl⟩
    · exact ⟨⟨rfl, RefundStatus.noConfusion⟩, _, rfl⟩

/-- The refund of the claim next in line is recorded, and recording it cannot fail. -/
abbrev Recorded (cfg : Config) (q : Request) (rest : List Claim) {α : Type} :
    Post (machine cfg) Docket α :=
  fun r frame past w => (∃ a, r = .ok a) ∧ ∃ paid, Holding cfg q { owed := rest, paid } frame past w

theorem broadcastRefund_wp {claim : Claim} {rest : List Claim} {paid : List Payout}
    {amount : Coins} {reason : String}
    (h : Holding cfg q { owed := claim :: rest, paid } frame past w)
    (hamount : prescribed cfg q claim w.now = .ok amount) :
    (broadcastRefund claim amount reason).wp (books cfg Ok) (Recorded cfg q rest)
      frame past w := by
  unfold broadcastRefund
  dsimp only
  split
  · rename_i hle
    intro _
    refine ⟨⟨_, rfl⟩, _, h.record rfl rfl ⟨amount, hamount, ?_⟩⟩
    exact (max_eq_left hle).symm
  · rename_i hpos
    intro _
    refine wp_mono ?_ (wp_quiet payRefund_succeeds (h.record rfl rfl ⟨amount, hamount, ?_⟩))
    · intro r frame past w hr
      exact ⟨hr.2, _, hr.1⟩
    · exact (max_eq_right (le_of_lt (not_le.mp hpos))).symm

/-- The common end of both kinds of settlement. -/
theorem recorded_wp {claim : Claim} {rest : List Claim} {paid : List Payout} {amount : Coins}
    {reason : String} (h : Holding cfg q { owed := claim :: rest, paid } frame past w)
    (hamount : prescribed cfg q claim w.now = .ok amount) :
    (Prog.bind (broadcastRefund claim amount reason) (fun summary =>
      Prog.bind (perform .returned) (fun _ => Prog.ret summary))).wp (books cfg Ok)
      (Recorded cfg q rest) frame past w := by
  refine wp_bind (wp_mono ?_ (broadcastRefund_wp h hamount))
  rintro r frame past w ⟨⟨summary, rfl⟩, paid', hnext⟩
  exact wp_await hnext (fun _ _ _ hlast => ⟨⟨summary, rfl⟩, paid', hlast⟩)

/-- The requests whose endings are refunded as the user's own. -/
abbrev UserEnding (cfg : Config) (q : Request) : Prop :=
  ∀ c t, prescribed cfg q c t = userRefund cfg c t

theorem settleClaimRefund_wp (hq : UserEnding cfg q) {claim : Claim} {rest : List Claim}
    {paid : List Payout} {reason : String}
    (h : Holding cfg q { owed := claim :: rest, paid } frame past w) :
    (settleClaimRefund claim reason).wp (books cfg Ok) (Recorded cfg q rest) frame past w := by
  have hsize := (h.books.owed _ (Multiset.mem_cons_self _ _) claim List.mem_cons_self).1
  obtain ⟨amount, hamount⟩ := userRefund_ok cfg hsize w.now
  unfold settleClaimRefund
  refine wp_liftExcept (fun e he => ?_) (fun a ha => ?_)
  · rw [hamount] at he
    cases he
  · exact recorded_wp h ((hq claim w.now).trans ha)

/-- The requests whose endings are refunded under a policy. -/
abbrev ForcedEnding (cfg : Config) (q : Request) (policy : RefundPolicy)
    (innocent : Claim → Bool) : Prop :=
  ∀ c t, prescribed cfg q c t = forcedRefundAmount cfg c policy (innocent c) t

theorem settleForcedRefund_wp {policy : RefundPolicy} {innocent : Claim → Bool}
    (hq : ForcedEnding cfg q policy innocent) {claim : Claim} {rest : List Claim}
    {paid : List Payout} (h : Holding cfg q { owed := claim :: rest, paid } frame past w) :
    (settleForcedRefund claim policy (innocent claim)).wp (books cfg Ok) (Recorded cfg q rest)
      frame past w := by
  have hsize := (h.books.owed _ (Multiset.mem_cons_self _ _) claim List.mem_cons_self).1
  obtain ⟨amount, hamount⟩ :=
    forcedRefundAmount_ok cfg hsize policy (innocent claim) w.now
  unfold settleForcedRefund
  refine wp_liftExcept (fun e he => ?_) (fun a ha => ?_)
  · rw [hamount] at he
    cases he
  · exact recorded_wp h ((hq claim w.now).trans ha)

/-- The loop of a ban or a takedown, which owes the claims it has not come to. -/
theorem settleVoided_wp {policy : RefundPolicy} {innocent : Claim → Bool}
    (hq : ForcedEnding cfg q policy innocent) {voided : List Claim} {paid : List Payout}
    (h : Holding cfg q { owed := voided, paid } frame past w) :
    (settleVoided policy innocent voided).wp (books cfg Ok) (Recorded cfg q []) frame past w := by
  unfold settleVoided
  refine wp_fold (fun xs _ frame past w => ∃ paid, Holding cfg q { owed := xs, paid } frame past w)
    ?_ ?_ ⟨paid, h⟩
  · rintro claim rest tally frame past w ⟨paid, h⟩
    refine wp_bind (wp_mono ?_ (settleForcedRefund_wp hq h))
    rintro r frame past w ⟨⟨summary, rfl⟩, hnext⟩
    exact hnext
  · rintro tally frame past w hdone
    exact ⟨⟨tally, rfl⟩, hdone⟩

/-! ## The handlers that cancel -/

/-- The outcome of a fallible transaction that cancels what it returns. -/
theorem wp_cancelling {out : Type} {Q : Post (machine cfg) Docket β} {paid : List Payout}
    {r : Except Fault (out × Db)} {f : out → Handler cfg β} {s : Stmt} {V : out → List Claim}
    (h : Holding cfg q { owed := [], paid } frame past w)
    (hsem : (s.sem cfg w).2 = (Stmt.fallible w r).2)
    (hp : payouts (s.sem cfg w).2.db = payouts w.db)
    (hv : ∀ a after, r = .ok (a, after) → Voids w.db after (V a))
    (hfail : ∀ e, Holding cfg q { owed := [], paid } frame (past ++ [(s, w)]) (s.sem cfg w).2 →
      Q (.error e) frame (past ++ [(s, w)]) (s.sem cfg w).2)
    (hok : ∀ a after, r = .ok (a, after) →
      Holding cfg q { owed := V a, paid } frame (past ++ [(s, w)]) (s.sem cfg w).2 →
      (f a).wp (books cfg Ok) Q frame (past ++ [(s, w)]) (s.sem cfg w).2) :
    (Prog.bind (liftExcept (Stmt.fallible w r).1) f).wp (books cfg Ok) Q frame
      (past ++ [(s, w)]) (s.sem cfg w).2 := by
  cases r with
  | error e => exact hfail e (h.failed hsem)
  | ok out =>
    obtain ⟨a, after⟩ := out
    have hvoid : Voids w.db (s.sem cfg w).2.db (V a) := by
      rw [hsem]
      exact hv a after rfl
    have hnext := h.void hvoid hp
    rw [List.append_nil] at hnext
    exact hok a after rfl hnext

/-- One cancellation by its owner or an admin, up to the refund. -/
theorem cancelClaim_wp {Q : Post (machine cfg) Docket β} {paid : List Payout} {claimId : Nat}
    {owner : Option Account} {asAdmin : Bool} {f : Ended → Handler cfg β}
    (h : Holding cfg q { owed := [], paid } frame past w)
    (hfail : ∀ e frame past w, Holding cfg q { owed := [], paid } frame past w →
      Q (.error e) frame past w)
    (hok : ∀ e frame past w, Holding cfg q { owed := [e.claim], paid } frame past w →
      (f e).wp (books cfg Ok) Q frame past w) :
    (Prog.bind (transact (.cancelClaim claimId owner asAdmin))
      (fun o => Prog.bind (liftExcept o) f)).wp (books cfg Ok) Q frame past w := by
  intro _
  exact wp_cancelling (V := fun e => [e.claim]) h rfl (payouts_of_op rfl w)
    (fun _ _ => Voids.cancelClaim) (fun e he => hfail e _ _ _ he) (fun e _ _ he => hok e _ _ _ he)

theorem endActiveClaimForRelease_wp {Q : Post (machine cfg) Docket β} {paid : List Payout}
    {claimId : Nat} {f : Ended → Handler cfg β}
    (h : Holding cfg q { owed := [], paid } frame past w)
    (hfail : ∀ e frame past w, Holding cfg q { owed := [], paid } frame past w →
      Q (.error e) frame past w)
    (hok : ∀ e frame past w, Holding cfg q { owed := [e.claim], paid } frame past w →
      (f e).wp (books cfg Ok) Q frame past w) :
    (Prog.bind (transact (.endActiveClaimForRelease claimId))
      (fun o => Prog.bind (liftExcept o) f)).wp (books cfg Ok) Q frame past w := by
  intro _
  exact wp_cancelling (V := fun e => [e.claim]) h rfl (payouts_of_op rfl w)
    (fun _ _ => Voids.endActiveClaimForRelease) (fun e he => hfail e _ _ _ he)
    (fun e _ _ he => hok e _ _ _ he)

theorem quiet_unpinIfLast {last : Bool} {cid : Cid} :
    Keeps cfg Quiet (fun _ => True) (unpinIfLast last cid) w :=
  keeps_unpinIfLast (fun _ _ => ⟨rfl, trivial⟩) (fun _ _ => trivial)

/-- The tail of a handler that owes nothing any more. -/
theorem wp_clean_bind {p : Handler cfg α} {f : α → Handler cfg β} {paid : List Payout}
    (hp : Keeps cfg Quiet (fun _ => True) p w)
    (h : Holding cfg q { owed := [], paid } frame past w)
    (hok : ∀ a frame past w, Holding cfg q { owed := [], paid } frame past w →
      (f a).wp (books cfg Ok) (Clean cfg q) frame past w) :
    (Prog.bind p f).wp (books cfg Ok) (Clean cfg q) frame past w :=
  wp_quiet_bind hp h (fun _ _ _ _ he => ⟨paid, he⟩) hok

/-- A settlement in the tail of a handler. -/
theorem wp_recorded_bind {p : Handler cfg α} {f : α → Handler cfg β} {rest : List Claim}
    {Q : Post (machine cfg) Docket β}
    (hp : p.wp (books cfg Ok) (Recorded cfg q rest) frame past w)
    (hok : ∀ a paid frame past w, Holding cfg q { owed := rest, paid } frame past w →
      (f a).wp (books cfg Ok) Q frame past w) :
    (Prog.bind p f).wp (books cfg Ok) Q frame past w := by
  refine wp_bind (wp_mono ?_ hp)
  rintro r frame past w ⟨⟨a, rfl⟩, paid, hnext⟩
  exact hok a paid frame past w hnext

theorem cancel_wp (hq : UserEnding cfg q) {b : CancelRequest} {paid : List Payout}
    (h : Holding cfg q { owed := [], paid } frame past w) :
    (cancel b).wp (books cfg Ok) (Clean cfg q) frame past w := by
  unfold cancel
  dsimp only
  split
  · exact ⟨paid, h⟩
  · refine wp_clean_bind (keeps_verifySignedUserRequest (fun _ _ => trivial)) h ?_
    intro _ frame past w h
    refine cancelClaim_wp h (fun _ _ _ _ he => ⟨paid, he⟩) ?_
    intro e frame past w h
    refine wp_recorded_bind (settleClaimRefund_wp hq h) ?_
    intro refund paid frame past w h
    exact wp_clean_bind quiet_unpinIfLast h (fun _ _ _ _ h => ⟨paid, h⟩)

theorem removeUploads_wp (hq : UserEnding cfg q) {cid : Cid} {account : Account}
    {paid : List Payout} (h : Holding cfg q { owed := [], paid } frame past w) :
    (removeUploads cid account).wp (books cfg Ok) (Clean cfg q) frame past w := by
  unfold removeUploads
  refine wp_ask ?_
  split
  · rename_i hnone
    intro _
    exact ⟨paid, h.quiet rfl hnone⟩
  · refine wp_fold (fun _ _ frame past w => ∃ paid, Holding cfg q { owed := [], paid } frame past w)
      ?_ (fun _ _ _ _ hdone => hdone) ⟨paid, h⟩
    rintro c rest out frame past w ⟨paid, h⟩
    refine cancelClaim_wp h (fun _ _ _ _ he => ⟨paid, he⟩) ?_
    intro e frame past w h
    refine wp_recorded_bind (settleClaimRefund_wp hq h) ?_
    intro refund paid frame past w h
    exact ⟨paid, h⟩

theorem uploadsDelete_wp (hq : UserEnding cfg q) {b : DeleteRequest} {paid : List Payout}
    (h : Holding cfg q { owed := [], paid } frame past w) :
    (uploadsDelete b).wp (books cfg Ok) (Clean cfg q) frame past w := by
  unfold uploadsDelete
  refine wp_require ⟨paid, h⟩ (fun _ => ?_)
  refine wp_clean_bind (keeps_verifySignedUserRequest (fun _ _ => trivial)) h ?_
  intro _ frame past w h
  refine wp_bind (wp_mono ?_ (removeUploads_wp hq h))
  rintro r frame past w ⟨paid, h⟩
  cases r with
  | error e => exact ⟨paid, h⟩
  | ok out =>
    refine wp_require ⟨paid, h⟩ (fun _ => ?_)
    exact wp_clean_bind quiet_unpinIfLast h (fun _ _ _ _ h => ⟨paid, h⟩)

theorem endOrder_wp (hq : UserEnding cfg q) {orderId : Nat} {reason : String}
    {paid : List Payout} (h : Holding cfg q { owed := [], paid } frame past w) :
    (endOrder orderId reason).wp (books cfg Ok) (Clean cfg q) frame past w := by
  unfold endOrder
  refine wp_ask ?_
  split
  · exact ⟨paid, h⟩
  · refine endActiveClaimForRelease_wp h (fun _ _ _ _ he => ⟨paid, he⟩) ?_
    intro e frame past w h
    refine wp_recorded_bind (settleClaimRefund_wp hq h) ?_
    intro refund paid frame past w h
    exact wp_clean_bind quiet_unpinIfLast h (fun _ _ _ _ h => ⟨paid, h⟩)

theorem actOnDecision_wp (hq : UserEnding cfg q) {order : Order} {account : Account}
    {sig : String} {decision : Decision} {reason : String} {paid : List Payout}
    (h : Holding cfg q { owed := [], paid } frame past w) :
    (actOnDecision order account sig decision reason).wp (books cfg Ok) (Clean cfg q)
      frame past w := by
  have hconsent : Keeps cfg Quiet (fun _ => True) (recordConsent order account sig decision) w := by
    unfold recordConsent
    split
    · exact ⟨⟨rfl, trivial⟩, trivial⟩
    · trivial
  unfold actOnDecision
  refine wp_clean_bind hconsent h ?_
  intro _ frame past w h
  split
  · exact ⟨paid, h⟩
  · exact endOrder_wp hq h

theorem actOnReceipt_wp (hq : UserEnding cfg q) {order : Order} {account : Account}
    {sig : String} {decision : Decision} {paid : List Payout}
    (h : Holding cfg q { owed := [], paid } frame past w) :
    (actOnReceipt order account sig decision).wp (books cfg Ok) (Clean cfg q) frame past w := by
  unfold actOnReceipt
  split
  · exact ⟨paid, h⟩
  · exact actOnDecision_wp hq h

theorem release_wp (hq : UserEnding cfg q) {b : ReleaseRequest} {paid : List Payout}
    (h : Holding cfg q { owed := [], paid } frame past w) :
    (release b).wp (books cfg Ok) (Clean cfg q) frame past w := by
  unfold release
  dsimp only
  split
  · exact ⟨paid, h⟩
  · refine wp_clean_bind (keeps_verifySignedUserRequest (fun _ _ => trivial)) h ?_
    intro _ frame past w h
    refine wp_ask ?_
    split
    · exact ⟨paid, h⟩
    · refine wp_ask (wp_liftExcept (fun _ _ => ⟨paid, h⟩) (fun decision _ => ?_))
      refine wp_require ⟨paid, h⟩ (fun _ => ?_)
      refine wp_bind (wp_mono ?_ (actOnDecision_wp hq h))
      rintro r frame past w ⟨paid, h⟩
      cases r <;> exact ⟨paid, h⟩

theorem receipt_wp (hq : UserEnding cfg q) {b : ReceiptRequest} {paid : List Payout}
    (h : Holding cfg q { owed := [], paid } frame past w) :
    (receipt b).wp (books cfg Ok) (Clean cfg q) frame past w := by
  unfold receipt
  dsimp only
  split
  · exact ⟨paid, h⟩
  · refine wp_require ⟨paid, h⟩ (fun _ => ?_)
    refine wp_clean_bind (keeps_verifySignedUserRequest (fun _ _ => trivial)) h ?_
    intro _ frame past w h
    refine wp_ask ?_
    split
    · exact ⟨paid, h⟩
    · split
      · exact ⟨paid, h⟩
      · refine wp_require ⟨paid, h⟩ (fun _ => ?_)
        refine wp_clean_bind ⟨⟨rfl, trivial⟩, trivial⟩ h ?_
        intro _ frame past w h
        refine wp_ask (wp_liftExcept (fun _ _ => ⟨paid, h⟩) (fun decision _ => ?_))
        refine wp_ask (wp_bind (wp_mono ?_ (actOnReceipt_wp hq h)))
        rintro r frame past w ⟨paid, h⟩
        cases r <;> exact ⟨paid, h⟩

theorem ban_wp {b : BanRequest} {paid : List Payout} (hq : q = .ban b)
    (h : Holding cfg q { owed := [], paid } frame past w) :
    (ban b).wp (books cfg Ok) (Clean cfg q) frame past w := by
  unfold ban
  refine wp_clean_bind (keeps_verifyAdminAuth (fun _ _ => trivial)) h ?_
  intro adminId frame past w h _
  refine wp_cancelling (V := Banned.voidedClaims) h rfl (payouts_of_op rfl w) ?_
    (fun e he => ⟨paid, he⟩) ?_
  · intro a after hok
    obtain ⟨p, _, heq⟩ := banAccount_result hok
    have hv := Voids.banTransaction w.db w.now (cfg.toLowerCase b.hiveAccount) b.reason p adminId
    rwa [heq] at hv
  · intro result after hok h
    have hforced : ForcedEnding cfg q result.refundPolicy (fun _ => false) := by
      intro c t
      obtain ⟨p, hp, heq⟩ := banAccount_result hok
      have hpolicy : result.refundPolicy = p := (congrArg (fun r => r.1.refundPolicy) heq).symm
      rw [hq, prescribed, hp, hpolicy, Option.getD_some]
    refine wp_recorded_bind (settleVoided_wp hforced h) ?_
    intro refunds paid frame past w h
    refine wp_clean_bind (keeps_unpinAll (fun _ _ => ⟨rfl, trivial⟩) (fun _ _ => trivial)) h ?_
    exact fun _ _ _ _ h => ⟨paid, h⟩

theorem takedown_wp {b : TakedownRequest} {paid : List Payout} (hq : q = .takedown b)
    (h : Holding cfg q { owed := [], paid } frame past w) :
    (takedown b).wp (books cfg Ok) (Clean cfg q) frame past w := by
  unfold takedown
  refine wp_clean_bind (keeps_verifyAdminAuth (fun _ _ => trivial)) h ?_
  intro adminId frame past w h _
  refine wp_cancelling (V := TakenDown.voidedClaims) h rfl (payouts_of_op rfl w) ?_
    (fun e he => ⟨paid, he⟩) ?_
  · intro a after hok
    have hv := Voids.takedownTransaction w.db w.now b.cid b.reason
      (b.refundPolicy.getD cfg.defaultRefundPolicy) adminId
    rwa [takedownCid_result hok] at hv
  · intro result after hok h
    have hforced : ForcedEnding cfg q result.refundPolicy isInnocent := by
      intro c t
      have hpolicy : result.refundPolicy = b.refundPolicy.getD cfg.defaultRefundPolicy :=
        (congrArg (fun r => r.1.refundPolicy) (takedownCid_result hok)).symm
      rw [hq, prescribed, hpolicy]
    refine wp_recorded_bind (settleVoided_wp hforced h) ?_
    intro refunds paid frame past w h
    refine wp_clean_bind (keeps_unpinAndGc (fun _ _ => ⟨rfl, trivial⟩) (fun _ _ => trivial)) h ?_
    exact fun _ _ _ _ h => ⟨paid, h⟩

theorem pinsDelete_wp {b : PinsDeleteRequest} {paid : List Payout} (hq : q = .pinsDelete b)
    (h : Holding cfg q { owed := [], paid } frame past w) :
    (pinsDelete b).wp (books cfg Ok) (Clean cfg q) frame past w := by
  have hforced : ForcedEnding cfg q (b.refundPolicy.getD .prorata) (fun _ => false) := by
    intro c t
    rw [hq, prescribed]
  unfold pinsDelete
  refine wp_require ⟨paid, h⟩ (fun _ => ?_)
  refine wp_clean_bind (keeps_verifyAdminAuth (fun _ _ => trivial)) h ?_
  intro adminId frame past w h
  refine wp_require ⟨paid, h⟩ (fun _ => ?_)
  refine wp_bind (wp_fold (fun _ _ frame past w =>
    ∃ paid, Holding cfg q { owed := [], paid } frame past w) ?_ ?_ ⟨paid, h⟩)
  · rintro c rest out frame past w ⟨paid, h⟩
    refine cancelClaim_wp h (fun _ _ _ _ he => ⟨paid, he⟩) ?_
    intro e frame past w h
    refine wp_recorded_bind (settleForcedRefund_wp hforced h) ?_
    intro settled paid frame past w h
    exact ⟨paid, h⟩
  · rintro out frame past w ⟨paid, h⟩
    refine wp_clean_bind quiet_unpinIfLast h ?_
    intro _ frame past w h _
    exact ⟨paid, h.quiet rfl trivial⟩

theorem wp_map {p : Handler cfg α} (f : α → β)
    (hp : p.wp (books cfg Ok) (Clean cfg q) frame past w) :
    (f <$> p).wp (books cfg Ok) (Clean cfg q) frame past w := by
  refine wp_bind (wp_mono ?_ hp)
  intro r frame past w h
  cases r <;> exact h

/-! ## Bulk imports -/

/-- No entry that the import takes down has an open claim. -/
def Stmt.ImportsIdle : Stmt → World → Prop
  | .importTakedowns list, w => ∀ e ∈ list, e.cid ≠ "" ∧ e.reason ≠ "" →
    w.db.blockedCids.any (fun b => b.cid = e.cid) = false →
    ∀ c ∈ w.db.claims, c.cid = e.cid → isOpen c = false
  | _, _ => True

instance (s : Stmt) (w : World) : Decidable (s.ImportsIdle w) := by
  induction s using Stmt.casesOn <;> unfold Stmt.ImportsIdle <;> infer_instance

/-- The claims are the same, and whatever had a block row still has one. -/
structure Idles (before after : Db) : Prop where
  claims : ∀ c, c ∈ after.claims ↔ c ∈ before.claims
  blocks : ∀ cid, before.blockedCids.any (fun b => b.cid = cid) = true →
    after.blockedCids.any (fun b => b.cid = cid) = true

/-- A takedown of a CID without open claims changes no claim. -/
theorem takedownTransaction_idles {db : Db} {t : Int} {cid : Cid} {reason : String}
    {policy : RefundPolicy} {admin : String}
    (hidle : ∀ c ∈ db.claims, c.cid = cid → isOpen c = false) :
    Idles db (takedownTransaction db t cid reason policy admin).2 where
  claims := by
    have hsame : ∀ d ∈ db.claims, closedClaim .cancelled (isHostedOn cid) d = d := by
      intro d hd
      refine closedClaim_of_skip ?_
      by_cases hcid : d.cid = cid
      · simp [isHostedOn, hidle d hd hcid]
      · simp [isHostedOn, hcid]
    intro c
    change c ∈ (closeClaims _ .cancelled (isHostedOn cid)).claims ↔ _
    rw [mem_closeClaims]
    constructor
    · rintro ⟨d, hd, rfl⟩
      exact (hsame d hd).symm ▸ hd
    · intro hc
      exact ⟨c, hc, (hsame c hc).symm⟩
  blocks := by
    intro other h
    refine Register.any_replace_of_any ?_ h
    intro r hname hq
    simpa using (show cid = other by simpa using hname.symm.trans (by simpa using hq))

theorem importEntry_idles {cfg : Config} {db : Db} {t : Int} {out : Imported}
    {e : ImportEntry}
    (hidle : e.cid ≠ "" ∧ e.reason ≠ "" → db.blockedCids.any (fun b => b.cid = e.cid) = false →
      ∀ c ∈ db.claims, c.cid = e.cid → isOpen c = false) :
    Idles db (importEntry cfg db t out e).2 := by
  have hrefl : Idles db db := ⟨fun _ => Iff.rfl, fun _ h => h⟩
  unfold importEntry
  split
  · exact hrefl
  · rename_i hvalid
    split
    · exact hrefl
    · rename_i hfresh
      split
      · rename_i d after hok
        obtain ⟨p, rfl⟩ := takedownCid_ok hok
        refine takedownTransaction_idles (hidle ?_ (Bool.not_eq_true _ ▸ hfresh))
        simpa using hvalid
      · exact hrefl

/-- An idle import changes no claim. -/
theorem importTakedowns_idle {cfg : Config} {w : World} {list : List ImportEntry}
    (h : (Stmt.importTakedowns list).ImportsIdle w) :
    ∀ c, c ∈ (importTakedowns cfg w.db w.now list).2.claims ↔ c ∈ w.db.claims := by
  have hloop : ∀ out db, Idles w.db db →
      ∀ c, c ∈ (importLoop cfg w.now list out db).2.claims ↔ c ∈ w.db.claims := by
    unfold Stmt.ImportsIdle at h
    induction list with
    | nil => exact fun out db hdb => hdb.claims
    | cons e rest ih =>
      intro out db hdb
      have hstep : Idles db (importEntry cfg db w.now out e).2 := by
        refine importEntry_idles (fun hvalid hfresh c hc hcid => ?_)
        refine h e List.mem_cons_self hvalid ?_ c ((hdb.claims c).mp hc) hcid
        by_contra hblock
        rw [hdb.blocks e.cid (Bool.not_eq_false _ ▸ hblock)] at hfresh
        cases hfresh
      refine ih (fun x hx => h x (List.mem_cons_of_mem _ hx)) _ _ ?_
      exact ⟨fun c => (hstep.claims c).trans (hdb.claims c),
        fun cid hb => hstep.blocks cid (hdb.blocks cid hb)⟩
  exact hloop _ _ ⟨fun _ => Iff.rfl, fun _ h => h⟩

/-! ## Every request -/

/-- The claim has one refunds row, to its owner and of the prescribed amount. -/
def Refunded (cfg : Config) (q : Request) (db : Db) (c : Claim) : Prop :=
  ∃ r ∈ db.refunds, Settles cfg q c (.of r) ∧ ∀ s ∈ db.refunds, s.claimId = c.claimId → s = r

/-- Every claim the request cancelled is refunded. -/
def AllRefunded (cfg : Config) (q : Request) (past : Trace (machine cfg)) (db : Db) : Prop :=
  ∀ x ∈ past, ∀ c, Cancels cfg x.1 x.2 c → Refunded cfg q db c

theorem Books.unique {held : Multiset Docket} {db : Db} (h : Books held db) {r s : Refund}
    (hr : r ∈ db.refunds) (hs : s ∈ db.refunds) (hid : s.claimId = r.claimId) : s = r := by
  have hnodup := (Multiset.nodup_add.mp h.once).1
  unfold paidIds payouts at hnodup
  rw [Multiset.coe_nodup, List.map_map] at hnodup
  exact List.inj_on_of_nodup_map hnodup hs hr hid

theorem Holding.allRefunded {paid : List Payout}
    (h : Holding cfg q { owed := [], paid } frame past w) : AllRefunded cfg q past w.db := by
  intro x hx c hc
  rcases h.tracks x hx c hc with howed | ⟨p, hp, hs⟩
  · exact absurd howed List.not_mem_nil
  · obtain ⟨r, hr, rfl⟩ := mem_payouts.mp (h.books.paid _ (Multiset.mem_cons_self _ _) p hp)
    refine ⟨r, hr, hs, fun s hsr hid => ?_⟩
    exact h.books.unique hr hsr (hid.trans hs.claimId.symm)

/-- What a finished request has settled, when its imports were idle. -/
def SettledUnder (cfg : Config) (Ok : Stmt → World → Prop) :
    Protocol.Done (machine cfg) Request Body :=
  fun q _ past w => (∀ s w, Ok s w → s.ImportsIdle w) → AllRefunded cfg q past w.db

theorem post_of_clean {r : Except Fault Body} (h : Clean cfg q r frame past w) :
    (books cfg Ok).post (SettledUnder cfg Ok) q r frame past w := by
  obtain ⟨paid, h⟩ := h
  exact And.intro h.books.drop (fun _ => h.allRefunded)

theorem takedownsImport_wp {b : ImportRequest} (h : Books (frame.map Prod.snd) w.db) :
    (takedownsImport b).wp (books cfg Ok) (fun _ frame past w => Books (frame.map Prod.snd) w.db ∧
      ((∀ s w, Ok s w → s.ImportsIdle w) → AllRefunded cfg (.takedownsImport b) past w.db))
      frame [] w := by
  refine wp_require ⟨h, fun _ x hx => absurd hx List.not_mem_nil⟩ (fun _ hok => ?_)
  refine ⟨h.keep (retains_importTakedowns cfg w.db w.now _)
    (payouts_importTakedowns cfg w.db w.now _), fun hidle x hx c hc => ?_⟩
  rw [List.nil_append, List.mem_singleton] at hx
  subst hx
  obtain ⟨hmem, hstate, d, hd, hid, hcancelled⟩ := hc
  have hold := (importTakedowns_idle (hidle _ _ hok) d).mp hd
  have hdc : d = c := Table.eq_of_key hold hmem hid
  exact absurd (hdc ▸ hcancelled) hstate

/-- Apart from the settling requests and the import, requests run quiet statements only. -/
theorem quiet_of_mayWrite {s : Stmt} (hq : q.settles = false)
    (himport : ∀ b, q ≠ .takedownsImport b) (h : q.mayWrite s = true) : s.quiet = true := by
  cases q <;> first
    | exact absurd hq.symm Bool.false_ne_true
    | exact absurd rfl (himport _)
    | (cases s <;> first | rfl | exact absurd h Bool.false_ne_true)

/-- Every request keeps the books and settles what it cancels. -/
theorem handle_wp (q : Request) (h : Books (frame.map Prod.snd) w.db) :
    (handle cfg q).wp (books cfg Ok) ((books cfg Ok).post (SettledUnder cfg Ok) q)
      frame [] w := by
  have hstart : ∀ q, Holding cfg q { owed := [], paid := [] } frame [] w := fun q => .start h
  have hfinish : ∀ {p : Handler cfg Body}, p.wp (books cfg Ok) (Clean cfg q) frame [] w →
      p.wp (books cfg Ok) ((books cfg Ok).post (SettledUnder cfg Ok) q) frame [] w :=
    fun hp => wp_mono (fun _ _ _ _ => post_of_clean) hp
  by_cases hq : q.settles = true
  · refine hfinish ?_
    cases q with
    | cancel b => exact wp_map _ (cancel_wp (fun _ _ => rfl) (hstart _))
    | uploadsDelete b => exact wp_map _ (uploadsDelete_wp (fun _ _ => rfl) (hstart _))
    | release b => exact wp_map _ (release_wp (fun _ _ => rfl) (hstart _))
    | receipt b => exact wp_map _ (receipt_wp (fun _ _ => rfl) (hstart _))
    | ban b => exact wp_map _ (ban_wp rfl (hstart _))
    | takedown b => exact wp_map _ (takedown_wp rfl (hstart _))
    | pinsDelete b => exact wp_map _ (pinsDelete_wp rfl (hstart _))
    | _ => cases hq
  · by_cases himport : ∃ b, q = .takedownsImport b
    · obtain ⟨b, rfl⟩ := himport
      refine wp_bind (wp_mono ?_ (takedownsImport_wp h))
      intro r frame past w hr
      cases r <;> exact hr
    · have hquiet : Keeps cfg Quiet (fun _ => True) (handle cfg q) w :=
        (handle_follows cfg q w).weaken
          (fun s _ hs => ⟨quiet_of_mayWrite (Bool.not_eq_true _ ▸ hq)
            (fun b hb => himport ⟨b, hb⟩) hs.1, hs.2⟩) (fun _ _ => trivial)
      exact hfinish (wp_mono (fun _ _ _ _ hr => ⟨[], hr.1⟩) (wp_quiet hquiet (hstart q)))

end Handlers

/-! ## The two laws -/

/-- A gate that starts with its books in order keeps them. -/
theorem books_of_start (cfg : Config) {Ok : Stmt → World → Prop} {w : World}
    {events : List (GateEvent cfg)} (hstart : Books 0 w.db) (h : Pool.Admissible (handle cfg)
      (fun _ _ => True) (fun _ => Ok) (Pool.start w) events) :
    ∃ held, (books cfg Ok).Holds (SettledUnder cfg Ok) ((Pool.start w).run (handle cfg) events)
      held := by
  have hinv : (books cfg Ok).Inv 0 w := hstart
  exact Protocol.run_holds hinv (fun _ _ _ hw => hw) (fun q _ _ hw _ => handle_wp q hw) h

theorem serve_books (cfg : Config) {Ok : Stmt → World → Prop} {t : Int}
    {events : List (GateEvent cfg)} (h : Guarded cfg Ok t events) :
    ∃ held, (books cfg Ok).Holds (SettledUnder cfg Ok) (serve cfg t events) held :=
  books_of_start cfg Books.empty h

/-- Every claim has at most one refunds row, which is addressed to its owner and exists only
if the claim is cancelled. -/
def RefundedAtMostOnce (db : Db) : Prop :=
  ∀ c ∈ db.claims, (db.refunds.filter (fun r => r.claimId = c.claimId)).length ≤ 1 ∧
    ∀ r ∈ db.refunds, r.claimId = c.claimId → r.toAccount = c.owner ∧ c.state = .cancelled

/-- No double refund, in every state of every run. -/
theorem no_double_refund (cfg : Config) (t : Int) (events : List (GateEvent cfg)) :
    RefundedAtMostOnce (serve cfg t events).world.db := by
  have hall : Guarded cfg (fun _ _ => True) t events := Pool.admissible_true _ _ events
  obtain ⟨held, hholds⟩ := serve_books cfg hall
  have hbooks : Books _ _ := hholds.inv
  intro c hc
  constructor
  · refine Table.filter_length_le_one (fun r hr s hs hrc hsc => ?_)
    have hid : r.claimId = s.claimId :=
      (of_decide_eq_true hrc).trans (of_decide_eq_true hsc).symm
    exact hbooks.unique hs hr hid
  · intro r hr hid
    obtain ⟨d, hd, hdid, hown, hst⟩ := hbooks.recorded _ (mem_payouts.mpr ⟨r, hr, rfl⟩)
    have hdc : d = c := Table.eq_of_key hd hc (hdid.trans hid)
    rw [hdc] at hown hst
    exact ⟨hown.symm, hst⟩

/-- In every run in which each bulk import is idle, every request that has ended has settled
every claim it cancelled. -/
theorem refunds_settled (cfg : Config) (t : Int) (events : List (GateEvent cfg))
    (h : Guarded cfg Stmt.ImportsIdle t events) :
    ∀ f ∈ (serve cfg t events).finished, AllRefunded cfg f.request f.past f.final.db := by
  obtain ⟨held, hholds⟩ := serve_books cfg h
  intro f hf
  exact hholds.finished f hf (fun _ _ hidle => hidle)

section Sampled

open Sample

instance (cfg : Config) (q : Request) (db : Db) (c : Claim) : Decidable (Refunded cfg q db c) := by
  unfold Refunded
  infer_instance

instance (cfg : Config) (s : Stmt) (w : World) (c : Claim) : Decidable (Cancels cfg s w c) :=
  inferInstanceAs (Decidable (c ∈ w.db.claims.rows ∧ c.state ≠ .cancelled ∧
    ∃ d ∈ (s.sem cfg w).2.db.claims, d.claimId = c.claimId ∧ d.state = .cancelled))

instance (cfg : Config) (q : Request) (past : Trace (machine cfg)) (db : Db) :
    Decidable (AllRefunded cfg q past db) :=
  decidable_of_iff (∀ x ∈ past, ∀ c ∈ x.2.db.claims, Cancels cfg x.1 x.2 c → Refunded cfg q db c)
    ⟨fun h x hx c hc => h x hx c hc.1 hc, fun h x hx c _ => h x hx c⟩

/-- An import of a file nobody hosts, and Alice cancels her claim. -/
def cancelAndImport : List (GateEvent config) :=
  hostedByAlice ++ [.spawn (importOf "other"), .spawn (cancelBy "alice" 1)] ++ resumed 6 0

theorem refunds_settled_cancel :
    Guarded config Stmt.ImportsIdle 0 cancelAndImport ∧
    ∀ f ∈ (serve config 0 cancelAndImport).finished,
      AllRefunded config f.request f.past f.final.db :=
  ⟨by decide +kernel, refunds_settled config 0 cancelAndImport (by decide +kernel)⟩

/-- A bulk import takes down the file that Alice hosts. -/
def importHosted : List (GateEvent config) := hostedByAlice ++ [.spawn (importOf "bafy")]

theorem import_unrefunded :
    ¬ ∀ f ∈ (serve config 0 importHosted).finished,
      AllRefunded config f.request f.past f.final.db := by
  decide +kernel

end Sampled

end IpfsGate.Server
