import IpfsGate.Server.Retries

/-!
# Uploads that fail after their payment is recorded

Once an upload's payment is recorded, Kubo may refuse the bytes, pin them and still fail, or the
bytes turn out to be blocked or empty. Which of these exits takes back what the upload did so
far is read off the answers it got.
-/
namespace IpfsGate.Server

open Quota LedgerRun Pricing
open Lib (Number Outside Prog Solo Table)
open Lib.Prog (Comes comes_bind comes_liftExcept comes_map comes_require)

/-- The upload's reservation is cancelled, and it left no pin, no claim and no pinned bytes. -/
structure CleanedUp (b : UploadRequest) (w w' : World) : Prop where
  cancelled : ∃ r ∈ w'.db.reservations, r.id = b.reservationId ∧ r.status = .cancelled
  pins : ∀ p ∈ w'.db.pins, p.status = .active → p ∈ w.db.pins
  claims : ∀ c ∈ w'.db.claims, c ∈ w.db.claims
  kubo : w'.kubo ⊆ w.kubo

/-- The upload answers with an error after it has recorded a payment. -/
structure FailsPaid (cfg : Config) (o : Outside (machine cfg)) (b : UploadRequest) (w : World) :
    Prop where
  failed : (lone cfg o (.upload b) w).result.isOk = false
  recorded : w.db.payments.rows.length <
    (lone cfg o (.upload b) w).final.db.payments.rows.length

/-- Kubo does not pin the bytes, or had them pinned before, or unpins them because they are
blocked; and they are not refused for being empty. -/
def Undone {cfg : Config} (o : Outside (machine cfg)) (b : UploadRequest) (w : World) : Prop :=
  if o.answer (.kuboAdd b.file) = false then True
  else match o.answer (.kuboAdded b.file) with
    | .error _ => b.file ∈ w.kubo
    | .ok () => isCidBlocked w.db b.file = true ∧
      (o.answer (.kuboRemove b.file) = true ∨ b.file ∈ w.kubo)

/-- The world of an upload whose payment is recorded. -/
structure PaidUp (c : Checked) (w w' : World) : Prop where
  paid : ∃ r ∈ w'.db.reservations, r.id = c.reservation.id ∧ r.status = .paid
  pins : w'.db.pins = w.db.pins
  claims : w'.db.claims = w.db.claims
  blocked : w'.db.blockedCids = w.db.blockedCids

namespace PaidUp

variable {c : Checked} {b : UploadRequest} {w w' w'' : World}

theorem of_db (h : PaidUp c w w') (hdb : w''.db = w'.db) : PaidUp c w w'' := by
  obtain ⟨hpaid, hpins, hclaims, hblocked⟩ := h
  rw [← hdb] at hpaid hpins hclaims hblocked
  exact ⟨hpaid, hpins, hclaims, hblocked⟩

/-- Recording the payment and marking the reservation. -/
theorem of_recorded (hr : c.reservation ∈ w.db.reservations)
    (hpending : c.reservation.status = .pending) (hw : Waited w w') (cfg : Config)
    (payments : Table Payment) (txId : String) :
    PaidUp c w ((Stmt.markReservationPaid c.reservation.id txId).sem cfg
      { w' with db := { w'.db with payments } }).2 := by
  rw [hw]
  refine ⟨⟨{ c.reservation with status := .paid, paymentTxId := some txId }, ?_, rfl, rfl⟩, rfl,
    rfl, rfl⟩
  change _ ∈ (markReservationPaid { w.db with payments } c.reservation.id txId).reservations
  rw [markReservationPaid, Table.mem_update]
  exact ⟨c.reservation, hr, by rw [if_pos (by simp [hpending])]⟩

/-- Cancelling the reservation cleans up, but for the bytes in Kubo. -/
theorem cancelled_iff (h : PaidUp c w w') (hid : c.reservation.id = b.reservationId)
    (cfg : Config) :
    CleanedUp b w ((Stmt.markReservationCancelled c.reservation.id).sem cfg w').2 ↔
      w'.kubo ⊆ w.kubo := by
  constructor
  · exact fun hc => hc.kubo
  · intro hkubo
    obtain ⟨r, hr, hrid, hpaid⟩ := h.paid
    refine ⟨⟨{ r with status := .cancelled }, ?_, hrid.trans hid, rfl⟩, fun p hp _ => ?_,
      fun d hd => ?_, hkubo⟩
    · change _ ∈ (markReservationCancelled w'.db c.reservation.id).reservations
      rw [markReservationCancelled, Table.mem_update]
      exact ⟨r, hr, by rw [if_pos (by simp [hrid, hpaid])]⟩
    · rw [← h.pins]
      exact hp
    · rw [← h.claims]
      exact hd

/-- Without a cancellation the reservation stays paid. -/
theorem not_cleanedUp (h : PaidUp c w w') (hid : c.reservation.id = b.reservationId) :
    ¬ CleanedUp b w w' := by
  intro hc
  obtain ⟨r, hr, hrid, hpaid⟩ := h.paid
  obtain ⟨r', hr', hrid', hcancelled⟩ := hc.cancelled
  have heq : r' = r := Table.eq_of_key hr' hr (hrid'.trans (hid.symm.trans hrid.symm))
  rw [heq, hpaid] at hcancelled
  cases hcancelled

end PaidUp

/-- No payment was recorded, or the upload succeeded, or it cleaned up exactly if it should. -/
def Tidied {cfg : Config} {α : Type} (o : Outside (machine cfg)) (b : UploadRequest) (w : World)
    (s : Solo (machine cfg) α) : Prop :=
  s.final.db.payments = w.db.payments ∨ (∃ a, s.result = .ok a) ∨
    (CleanedUp b w s.final ↔ Undone o b w)

section Walk

variable {cfg : Config} {o : Outside (machine cfg)} {b : UploadRequest} {c : Checked}
  {w v : World} {cs : List Call}

theorem tidied_finishUpload {paymentId : Nat} {paid : Coins} {currency : String}
    (h : PaidUp c w v) (hid : c.reservation.id = b.reservationId)
    (hadd : o.answer (.kuboAdd b.file) = true) (hadded : o.answer (.kuboAdded b.file) = .ok ())
    (hallowed : isCidBlocked w.db b.file = false) :
    (finishUpload b c paymentId paid currency).Comes o (Tidied o b w) cs v := by
  refine comes_liftExcept (fun e _ => ?_) (fun sizeMB _ => ?_)
  · refine Or.inr (Or.inr (iff_of_false (h.not_cleanedUp hid) ?_))
    simp [Undone, hadd, hadded, hallowed]
  · exact comes_clock (comes_transact (comes_ask (Or.inr (Or.inl ⟨_, rfl⟩))))

/-- Kubo has the bytes in addition to what it had. -/
theorem insert_subset_self_iff {file : Cid} {kubo : Finset Cid} :
    insert file kubo ⊆ kubo ↔ file ∈ kubo := by
  rw [Finset.insert_subset_iff]
  exact and_iff_left (Finset.Subset.refl _)

/-- Everything after the payments row and the reservation's mark. -/
theorem tidied_pinned {α : Type} {f : Except String Unit → Handler cfg α}
    (h : PaidUp c w v) (hkubo : v.kubo = w.kubo)
    (hrefused : ∀ e cs v', PaidUp c w v' → (v'.kubo ⊆ w.kubo ↔ Undone o b w) →
      (f (.error e)).Comes o (Tidied o b w) cs v')
    (hpinned : o.answer (.kuboAdd b.file) = true → o.answer (.kuboAdded b.file) = .ok () →
      ∀ cs v', PaidUp c w v' → v'.kubo = insert b.file w.kubo →
        (f (.ok ())).Comes o (Tidied o b w) cs v') :
    (Prog.bind (pinFile b.file) f).Comes o (Tidied o b w) cs v := by
  refine comes_bind (comes_call (fun v₁ hv₁ => ?_))
  have hpaid := h.of_db hv₁.db_eq
  have hsame : v₁.kubo = w.kubo := hv₁.kubo_eq.trans hkubo
  cases hadd : o.answer (.kuboAdd b.file) with
  | false =>
    refine hrefused _ _ v₁ hpaid (iff_of_true ?_ (by simp [Undone, hadd]))
    rw [hsame]
  | true =>
    refine comes_transact (comes_call (fun v₂ hv₂ => ?_))
    have hin : v₂.kubo = insert b.file w.kubo := by
      rw [hv₂.kubo_eq, ← hsame]
      rfl
    have hpaid₂ : PaidUp c w v₂ := hpaid.of_db hv₂.db_eq
    cases hadded : o.answer (.kuboAdded b.file) with
    | error e =>
      refine hrefused e _ v₂ hpaid₂ ?_
      rw [hin, insert_subset_self_iff]
      simp [Undone, hadd, hadded]
    | ok u => exact hpinned hadd hadded _ v₂ hpaid₂ hin

/-- The exit for bytes that are blocked. -/
theorem tidied_blocked {α : Type} {f : Except String Unit → Handler cfg α}
    (hpaid : PaidUp c w v) (hin : v.kubo = insert b.file w.kubo)
    (hadd : o.answer (.kuboAdd b.file) = true) (hadded : o.answer (.kuboAdded b.file) = .ok ())
    (hblocked : isCidBlocked w.db b.file = true)
    (hok : ∀ r cs v', PaidUp c w v' → (v'.kubo ⊆ w.kubo ↔ Undone o b w) →
      (f r).Comes o (Tidied o b w) cs v') :
    (Prog.bind (unpin b.file) f).Comes o (Tidied o b w) cs v := by
  refine comes_bind (comes_call (fun v₁ hv₁ => ?_))
  have hpaid₁ := hpaid.of_db hv₁.db_eq
  have hsame : v₁.kubo = insert b.file w.kubo := hv₁.kubo_eq.trans hin
  cases hrem : o.answer (.kuboRemove b.file) with
  | true =>
    refine comes_transact (comes_call (fun v₂ hv₂ => ?_))
    have hout : v₂.kubo = (insert b.file w.kubo).erase b.file := by
      rw [hv₂.kubo_eq, ← hsame]
      rfl
    refine hok _ _ v₂ (hpaid₁.of_db hv₂.db_eq) (iff_of_true ?_ ?_)
    · rw [hout]
      exact Finset.erase_insert_subset _ _
    · simp [Undone, hadd, hadded, hblocked, hrem]
  | false =>
    refine comes_call (fun v₂ hv₂ => hok _ _ v₂ (hpaid₁.of_db hv₂.db_eq) ?_)
    rw [hv₂.kubo_eq, hsame, insert_subset_self_iff]
    simp [Undone, hadd, hadded, hblocked, hrem]

/-- Nothing has been recorded. -/
theorem Waited.tidied {α : Type} {r : Except Fault α} (h : Waited w v) :
    Tidied o b w ({ asked := cs, result := r, final := v } : Solo (machine cfg) α) :=
  Or.inl (congrArg Db.payments h.db_eq)

theorem waited_bindUploaderKey {pubkey : String} (hv : Waited w v) :
    (bindUploaderKey c pubkey).Comes o (fun s => Waited w s.final) cs v := by
  unfold bindUploaderKey
  split
  · refine comes_call (fun v₁ hv₁ => ?_)
    have hidle := hv.trans hv₁
    cases o.answer (.getAccountPostingPubkeys c.reservation.uploader) with
    | error e => exact hidle
    | ok keys =>
      dsimp only
      unfold Prog.require
      split
      · exact hidle
      · exact hidle
  · exact hv

theorem waited_verifyPayment {txId : String} {sender : Account} {memo : String} {amount : Number}
    (hv : Waited w v) :
    (verifyPayment txId sender memo amount).Comes o (fun s => Waited w s.final) cs v := by
  refine comes_call (fun v₁ hv₁ => ?_)
  have hidle := hv.trans hv₁
  cases o.answer (.getTransaction txId) with
  | error e => exact hidle
  | ok operations =>
    refine comes_liftExcept (fun _ _ => hidle) (fun payload _ => ?_)
    cases validateTransferPayload cfg payload memo amount with
    | error e => exact hidle
    | ok paid => exact hidle

/-- A payment check that fails records nothing, and one that passes only waits. -/
theorem comes_uploadPayment {txId : String} (hv : Waited w v) :
    (uploadPayment c txId).Comes o (fun s => match s.result with
      | .ok _ => Waited w s.final
      | .error _ => s.final.db.payments = w.db.payments) cs v := by
  unfold uploadPayment
  split
  · exact hv
  · refine comes_bind ((waited_verifyPayment hv).mono (fun s hs => ?_))
    cases s.result with
    | error e => exact congrArg Db.payments hs.db_eq
    | ok paid =>
      refine comes_call (fun v₁ hv₁ => ?_)
      have hidle := hs.trans hv₁
      have hkept : v₁.db.payments = w.db.payments := congrArg Db.payments hidle.db_eq
      cases o.answer (.verifyHiveEngineSidechain txId) with
      | error e => exact comes_transact hkept
      | ok r =>
        cases r with
        | rejected errors => exact comes_transact hkept
        | pending => exact comes_transact hkept
        | confirmed => exact comes_call (fun v₂ hv₂ => hidle.trans hv₂)

/-- A payments row that is refused leaves nothing. -/
theorem tidied_record {α : Type} {p : NewPayment} {f : Nat → Handler cfg α} (hv : Waited w v)
    (hok : ∀ id payments, (f id).Comes o (Tidied o b w) cs { v with db := { v.db with payments } }) :
    (Prog.bind (transact (.recordPayment p)) (fun r => Prog.bind (Prog.liftExcept r) f)).Comes o
      (Tidied o b w) cs v := by
  change (Prog.bind (Prog.liftExcept (Stmt.fallible v
    (Quota.recordPayment v.db v.now p)).1) f).Comes o (Tidied o b w) cs (Stmt.fallible v
    (Quota.recordPayment v.db v.now p)).2
  cases hrec : Quota.recordPayment v.db v.now p with
  | error e => exact hv.tidied
  | ok out =>
    obtain ⟨id, after⟩ := out
    obtain ⟨payments, rfl⟩ := recordPayment_writes hrec
    exact hok id payments

theorem tidied_storeUpload (hid : c.reservation.id = b.reservationId)
    (hr : c.reservation ∈ w.db.reservations) (hpending : c.reservation.status = .pending) :
    (storeUpload b c).Comes o (Tidied o b w) [] w := by
  refine comes_call (fun w₁ hw₁ => ?_)
  cases o.answer (.hashFile b.file) with
  | error e => exact hw₁.tidied
  | ok u =>
    refine comes_require (fun _ => hw₁.tidied) (fun _ => comes_require (fun _ => hw₁.tidied)
      (fun _ => comes_bind ((waited_bindUploaderKey hw₁).mono (fun s hs => ?_))))
    cases s.result with
    | error e => exact hs.tidied
    | ok u =>
      refine comes_ask (comes_require (fun _ => hs.tidied) (fun _ => ?_))
      refine comes_bind ((comes_uploadPayment hs).mono (fun s' hs' => ?_))
      generalize s'.final = w₂ at hs'
      cases hpay : s'.result with
      | error e =>
        rw [hpay] at hs'
        exact Or.inl hs'
      | ok payResult =>
        rw [hpay] at hs'
        refine tidied_record hs' (fun paymentId payments => comes_transact ?_)
        refine tidied_pinned (.of_recorded hr hpending hs' cfg payments _) hs'.kubo_eq
          (fun e cs v hpaid hk => ?_) (fun hadd hadded cs v hpaid hin => comes_ask ?_)
        · refine comes_transact (Or.inr (Or.inr ?_))
          exact (hpaid.cancelled_iff hid cfg).trans hk
        · have hblocked : isCidBlocked v.db b.file = isCidBlocked w.db b.file := by
            rw [isCidBlocked, isCidBlocked, hpaid.blocked]
          rw [hblocked]
          split
          · rename_i hin'
            refine tidied_blocked hpaid hin hadd hadded hin' (fun r cs v' hp hk => ?_)
            refine comes_transact (Or.inr (Or.inr ?_))
            exact (hp.cancelled_iff hid cfg).trans hk
          · rename_i hallowed
            exact tidied_finishUpload hpaid hid hadd hadded (Bool.not_eq_true _ ▸ hallowed)

theorem tidied_upload (b : UploadRequest) : (upload b).Comes o (Tidied o b w) [] w := by
  refine comes_clock (comes_ask (comes_liftExcept (fun _ _ => Or.inl rfl) (fun c hc => ?_)))
  obtain ⟨hfind, hchecked, _⟩ := checkUpload_ok hc
  obtain ⟨hr, hid⟩ := Table.find?_eq_some.mp hfind
  exact tidied_storeUpload hid hr (pending_of_checkReservation hchecked)

end Walk

/-- From every world, an upload that fails after its payment is recorded leaves nothing
half-created exactly if the answers it got let it undo what it did. -/
theorem cleanedUp_iff (cfg : Config) (o : Outside (machine cfg)) (b : UploadRequest) (w : World)
    (h : FailsPaid cfg o b w) :
    CleanedUp b w (lone cfg o (.upload b) w).final ↔ Undone o b w := by
  have htidied : (handle cfg (.upload b)).Comes o (Tidied o b w) [] w := by
    refine comes_map ((tidied_upload b).mono (fun s hs => ?_))
    rcases hs with hsame | ⟨a, ha⟩ | hiff
    · exact Or.inl hsame
    · exact Or.inr (Or.inl ⟨.upload a, by rw [ha]; rfl⟩)
    · exact Or.inr (Or.inr hiff)
  rcases htidied with hsame | ⟨a, ha⟩ | hiff
  · exact absurd (congrArg (fun t => t.rows.length) hsame).symm (Nat.ne_of_lt h.recorded)
  · have hfailed := h.failed
    rw [lone, ha] at hfailed
    cases hfailed
  · exact hiff

section Sampled

open Sample

/-- The upload for reservation 1, which Alice has paid. -/
def bafyUpload : UploadRequest where
  reservationId := 1
  txId := memoForReservation 1
  uploaderPubkey := "posting-key"
  uploadProofSig := "signature"
  file := "bafy"
  mime := "text/plain"
  releasePolicy := none
  receiptHash := ""

/-- Kubo refuses to add files. -/
def kuboRefuses : Outside (machine config) where
  answer
    | .kuboAdd _ => false
    | c => answer c
  delay := fun _ => 0

theorem cleanedUp_refused :
    FailsPaid config kuboRefuses bafyUpload reservedByAlice ∧
      CleanedUp bafyUpload reservedByAlice
        (lone config kuboRefuses (.upload bafyUpload) reservedByAlice).final := by
  have hfails : FailsPaid config kuboRefuses bafyUpload reservedByAlice :=
    ⟨by decide +kernel, by decide +kernel⟩
  exact ⟨hfails, (cleanedUp_iff config kuboRefuses bafyUpload reservedByAlice
    hfails).mpr trivial⟩

/-- Every file is empty. -/
def emptyFiles : Config := { config with byteCount := fun _ => 0 }

/-- Kubo pins a file and then fails to say so. -/
def kuboStalls : Outside (machine config) where
  answer
    | .kuboAdded _ => .error "socket hang up"
    | c => answer c
  delay := fun _ => 0

/-- The answers when everything works. -/
def emptyWorks : Outside (machine emptyFiles) := { answer, delay := fun _ => 0 }

/-- An empty file stays pinned under a reservation that stays paid, and a file whose add got no
answer stays pinned. -/
theorem upload_half_created :
    (FailsPaid emptyFiles emptyWorks bafyUpload reservedByAlice ∧
      ¬ CleanedUp bafyUpload reservedByAlice
        (lone emptyFiles emptyWorks (.upload bafyUpload) reservedByAlice).final) ∧
    FailsPaid config kuboStalls bafyUpload reservedByAlice ∧
      ¬ CleanedUp bafyUpload reservedByAlice
        (lone config kuboStalls (.upload bafyUpload) reservedByAlice).final := by
  refine ⟨⟨⟨by decide +kernel, by decide +kernel⟩, fun h => ?_⟩,
    ⟨by decide +kernel, by decide +kernel⟩, fun h => ?_⟩
  · have hkubo : "bafy" ∈ (lone emptyFiles emptyWorks (.upload bafyUpload)
        reservedByAlice).final.kubo := by decide +kernel
    exact absurd (h.kubo hkubo) (by decide +kernel)
  · have hkubo : "bafy" ∈ (lone config kuboStalls (.upload bafyUpload)
        reservedByAlice).final.kubo := by decide +kernel
    exact absurd (h.kubo hkubo) (by decide +kernel)

end Sampled

end IpfsGate.Server
