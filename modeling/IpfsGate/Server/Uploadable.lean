import IpfsGate.Server.Quotes
import IpfsGate.Server.Retries

/-!
# What can be reserved can be uploaded

An upload is checked once more before its payment is looked at. Every field that `/reserve` has
accepted passes there, except the name of the account, which only the upload proof looks at.
-/
namespace IpfsGate.Server

open Quota LedgerRun
open Lib Lib.Prog
open Lib (Outside Pool Leads Table)

/-! ## An upload up to its payment -/

/-- Everything an upload is checked for before its payment. -/
def uploadChecks {cfg : Config} (b : UploadRequest) : Handler cfg Checked := do
  let now ← clock
  let c ← liftExcept (← ask (fun db => checkUpload cfg db now b))
  match ← perform (.hashFile b.file) with
  | .error e => .fail ⟨"internal_error", e⟩
  | .ok () =>
    require (isAccountName c.reservation.uploader)
      ⟨"internal_error", "uploader must be a valid Hive account name"⟩
    require (cfg.verifyHiveSig (uploadProofMessage cfg b.file c.reservation) b.uploadProofSig
      b.uploaderPubkey) ⟨"unauthorized", "upload_proof_sig verification failed"⟩
    bindUploaderKey c b.uploaderPubkey
    return c

/-- The payment of an upload, and what follows it. -/
def uploadPaid {cfg : Config} (b : UploadRequest) (c : Checked) : Handler cfg UploadReply := do
  let r := c.reservation
  let effectiveTxId := if c.feeExempt then s!"whitelist-free:upload:{r.id}" else b.txId
  require (← ask (fun db => (getPaymentByTxId db effectiveTxId).isNone))
    ⟨"conflict", "tx_id already used"⟩
  let payResult ← uploadPayment c b.txId
  let paymentId ← liftExcept (← transact (.recordPayment
    { txId := effectiveTxId, reservationId := some r.id, uploader := r.uploader,
      currency := payResult.currency, amount := payResult.amount.value,
      memo := memoForReservation r.id, status := .confirmed }))
  let _ ← transact (.markReservationPaid r.id effectiveTxId)
  match ← pinFile b.file with
  | .error e =>
    let _ ← transact (.markReservationCancelled r.id)
    .fail ⟨"bad_gateway", e⟩
  | .ok () =>
    if ← ask (fun db => isCidBlocked db b.file) then
      let _ ← unpin b.file
      let _ ← transact (.markReservationCancelled r.id)
      .fail blockedFault
    else finishUpload b c paymentId payResult.amount.value payResult.currency

section Checks

variable {cfg : Config} {o : Outside (machine cfg)} {w : World}

/-- The handler makes the checks and goes on to the payment. -/
theorem upload_eq (b : UploadRequest) :
    (upload b : Handler cfg UploadReply) = (uploadChecks b).bind (uploadPaid b) := by
  unfold upload uploadChecks
  simp only [Prog.bind_eq, bind_assoc]
  congr 1
  funext now
  congr 1
  funext checked
  congr 1
  funext c
  show (perform (.hashFile b.file)).bind _ = _
  congr 1
  funext r
  cases r with
  | error e => rfl
  | ok u =>
    simp only [bind_assoc]
    rfl

/-- What passes the checks has an account name for its uploader. -/
theorem name_of_checked {b : UploadRequest} {c : Checked}
    (h : ((uploadChecks b).solo o [] w).result = .ok c) :
    getReservation w.db b.reservationId = some c.reservation ∧
      isAccountName c.reservation.uploader = true := by
  have hcomes : (uploadChecks b).Comes o (fun s => ∀ c, s.result = .ok c →
      getReservation w.db b.reservationId = some c.reservation ∧
        isAccountName c.reservation.uploader = true) [] w := by
    have hfailed : ∀ {e : Fault} (c : Checked), (Except.error e : Except Fault Checked) = .ok c →
        getReservation w.db b.reservationId = some c.reservation ∧
          isAccountName c.reservation.uploader = true := by
      intro e c h
      cases h
    refine comes_clock (comes_ask (comes_liftExcept (fun e _ => hfailed) (fun c hc => ?_)))
    refine comes_call (fun w₁ _ => ?_)
    cases o.answer (.hashFile b.file) with
    | error e => exact hfailed
    | ok u =>
      refine comes_require (fun _ => hfailed) (fun hname => ?_)
      refine comes_require (fun _ => hfailed) (fun _ => ?_)
      refine comes_bind (Comes.mono (Q := fun _ => True) trivial (fun s _ => ?_))
      cases s.result with
      | error e => exact hfailed
      | ok u =>
        intro c' hc'
        cases hc'
        exact ⟨(checkUpload_ok hc).1, hname⟩
  exact hcomes c h

/-- What a wallet brings to an upload: a signature under a posting key of the account. -/
structure Signer (cfg : Config) (o : Outside (machine cfg)) (account : Account) : Prop where
  signs : ∃ keys, o.answer (.getAccountPostingPubkeys account) = .ok keys ∧
    ∀ message, ∃ pubkey ∈ keys, pubkey ≠ "" ∧
      ∃ sig, sig ≠ "" ∧ cfg.verifyHiveSig message sig pubkey = true

/-- The reservation can be used now: it is pending, unexpired, and its account is let in. -/
structure Usable (cfg : Config) (w : World) (r : Reservation) : Prop where
  found : getReservation w.db r.id = some r
  pending : r.status = .pending
  unexpired : w.now ≤ r.expiresAt
  unbanned : isAccountBanned w.db r.uploader = false
  admitted : admits cfg w.db r.uploader = true

/-- The upload that a browser sends for a reservation. -/
def uploadFor (r : Reservation) (file : Cid) (pubkey sig : String) : UploadRequest :=
  { reservationId := r.id, txId := memoForReservation r.id, uploaderPubkey := pubkey,
    uploadProofSig := sig, file, mime := "text/plain", releasePolicy := none, receiptHash := "" }

theorem memoForReservation_ne_empty (id : Nat) : memoForReservation id ≠ "" := by
  intro h
  have happend : (memoForReservation id).toList = "ipfs-gate:upload:".toList ++ id.repr.toList :=
    String.toList_append
  rw [h] at happend
  exact absurd (List.append_eq_nil_iff.mp happend.symm).1 (by decide)

theorem checkUpload_uploadFor {r : Reservation} {file : Cid} {pubkey sig : String}
    (h : Usable cfg w r) (hsize : cfg.byteCount file ≤ r.sizeBytes)
    (hmax : r.sizeBytes ≤ cfg.maxFileSizeBytes) (hpubkey : pubkey ≠ "") (hsig : sig ≠ "") :
    ∃ c, checkUpload cfg w.db w.now (uploadFor r file pubkey sig) = .ok c ∧ c.reservation = r := by
  have hchecked : checkReservation w.now (cfg.byteCount file) r = .ok () := by
    unfold checkReservation
    rw [if_neg (by rw [h.pending]; decide), if_neg (not_not_intro h.pending),
      if_neg (by have := h.unexpired; omega), if_neg (by omega)]
  have hmime : ∃ mime, parseMime cfg r.mode "text/plain" = .ok mime := by
    cases r.mode with
    | encrypted => exact ⟨_, rfl⟩
    | «public» =>
      have hvalid : (mimeRe "text/plain" && "text/plain".toList.length ≤ 255) = true := by
        decide +kernel
      refine ⟨some (cfg.toLowerCase "text/plain"), ?_⟩
      unfold parseMime
      exact if_pos hvalid
  obtain ⟨mime, hmime⟩ := hmime
  refine ⟨{ reservation := r, mime, releasePolicy := none, receiptHash := none,
            feeExempt := isFeeExemptUpload cfg w.db r }, ?_, rfl⟩
  have hsent : (pubkey ≠ "" && sig ≠ "") = true := by simp [hpubkey, hsig]
  have hpaid : (isFeeExemptUpload cfg w.db r || memoForReservation r.id ≠ "") = true := by
    simp [memoForReservation_ne_empty]
  unfold checkUpload uploadFor
  simp only [hsent, h.found, hchecked, hmime, h.unbanned, h.admitted, hpaid, check,
    Nat.le_trans hsize hmax, parsePolicy, parseReceiptHash]
  rfl

/-- With an account name, everything before the payment can be satisfied. -/
theorem checked_of_name {r : Reservation} {file : Cid} (h : Usable cfg w r)
    (hsize : cfg.byteCount file ≤ r.sizeBytes) (hmax : r.sizeBytes ≤ cfg.maxFileSizeBytes)
    (hhash : o.answer (.hashFile file) = .ok ()) (hsigner : Signer cfg o r.uploader)
    (hname : isAccountName r.uploader = true) :
    ∃ pubkey sig c, ((uploadChecks (uploadFor r file pubkey sig)).solo o [] w).result = .ok c := by
  obtain ⟨keys, hkeys, hsigns⟩ := hsigner.signs
  obtain ⟨pubkey, hmem, hpubkey, sig, hsig, hverify⟩ := hsigns (uploadProofMessage cfg file r)
  obtain ⟨c, hc, rfl⟩ := checkUpload_uploadFor h hsize hmax hpubkey hsig
  refine ⟨pubkey, sig, c, ?_⟩
  have hcomes : (uploadChecks (uploadFor c.reservation file pubkey sig)).Comes o
      (fun s => s.result = .ok c) [] w := by
    refine comes_clock (comes_ask ?_)
    rw [hc]
    refine comes_call (fun w₁ _ => ?_)
    have hhashed : o.answer (.hashFile (uploadFor c.reservation file pubkey sig).file) = .ok () :=
      hhash
    rw [hhashed]
    refine comes_require (fun hno => absurd hname (Bool.eq_false_iff.mp hno)) (fun _ => ?_)
    refine comes_require (fun hno => absurd hverify (Bool.eq_false_iff.mp hno)) (fun _ => ?_)
    unfold bindUploaderKey
    by_cases hfee : c.feeExempt = true
    · rw [if_pos hfee]
      refine comes_bind (comes_call (fun w₂ _ => ?_))
      rw [hkeys]
      have hcontains : keys.contains pubkey = true := List.contains_iff_mem.mpr hmem
      show Comes o _ (require (keys.contains pubkey) _) _ _
      rw [hcontains]
      rfl
    · rw [if_neg hfee]
      rfl
  exact hcomes

end Checks

/-! ## The reservation of an answered request -/

section Answered

variable {cfg : Config} {b : ReserveRequest} {reply : ReserveReply}

/-- The reservation that a request was answered with, as it asked for it. -/
structure ReservedFor (cfg : Config) (b : ReserveRequest) (reply : ReserveReply)
    (r : Reservation) : Prop where
  id : r.id = reply.reservationId
  uploader : r.uploader = cfg.toLowerCase b.uploader
  sizeBytes : r.sizeBytes = b.sizeBytes
  mode : r.mode = reply.mode

theorem ReservedFor.kept {r r' : Reservation} (h : ReservedFor cfg b reply r)
    (hkept : Proceeds r r') : ReservedFor cfg b reply r' := by
  rw [hkept.terms]
  exact ⟨h.id, h.uploader, h.sizeBytes, h.mode⟩

theorem mem_createReservation {db after : Db} {t : Int} {uploader : Account} {sizeBytes : Nat}
    {mode : Mode} {quote : ReservationQuote} {out : Reserved}
    (h : createReservation cfg db t uploader sizeBytes mode quote = .ok (out, after)) :
    ∃ r ∈ after.reservations, r.id = out.id ∧ r.uploader = uploader ∧ r.sizeBytes = sizeBytes ∧
      r.mode = mode := by
  unfold createReservation at h
  iterate 7 (split at h; · cases h)
  split at h
  · cases h
  · cases h
    exact ⟨_, Table.mem_insert.mpr (Or.inr rfl), rfl, rfl, rfl, rfl⟩

theorem reserve_creates (b : ReserveRequest) (w : World) :
    (reserve b : Handler cfg ReserveReply).Turns (M := machine cfg)
      (fun stop w' => ∀ reply, stop = .finished (.ok reply) →
        b.sizeBytes ≤ cfg.maxFileSizeBytes ∧
          ∃ r ∈ w'.db.reservations, ReservedFor cfg b reply r) w := by
  have hrefused : ∀ {e : Fault} {w' : World} reply,
      (Stop.finished (.error e) : Stop (machine cfg) ReserveReply) = .finished (.ok reply) →
        b.sizeBytes ≤ cfg.maxFileSizeBytes ∧
          ∃ r ∈ w'.db.reservations, ReservedFor cfg b reply r := by
    intro e w' reply h
    cases h
  unfold reserve
  refine turns_require (fun _ => hrefused) (fun _ => ?_)
  refine turns_require (fun _ => hrefused) (fun hmax => ?_)
  split
  · exact hrefused
  · refine turns_require (fun _ => hrefused) (fun _ => ?_)
    refine turns_liftExcept (fun _ _ => hrefused) (fun q hq => ?_)
    refine turns_liftExcept (fun _ _ => hrefused) (fun out hout => ?_)
    intro reply hreply
    cases hreply
    obtain ⟨r, hr, hid, huploader, hsize, hmode⟩ := mem_createReservation (fallible_ok hout)
    exact ⟨of_decide_eq_true hmax, r, hr, hid, huploader, hsize, hmode⟩

/-- Whatever the gate does next, the reservation stays as it was asked for. -/
theorem reservedFor_run {S : Gate cfg} (h : reserveReply S b = some reply)
    (later : List (GateEvent cfg)) :
    b.sizeBytes ≤ cfg.maxFileSizeBytes ∧
      ∃ r ∈ (S.run (handle cfg) (.spawn (.reserve b) :: later)).world.db.reservations,
        ReservedFor cfg b reply r := by
  obtain ⟨hmax, hrow⟩ := of_reserveReply
    (Q := fun reply db => b.sizeBytes ≤ cfg.maxFileSizeBytes ∧
      ∃ r ∈ db.reservations, ReservedFor cfg b reply r) (reserve_creates b S.world) h
  refine ⟨hmax, ?_⟩
  refine ((show Leads (machine cfg) (S.step (handle cfg) (.spawn (.reserve b))).world _
    ((S.step (handle cfg) (.spawn (.reserve b))).run (handle cfg) later).world from
    Pool.leads_run _ later).invariant
    (P := fun w : World => ∃ r ∈ w.db.reservations, ReservedFor cfg b reply r)
    (fun _ _ hw => hw) (fun a _ hw => ?_) hrow).1
  obtain ⟨r, hr, hfor⟩ := hw
  obtain ⟨r', hr', hkept⟩ := proceeds_sem cfg a.1 a.2 r hr
  exact ⟨r', hr', hfor.kept hkept⟩

end Answered

/-- At any time at which the reservation of an answered request is still good, an upload of any
file within the reserved size passes everything before its payment, under some key and
signature, exactly if the account that reserved has an account name. -/
theorem uploadable_iff (cfg : Config) (o : Outside (machine cfg)) (S : Gate cfg)
    (b : ReserveRequest) (reply : ReserveReply) (haccepts : reserveReply S b = some reply)
    (later : List (GateEvent cfg)) (w : World)
    (hlater : w = (S.run (handle cfg) (.spawn (.reserve b) :: later)).world)
    (husable : ∀ r ∈ w.db.reservations, r.id = reply.reservationId → Usable cfg w r)
    (file : Cid) (hsize : cfg.byteCount file ≤ b.sizeBytes)
    (hhash : o.answer (.hashFile file) = .ok ())
    (hsigner : Signer cfg o (cfg.toLowerCase b.uploader)) :
    (∃ u : UploadRequest, u.reservationId = reply.reservationId ∧ u.file = file ∧
      ∃ c, ((uploadChecks u).solo o [] w).result = .ok c) ↔
      isAccountName (cfg.toLowerCase b.uploader) = true := by
  obtain ⟨hmax, r, hr, hfor⟩ := reservedFor_run haccepts later
  rw [← hlater] at hr
  have hgood := husable r hr hfor.id
  constructor
  · rintro ⟨u, hid, _, c, hc⟩
    obtain ⟨hfound, hname⟩ := name_of_checked hc
    have hsame : c.reservation = r := by
      rw [hid, ← hfor.id, hgood.found] at hfound
      exact (Option.some.inj hfound).symm
    rw [hsame, hfor.uploader] at hname
    exact hname
  · intro hname
    rw [← hfor.uploader] at hname hsigner
    obtain ⟨pubkey, sig, c, hc⟩ := checked_of_name hgood (hfor.sizeBytes ▸ hsize)
      (hfor.sizeBytes ▸ hmax) hhash hsigner hname
    exact ⟨uploadFor r file pubkey sig, hfor.id, rfl, c, hc⟩

section Sampled

open Sample

theorem signer_reachable (account : Account) : Signer config reachable account where
  signs := ⟨["posting-key"], rfl, fun _ => ⟨"posting-key", List.mem_cons_self, by decide,
    "signature", by decide, rfl⟩⟩

/-- A request for a hundred bytes, public. -/
def reserveAs (uploader : String) : ReserveRequest :=
  { uploader, sizeBytes := 100, mode := "public", hoursRequested := none, copies := none }

/-- The world right after the request. -/
def afterReserve (uploader : String) : World :=
  (bootGate.run (handle config) [.spawn (.reserve (reserveAs uploader))]).world

theorem uploadable_alice : ∃ reply, reserveReply bootGate (reserveAs "alice") = some reply ∧
    ∃ u : UploadRequest, u.reservationId = reply.reservationId ∧ u.file = "bafy" ∧
      ∃ c, ((uploadChecks u).solo reachable [] (afterReserve "alice")).result = .ok c := by
  obtain ⟨reply, hreply⟩ := Option.isSome_iff_exists.mp
    (by decide +kernel : (reserveReply bootGate (reserveAs "alice")).isSome = true)
  refine ⟨reply, hreply, (uploadable_iff config reachable bootGate (reserveAs "alice") reply hreply
    [] (afterReserve "alice") rfl ?_ "bafy" (by decide) rfl
    (signer_reachable _)).mpr (by decide)⟩
  have hrows : ∀ r ∈ (afterReserve "alice").db.reservations,
      getReservation (afterReserve "alice").db r.id = some r ∧ r.status = .pending ∧
        (afterReserve "alice").now ≤ r.expiresAt ∧
        isAccountBanned (afterReserve "alice").db r.uploader = false ∧
        admits config (afterReserve "alice").db r.uploader = true := by decide +kernel
  intro r hr _
  obtain ⟨hfound, hpending, hunexpired, hunbanned, hadmitted⟩ := hrows r hr
  exact ⟨hfound, hpending, hunexpired, hunbanned, hadmitted⟩

/-- A reservation for `@alice` is answered with payment instructions, and no upload under it
passes the checks. -/
theorem reservation_unusable :
    ∃ reply, reserveReply bootGate (reserveAs "@alice") = some reply ∧
      ∀ u : UploadRequest, u.reservationId = reply.reservationId →
        ∀ (o : Outside (machine config)) (c : Checked),
          ((uploadChecks u).solo o [] (afterReserve "@alice")).result ≠ .ok c := by
  obtain ⟨reply, hreply⟩ := Option.isSome_iff_exists.mp
    (by decide +kernel : (reserveReply bootGate (reserveAs "@alice")).isSome = true)
  refine ⟨reply, hreply, ?_⟩
  intro u hid o c hc
  obtain ⟨hfound, hname⟩ := name_of_checked hc
  have hrows : ∀ r ∈ (afterReserve "@alice").db.reservations,
      isAccountName r.uploader = false := by decide +kernel
  rw [hrows _ (Table.find?_eq_some.mp hfound).1] at hname
  cases hname

end Sampled

end IpfsGate.Server
