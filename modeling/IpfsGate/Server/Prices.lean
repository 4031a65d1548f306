import IpfsGate.Server.Authority

/-!
# What a claim was paid, and what it costs

A claim locks a rate when it is created, and a later refund is computed from it. The payment
covers the price at the locked rate, because the quote, the payment and the rate are taken from
one exemption; an upload takes the quote from its reservation and the rate from the account.
-/
namespace IpfsGate.Server

open Quota Pricing LedgerRun
open Lib Lib.Prog
open Lib (Table Number)

/-! ## Sizes -/

/-- Pins and claims have the size of the file their CID names. -/
structure Sourced (cfg : Config) (db : Db) : Prop where
  pins : ∀ p ∈ db.pins, p.sizeBytes = cfg.byteCount p.cid
  claims : ∀ c ∈ db.claims, c.sizeBytes = cfg.byteCount c.cid

section Sizes

variable {cfg : Config} {db : Db} {t : Int}

theorem sourced_promotedPin (h : Sourced cfg db) {g : Claim} (hg : g ∈ db.claims) :
    (promotedPin db t g).sizeBytes = cfg.byteCount (promotedPin db t g).cid := by
  change ((getLatestPinInfoForCid db g.cid).getD _).sizeBytes = cfg.byteCount g.cid
  cases hinfo : getLatestPinInfoForCid db g.cid with
  | none => exact h.claims g hg
  | some info =>
    obtain ⟨p, hp, hcid, hsize⟩ := getLatestPinInfoForCid_mem hinfo
    rw [Option.getD_some, hsize, h.pins p hp, hcid]

theorem durable_sourced (cfg : Config) : Durable (Sourced cfg) where
  same := fun _ _ hpins hclaims h => ⟨hpins ▸ h.pins, hclaims ▸ h.claims⟩
  endPins := by
    refine fun db t status reason select _ h => ⟨fun p hp => ?_, h.claims⟩
    obtain ⟨q, hq, rfl⟩ := mem_endPins.mp hp
    rw [leftPin_sizeBytes, leftPin_cid]
    exact h.pins q hq
  closeClaims := by
    refine fun db state select _ _ h => ⟨h.pins, fun c hc => ?_⟩
    obtain ⟨d, hd, rfl⟩ := mem_closeClaims.mp hc
    rw [closedClaim_sizeBytes, closedClaim_cid]
    exact h.claims d hd
  promote := by
    refine fun db t cid g hg h => ⟨fun p hp => ?_, fun c hc => ?_⟩
    · rcases mem_pins_promote.mp hp with hp | rfl
      · exact h.pins p hp
      · exact sourced_promotedPin h hg.mem
    · obtain ⟨d, hd, rfl⟩ := mem_claims_promote.mp hc
      split <;> exact h.claims d hd
  extend := by
    intro db claimId owner extraHours c after hrun h
    obtain ⟨claim, _, _, _, _, hclaims, hpins⟩ := extendClaim_ok hrun
    refine ⟨fun p hp => ?_, fun c hc => ?_⟩
    · obtain ⟨q, hq, rfl⟩ := (hpins p).mp hp
      rw [extendedPin_sizeBytes, extendedPin_cid]
      exact h.pins q hq
    · obtain ⟨d, hd, rfl⟩ := (hclaims c).mp hc
      rw [extendedClaim_sizeBytes, extendedClaim_cid]
      exact h.claims d hd

theorem Sourced.insertPin (h : Sourced cfg db) {n : NewPin}
    (hn : n.sizeBytes = cfg.byteCount n.cid) : Sourced cfg (insertPin db t n) := by
  refine ⟨fun p hp => ?_, h.claims⟩
  rcases mem_insertPin.mp hp with hp | rfl
  · exact h.pins p hp
  · exact hn

theorem Sourced.createOrderWithClaim (h : Sourced cfg db) {n : NewClaim}
    (hn : n.sizeBytes = cfg.byteCount n.cid) :
    Sourced cfg (createOrderWithClaim db t n).2 := by
  refine ⟨h.pins, fun c hc => ?_⟩
  rcases mem_createOrderWithClaim.mp hc with hc | rfl
  · exact h.claims c hc
  · exact hn

theorem Sourced.latest (h : Sourced cfg db) {cid : Cid} {info : PinInfo}
    (hinfo : getLatestPinInfoForCid db cid = some info) : info.sizeBytes = cfg.byteCount cid := by
  obtain ⟨p, hp, hcid, hsize⟩ := getLatestPinInfoForCid_mem hinfo
  rw [hsize, h.pins p hp, hcid]

theorem Sourced.hosted (h : Sourced cfg db) {cid : Cid} {hosted : Hosted}
    (hh : alreadyHostedForCid db cid = some hosted) : hosted.sizeBytes = cfg.byteCount cid := by
  unfold alreadyHostedForCid at hh
  cases hpins : getActivePinsForCid db cid with
  | nil => rw [hpins] at hh; cases hh
  | cons p rest =>
    rw [hpins] at hh
    cases hh
    have hp : ActivePin db cid p := mem_getActivePinsForCid.mp (hpins ▸ List.mem_cons_self)
    exact (h.pins p hp.mem).trans (congrArg cfg.byteCount hp.cid_eq)

end Sizes

/-! ## Prices -/

/-- What hosting a file of that size on the reservation's terms costs at the gate's rate. -/
def uploadPrice (cfg : Config) (sizeBytes : Nat) (r : Reservation) : Coins :=
  match billableMB cfg sizeBytes with
  | .ok mb => roundCoins cfg (mb * uploadHours cfg r * cfg.ratePerMBHour *
      cappedCopies cfg (.fin r.copies))
  | .error _ => 0

/-- The claim's payment covers its price at the rate it locks. -/
def Priced (cfg : Config) (c : Claim) : Prop :=
  ∃ mb, billableMB cfg c.sizeBytes = .ok mb ∧
    roundCoins cfg (mb * c.paidHours * c.rateLocked * c.copiesRequested) ≤ c.amountPaid

/-- The claim's payment covers its price, and whatever is refunded of it later. -/
structure Escrowed (cfg : Config) (c : Claim) : Prop where
  priced : Priced cfg c
  refunded : ∀ now quote, calculateRefund cfg c now = .ok quote → quote.amount ≤ c.amountPaid

/-- What the gate may charge for. -/
structure Billable (cfg : Config) (c : Claim) : Prop where
  rate : 0 ≤ c.rateLocked
  copies : 1 ≤ c.copiesRequested ∧ c.copiesRequested ≤ getNodeCount cfg
  paid : 0 ≤ c.amountPaid

section Prices

variable {cfg : Config}

theorem roundCoins_mono {x y : ℚ} (h : x ≤ y) : roundCoins cfg x ≤ roundCoins cfg y :=
  roundTo_mono _ h

@[simp] theorem roundCoins_zero : roundCoins cfg 0 = 0 := roundTo_zero _

/-- A bigger file has no fewer megabytes to pay for. -/
theorem billableMB_mono {a b : Nat} {x y : Int} (hab : a ≤ b) (ha : billableMB cfg a = .ok x)
    (hb : billableMB cfg b = .ok y) : x ≤ y := by
  unfold billableMB at ha hb
  have hpos : (0 : ℚ) < cfg.mbDivisor := by exact_mod_cast cfg.mbDivisor_pos
  split at ha
  · cases ha
  · split at hb
    · cases hb
    · cases ha
      cases hb
      have hle : (a : ℚ) / cfg.mbDivisor ≤ b / cfg.mbDivisor := by gcongr
      exact max_le_max le_rfl (Int.ceil_le_ceil hle)

theorem rateFor_nonneg (feeExempt : Bool) : 0 ≤ rateFor cfg feeExempt := by
  unfold rateFor
  split
  · exact le_rfl
  · exact cfg.ratePerMBHour_nonneg

/-- A refund is for hours that were paid, so it is not more than the price. -/
theorem Billable.escrowed {c : Claim} (hb : Billable cfg c) (hp : Priced cfg c) :
    Escrowed cfg c := by
  refine ⟨hp, fun now quote hquote => ?_⟩
  obtain ⟨mb, hmb, hprice⟩ := hp
  have hmb1 : 1 ≤ mb := (billableMB_ok hmb).2
  unfold calculateRefund at hquote
  split at hquote
  · cases hquote
    exact hb.paid
  · rw [hmb] at hquote
    have hcopies := cappedCopies_of_range cfg hb.copies.1 hb.copies.2
    rw [hcopies] at hquote
    set used := max 1 ⌈((now - c.startTs : Int) : ℚ) / hourMs⌉ with hused
    have hused1 : 1 ≤ used := le_max_left _ _
    set refunded := max (c.paidHours - used) 0 with hrefunded
    have hraw : roundCoins cfg (refunded * mb * c.rateLocked * c.copiesRequested) ≤
        c.amountPaid := by
      by_cases hhours : 0 ≤ c.paidHours
      · refine (roundCoins_mono ?_).trans hprice
        have hle : (refunded : ℚ) ≤ c.paidHours := by
          have : refunded ≤ c.paidHours := by omega
          exact_mod_cast this
        have hmb0 : (0 : ℚ) ≤ mb := by exact_mod_cast (by omega : 0 ≤ mb)
        have hc0 : (0 : ℚ) ≤ c.copiesRequested := by
          exact_mod_cast (by have := hb.copies.1; omega : 0 ≤ c.copiesRequested)
        have hr0 := hb.rate
        calc (refunded : ℚ) * mb * c.rateLocked * c.copiesRequested
            ≤ c.paidHours * mb * c.rateLocked * c.copiesRequested := by gcongr
          _ = mb * c.paidHours * c.rateLocked * c.copiesRequested := by ring
      · have hnone : refunded = 0 := by omega
        rw [hnone, Int.cast_zero, zero_mul, zero_mul, zero_mul, roundCoins_zero]
        exact hb.paid
    change (if _ then _ else _) = _ at hquote
    split at hquote
    · cases hquote
      exact hb.paid
    · cases hquote
      exact hraw

theorem quote_positive {mb hrs copies : Int} {rate : ℚ} (hmb : 1 ≤ mb) (hhrs : 1 ≤ hrs)
    (hrate : 0 < rate) (hcopies : 1 ≤ copies) :
    ((((Number.fin mb).mul (.fin hrs)).mul (.fin rate)).mul (.fin copies)).Positive := by
  have hpos : ∀ {n : Int}, 1 ≤ n → (Number.fin n).Positive := by
    intro n hn
    change (0 : ℚ) < n
    exact_mod_cast (by omega : 0 < n)
  have hrate' : (Number.fin rate).Positive := hrate
  exact (((hpos hmb).mul (hpos hhrs)).mul hrate').mul (hpos hcopies)

/-- Whoever covers a quote has paid the price: an overflow is covered by nobody. -/
theorem price_le_of_covers {mb hrs copies : Int} {rate : ℚ} {paid : Coins} (hmb : 1 ≤ mb)
    (hhrs : 1 ≤ hrs) (hrate : 0 ≤ rate) (hcopies : 1 ≤ copies) (hpaid : 0 ≤ paid)
    (h : covers paid (roundCoinsNum cfg
      ((((Number.fin mb).mul (.fin hrs)).mul (.fin rate)).mul (.fin copies))) = true) :
    roundCoins cfg (mb * hrs * rate * copies) ≤ paid := by
  by_cases hfree : rate = 0
  · rw [hfree, mul_zero, zero_mul, roundCoins_zero]
    exact hpaid
  · have hpos := quote_positive hmb hhrs (lt_of_le_of_ne hrate (Ne.symm hfree)) hcopies
    cases hproduct : (((Number.fin mb).mul (.fin hrs)).mul (.fin rate)).mul (.fin copies) with
    | fin v =>
      rw [hproduct] at h
      rw [← Number.product_eq hproduct]
      exact of_decide_eq_true h
    | posInf =>
      rw [hproduct] at h
      cases h
    | negInf =>
      rw [hproduct] at hpos
      exact hpos.elim
    | nan =>
      rw [hproduct] at hpos
      exact hpos.elim

/-! ## Reservations -/

/-- The reservation was quoted at nothing, or at its price. -/
structure FairlyQuoted (cfg : Config) (r : Reservation) : Prop where
  hours : 1 ≤ uploadHours cfg r
  price : r.quotedAmount = 0 ∨ r.quotedAmount = uploadPrice cfg r.sizeBytes r

/-- `PRICE_MIN_HOURS` is billed as it is. -/
theorem billableHours_minHours {hrs : Int} (h : billableHours cfg (.fin cfg.minHours) = .ok hrs) :
    hrs = cfg.minHours := by
  unfold billableHours at h
  dsimp only at h
  split at h
  · cases h
  · rw [Int.ceil_intCast, max_self] at h
    exact (Except.ok.inj h).symm

theorem fairlyQuoted_of_quotedFor {r : Reservation} {quote : ReservationQuote}
    (h : QuotedFor cfg r.sizeBytes quote) (hhours : r.hoursRequested = quote.hoursRequested)
    (hcopies : r.copies = quote.copies) (hamount : r.quotedAmount = quote.quotedAmount.orZero) :
    FairlyQuoted cfg r := by
  obtain ⟨hours, copies, feeExempt, q, hpermanent, hcost, rfl⟩ := h
  obtain ⟨hmb, hhrs, hcps, htotal⟩ := calculateCost_ok hcost
  have hrange := cappedCopies_range cfg copies
  rw [← hcps] at hrange
  have hhrs1 := billableHours_ok hhrs
  have hup : uploadHours cfg r = q.billableHrs := by
    unfold uploadHours
    by_cases hp : cfg.hostingPermanent = true
    · rw [if_pos hp]
      rw [hpermanent hp] at hhrs
      exact (billableHours_minHours hhrs).symm
    · rw [if_neg hp, hhours]
      exact if_pos (Int.lt_of_lt_of_le Int.zero_lt_one hhrs1)
  refine ⟨hup ▸ hhrs1, ?_⟩
  rw [hamount]
  dsimp only
  rw [htotal]
  cases hproduct : (((Number.fin q.billableMB).mul (.fin q.billableHrs)).mul
      (.fin (rateFor cfg feeExempt))).mul (.fin q.copies) with
  | fin v =>
    have hv := Number.product_eq hproduct
    change roundCoins cfg v = 0 ∨ roundCoins cfg v = _
    cases feeExempt with
    | true =>
      left
      rw [hv]
      change roundCoins cfg (_ * 0 * _) = 0
      rw [mul_zero, zero_mul, roundCoins_zero]
    | false =>
      right
      unfold uploadPrice
      rw [hmb, hup, hcopies, cappedCopies_of_range cfg hrange.1 hrange.2, hv]
      rfl
  | _ => exact Or.inl rfl

/-- A smaller file on the same terms costs no more. -/
theorem uploadPrice_mono {a b : Nat} {r : Reservation} (ha : 0 < a) (hab : a ≤ b)
    (hhours : 1 ≤ uploadHours cfg r) : uploadPrice cfg a r ≤ uploadPrice cfg b r := by
  obtain ⟨x, hx⟩ := billableMB_of_pos cfg ha
  obtain ⟨y, hy⟩ := billableMB_of_pos cfg (Nat.lt_of_lt_of_le ha hab)
  unfold uploadPrice
  rw [hx, hy]
  have hxy : (x : ℚ) ≤ y := by exact_mod_cast billableMB_mono hab hx hy
  have hh : (0 : ℚ) ≤ uploadHours cfg r := by exact_mod_cast (by omega : 0 ≤ uploadHours cfg r)
  have hr := cfg.ratePerMBHour_nonneg
  have hc : (0 : ℚ) ≤ cappedCopies cfg (.fin r.copies) := by
    have hrange := (cappedCopies_range cfg (.fin r.copies)).1
    exact_mod_cast (by omega : 0 ≤ cappedCopies cfg (.fin r.copies))
  exact roundCoins_mono (by gcongr)

end Prices

/-! ## Runs -/

def Quoted (cfg : Config) (db : Db) : Prop := ∀ r ∈ db.reservations, FairlyQuoted cfg r

/-- Sizes are those of the files, and quotes those of the gate. -/
structure Accounted (cfg : Config) (w : World) : Prop where
  sourced : Sourced cfg w.db
  quoted : Quoted cfg w.db

/-- An upload on a reservation that was quoted at nothing arrives while its account is
fee-exempt, or the file costs nothing at the gate's rate either. -/
def ExemptionHolds (cfg : Config) : Request → World → Prop
  | .upload b, w => ∀ r ∈ w.db.reservations, r.id = b.reservationId → r.quotedAmount = 0 →
      (feeExemptEntryFor cfg w.db r.uploader).isSome = true ∨
        uploadPrice cfg (cfg.byteCount b.file) r ≤ 0
  | _, _ => True

instance (cfg : Config) (q : Request) (w : World) : Decidable (ExemptionHolds cfg q w) := by
  cases q <;> unfold ExemptionHolds <;> infer_instance

section Statements

variable {cfg : Config} {w : World}

theorem FairlyQuoted.congr {r r' : Reservation} (h : FairlyQuoted cfg r)
    (hsize : r'.sizeBytes = r.sizeBytes) (hhours : r'.hoursRequested = r.hoursRequested)
    (hcopies : r'.copies = r.copies) (hamount : r'.quotedAmount = r.quotedAmount) :
    FairlyQuoted cfg r' := by
  have hup : uploadHours cfg r' = uploadHours cfg r := by
    unfold uploadHours
    rw [hhours]
  refine ⟨hup ▸ h.hours, ?_⟩
  have hprice := h.price
  unfold uploadPrice at hprice ⊢
  rw [hamount, hsize, hup, hcopies]
  exact hprice

theorem quoted_update {db : Db} (h : Quoted cfg db) {p : Reservation → Bool}
    {f : Reservation → Reservation} (hf : ∀ r, Lib.Keyed.key (f r) = Lib.Keyed.key r)
    (hfair : ∀ r, FairlyQuoted cfg r → FairlyQuoted cfg (f r)) :
    ∀ r ∈ db.reservations.update p f hf, FairlyQuoted cfg r := by
  intro r hr
  obtain ⟨r₀, hr₀, rfl⟩ := Table.mem_update.mp hr
  split
  · exact hfair r₀ (h r₀ hr₀)
  · exact h r₀ hr₀

/-- Reservations stay fairly quoted, if new ones are. -/
theorem quoted_sem {s : Stmt} (hquote : ∀ uploader sizeBytes mode quote,
      s = .createReservation uploader sizeBytes mode quote → QuotedFor cfg sizeBytes quote)
    (h : Quoted cfg w.db) : Quoted cfg (s.sem cfg w).2.db := by
  by_cases hw : s.writesTo .reservations = true
  · cases s with
    | createReservation uploader sizeBytes mode quote =>
      refine fallible_ind (P := Quoted cfg) h (fun n after hrun r hr => ?_)
      unfold createReservation at hrun
      iterate 7 (split at hrun; · cases hrun)
      split at hrun
      · cases hrun
      · cases hrun
        rcases Table.mem_insert.mp hr with hr | rfl
        · exact h r hr
        · exact fairlyQuoted_of_quotedFor (hquote _ _ _ _ rfl) rfl rfl rfl
    | markReservationPaid id txId =>
      exact quoted_update h (by exact fun _ => rfl) (fun _ hr => hr.congr rfl rfl rfl rfl)
    | markReservationCancelled id =>
      exact quoted_update h (by exact fun _ => rfl) (fun _ hr => hr.congr rfl rfl rfl rfl)
    | finaliseUpload id u =>
      exact quoted_update h (by exact fun _ => rfl) (fun _ hr => hr.congr rfl rfl rfl rfl)
    | sweep =>
      have hsame : (Quota.sweep w.db w.now).2.reservations =
          (expireReservations w.db w.now).reservations :=
        (SameBeside.sweep w.db w.now).same .reservations
      change ∀ r ∈ (Quota.sweep w.db w.now).2.reservations, FairlyQuoted cfg r
      rw [hsame]
      exact quoted_update h (by exact fun _ => rfl) (fun _ hr => hr.congr rfl rfl rfl rfl)
    | _ => cases hw
  · have hsame : (s.sem cfg w).2.db.reservations = w.db.reservations :=
      same_of_not_writesTo cfg .reservations (Bool.eq_false_iff.mpr hw) w
    unfold Quoted
    rw [hsame]
    exact h

end Statements

section Claims

variable {cfg : Config} {A : Answers} {w : World}

theorem PaidFor.nonneg {p : PaymentRequest} {amount : Coins} (h : PaidFor cfg A p amount) :
    0 ≤ amount := by
  by_cases hfree : p.feeExempt = true
  · exact (h.free hfree).ge
  · obtain ⟨paid, _, hamount⟩ := h.transferred (Bool.not_eq_true _ ▸ hfree)
    exact hamount ▸ paid.amount.nonneg

theorem PaidFor.covers {p : PaymentRequest} {amount : Coins} (h : PaidFor cfg A p amount)
    (hfree : p.feeExempt = false) : Server.covers amount p.expectedAmount = true := by
  obtain ⟨paid, ⟨_, _, _, _, hvalid⟩, hamount⟩ := h.transferred hfree
  obtain ⟨_, _, _, _, _, hcovers⟩ := validateTransferPayload_ok hvalid
  exact hamount ▸ hcovers

/-- A payment of a quote covers the price at the rate of the quote. -/
theorem PaidFor.price_le {p : PaymentRequest} {amount : Coins} {q : Quote}
    (h : PaidFor cfg A p amount) (hdue : p.expectedAmount = q.total) {sizeBytes : Nat}
    {hours copies : Number}
    (hq : calculateCost cfg sizeBytes hours copies (rateFor cfg p.feeExempt) = .ok q) :
    roundCoins cfg (q.billableMB * q.billableHrs * rateFor cfg p.feeExempt * q.copies) ≤
      amount := by
  obtain ⟨hmb, hhrs, hcopies, htotal⟩ := calculateCost_ok hq
  by_cases hfree : p.feeExempt = true
  · rw [hfree]
    change roundCoins cfg (_ * 0 * _) ≤ amount
    rw [mul_zero, zero_mul, roundCoins_zero]
    exact h.nonneg
  · have hcovers := h.covers (Bool.not_eq_true _ ▸ hfree)
    rw [hdue, htotal] at hcovers
    exact price_le_of_covers (billableMB_ok hmb).2 (billableHours_ok hhrs) (rateFor_nonneg _)
      (hcopies ▸ (cappedCopies_range cfg copies).1) h.nonneg hcovers

/-- The price that a committed upload locks was paid. -/
theorem price_le_of_upload {b : UploadRequest} {w₀ : World} {c : Checked}
    {past : Trace (machine cfg)} {id : Nat} {u : Upload} {mb : Int} (hw₀ : Accounted cfg w₀)
    (harrives : ExemptionHolds cfg (.upload b) w₀)
    (h : UploadBacked cfg A b w₀ c past id u)
    (hmb : billableMB cfg (cfg.byteCount b.file) = .ok mb) :
    roundCoins cfg (mb * u.paidHours * u.rateLocked * u.copies) ≤ u.amountPaid := by
  obtain ⟨hfound, hreserved, hexempt⟩ := checkUpload_ok h.checked
  obtain ⟨hmem, hid⟩ := Table.find?_eq_some.mp hfound
  rw [h.rateLocked, h.paidHours, h.copies]
  by_cases hfree : c.feeExempt = true
  · rw [hfree]
    change roundCoins cfg (_ * 0 * _) ≤ _
    rw [mul_zero, zero_mul, roundCoins_zero]
    exact h.paid.nonneg
  · have hno : c.feeExempt = false := Bool.not_eq_true _ ▸ hfree
    rw [hno]
    have hprice : uploadPrice cfg (cfg.byteCount b.file) c.reservation =
        roundCoins cfg (mb * uploadHours cfg c.reservation * rateFor cfg false *
          cappedCopies cfg (.fin c.reservation.copies)) := by
      unfold uploadPrice
      rw [hmb]
      rfl
    rw [← hprice]
    have hquoted : c.reservation.quotedAmount ≤ u.amountPaid :=
      of_decide_eq_true (h.paid.covers hno)
    have hfair := hw₀.quoted c.reservation hmem
    by_cases hzero : c.reservation.quotedAmount = 0
    · rcases harrives c.reservation hmem hid hzero with hstill | hnothing
      · rw [hno] at hexempt
        unfold isFeeExemptUpload at hexempt
        rw [hstill, hzero] at hexempt
        cases hexempt
      · exact hnothing.trans h.paid.nonneg
    · refine le_trans ?_ hquoted
      rw [hfair.price.resolve_left hzero]
      refine uploadPrice_mono (billableMB_ok hmb).1 ?_ hfair.hours
      unfold checkReservation at hreserved
      split at hreserved
      · cases hreserved
      · split at hreserved
        · cases hreserved
        · split at hreserved
          · cases hreserved
          · split at hreserved
            · cases hreserved
            · omega

/-- What is behind a pledge settles its size, which is that of the file, and its price. -/
theorem pledge_settled {purpose : String} {b : PledgeRequest} {w₀ : World} {q : HostedQuote}
    {past : Trace (machine cfg)} {g : Pledge} (hw₀ : Accounted cfg w₀)
    (h : PledgeBacked cfg A purpose b w₀ q past g) :
    g.sizeBytes = cfg.byteCount g.cid ∧ Escrowed cfg (newClaimRow w.db w.now (g.claim w.now)) := by
  obtain ⟨hosted, hhosted, hsize, hcost⟩ := quoteHosted_ok h.quoted
  obtain ⟨synthetic, hpaid⟩ := h.paid
  obtain ⟨hmb, _, hcopies, _⟩ := calculateCost_ok hcost
  have hprice := hpaid.price_le rfl hcost
  constructor
  · rw [h.sizeBytes, h.cid, hsize]
    exact hw₀.sourced.hosted hhosted
  · refine Billable.escrowed ⟨?_, ?_, hpaid.nonneg⟩ ⟨q.quote.billableMB, ?_, ?_⟩
    · exact (rateFor_nonneg _).trans_eq h.rateLocked.symm
    · change 1 ≤ g.copies ∧ g.copies ≤ getNodeCount cfg
      rw [h.copies, hcopies]
      exact cappedCopies_range cfg _
    · change billableMB cfg g.sizeBytes = _
      rw [h.sizeBytes, hsize, hmb]
    · change roundCoins cfg (_ * g.paidHours * g.rateLocked * g.copies) ≤ _
      rw [h.paidHours, h.rateLocked, h.copies]
      exact hprice

/-- The hours of an own copy are those of its quote. -/
theorem OwnCopyBacked.billed {b : OwnCopyBody} {w₀ : World} {q : HostedQuote}
    {past : Trace (machine cfg)} {n : OwnCopyRequest} (h : OwnCopyBacked cfg A b w₀ q past n) :
    n.paidHours = q.quote.billableHrs := by
  obtain ⟨_, _, _, hcost⟩ := quoteHosted_ok h.quoted
  obtain ⟨_, hhrs, _, _⟩ := calculateCost_ok hcost
  rw [h.paidHours]
  by_cases hp : cfg.hostingPermanent = true
  · rw [if_pos hp] at hhrs ⊢
    exact (billableHours_minHours hhrs).symm
  · exact if_neg hp

/-- The claims that statements create are paid for at the price they lock. -/
theorem escrowed_of_created {q : Request} {past : Trace (machine cfg)} {s : Stmt} {c : Claim}
    (hj : Justified cfg A (ArrivesIn (Accounted cfg) (ExemptionHolds cfg)) q past s w)
    (hw : Accounted cfg w) (h : created (s, w) = some c) : Escrowed cfg c := by
  have htab := hj.tabled.1
  have hback := hj.backed
  cases s with
  | finaliseUpload id u =>
    cases q with
    | upload b =>
      cases h
      obtain ⟨w₀, checked, ⟨harrives, hw₀⟩, _, hb⟩ := hback
      refine Billable.escrowed ⟨?_, ?_, hb.paid.nonneg⟩ ⟨u.sizeMB, ?_, ?_⟩
      · exact (rateFor_nonneg _).trans_eq hb.rateLocked.symm
      · change 1 ≤ u.copies ∧ u.copies ≤ getNodeCount cfg
        rw [hb.copies]
        exact cappedCopies_range cfg _
      · exact (congrArg (billableMB cfg) hb.sizeBytes).trans hb.sizeMB
      · exact price_le_of_upload hw₀ harrives hb hb.sizeMB
    | _ => cases htab
  | pledge g =>
    cases h
    cases q with
    | guardianPledge b =>
      obtain ⟨w₀, quote, ⟨_, hw₀⟩, _, hb⟩ := hback
      exact (pledge_settled hw₀ hb).2
    | backstopPledge b =>
      obtain ⟨w₀, quote, ⟨_, hw₀⟩, _, hb⟩ := hback
      exact (pledge_settled hw₀ hb).2
    | _ => cases htab
  | createOwnCopyClaim n =>
    cases q with
    | ownCopy b =>
      obtain ⟨w₀, quote, ⟨_, hw₀⟩, _, hb⟩ := hback
      obtain ⟨hosted, hhosted, _, hcost⟩ := quoteHosted_ok hb.quoted
      obtain ⟨synthetic, hpaid⟩ := hb.paid
      obtain ⟨hmb, _, hcopies, _⟩ := calculateCost_ok hcost
      have hprice := hpaid.price_le rfl hcost
      cases hrun : Quota.createOwnCopyClaim w.db w.now n with
      | error e =>
        rw [created_ownCopy_error hrun] at h
        cases h
      | ok r =>
        obtain ⟨info, hinfo, hcreated, _⟩ := created_ownCopy hrun
        rw [hcreated] at h
        cases h
        refine Billable.escrowed ⟨?_, ?_, hpaid.nonneg⟩ ⟨quote.quote.billableMB, ?_, ?_⟩
        · exact (rateFor_nonneg _).trans_eq hb.rateLocked.symm
        · change 1 ≤ n.copies ∧ n.copies ≤ getNodeCount cfg
          rw [hb.copies, hcopies]
          exact cappedCopies_range cfg _
        · -- the size of the newest pin row is that of the pin the quote was for
          change billableMB cfg info.sizeBytes = _
          rw [hw.sourced.latest hinfo, hb.cid, ← hw₀.sourced.hosted hhosted, hmb]
        · change roundCoins cfg (_ * n.paidHours * n.rateLocked * n.copies) ≤ _
          rw [hb.billed, hb.rateLocked, hb.copies]
          exact hprice
    | _ => cases htab
  | _ => cases h

/-- Every justified statement keeps sizes and quotes in order. -/
theorem accounted_sem {Arrives : Request → World → Prop} {q : Request}
    {past : Trace (machine cfg)} {s : Stmt}
    (hj : Justified cfg A Arrives q past s w) (harrived : ∀ q w, Arrives q w → Accounted cfg w)
    (hw : Accounted cfg w) : Accounted cfg (s.sem cfg w).2 := by
  have htab := hj.tabled.1
  have hback := hj.backed
  refine ⟨((durable_sourced cfg).at w.now).sem_creating ?_ ?_ ?_ hw.sourced, quoted_sem ?_ hw.quoted⟩
  · rintro id u rfl
    cases q with
    | upload b =>
      obtain ⟨w₀, checked, _, _, hb⟩ := hback
      have hsize : u.sizeBytes = cfg.byteCount u.cid := by rw [hb.sizeBytes, hb.cid]
      have hpin : Sourced cfg (insertPin w.db w.now u.pin) := hw.sourced.insertPin hsize
      exact hpin.createOrderWithClaim hsize
    | _ => cases htab
  · rintro n info rfl hinfo _
    have hsize : info.sizeBytes = cfg.byteCount n.cid := hw.sourced.latest hinfo
    have hpin : Sourced cfg (insertPin w.db w.now (n.pin w.now info)) :=
      hw.sourced.insertPin hsize
    exact hpin.createOrderWithClaim hsize
  · rintro g rfl
    refine hw.sourced.createOrderWithClaim ?_
    cases q with
    | guardianPledge b =>
      obtain ⟨w₀, quote, harr, _, hb⟩ := hback
      exact (pledge_settled (w := w) (harrived _ _ harr) hb).1
    | backstopPledge b =>
      obtain ⟨w₀, quote, harr, _, hb⟩ := hback
      exact (pledge_settled (w := w) (harrived _ _ harr) hb).1
    | _ => cases htab
  · rintro uploader sizeBytes mode quote rfl
    cases q with
    | reserve b => exact hback
    | _ => cases htab

theorem kept_accounted (cfg : Config) (Ok : Stmt → World → Prop) (A : Answers)
    (Arrives : Request → World → Prop) (t : Int) : Kept cfg (Accounted cfg) Ok A Arrives t where
  start := by
    refine ⟨⟨?_, ?_⟩, ?_⟩
    · exact fun p hp => absurd hp List.not_mem_nil
    · exact fun c hc => absurd hc List.not_mem_nil
    · exact fun r hr => absurd hr List.not_mem_nil
  drift := fun _ _ hw => ⟨hw.sourced, hw.quoted⟩
  step := fun _ _ _ _ hj _ hw => accounted_sem hj (fun _ _ h => h.2) hw

/-- In every run pins and claims have the size of their file. -/
theorem serve_accounted (cfg : Config) (t : Int) (events : List (GateEvent cfg)) :
    Accounted cfg (serve cfg t events).world :=
  (serve_justified (kept_accounted cfg (fun _ _ => True) (fun _ _ => True) (fun _ _ => True) t)
    (Pool.admissible_true _ _ _) (answered_any events)).inv

end Claims

/-- In every run in which no upload arrives on a reservation quoted at nothing after its account
has lost its exemption, every claim is covered by its payment when it is created. -/
theorem locked_price_covered (cfg : Config) (t : Int) (events : List (GateEvent cfg))
    (h : GuardedArrivals cfg (ExemptionHolds cfg) (fun _ _ => True) t events) :
    ∀ q past, (serve cfg t events).Ran q past → ∀ a ∈ past,
      ∀ c ∈ (a.1.sem cfg a.2).2.db.claims, (∀ d ∈ a.2.db.claims, d.claimId ≠ c.claimId) →
        Escrowed cfg c := by
  have hkept := kept_accounted cfg (fun _ _ => True) (fun _ _ => True) (ExemptionHolds cfg) t
  have hstands := serve_justified hkept h (answered_any events)
  intro q past hran a ha c hc hnew
  obtain ⟨_, _, _, hj⟩ := (hstands.kept_of_ran hran).of_mem ha
  exact escrowed_of_created hj (admitted_serve hkept h (answered_any events) hran a ha).1
    (created_of_new cfg hc hnew)

section Sampled

open Sample

theorem locked_price_covered_free :
    GuardedArrivals membersOnly (ExemptionHolds membersOnly) (fun _ _ => True) 0 freeUpload ∧
    ∀ q past, (serve membersOnly 0 freeUpload).Ran q past →
      ∀ a ∈ past, ∀ c ∈ (a.1.sem membersOnly a.2).2.db.claims,
        (∀ d ∈ a.2.db.claims, d.claimId ≠ c.claimId) → Escrowed membersOnly c :=
  ⟨by decide +kernel, locked_price_covered membersOnly 0 freeUpload (by decide +kernel)⟩

/-- The least amount the gate can account for, sent by Alice. -/
def dustOf (txId : String) : Operation :=
  .customJson
    { id := ssc, auths := ["alice"],
      actions := some [{
        contractName := "tokens", contractAction := "transfer",
        contractPayload := some
          { toAccount := "gate", symbol := "SWAP.HIVE", quantity := some ⟨1 / 1000, by norm_num⟩,
            memo := txId } }] }

def answerDust : (c : Call) → c.Reply
  | .getTransaction txId => .ok [dustOf txId]
  | c => answer c

/-- Alice reserves while she is fee-exempt, and uploads when she no longer is. -/
def exemptionLost : List (GateEvent membersOnly) :=
  [.spawn (exempted "alice")] ++ resumed 1 0 ++ [.spawn (reserveBy "alice")] ++
    [.spawn (.whitelistAdd
      { targetAccount := "alice", quotaBytes := none, feeExempt := false, note := none,
        auth := operator })] ++ resumed 1 0 ++ [.spawn (uploadOf 1 "bafy")] ++
    List.replicate 6 (.resume 0 answerDust)

/-- A day of hosting is locked at the gate's rate for the thousandth part of a token. -/
theorem not_priced_dust {c : Claim} (hsize : c.sizeBytes = 100) (hhours : c.paidHours = 24)
    (hrate : c.rateLocked = 1) (hcopies : c.copiesRequested = 1)
    (hpaid : c.amountPaid = 1 / 1000) : ¬ Priced membersOnly c := by
  rintro ⟨mb, hmb, hprice⟩
  have hone : billableMB membersOnly 100 = .ok 1 := by decide +kernel
  rw [hsize, hone] at hmb
  cases hmb
  rw [hhours, hrate, hcopies, hpaid] at hprice
  exact absurd hprice (by decide +kernel)

theorem locked_price_unpaid : ¬ ∀ q past, (serve membersOnly 0 exemptionLost).Ran q past →
    ∀ a ∈ past, ∀ c ∈ (a.1.sem membersOnly a.2).2.db.claims,
      (∀ d ∈ a.2.db.claims, d.claimId ≠ c.claimId) → Escrowed membersOnly c := by
  have hlost : ∃ f ∈ (serve membersOnly 0 exemptionLost).finished, ∃ a ∈ f.past,
      ∃ c ∈ (a.1.sem membersOnly a.2).2.db.claims, (∀ d ∈ a.2.db.claims, d.claimId ≠ c.claimId) ∧
        c.sizeBytes = 100 ∧ c.paidHours = 24 ∧ c.rateLocked = 1 ∧ c.copiesRequested = 1 ∧
          c.amountPaid = 1 / 1000 := by decide +kernel
  obtain ⟨f, hf, a, ha, c, hc, hnew, hsize, hhours, hrate, hcopies, hpaid⟩ := hlost
  intro h
  exact not_priced_dust hsize hhours hrate hcopies hpaid
    (h f.request f.past (Or.inl ⟨f, hf, rfl, rfl⟩) a ha c hc hnew).priced

end Sampled

end IpfsGate.Server
