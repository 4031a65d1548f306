import IpfsGate.Lib.Crash
import IpfsGate.Lib.Notes
import IpfsGate.Server.Prices

/-!
# Quotes and what they bind to

A reservation is answered with a price, and holds the least payment that an upload under it is
accepted for. The product behind the price may leave the range of finite numbers; the row then
holds zero.
-/
namespace IpfsGate.Server

open Quota Pricing
open Lib Lib.Prog
open Lib (Number Pool Leads)

/-- The least payment an upload under the reservation is held to. -/
def minimumPayment (db : Db) (reservationId : Nat) : Option Number :=
  (getReservation db reservationId).map (fun r => .fin r.quotedAmount)

/-- The hours a reservation is priced by. -/
def pricingHours (cfg : Config) (b : ReserveRequest) : Number :=
  if cfg.hostingPermanent then .fin cfg.minHours else b.hoursRequested.getD (.fin cfg.defaultHours)

def pricingCopies (b : ReserveRequest) : Number := b.copies.getD (.fin 1)

/-- What the gate answers to a request it accepts. -/
def reserveReply {cfg : Config} (S : Gate cfg) (b : ReserveRequest) : Option ReserveReply :=
  match (handle cfg (.reserve b)).turn [] S.world with
  | (.finished (.ok (.reserve reply)), _, _) => some reply
  | _ => none

/-- The price that is returned is the computed one, and it is the one an upload is held to,
whatever happens until then. -/
structure PriceKept (cfg : Config) (S : Gate cfg) (b : ReserveRequest) (reply : ReserveReply) :
    Prop where
  computed : ∃ q, calculateCost cfg b.sizeBytes (pricingHours cfg b) (pricingCopies b)
    (rateFor cfg reply.feeExempt) = .ok q ∧ reply.amount = q.total
  enforced : ∀ later, minimumPayment
    (S.run (handle cfg) (.spawn (.reserve b) :: later)).world.db reply.reservationId =
      some reply.amount
  charged : reply.feeExempt = false → reply.amount.Positive → ∀ later, minimumPayment
    (S.run (handle cfg) (.spawn (.reserve b) :: later)).world.db reply.reservationId ≠
      some (.fin 0)

/-- The megabyte hours of the request, and their price in exact arithmetic, are not beyond the
largest finite number. -/
def InRange (cfg : Config) (b : ReserveRequest) (rate : ℚ) : Prop :=
  ∃ mb hrs, billableMB cfg b.sizeBytes = .ok mb ∧
    billableHours cfg (pricingHours cfg b) = .ok hrs ∧ (mb * hrs : ℚ) ≤ Number.largest ∧
    mb * hrs * rate * cappedCopies cfg (pricingCopies b) ≤ Number.largest

/-! ## The row -/

section Row

variable {cfg : Config}

/-- Whatever a gate runs, a reservation keeps the amount it was quoted. -/
theorem minimumPayment_run {S : Gate cfg} {id : Nat} {x : Number}
    (h : minimumPayment S.world.db id = some x) (events : List (GateEvent cfg)) :
    minimumPayment (S.run (handle cfg) events).world.db id = some x := by
  refine ((show Leads (machine cfg) S.world _ (S.run (handle cfg) events).world from
    Pool.leads_run S events).invariant
    (P := fun w : World => minimumPayment w.db id = some x) (fun _ _ hw => hw) (fun a _ hw => ?_) h).1
  obtain ⟨r, hr, hx⟩ := Option.map_eq_some_iff.mp hw
  obtain ⟨hmem, hid⟩ := Table.find?_eq_some.mp hr
  obtain ⟨r', hr', hkept⟩ := proceeds_sem cfg a.1 a.2 r hmem
  refine Option.map_eq_some_iff.mpr ⟨r', Table.find?_eq_some.mpr ⟨hr', ?_⟩, ?_⟩
  · exact hkept.upholds.id.trans hid
  · rw [hkept.terms]
    exact hx

/-- The new row holds the quote, or zero for what is not finite. -/
theorem minimumPayment_created {db after : Db} {t : Int} {uploader : Account} {sizeBytes : Nat}
    {mode : Mode} {quote : ReservationQuote} {out : Reserved}
    (h : createReservation cfg db t uploader sizeBytes mode quote = .ok (out, after)) :
    minimumPayment after out.id = some (.fin quote.quotedAmount.orZero) := by
  unfold createReservation at h
  iterate 7 (split at h; · cases h)
  split at h
  · cases h
  · cases h
    refine Option.map_eq_some_iff.mpr
      ⟨_, Table.find?_eq_some.mpr ⟨Table.mem_insert.mpr (Or.inr rfl), ?_⟩, ?_⟩
    · rfl
    · rfl

end Row

/-! ## The request -/

section Request

variable {cfg : Config} {b : ReserveRequest} {reply : ReserveReply} {w w' : World}

/-- An accepted request: its price, and the reservation that was created at it. -/
structure Reserves (cfg : Config) (b : ReserveRequest) (w : World) (reply : ReserveReply) (q : Quote)
    (after : Db) : Prop where
  exempt : reply.feeExempt = (feeExemptEntryFor cfg w.db (cfg.toLowerCase b.uploader)).isSome
  cost : calculateCost cfg b.sizeBytes (pricingHours cfg b) (pricingCopies b)
    (rateFor cfg reply.feeExempt) = .ok q
  amount : reply.amount = q.total
  row : minimumPayment after reply.reservationId = some (.fin q.total.orZero)

theorem reserve_turns (b : ReserveRequest) (w : World) :
    (reserve b : Handler cfg ReserveReply).Turns (M := machine cfg)
      (fun stop w' => ∀ reply, stop = .finished (.ok reply) → ∃ q, Reserves cfg b w reply q w'.db)
      w := by
  have hrefused : ∀ {e : Fault} {w' : World} reply,
      (Stop.finished (.error e) : Stop (machine cfg) ReserveReply) = .finished (.ok reply) →
        ∃ q, Reserves cfg b w reply q w'.db := by
    intro e w' reply h
    cases h
  unfold reserve
  refine turns_require (fun _ => hrefused) (fun _ => ?_)
  refine turns_require (fun _ => hrefused) (fun _ => ?_)
  split
  · exact hrefused
  · refine turns_require (fun _ => hrefused) (fun _ => ?_)
    refine turns_liftExcept (fun _ _ => hrefused) (fun q hq => ?_)
    refine turns_liftExcept (fun _ _ => hrefused) (fun out hout => ?_)
    intro reply hreply
    cases hreply
    exact ⟨q, rfl, hq, rfl, minimumPayment_created (fallible_ok hout)⟩

/-- What every answering turn of the handler ensures, an accepted request has ensured. -/
theorem of_reserveReply {S : Gate cfg} {Q : ReserveReply → Db → Prop}
    (hreserve : (reserve b : Handler cfg ReserveReply).Turns (M := machine cfg)
      (fun stop w' => ∀ reply, stop = .finished (.ok reply) → Q reply w'.db) S.world)
    (h : reserveReply S b = some reply) :
    Q reply (S.step (handle cfg) (.spawn (.reserve b))).world.db := by
  have hturns : (handle cfg (.reserve b)).Turns (M := machine cfg)
      (fun stop w' => ∀ reply, stop = .finished (.ok (.reserve reply)) → Q reply w'.db)
      S.world := by
    refine turns_bind (Turns.mono (fun stop w' hstop => ?_) hreserve)
    cases stop with
    | finished r =>
      cases r with
      | ok reply =>
        intro reply' h
        cases h
        exact hstop reply rfl
      | error e =>
        intro reply' h
        cases h
    | suspended c k =>
      intro reply' h
      cases h
  have hstop := hturns.turn []
  unfold reserveReply at h
  rw [Pool.step, Pool.advance_world]
  split at h
  · rename_i heq
    cases h
    rw [heq] at hstop ⊢
    exact hstop reply rfl
  · cases h

/-- An accepted request created its reservation. -/
theorem reserves_of_reply {S : Gate cfg} (h : reserveReply S b = some reply) :
    ∃ q, Reserves cfg b S.world reply q (S.step (handle cfg) (.spawn (.reserve b))).world.db :=
  of_reserveReply (Q := fun reply db => ∃ q, Reserves cfg b S.world reply q db)
    (reserve_turns b S.world) h

theorem isFinite_roundCoinsNum (x : Number) : (roundCoinsNum cfg x).isFinite = x.isFinite := by
  cases x <;> rfl

/-- The exact price of a quote decides whether it is finite. -/
theorem inRange_iff {q : Quote} {rate : ℚ} (hrate : 0 ≤ rate)
    (h : calculateCost cfg b.sizeBytes (pricingHours cfg b) (pricingCopies b) rate = .ok q) :
    q.total.isFinite = true ↔ InRange cfg b rate := by
  obtain ⟨hmb, hhrs, hcps, htotal⟩ := calculateCost_ok h
  have hmb0 : (0 : ℚ) ≤ q.billableMB := by
    exact_mod_cast Int.le_trans Int.one_nonneg (billableMB_ok hmb).2
  have hhrs0 : (0 : ℚ) ≤ q.billableHrs := by
    exact_mod_cast Int.le_trans Int.one_nonneg (billableHours_ok hhrs)
  have hcps1 : (1 : ℚ) ≤ q.copies := by
    rw [hcps]
    exact_mod_cast (cappedCopies_range cfg _).1
  have hround : q.total.isFinite =
      ((((Number.fin q.billableMB).mul (.fin q.billableHrs)).mul (.fin rate)).mul
        (.fin q.copies)).isFinite := by
    rw [htotal]
    exact isFinite_roundCoinsNum _
  rw [hround, Number.isFinite_product_iff (mul_nonneg hmb0 hhrs0) hrate hcps1]
  constructor
  · rintro ⟨hvolume, hprice⟩
    exact ⟨_, _, hmb, hhrs, hvolume, hcps ▸ hprice⟩
  · rintro ⟨mb, hrs, hmb', hhrs', hvolume, hprice⟩
    obtain rfl := Except.ok.inj (hmb.symm.trans hmb')
    obtain rfl := Except.ok.inj (hhrs.symm.trans hhrs')
    exact ⟨hvolume, hcps ▸ hprice⟩

end Request

/-- An accepted reservation keeps its price exactly if the price is in range. -/
theorem price_kept_iff (cfg : Config) (S : Gate cfg) (b : ReserveRequest) (reply : ReserveReply)
    (haccepts : reserveReply S b = some reply) :
    PriceKept cfg S b reply ↔ InRange cfg b
      (rateFor cfg (feeExemptEntryFor cfg S.world.db (cfg.toLowerCase b.uploader)).isSome) := by
  obtain ⟨q, hq⟩ := reserves_of_reply haccepts
  have hfinite := inRange_iff (rateFor_nonneg reply.feeExempt) hq.cost
  rw [← hq.exempt, ← hfinite, ← Number.fin_orZero_iff]
  have hlater : ∀ later, minimumPayment
      (S.run (handle cfg) (.spawn (.reserve b) :: later)).world.db reply.reservationId =
        some (.fin q.total.orZero) := fun later =>
    minimumPayment_run (S := S.step (handle cfg) (.spawn (.reserve b))) hq.row later
  constructor
  · intro h
    have hkept := h.enforced []
    rw [hlater [], hq.amount] at hkept
    exact Option.some.inj hkept
  · intro hfin
    have henforced : ∀ later, minimumPayment
        (S.run (handle cfg) (.spawn (.reserve b) :: later)).world.db reply.reservationId =
          some reply.amount := by
      intro later
      rw [hlater later, hfin, hq.amount]
    refine ⟨⟨q, hq.cost, hq.amount⟩, henforced, fun _ hpos later hzero => ?_⟩
    rw [henforced later] at hzero
    rw [Option.some.inj hzero] at hpos
    exact absurd hpos (lt_irrefl _)

namespace Sample

def bootGate : Gate config := Pool.start (World.boot 0)

/-- Two megabytes, for so many hours. -/
def reserveFor (hours : ℚ) : ReserveRequest :=
  { uploader := "alice", sizeBytes := 2000000, mode := "public",
    hoursRequested := some (.fin hours), copies := none }

/-- For `1e308` hours. -/
def reserveForever : ReserveRequest := reserveFor (10 ^ 308)

end Sample

open Sample

theorem price_kept_day : ∃ reply, reserveReply bootGate (reserveFor 24) = some reply ∧
    PriceKept config bootGate (reserveFor 24) reply := by
  obtain ⟨reply, hreply⟩ := Option.isSome_iff_exists.mp
    (by decide +kernel : (reserveReply bootGate (reserveFor 24)).isSome = true)
  refine ⟨reply, hreply, (price_kept_iff config bootGate _ reply hreply).mpr ?_⟩
  refine ⟨2, 24, by decide +kernel, by decide +kernel, by decide +kernel, by decide +kernel⟩

/-- Two megabytes for that long are quoted at infinity, and an upload is held to nothing. -/
theorem price_lost : ∃ reply, reserveReply bootGate reserveForever = some reply ∧
    reply.feeExempt = false ∧ reply.amount = .posInf ∧
    minimumPayment (bootGate.run (handle config)
      [.spawn (.reserve reserveForever)]).world.db reply.reservationId = some (.fin 0) ∧
    ¬ PriceKept config bootGate reserveForever reply := by
  have hsees : (reserveReply bootGate reserveForever).map
      (fun r => (r.feeExempt, r.amount, r.reservationId)) = some (false, .posInf, 1) := by
    decide +kernel
  obtain ⟨reply, hreply, heq⟩ := Option.map_eq_some_iff.mp hsees
  obtain ⟨hexempt, hamount, hid⟩ : reply.feeExempt = false ∧ reply.amount = .posInf ∧
      reply.reservationId = 1 := by
    simpa using heq
  have hzero : minimumPayment (bootGate.run (handle config)
      [.spawn (.reserve reserveForever)]).world.db reply.reservationId = some (.fin 0) := by
    rw [hid]
    decide +kernel
  refine ⟨reply, hreply, hexempt, hamount, hzero, fun h => ?_⟩
  refine h.charged hexempt ?_ [] hzero
  rw [hamount]
  trivial

end IpfsGate.Server
