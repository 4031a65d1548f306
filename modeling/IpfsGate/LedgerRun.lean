import IpfsGate.Lockstep

/-!
# Runs of the ledger

Sequences of the transactions that create, extend and end claims, each at its own clock
reading, from an empty database. A transaction that throws leaves the database as it was. The
run also remembers which claims were created without a timer.
-/
namespace IpfsGate.LedgerRun

open Quota Moderation
open Lib (Table)

/-- The last stretch of an upload: the pin and the claim that mirrors it. -/
structure Upload where
  cid : Cid
  owner : Account
  paymentId : Nat
  sizeBytes : Nat
  sizeMB : Int
  mode : Mode
  mime : Option String
  rateLocked : Coins
  paidHours : Int
  copies : Int
  amountPaid : Coins
  currency : String
  startTs : Int
  permanent : Bool
  releasePolicy : Option ReleasePolicy
  receiptHash : Option String

namespace Upload

def expiryTs (u : Upload) : Int :=
  if u.permanent then Pricing.permanentExpiryTs else u.startTs + u.paidHours * Pricing.hourMs

def pin (u : Upload) : NewPin :=
  { cid := u.cid, uploader := u.owner, sizeBytes := u.sizeBytes, paymentId := u.paymentId,
    expiresAt := u.expiryTs, mode := u.mode, mime := u.mime }

/-- An uploader of a CID that is already hosted holds an own copy. -/
def claim (u : Upload) (hosted : Bool) (pinId : Nat) : NewClaim :=
  { cid := u.cid, owner := u.owner, pinId := some pinId, paymentId := u.paymentId,
    sizeBytes := u.sizeBytes, sizeMB := u.sizeMB, rateLocked := u.rateLocked,
    paidHours := u.paidHours, copies := u.copies, amountPaid := u.amountPaid,
    currency := u.currency, startTs := u.startTs, expiryTs := u.expiryTs,
    kind := if hosted then .ownCopy else .original, state := .active,
    releasePolicy := u.releasePolicy, receiptHash := u.receiptHash }

end Upload

structure Uploaded where
  pin : CreatedPin
  claim : CreatedClaim
  kind : ClaimKind
deriving DecidableEq

def finaliseUpload (db : Db) (t : Int) (u : Upload) : Uploaded × Db :=
  let hosted := (alreadyHostedForCid db u.cid).isSome
  let (pin, withPin) := createPin db t u.pin
  let n := u.claim hosted pin.id
  let (claim, after) := createOrderWithClaim withPin t n
  ({ pin, claim, kind := n.kind }, after)

/-- A dormant guardian claim; its timer is a placeholder until it is activated. -/
structure Pledge where
  cid : Cid
  owner : Account
  paymentId : Nat
  sizeBytes : Nat
  sizeMB : Int
  rateLocked : Coins
  paidHours : Int
  copies : Int
  amountPaid : Coins
  currency : String

def Pledge.claim (g : Pledge) (t : Int) : NewClaim :=
  { cid := g.cid, owner := g.owner, pinId := none, paymentId := g.paymentId,
    sizeBytes := g.sizeBytes, sizeMB := g.sizeMB, rateLocked := g.rateLocked,
    paidHours := g.paidHours, copies := g.copies, amountPaid := g.amountPaid,
    currency := g.currency, startTs := t, expiryTs := t, kind := .guardian, state := .dormant,
    releasePolicy := none, receiptHash := none }

def pledge (db : Db) (t : Int) (g : Pledge) : CreatedClaim × Db :=
  createOrderWithClaim db t (g.claim t)

inductive LedgerOp where
  | upload (u : Upload)
  | ownCopy (n : OwnCopyRequest)
  | pledge (g : Pledge)
  | extend (claimId : Nat) (owner : Account) (extraHours : Int)
  | cancel (claimId : Nat) (owner : Option Account) (asAdmin : Bool)
  | release (claimId : Nat)
  | removePin (cid : Cid) (uploader : Account)
  | ban (hiveAccount reason : String) (policy : Option RefundPolicy) (admin : String)
  | takedown (cid reason : String) (policy : Option RefundPolicy) (admin : String)
  | sweep

/-- The database a fallible transaction leaves: its result, or the rolled back start. -/
def committed {α : Type} (db : Db) (r : Except Fault (α × Db)) : Db :=
  match r with
  | .ok (_, after) => after
  | .error _ => db

def LedgerOp.apply (cfg : Config) (db : Db) (t : Int) : LedgerOp → Db
  | upload u => (finaliseUpload db t u).2
  | ownCopy n => committed db (createOwnCopyClaim db t n)
  | pledge g => (LedgerRun.pledge db t g).2
  | extend claimId owner extraHours => committed db (extendClaim db claimId owner extraHours)
  | cancel claimId owner asAdmin => committed db (cancelClaim db t claimId owner asAdmin)
  | release claimId => committed db (endActiveClaimForRelease db t claimId)
  | removePin cid uploader => (removePinForUploader db t cid uploader).2
  | ban hiveAccount reason policy admin =>
    committed db (banAccount cfg db t hiveAccount reason policy admin)
  | takedown cid reason policy admin =>
    committed db (takedownCid cfg db t cid reason policy admin)
  | sweep => (Quota.sweep db t).2

/-- The database, and the ids of the claims created without a timer. -/
structure Ledger where
  db : Db
  untimed : List Nat

/-- Extensions are of timed claims, and a pin delete is for an account that has no active
claim on the CID. -/
def LedgerOp.Admitted (s : Ledger) : LedgerOp → Prop
  | extend claimId _ _ => claimId ∉ s.untimed
  | removePin cid uploader =>
    ∀ c ∈ s.db.claims, ¬ (c.cid = cid ∧ c.owner = uploader ∧ c.state = .active)
  | _ => True

instance (s : Ledger) : DecidablePred (LedgerOp.Admitted s) := fun op => by
  cases op <;> unfold LedgerOp.Admitted <;> infer_instance

/-- Whether the claim the call creates, if it creates one, has no timer. -/
def LedgerOp.isUntimed : LedgerOp → Bool
  | upload u => u.permanent
  | ownCopy n => n.expiryOverride.isSome
  | _ => false

/-- An operation that is not admitted is left out of the run. -/
def LedgerOp.step (cfg : Config) (s : Ledger) (t : Int) (op : LedgerOp) : Ledger :=
  if op.Admitted s then
    let after := op.apply cfg s.db t
    if op.isUntimed ∧ s.db.claims.next < after.claims.next then
      { db := after, untimed := s.db.claims.next :: s.untimed }
    else { db := after, untimed := s.untimed }
  else s

/-- The state after the operations, each with its clock reading, in order. -/
def run (cfg : Config) (ops : List (Int × LedgerOp)) : Ledger :=
  ops.foldl (fun s o => o.2.step cfg s o.1) { db := Db.empty, untimed := [] }

/-- What holds at the start and is kept by every admitted operation holds after every run. -/
theorem run_induction (cfg : Config) (P : Ledger → Prop)
    (hstart : P { db := Db.empty, untimed := [] })
    (hstep : ∀ s t (op : LedgerOp), P s → op.Admitted s → P (op.step cfg s t))
    (ops : List (Int × LedgerOp)) : P (run cfg ops) := by
  unfold run
  generalize ({ db := Db.empty, untimed := [] } : Ledger) = s at hstart ⊢
  induction ops generalizing s with
  | nil => exact hstart
  | cons o rest ih =>
    refine ih _ ?_
    change P (o.2.step cfg s o.1)
    by_cases ha : o.2.Admitted s
    · exact hstep s o.1 o.2 hstart ha
    · have hskip : o.2.step cfg s o.1 = s := if_neg ha
      rw [hskip]
      exact hstart

/-- What a successful call keeps, its commit keeps. -/
theorem committed_ind {α : Type} {P : Db → Prop} {db : Db} {r : Except Fault (α × Db)}
    (h : P db) (hok : ∀ a after, r = .ok (a, after) → P after) : P (committed db r) := by
  unfold committed
  split
  · exact hok _ _ rfl
  · exact h

/-- A successful ban is the ban transaction under the policy that was asked for. -/
theorem banAccount_result {cfg : Config} {db after : Db} {t : Int} {hiveAccount reason : String}
    {policy : Option RefundPolicy} {admin : String} {b : Banned}
    (h : banAccount cfg db t hiveAccount reason policy admin = .ok (b, after)) :
    ∃ p, policy = some p ∧
      banTransaction db t (cfg.toLowerCase hiveAccount) reason p admin = (b, after) := by
  unfold banAccount at h
  split at h
  · cases h
  · split at h
    · cases h
    · split at h
      · cases h
      · rename_i p
        exact ⟨p, rfl, Except.ok.inj h⟩

theorem banAccount_ok {cfg : Config} {db after : Db} {t : Int} {hiveAccount reason : String}
    {policy : Option RefundPolicy} {admin : String} {b : Banned}
    (h : banAccount cfg db t hiveAccount reason policy admin = .ok (b, after)) :
    ∃ p, after = (banTransaction db t (cfg.toLowerCase hiveAccount) reason p admin).2 := by
  obtain ⟨p, _, heq⟩ := banAccount_result h
  exact ⟨p, (congrArg Prod.snd heq).symm⟩

/-- A successful takedown falls back to the gate's default policy. -/
theorem takedownCid_result {cfg : Config} {db after : Db} {t : Int} {cid reason : String}
    {policy : Option RefundPolicy} {admin : String} {d : TakenDown}
    (h : takedownCid cfg db t cid reason policy admin = .ok (d, after)) :
    takedownTransaction db t cid reason (policy.getD cfg.defaultRefundPolicy) admin
      = (d, after) := by
  unfold takedownCid at h
  split at h
  · cases h
  · split at h
    · cases h
    · exact Except.ok.inj h

theorem takedownCid_ok {cfg : Config} {db after : Db} {t : Int} {cid reason : String}
    {policy : Option RefundPolicy} {admin : String} {d : TakenDown}
    (h : takedownCid cfg db t cid reason policy admin = .ok (d, after)) :
    ∃ p, after = (takedownTransaction db t cid reason p admin).2 :=
  ⟨_, (congrArg Prod.snd (takedownCid_result h)).symm⟩

theorem lockstep_apply {cfg : Config} {s : Ledger} {t : Int} {op : LedgerOp}
    (h : Lockstep s.db) (ha : op.Admitted s) : Lockstep (op.apply cfg s.db t) := by
  cases op with
  | upload u => exact h.finaliseUpload rfl rfl rfl rfl rfl
  | ownCopy n => exact committed_ind h (fun _ _ hok => h.createOwnCopyClaim hok)
  | pledge g =>
    exact h.pledging rfl (fun _ => mem_createOrderWithClaim) rfl ClaimState.noConfusion
  | extend claimId owner extraHours => exact committed_ind h (fun _ _ hok => h.extendClaim hok)
  | cancel claimId owner asAdmin => exact committed_ind h (fun _ _ hok => h.cancelClaim hok)
  | release claimId => exact committed_ind h (fun _ _ hok => h.endActiveClaimForRelease hok)
  | removePin cid uploader =>
    exact h.removePinForUploader t (fun c hc hcid hown hact => ha c hc ⟨hcid, hown, hact⟩)
  | ban hiveAccount reason policy admin =>
    refine committed_ind h (fun b after hok => ?_)
    obtain ⟨p, rfl⟩ := banAccount_ok hok
    exact h.banTransaction t _ reason p admin
  | takedown cid reason policy admin =>
    refine committed_ind h (fun d after hok => ?_)
    obtain ⟨p, rfl⟩ := takedownCid_ok hok
    exact h.takedownTransaction t cid reason p admin
  | sweep => exact h.sweep t

end IpfsGate.LedgerRun
