import IpfsGate.Escrow
import IpfsGate.LedgerRun
import IpfsGate.Lib.Program
import Mathlib.Data.Finset.Insert
import Mathlib.Data.Finset.Erase

/-!
# The machine the request handlers run on

The world is the database, the set of CIDs pinned in Kubo, the clock and the sweeper's flag. A
statement is one database transaction or one effect of a Kubo call. Everything a handler awaits
is a call; the clock moves only while handlers are suspended, so a turn has one clock reading.
-/
namespace IpfsGate.Server

open Quota Moderation LedgerRun
open Lib (Machine Prog)

structure World where
  db : Db
  kubo : Finset Cid
  now : Int
  sweeping : Bool

def World.boot (t : Int) : World := { db := Db.empty, kubo := ∅, now := t, sweeping := false }

inductive Stmt where
  | createReservation (uploader : Account) (sizeBytes : Nat) (mode : Mode)
      (quote : ReservationQuote)
  | recordPayment (p : NewPayment)
  | markReservationPaid (reservationId : Nat) (txId : String)
  | markReservationCancelled (reservationId : Nat)
  | finaliseUpload (reservationId : Nat) (u : Upload)
  | createOwnCopyClaim (n : OwnCopyRequest)
  | pledge (g : Pledge)
  | extendClaim (claimId : Nat) (owner : Account) (extraHours : Int)
  | cancelClaim (claimId : Nat) (owner : Option Account) (asAdmin : Bool)
  | endActiveClaimForRelease (claimId : Nat)
  | removePinForUploader (cid : Cid) (uploader : Account)
  | banAccount (hiveAccount reason : String) (policy : Option RefundPolicy) (admin : String)
  | unbanAccount (hiveAccount admin : String)
  | takedownCid (cid : Cid) (reason : String) (policy : Option RefundPolicy) (admin : String)
  | untakedownCid (cid : Cid) (admin : String)
  | importTakedowns (list : List ImportEntry)
  | addToWhitelist (r : WhitelistRequest)
  | removeFromWhitelist (hiveAccount removedBy : String)
  | audit (e : AuditEntry)
  | recordRefund (n : NewRefund)
  | markRefundSettled (refundId : Nat) (status : RefundStatus) (txId : Option String)
  | enqueueReport (ref refundId : Nat)
  | markReport (status : ReportStatus) (ref : Nat) (receipt : BoxReceipt)
  | updateReceipt (ref : Nat) (receipt : BoxReceipt)
  | recordReleaseConsent (orderId : Nat) (releaser : Account) (sig : String)
  | recordReceipt (orderId : Nat) (recipient : Account) (proofHash sig : String)
  | sweep
  | setSweeping (b : Bool)
  | pinInKubo (cid : Cid)
  | unpinFromKubo (cid : Cid)

namespace Stmt

/-- What a statement returns. -/
abbrev Out : Stmt → Type
  | createReservation .. => Except Fault Reserved
  | recordPayment _ => Except Fault Nat
  | finaliseUpload .. => Uploaded
  | createOwnCopyClaim _ => Except Fault OwnCopy
  | pledge _ => CreatedClaim
  | extendClaim .. => Except Fault Claim
  | cancelClaim .. => Except Fault Ended
  | endActiveClaimForRelease _ => Except Fault Ended
  | removePinForUploader .. => Removed
  | banAccount .. => Except Fault Banned
  | unbanAccount .. => Except Fault Nat
  | takedownCid .. => Except Fault TakenDown
  | untakedownCid .. => Except Fault Nat
  | importTakedowns _ => Imported
  | addToWhitelist _ => Except Fault Nat
  | removeFromWhitelist .. => Except Fault Nat
  | audit _ => Nat
  | recordRefund _ => Nat
  | enqueueReport .. | markReport .. => Bool
  | sweep => Swept
  | markReservationPaid .. | markReservationCancelled _ | markRefundSettled .. => Unit
  | updateReceipt .. | recordReleaseConsent .. | recordReceipt .. | setSweeping _ => Unit
  | pinInKubo _ | unpinFromKubo _ => Unit

/-- A transaction that throws is rolled back. -/
def fallible {α : Type} (w : World) (r : Except Fault (α × Db)) : Except Fault α × World :=
  match r with
  | .ok (a, db) => (.ok a, { w with db })
  | .error e => (.error e, w)

/-- A call that leaves its writes behind also when it throws, or never throws. -/
def total {α : Type} (w : World) (r : α × Db) : α × World := (r.1, { w with db := r.2 })

def silent (w : World) (db : Db) : Unit × World := ((), { w with db })

/-- The three writes of a finished upload: its pin, the reservation's status and its claim. -/
def commitUpload (db : Db) (t : Int) (reservationId : Nat) (u : Upload) : Uploaded × Db :=
  let (out, after) := LedgerRun.finaliseUpload db t u
  (out, markReservationUploaded after reservationId out.pin.id)

def sem (cfg : Config) : (s : Stmt) → World → Out s × World
  | createReservation uploader sizeBytes mode quote, w =>
    fallible w (Quota.createReservation cfg w.db w.now uploader sizeBytes mode quote)
  | recordPayment p, w => fallible w (Quota.recordPayment w.db w.now p)
  | markReservationPaid reservationId txId, w =>
    silent w (Quota.markReservationPaid w.db reservationId txId)
  | markReservationCancelled reservationId, w =>
    silent w (Quota.markReservationCancelled w.db reservationId)
  | finaliseUpload reservationId u, w => total w (commitUpload w.db w.now reservationId u)
  | createOwnCopyClaim n, w => fallible w (Quota.createOwnCopyClaim w.db w.now n)
  | pledge g, w => total w (LedgerRun.pledge w.db w.now g)
  | extendClaim claimId owner extraHours, w =>
    fallible w (Quota.extendClaim w.db claimId owner extraHours)
  | cancelClaim claimId owner asAdmin, w =>
    fallible w (Quota.cancelClaim w.db w.now claimId owner asAdmin)
  | endActiveClaimForRelease claimId, w =>
    fallible w (Quota.endActiveClaimForRelease w.db w.now claimId)
  | removePinForUploader cid uploader, w =>
    total w (Quota.removePinForUploader w.db w.now cid uploader)
  | banAccount hiveAccount reason policy admin, w =>
    fallible w (Moderation.banAccount cfg w.db w.now hiveAccount reason policy admin)
  | unbanAccount hiveAccount admin, w =>
    total w (Moderation.unbanAccount cfg w.db w.now hiveAccount admin)
  | takedownCid cid reason policy admin, w =>
    fallible w (Moderation.takedownCid cfg w.db w.now cid reason policy admin)
  | untakedownCid cid admin, w => total w (Moderation.untakedownCid w.db w.now cid admin)
  | importTakedowns list, w => total w (Moderation.importTakedowns cfg w.db w.now list)
  | addToWhitelist r, w => total w (Moderation.addToWhitelist cfg w.db w.now r)
  | removeFromWhitelist hiveAccount removedBy, w =>
    total w (Moderation.removeFromWhitelist cfg w.db w.now hiveAccount removedBy)
  | audit e, w => total w (Moderation.audit w.db w.now e)
  | recordRefund n, w => total w (Quota.recordRefund w.db w.now n)
  | markRefundSettled refundId status txId, w =>
    silent w (Quota.markRefundSettled w.db w.now refundId status txId)
  | enqueueReport ref refundId, w => total w (Escrow.enqueue w.db w.now ref (some refundId))
  | markReport status ref receipt, w => total w (Escrow.mark w.db status ref receipt)
  | updateReceipt ref receipt, w => silent w (Escrow.updateReceipt w.db ref receipt)
  | recordReleaseConsent orderId releaser sig, w =>
    silent w (Quota.recordReleaseConsent cfg w.db w.now orderId releaser sig)
  | recordReceipt orderId recipient proofHash sig, w =>
    silent w (Quota.recordReceipt cfg w.db w.now orderId recipient proofHash sig)
  | sweep, w => total w (Quota.sweep w.db w.now)
  | setSweeping b, w => ((), { w with sweeping := b })
  | pinInKubo cid, w => ((), { w with kubo := insert cid w.kubo })
  | unpinFromKubo cid, w => ((), { w with kubo := w.kubo.erase cid })

end Stmt

/-- An amount of tokens that the chain moved. -/
structure Amount where
  value : Coins
  nonneg : 0 ≤ value

/-- `quantity` is absent when the text is not a finite number. -/
structure TransferPayload where
  toAccount : String
  symbol : String
  quantity : Option Amount
  memo : String

structure Action where
  contractName : String
  contractAction : String
  contractPayload : Option TransferPayload

/-- `auths` lists `required_auths` and `required_posting_auths`; `actions` is absent when the
payload is not JSON. -/
structure CustomJson where
  id : String
  auths : List Account
  actions : Option (List Action)

inductive Operation where
  | customJson (payload : CustomJson)
  | other

inductive SidechainResult where
  | confirmed
  | rejected (errors : List String)
  | pending

/-- What a handler awaits. A Kubo call that changes the pin set is two calls: up to the moment
its effect happens, if it happens, and from then to its response. `returned` is the extra turn
an await of an asynchronous function takes once the function has returned. -/
inductive Call where
  | hashFile (file : Cid)
  | getAccountPostingPubkeys (account : Account)
  | getTransaction (txId : String)
  | verifyHiveEngineSidechain (txId : String)
  | getHiveEngineBalance (account : Account) (symbol : String)
  | kuboAdd (file : Cid)
  | kuboAdded (cid : Cid)
  | kuboRemove (cid : Cid)
  | kuboRemoved (cid : Cid)
  | kuboGc
  | broadcast (dest : Account) (amount : Coins) (currency memo : String)
  | settleReport (claimId refundId : Nat)
  | returned
deriving DecidableEq

/-- Messages stand for thrown errors that carry no code. -/
abbrev Call.Reply : Call → Type
  | hashFile _ => Except String Unit
  | getAccountPostingPubkeys _ => Except String (List String)
  | getTransaction _ => Except String (List Operation)
  | verifyHiveEngineSidechain _ => Except String SidechainResult
  | getHiveEngineBalance .. => Except String Coins
  | kuboAdd _ => Bool
  | kuboAdded _ => Except String Unit
  | kuboRemove _ => Bool
  | kuboRemoved _ => Except String Unit
  | kuboGc => Except String Unit
  | broadcast .. => Except String String
  | settleReport .. => Except String Unit
  | returned => Unit

/-- What the world may answer to a call. -/
abbrev Answers := (c : Call) → c.Reply → Prop

abbrev machine (cfg : Config) : Machine where
  World := World
  Fault := Fault
  Stmt := Stmt
  Out := Stmt.Out
  sem := Stmt.sem cfg
  Call := Call
  Reply := Call.Reply
  Drift := Nat
  drift := fun ms w => { w with now := w.now + ms }

abbrev Handler (cfg : Config) : Type → Type := Prog (machine cfg)

def transact {cfg : Config} (s : Stmt) : Handler cfg s.Out := Prog.tx (M := machine cfg) s

def perform {cfg : Config} (c : Call) : Handler cfg c.Reply := Prog.call (M := machine cfg) c

/-- Ask the database. -/
def ask {cfg : Config} {α : Type} (f : Db → α) : Handler cfg α :=
  Prog.query (M := machine cfg) (fun w => f w.db)

def clock {cfg : Config} : Handler cfg Int := Prog.query (M := machine cfg) World.now

end IpfsGate.Server
