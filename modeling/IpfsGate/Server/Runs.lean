import IpfsGate.Server.Ledger

/-!
# Runs of the gate

A property of the database that the ledger operations keep holds after every run. A condition
on statements narrows the runs down to those in which every statement meets it where it runs.
-/
namespace IpfsGate.Server

open Quota Moderation LedgerRun
open Lib (Event Pool Protocol)

/-- Every statement of the run meets the condition in the world it runs in. -/
abbrev Guarded (cfg : Config) (Ok : Stmt → World → Prop) (t : Int)
    (events : List (GateEvent cfg)) : Prop :=
  Pool.Admissible (handle cfg) (fun _ _ => True) (fun _ => Ok) (Pool.start (World.boot t)) events

/-- What the start has and every permitted statement keeps, every run has. -/
theorem serve_invariant (cfg : Config) {P : World → Prop} {Ok : Stmt → World → Prop} {t : Int}
    (hstart : P (World.boot t)) (hdrift : ∀ (ms : Nat) w, P w → P { w with now := w.now + ms })
    (hstmt : ∀ s w, s.Checked w → Ok s w → P w → P (s.sem cfg w).2)
    {events : List (GateEvent cfg)} (h : Guarded cfg Ok t events) :
    P (serve cfg t events).world := by
  refine Protocol.run_invariant (M := machine cfg) (G := fun s w => s.Checked w) hstart
    hdrift hstmt ?_ h
  intro q w _
  exact (handle_follows cfg q w).weaken (fun _ _ hg => hg.2) (fun _ _ => trivial)

/-- What the start has and every permitted ledger operation keeps, every run has. -/
theorem serve_keeps (cfg : Config) {P : Db → Prop} {Ok : Stmt → World → Prop}
    (hstart : P Db.empty) (hrelax : ∀ a b, Relaxes a b → P a → P b)
    (hop : ∀ s op w, s.op = some op → s.Checked w → Ok s w → P w.db →
      P (op.apply cfg w.db w.now))
    (htakedown : ∀ db t cid reason policy admin, P db →
      P ((LedgerOp.takedown cid reason policy admin).apply cfg db t))
    {t : Int} {events : List (GateEvent cfg)} (h : Guarded cfg Ok t events) :
    P (serve cfg t events).world.db := by
  refine serve_invariant cfg (P := fun w => P w.db) hstart (fun _ _ hw => hw) ?_ h
  intro s w hs hok hw
  exact sem_keeps cfg hrelax (fun op hsop hdb => hop s op w hsop hs hok hdb)
    (fun db cid reason policy admin hdb => htakedown db w.now cid reason policy admin hdb) hw

/-! ## A sample gate -/

namespace Sample

/-- A transaction pays a thousand tokens for the users, under the memo that is its id. -/
def transferOf (txId : String) : Operation :=
  .customJson
    { id := ssc, auths := ["alice", "bob", "carol"],
      actions := some [{
        contractName := "tokens", contractAction := "transfer",
        contractPayload := some
          { toAccount := "gate", symbol := "SWAP.HIVE", quantity := some ⟨1000, by decide⟩,
            memo := txId } }] }

/-- The answers of a chain and a Kubo node on which everything succeeds. -/
def answer : (c : Call) → c.Reply
  | .hashFile _ => .ok ()
  | .getAccountPostingPubkeys _ => .ok ["posting-key"]
  | .getTransaction txId => .ok [transferOf txId]
  | .verifyHiveEngineSidechain _ => .ok .confirmed
  | .getHiveEngineBalance .. => .ok 1000
  | .kuboAdd _ => true
  | .kuboAdded _ => .ok ()
  | .kuboRemove _ => true
  | .kuboRemoved _ => .ok ()
  | .kuboGc => .ok ()
  | .broadcast .. => .ok "refund-tx"
  | .settleReport .. => .ok ()
  | .returned => ()

/-- The process at the index is answered, so many times. -/
def resumed {cfg : Config} (n : Nat) (i : Nat) : List (GateEvent cfg) :=
  List.replicate n (.resume i answer)

def operator : AdminAuth :=
  { bearer := some "operator-key", adminAccount := "", adminTs := none, adminPubkey := "",
    adminSig := "" }

def signedBy (account : Account) : Signed :=
  { hiveAccount := account, ts := some 0, pubkey := "posting-key", sig := "signature" }

def reserveBy (uploader : Account) : Request :=
  .reserve { uploader, sizeBytes := 100, mode := "public", hoursRequested := none, copies := none }

def uploadOf (reservationId : Nat) (file : Cid) : Request :=
  .upload
    { reservationId, txId := memoForReservation reservationId, uploaderPubkey := "posting-key",
      uploadProofSig := "signature", file, mime := "text/plain", releasePolicy := none,
      receiptHash := "" }

/-- Alice reserves and uploads a file, which becomes claim 1 on pin 1. -/
def hostedByAlice {cfg : Config} : List (GateEvent cfg) :=
  [.spawn (reserveBy "alice"), .spawn (uploadOf 1 "bafy")] ++ resumed 6 0

def pledgeBy (pledger : Account) : Request :=
  .guardianPledge
    { pledger, cid := "bafy", hoursRequested := none, copies := none,
      txId := "ipfs-gate:guardian:bafy" }

def cancelBy (account : Account) (claimId : Nat) : Request :=
  .cancel { claimId := some claimId, signed := signedBy account }

def takedownBafy : Request :=
  .takedown { cid := "bafy", reason := "court order", refundPolicy := none, auth := operator }

def banAlice : Request :=
  .ban { hiveAccount := "alice", reason := "abuse", refundPolicy := some .prorata,
         auth := operator }

def importOf (cid : Cid) : Request :=
  .takedownsImport { takedowns := [{ cid, reason := "court order" }], auth := operator }

end Sample

end IpfsGate.Server
