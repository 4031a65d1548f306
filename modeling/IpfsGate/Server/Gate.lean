import IpfsGate.Server.Admin
import IpfsGate.Server.Box

/-!
# The gate

Every request the gate serves that writes to its database or to Kubo, as one program, and the
runs of the server: any number of requests, repeated at will, suspended at every await.
-/
namespace IpfsGate.Server

open Lib (Event Pool Prog)

inductive Request where
  | reserve (b : ReserveRequest)
  | upload (b : UploadRequest)
  | guardianPledge (b : PledgeRequest)
  | backstopPledge (b : PledgeRequest)
  | ownCopy (b : OwnCopyBody)
  | extend (b : ExtendRequest)
  | cancel (b : CancelRequest)
  | uploadsDelete (b : DeleteRequest)
  | release (b : ReleaseRequest)
  | receipt (b : ReceiptRequest)
  | ban (b : BanRequest)
  | unban (b : NameRequest)
  | takedown (b : TakedownRequest)
  | untakedown (b : NameRequest)
  | takedownsImport (b : ImportRequest)
  | whitelistAdd (b : WhitelistAddRequest)
  | whitelistRemove (b : NameRequest)
  | pinsDelete (b : PinsDeleteRequest)
  | boxReceipt (b : BoxReceipt)
  | sweep

inductive Body where
  | reserve (r : ReserveReply)
  | upload (r : UploadReply)
  | pledge (r : PledgeReply)
  | ownCopy (r : OwnCopyReply)
  | extend (r : ExtendReply)
  | cancel (r : CancelReply)
  | uploadsDelete (r : DeleteReply)
  | release (r : ReleaseReply)
  | ban (r : BanReply)
  | logged (r : LoggedReply)
  | takedown (r : TakedownReply)
  | imported (r : Moderation.Imported)
  | pinsDelete (r : PinsDeleteReply)
  | boxReceipt
  | swept

def handle (cfg : Config) : Request → Handler cfg Body
  | .reserve b => Body.reserve <$> reserve b
  | .upload b => Body.upload <$> upload b
  | .guardianPledge b => Body.pledge <$> guardianPledge "guardian" b
  | .backstopPledge b => Body.pledge <$> guardianPledge "backstop" b
  | .ownCopy b => Body.ownCopy <$> ownCopy b
  | .extend b => Body.extend <$> extend b
  | .cancel b => Body.cancel <$> cancel b
  | .uploadsDelete b => Body.uploadsDelete <$> uploadsDelete b
  | .release b => Body.release <$> release b
  | .receipt b => Body.release <$> receipt b
  | .ban b => Body.ban <$> ban b
  | .unban b => Body.logged <$> unban b
  | .takedown b => Body.takedown <$> takedown b
  | .untakedown b => Body.logged <$> untakedown b
  | .takedownsImport b => Body.imported <$> takedownsImport b
  | .whitelistAdd b => Body.logged <$> whitelistAdd b
  | .whitelistRemove b => Body.logged <$> whitelistRemove b
  | .pinsDelete b => Body.pinsDelete <$> pinsDelete b
  | .boxReceipt b => (fun _ => Body.boxReceipt) <$> handleReceipt b
  | .sweep => (fun _ => Body.swept) <$> runOnce

abbrev Gate (cfg : Config) := Pool (machine cfg) Request Body

abbrev GateEvent (cfg : Config) := Event (machine cfg) Request

/-- The gate after the events, from an empty database at the given time. -/
def serve (cfg : Config) (t : Int) (events : List (GateEvent cfg)) : Gate cfg :=
  (Pool.start (World.boot t)).run (handle cfg) events

end IpfsGate.Server
