import IpfsGate.Server.Machine

/-!
# Who may ask for what

Signed user requests and the two admin tiers. A signed request is verified before its handler
reads anything it acts on.
-/
namespace IpfsGate.Server

open Quota
open Lib.Prog (require)

/-- A check of a handler, and the error it answers with when the check fails. -/
def check (b : Bool) (e : Fault) : Except Fault Unit := if b then .ok () else .error e

@[simp] theorem check_ok {b : Bool} {e : Fault} {u : Unit} : check b e = .ok u ↔ b = true := by
  unfold check
  split <;> simp_all

/-- `[a-z0-9]`. -/
def isNameChar (c : Char) : Bool := ('a' ≤ c && c ≤ 'z') || ('0' ≤ c && c ≤ '9')

/-- `/^[a-z0-9][a-z0-9.\-]*$/`. -/
def isAccountName (s : String) : Bool :=
  match s.toList with
  | [] => false
  | c :: rest => isNameChar c && rest.all (fun d => isNameChar d || d = '.' || d = '-')

/-- `ts` is absent when it is not a whole number. -/
structure Signed where
  hiveAccount : String
  ts : Option Int
  pubkey : String
  sig : String

def tsText (ts : Option Int) : String := (ts.map toString).getD "undefined"

def verifySignedUserRequest {cfg : Config} (account : Account) (ts : Option Int)
    (pubkey sig message : String) : Handler cfg Unit := do
  require (isAccountName account) ⟨"bad_request", "valid hive_account required"⟩
  match ts with
  | none => .fail ⟨"bad_request", "ts (unix seconds) required"⟩
  | some tsNum =>
    require (pubkey ≠ "" && sig ≠ "") ⟨"bad_request", "pubkey and sig required"⟩
    let now ← clock
    let skew := |now / 1000 - tsNum|
    require (skew ≤ cfg.signedRequestMaxSkewSec)
      ⟨"unauthorized", "request timestamp outside freshness window"⟩
    require (cfg.verifyHiveSig message sig pubkey)
      ⟨"unauthorized", "signature verification failed"⟩
    match ← perform (.getAccountPostingPubkeys account) with
    | .error e => .fail ⟨"unprocessable_entity", s!"could not verify account keys: {e}"⟩
    | .ok postingKeys =>
      require (postingKeys.contains pubkey)
        ⟨"unauthorized", "pubkey is not a current posting key for this account"⟩

/-- The fields either admin tier puts on a request; `bearer` is the token of the header. -/
structure AdminAuth where
  bearer : Option String
  adminAccount : String
  adminTs : Option Int
  adminPubkey : String
  adminSig : String

def isOperator (cfg : Config) (auth : AdminAuth) : Bool :=
  cfg.adminKey ≠ "" && auth.bearer = some cfg.adminKey

/-- The id of the admin: the operator's, or a Hive account of the roster. -/
def verifyAdminAuth {cfg : Config} (auth : AdminAuth) (action target : String) :
    Handler cfg String := do
  if isOperator cfg auth then
    let _ ← perform .returned
    return "operator"
  else
    require (auth.adminAccount ≠ "" && auth.adminSig ≠ "")
      ⟨"unauthorized", "admin auth required"⟩
    let account := cfg.toLowerCase auth.adminAccount
    require (cfg.serverAdminHiveAccounts.contains account)
      ⟨"forbidden", "account is not a server admin"⟩
    let message :=
      s!"ipfs-gate:admin-action:v1:{action}:{target}:{account}:{tsText auth.adminTs}"
    verifySignedUserRequest account auth.adminTs auth.adminPubkey auth.adminSig message
    return s!"hive:{account}"

/-- The Bearer-only routes. -/
def requireAdmin {cfg : Config} (auth : AdminAuth) : Handler cfg Unit :=
  require (isOperator cfg auth) ⟨"unauthorized", "admin auth required"⟩

/-- The account's live whitelist entry, if it is fee-exempt. -/
def feeExemptEntryFor (cfg : Config) (db : Db) (account : Account) :
    Option WhitelistedAccount :=
  if cfg.whitelistMode then
    (getWhitelistEntry db account).filter WhitelistedAccount.feeExempt
  else none

end IpfsGate.Server
