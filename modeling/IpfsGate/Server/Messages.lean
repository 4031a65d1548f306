import IpfsGate.Lib.Separated
import IpfsGate.Numerals
import IpfsGate.Server.Hosting

/-!
# What a signature is for

Every signed message names its endpoint, and puts its fields behind one another with colons. One
field of each format may hold a colon itself; the ones around it cannot, since they are account
names, hashes, and time stamps that stand for a number.
-/
namespace IpfsGate.Server.Messages

open Lib.Separated
open Numerals (NoColon Value)

/-! ## The messages -/

/-- `/^[a-f0-9]{16}$/`. -/
def isReservationId (s : String) : Bool :=
  s.toList.length = 16 &&
    s.toList.all (fun c => ('a' ≤ c && c ≤ 'f') || ('0' ≤ c && c ≤ '9'))

def buildUploadProofMessage (lower : String → String)
    (ciphertextSha256Hex reservationId uploader : String) : Except String String :=
  if !isHexSha256 ciphertextSha256Hex then .error "ciphertextSha256Hex must be 64 hex chars"
  else if !isReservationId reservationId then .error "reservationId must be 16 hex chars"
  else
    let u := lower uploader
    if !isAccountName u then .error "uploader must be a valid Hive account name"
    else .ok s!"ipfs-gate:upload-proof:v1:{ciphertextSha256Hex}:{reservationId}:{u}"

/-- What an admin's signature is asked for. -/
inductive AdminAction where
  | ban (account : String)
  | unban (account : String)
  | takedown (cid : String)
  | untakedown (cid : String)
  | whitelistAdd (account : String)
  | whitelistRemove (account : String)
  | whitelistList
  | pinDelete (cid account : String)
deriving DecidableEq

def AdminAction.name : AdminAction → String
  | .ban _ => "ban"
  | .unban _ => "unban"
  | .takedown _ => "takedown"
  | .untakedown _ => "untakedown"
  | .whitelistAdd _ => "whitelist-add"
  | .whitelistRemove _ => "whitelist-remove"
  | .whitelistList => "whitelist-list"
  | .pinDelete .. => "pin-delete"

def AdminAction.target : AdminAction → String
  | .ban account => account
  | .unban account => account
  | .takedown cid => cid
  | .untakedown cid => cid
  | .whitelistAdd account => account
  | .whitelistRemove account => account
  | .whitelistList => "all"
  | .pinDelete cid account => s!"{cid}:{account}"

/-- A request that carries a signature, with the time stamps `τ`. -/
inductive SignedRequest (τ : Type) where
  | uploadProof (ciphertextSha256Hex reservationId uploader : String)
  | listUploads (account : String) (ts : τ)
  | listClaims (account : String) (ts : τ)
  | deletePin (cid account : String) (ts : τ)
  | cancelClaim (claimId account : String) (ts : τ)
  | release (orderId account : String) (ts : τ)
  | receipt (orderId account : String) (ts : τ) (proofHash : String)
  | adminAction (action : AdminAction) (account : String) (ts : τ)
deriving DecidableEq

namespace SignedRequest

def map {τ τ' : Type} (f : τ → τ') : SignedRequest τ → SignedRequest τ'
  | uploadProof sha reservationId uploader => uploadProof sha reservationId uploader
  | listUploads account ts => listUploads account (f ts)
  | listClaims account ts => listClaims account (f ts)
  | deletePin cid account ts => deletePin cid account (f ts)
  | cancelClaim claimId account ts => cancelClaim claimId account (f ts)
  | release orderId account ts => release orderId account (f ts)
  | receipt orderId account ts proofHash => receipt orderId account (f ts) proofHash
  | adminAction action account ts => adminAction action account (f ts)

/-- The request with the text that the message has for its time stamp. -/
def asSigned (r : SignedRequest Value) : SignedRequest String :=
  r.map (fun ts => String.ofList ts.text)

/-- The message of a request whose time stamp is written out. -/
def written (lower : String → String) : SignedRequest String → Except String String
  | uploadProof sha reservationId uploader =>
    buildUploadProofMessage lower sha reservationId uploader
  | listUploads account ts => .ok s!"ipfs-gate:list-uploads:v1:{account}:{ts}"
  | listClaims account ts => .ok s!"ipfs-gate:list-claims:v1:{account}:{ts}"
  | deletePin cid account ts => .ok s!"ipfs-gate:delete-pin:v1:{cid}:{account}:{ts}"
  | cancelClaim claimId account ts => .ok s!"ipfs-gate:cancel-claim:v1:{claimId}:{account}:{ts}"
  | release orderId account ts => .ok s!"ipfs-gate:release:v1:{orderId}:{account}:{ts}"
  | receipt orderId account ts proofHash =>
    .ok s!"ipfs-gate:receipt:v1:{orderId}:{account}:{ts}:{proofHash}"
  | adminAction action account ts =>
    .ok s!"ipfs-gate:admin-action:v1:{action.name}:{action.target}:{account}:{ts}"

/-- The message that the signature of a request is checked against. -/
def message (lower : String → String) (r : SignedRequest Value) : Except String String :=
  r.asSigned.written lower

end SignedRequest

/-! ## Requests that are let through -/

/-- The time stamp is a whole number of seconds, and at some time within the allowed skew. -/
def Fresh (maxSkewSec : Int) (ts : Value) : Prop :=
  ∃ now tsNum : Int, ts.toNumber = .fin tsNum ∧ |now / 1000 - tsNum| ≤ maxSkewSec

/-- The check of `verifySignedUserRequest` on the fields that are signed. -/
def SignedBy (maxSkewSec : Int) (account : String) (ts : Value) : Prop :=
  isAccountName account = true ∧ Fresh maxSkewSec ts

def AdminAction.NamesAccount : AdminAction → Prop
  | .pinDelete _ account => isAccountName account = true
  | _ => True

/-- The account fields are account names, and the time stamp is one that is accepted. -/
def SignedRequest.Accepted (maxSkewSec : Int) : SignedRequest Value → Prop
  | uploadProof _ _ uploader => isAccountName uploader = true
  | listUploads account ts => SignedBy maxSkewSec account ts
  | listClaims account ts => SignedBy maxSkewSec account ts
  | deletePin _ account ts => SignedBy maxSkewSec account ts
  | cancelClaim _ account ts => SignedBy maxSkewSec account ts
  | release _ account ts => SignedBy maxSkewSec account ts
  | receipt _ account ts proofHash =>
    SignedBy maxSkewSec account ts ∧ isHexSha256 proofHash = true
  | adminAction action account ts => SignedBy maxSkewSec account ts ∧ action.NamesAccount

/-! ## The fields of a message -/

section Fields

variable {lower : String → String} {maxSkewSec : Int} {s m : String} {r : SignedRequest Value}

theorem noColon_name (h : isAccountName s = true) : NoColon s.toList := by
  have hcolon : ∀ c, (isNameChar c || c = '.' || c = '-') = true → c ≠ ':' := by
    rintro c hc rfl
    exact absurd hc (by decide)
  unfold isAccountName at h
  intro hmem
  cases hs : s.toList with
  | nil =>
    rw [hs] at hmem
    exact List.not_mem_nil hmem
  | cons c rest =>
    rw [hs] at h hmem
    simp only [Bool.and_eq_true, List.all_eq_true] at h
    rcases List.mem_cons.mp hmem with rfl | hmem
    · exact hcolon ':' (by simp [h.1]) rfl
    · exact hcolon ':' (h.2 _ hmem) rfl

theorem noColon_hex (h : (s.toList.all
    (fun c => ('a' ≤ c && c ≤ 'f') || ('0' ≤ c && c ≤ '9'))) = true) : NoColon s.toList :=
  Numerals.noColon_of_all (by decide) (List.all_eq_true.mp h)

theorem Fresh.noColon {ts : Value} (h : Fresh maxSkewSec ts) :
    NoColon (String.ofList ts.text).toList := by
  obtain ⟨_, tsNum, hnum, _⟩ := h
  rw [String.toList_ofList]
  apply Value.noColon_text
  rw [hnum]
  exact Lib.Number.noConfusion

/-- The fields before and after the one that may hold a colon, and that field. -/
@[ext] structure Fields where
  endpoint : String
  before : List String
  free : String
  after : List String

def SignedRequest.fields (lower : String → String) : SignedRequest String → Fields
  | uploadProof sha reservationId uploader =>
    ⟨"upload-proof", [sha, reservationId], lower uploader, []⟩
  | listUploads account ts => ⟨"list-uploads", [], account, [ts]⟩
  | listClaims account ts => ⟨"list-claims", [], account, [ts]⟩
  | deletePin cid account ts => ⟨"delete-pin", [], cid, [account, ts]⟩
  | cancelClaim claimId account ts => ⟨"cancel-claim", [], claimId, [account, ts]⟩
  | release orderId account ts => ⟨"release", [], orderId, [account, ts]⟩
  | receipt orderId account ts proofHash => ⟨"receipt", [], orderId, [account, ts, proofHash]⟩
  | adminAction action account ts =>
    ⟨"admin-action", [action.name], action.target, [account, ts]⟩

def Fields.text (f : Fields) : List Char :=
  framed ':' (("ipfs-gate" :: f.endpoint :: "v1" :: f.before).map String.toList) f.free.toList
    (f.after.map String.toList)

/-- The fields around the free one can be told apart. -/
structure Fields.Plain (f : Fields) : Prop where
  endpoint : NoColon f.endpoint.toList
  before : ∀ s ∈ f.before, NoColon s.toList
  after : ∀ s ∈ f.after, NoColon s.toList

theorem buildUploadProofMessage_ok {sha reservationId uploader : String}
    (h : buildUploadProofMessage lower sha reservationId uploader = .ok m) :
    isHexSha256 sha = true ∧ isReservationId reservationId = true ∧
      isAccountName (lower uploader) = true ∧
      m = s!"ipfs-gate:upload-proof:v1:{sha}:{reservationId}:{lower uploader}" := by
  unfold buildUploadProofMessage at h
  by_cases hsha : isHexSha256 sha = true
  · by_cases hid : isReservationId reservationId = true
    · by_cases hname : isAccountName (lower uploader) = true
      · simp only [hsha, hid, hname, Bool.not_true, Bool.false_eq_true, ↓reduceIte] at h
        exact ⟨hsha, hid, hname, (Except.ok.inj h).symm⟩
      · simp [hsha, hid, hname] at h
    · simp [hsha, hid] at h
  · simp [hsha] at h

theorem written_ok {q : SignedRequest String} (h : q.written lower = .ok m) :
    m.toList = (q.fields lower).text := by
  cases q with
  | uploadProof sha reservationId uploader =>
    rw [(buildUploadProofMessage_ok h).2.2.2]
    simp [Fields.text, SignedRequest.fields, framed, toString_string]
  | _ =>
    cases h
    simp [Fields.text, SignedRequest.fields, framed, toString_string]

theorem noColon_adminName (a : AdminAction) : NoColon a.name.toList := by
  unfold NoColon
  cases a <;> simp [AdminAction.name]

theorem noColon_endpoint (q : SignedRequest String) :
    NoColon (q.fields lower).endpoint.toList := by
  unfold NoColon
  cases q <;> simp [SignedRequest.fields]

/-- The fields of a message that is accepted can be told apart. -/
theorem fields_plain (h : r.Accepted maxSkewSec) (hm : r.message lower = .ok m) :
    (r.asSigned.fields lower).Plain := by
  have hnone : ∀ s ∈ ([] : List String), NoColon s.toList := fun s hs => absurd hs List.not_mem_nil
  have hone : ∀ {s : String}, NoColon s.toList → ∀ t ∈ [s], NoColon t.toList := by
    intro s hs t ht
    rw [List.mem_singleton.mp ht]
    exact hs
  have htwo : ∀ {account : String} {ts : Value}, SignedBy maxSkewSec account ts →
      ∀ t ∈ [account, String.ofList ts.text], NoColon t.toList := by
    intro account ts hsigned t ht
    rcases List.mem_cons.mp ht with rfl | ht
    · exact noColon_name hsigned.1
    · exact hone hsigned.2.noColon t ht
  cases r with
  | uploadProof sha reservationId uploader =>
    obtain ⟨hsha, hid, _, _⟩ := buildUploadProofMessage_ok hm
    simp only [isHexSha256, isReservationId, Bool.and_eq_true] at hsha hid
    refine ⟨noColon_endpoint _, ?_, hnone⟩
    intro t ht
    rcases List.mem_cons.mp ht with rfl | ht
    · exact noColon_hex hsha.2
    · exact hone (noColon_hex hid.2) t ht
  | listUploads account ts => exact ⟨noColon_endpoint _, hnone, hone h.2.noColon⟩
  | listClaims account ts => exact ⟨noColon_endpoint _, hnone, hone h.2.noColon⟩
  | deletePin cid account ts => exact ⟨noColon_endpoint _, hnone, htwo h⟩
  | cancelClaim claimId account ts => exact ⟨noColon_endpoint _, hnone, htwo h⟩
  | release orderId account ts => exact ⟨noColon_endpoint _, hnone, htwo h⟩
  | receipt orderId account ts proofHash =>
    refine ⟨noColon_endpoint _, hnone, ?_⟩
    have hproof := h.2
    simp only [isHexSha256, Bool.and_eq_true] at hproof
    intro t ht
    rcases List.mem_cons.mp ht with rfl | ht
    · exact noColon_name h.1.1
    rcases List.mem_cons.mp ht with rfl | ht
    · exact h.1.2.noColon
    · exact hone (noColon_hex hproof.2) t ht
  | adminAction action account ts =>
    exact ⟨noColon_endpoint _, hone (noColon_adminName action), htwo h.1⟩

/-- Equal texts have equal fields, once the formats are the same. -/
theorem fields_eq {f g : Fields} (hf : f.Plain) (hg : g.Plain) (h : f.text = g.text)
    (hbefore : f.before.length = g.before.length) (hafter : f.after.length = g.after.length) :
    f = g := by
  have hhead : ∀ {k : Fields}, k.Plain →
      ∀ x ∈ ("ipfs-gate" :: k.endpoint :: "v1" :: k.before).map String.toList, ':' ∉ x := by
    intro k hk x hx
    simp only [List.map_cons, List.mem_cons, List.mem_map] at hx
    rcases hx with rfl | rfl | rfl | ⟨s, hs, rfl⟩
    · decide
    · exact hk.endpoint
    · decide
    · exact hk.before s hs
  have htail : ∀ {k : Fields}, k.Plain → ∀ x ∈ k.after.map String.toList, ':' ∉ x := by
    intro k hk x hx
    obtain ⟨s, hs, rfl⟩ := List.mem_map.mp hx
    exact hk.after s hs
  obtain ⟨hb, hfree, ha⟩ := framed_inj (by simpa using hbefore) (by simpa using hafter) h
    (hhead hf) (hhead hg) (htail hf) (htail hg)
  have hinj : Function.Injective String.toList := fun _ _ => String.toList_inj.mp
  have hb' := List.map_injective_iff.mpr hinj hb
  have ha' := List.map_injective_iff.mpr hinj ha
  simp only [List.cons.injEq, true_and] at hb'
  exact Fields.ext hb'.1 hb'.2 (String.toList_inj.mp hfree) ha'

/-- The endpoint is read first, whatever the format. -/
theorem endpoint_eq {f g : Fields} (hf : f.Plain) (hg : g.Plain) (h : f.text = g.text) :
    f.endpoint = g.endpoint := by
  unfold Fields.text at h
  simp only [List.map_cons, framed_cons] at h
  obtain ⟨_, hrest⟩ := split_first h (by decide) (by decide)
  exact String.toList_inj.mp (split_first hrest hf.endpoint hg.endpoint).1

/-- The name and the target of an action are the action. -/
theorem action_eq {a b : AdminAction} (hname : a.name = b.name) (htarget : a.target = b.target)
    (ha : a.NamesAccount) (hb : b.NamesAccount) : a = b := by
  cases a <;> cases b <;> first
    | exact congrArg _ htarget
    | rfl
    | simp [AdminAction.name] at hname
  case pinDelete.pinDelete cid account cid' account' =>
    have htext : cid.toList ++ ':' :: account.toList = cid'.toList ++ ':' :: account'.toList := by
      simpa [AdminAction.target, toString_string] using congrArg String.toList htarget
    obtain ⟨hcid, haccount⟩ := split_last htext (noColon_name ha) (noColon_name hb)
    rw [String.toList_inj.mp hcid, String.toList_inj.mp haccount]

/-- The endpoint has its format. -/
theorem format_eq {q q' : SignedRequest String}
    (h : (q.fields lower).endpoint = (q'.fields lower).endpoint) :
    (q.fields lower).before.length = (q'.fields lower).before.length ∧
      (q.fields lower).after.length = (q'.fields lower).after.length := by
  cases q <;> cases q' <;> first
    | exact ⟨rfl, rfl⟩
    | simp [SignedRequest.fields] at h

/-- The fields of an accepted request are the request. -/
theorem asSigned_eq {r' : SignedRequest Value} (hlower : ∀ a, isAccountName a = true → lower a = a)
    (h : r.Accepted maxSkewSec) (h' : r'.Accepted maxSkewSec)
    (hfields : r.asSigned.fields lower = r'.asSigned.fields lower) :
    r.asSigned = r'.asSigned := by
  have hendpoint := congrArg Fields.endpoint hfields
  cases r <;> cases r' <;> try (simp [SignedRequest.asSigned, SignedRequest.map,
    SignedRequest.fields] at hendpoint; done)
  case uploadProof.uploadProof sha id uploader sha' id' uploader' =>
    simp only [SignedRequest.asSigned, SignedRequest.map, SignedRequest.fields, Fields.mk.injEq,
      List.cons.injEq, and_true, true_and] at hfields
    rw [hlower uploader h, hlower uploader' h'] at hfields
    obtain ⟨⟨rfl, rfl⟩, rfl⟩ := hfields
    rfl
  case adminAction.adminAction action account ts action' account' ts' =>
    simp only [SignedRequest.asSigned, SignedRequest.map, SignedRequest.fields, Fields.mk.injEq,
      List.cons.injEq, and_true, true_and] at hfields ⊢
    obtain ⟨hname, htarget, haccount, hts⟩ := hfields
    rw [action_eq hname htarget h.2 h'.2, haccount, hts]
  all_goals
    simp only [SignedRequest.asSigned, SignedRequest.map, SignedRequest.fields, Fields.mk.injEq,
      List.cons.injEq, and_true, true_and] at hfields ⊢
    simp [hfields]

end Fields

/-- Two accepted requests with the same message are the same request, up to how their time
stamps are given. -/
theorem same_message (lower : String → String)
    (hlower : ∀ a, isAccountName a = true → lower a = a) (maxSkewSec : Int)
    (r r' : SignedRequest Value) (h : r.Accepted maxSkewSec) (h' : r'.Accepted maxSkewSec)
    (m : String) (hm : r.message lower = .ok m) (hm' : r'.message lower = .ok m) :
    r.asSigned = r'.asSigned := by
  have hplain := fields_plain h hm
  have hplain' := fields_plain h' hm'
  have htext := (written_ok hm).symm.trans (written_ok hm')
  have hendpoint := endpoint_eq hplain hplain' htext
  obtain ⟨hbefore, hafter⟩ := format_eq hendpoint
  exact asSigned_eq hlower h h' (fields_eq hplain hplain' htext hbefore hafter)

/-- A cid with colons, and a time stamp given once as a number and once as a text. -/
theorem same_message_colons :
    (SignedRequest.deletePin "bafy:alice:5" "bob" (Value.number (.fin 1700000000))).asSigned =
      (SignedRequest.deletePin "bafy:alice:5" "bob" (Value.string "1700000000")).asSigned := by
  refine same_message id (fun _ _ => rfl) 300 _ _ ⟨by decide, 1700000000000, 1700000000, rfl,
    by decide⟩ ⟨by decide, 1700000000000, 1700000000, ?_, by decide⟩
    "ipfs-gate:delete-pin:v1:bafy:alice:5:bob:1700000000" ?_ ?_
  · decide +kernel
  · decide +kernel
  · decide +kernel

end IpfsGate.Server.Messages
