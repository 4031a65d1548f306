import IpfsGate.Client.InnerBlob
import IpfsGate.Client.RevealLink
import IpfsGate.Client.RevealSig
import IpfsGate.Server.Gateway

/-!
# Private sends

The page seals a file, uploads the sealed bytes, wraps the key for every recipient and puts what a
recipient needs into a link. The page of a recipient takes the link apart again, fetches the bytes
from the gate and opens them. While the gate hosts the file, what comes out is what went in.
-/
namespace IpfsGate.Client.PrivateSend

open InnerBlob (Bytes File buildInnerBlob detectFileMime headerMime parseInnerBlob)
open Lib.Base64 (atob atob_btoa btoa)
open Numerals (Value)
open RevealLink (buildRevealArtifact isPrivateReveal parseRevealArtifact)
open Server (Response)

/-! ## What the page is given -/

/-- The browser's functions, those of the Hive libraries, and JSON's reader. -/
structure Browser where
  lower : String → String
  encrypt : Bytes → Bytes → Bytes → Bytes
  decrypt : Bytes → Bytes → Bytes → Except String Bytes
  /-- A memo, from a private key of the sender to a public key of the recipient. -/
  encode : String → String → String → Except String String
  decode : String → String → Except String String
  /-- The public key whose signature this is of the text, if it is a signature. -/
  recover : String → String → Option String
  parse : String → Except String Json
  sha256Hex : Bytes → String

/-- Who is logged in; the private key is there once it is unlocked. What is declined is signed
with nothing. -/
structure Session where
  username : String
  pubKey : String
  privKey : Option String
  signRaw : String → String

section Page

variable (B : Browser) (s : Session)

def encryptMsg (plaintext recipientPub : String) : Except String String :=
  match s.privKey with
  | none => .error "Posting key required — unlock encryption first (🔑 bar at the top)."
  | some privKey => B.encode privKey recipientPub ("#" ++ plaintext)

def decryptMsg (ciphertext : String) : String :=
  match s.privKey with
  | none => "[encrypted — unlock with the 🔑 bar to read]"
  | some privKey =>
    match B.decode privKey ciphertext with
    | .error _ => "[could not decrypt — not addressed to you]"
    | .ok d =>
      match d.toList with
      | '#' :: rest => String.ofList rest
      | _ => d

def mimeToKind (mime : String) : String :=
  let starts := fun (s : String) => s.toList.isPrefixOf mime.toList
  if mime = "image/svg+xml" then "file"
  else if mime = "application/pdf" then "pdf"
  else if starts "audio/" then "audio"
  else if starts "image/" then "image"
  else if starts "video/" then "video"
  else if starts "text/" then "text"
  else "file"

/-! ## The envelope -/

/-- The fields of an envelope that are texts, as they are written into it. -/
structure Fields where
  cid : String
  sizeBytes : Nat
  sender : String
  createdAt : String
  expiresAt : Option String
  kindHint : String
  gatewayHint : String
  orderId : Option String
  claimId : Option String
  policyType : String
  addresses : List String
  commitment : String
  salt : String
  perRecipient : List (String × String)

def orNull (s : Option String) : Json :=
  match s with
  | none => .null
  | some s => .str s

/-- The envelope, with its signature once it has one. -/
def Fields.json (f : Fields) (sig : Option String) : Json :=
  .obj ([("type", .str "private-reveal"), ("v", .num (.fin 1)), ("cid", .str f.cid),
    ("size_bytes", .num (.fin f.sizeBytes)), ("sender", .str f.sender),
    ("created_at", .str f.createdAt), ("expires_at", orNull f.expiresAt),
    ("kind_hint", .str f.kindHint), ("gateway_hint", .str f.gatewayHint),
    ("order_id", orNull f.orderId), ("claim_id", orNull f.claimId),
    ("release_policy", .obj [("type", .str f.policyType),
      ("addresses", .arr (f.addresses.map .str))]),
    ("commitment", .str f.commitment), ("salt", .str f.salt),
    ("per_recipient", .obj (f.perRecipient.map (fun r => (r.1, .str r.2))))] ++
    (sig.map (fun s => ("envelope_sig", Json.str s))).toList)

mutual

/-- A value of the envelope, as the page uses it. -/
def valueOf : Json → Value
  | .null => .null
  | .bool b => .bool b
  | .num x => .number x
  | .str s => .string s
  | .arr items => .array (valuesOf items)
  | .obj _ => .object

def valuesOf : List Json → List Value
  | [] => []
  | v :: rest => valueOf v :: valuesOf rest

end

def fieldValue (env : Json) (key : String) : Value :=
  match env.get key with
  | none => .undefined
  | some v => valueOf v

/-- What a template literal makes of a field. -/
def fieldText (env : Json) (key : String) : String := String.ofList (fieldValue env key).text

/-- A field that is left out when it passes for false. -/
def optionalText (env : Json) (key : String) : Option String :=
  if ((env.get key).map Json.truthy).getD false then some (fieldText env key) else none

def textsOf : Option Json → List String
  | some (.arr items) => items.map (fun v => String.ofList (valueOf v).text)
  | _ => []

def readPolicy (policy : Json) : RevealPolicy where
  type := (optionalText policy "type").getD ""
  addresses := textsOf (policy.get "addresses")

/-- The envelope of a link, field by field. -/
def readEnvelope (env : Json) : RevealEnvelope where
  cid := fieldText env "cid"
  sizeBytes := fieldValue env "size_bytes"
  sender := fieldText env "sender"
  createdAt := fieldValue env "created_at"
  expiresAt := fieldValue env "expires_at"
  kindHint := fieldValue env "kind_hint"
  gatewayHint := optionalText env "gateway_hint"
  orderId := optionalText env "order_id"
  releasePolicy := ((env.get "release_policy").filter Json.truthy).map readPolicy
  commitment := fieldValue env "commitment"
  perRecipient :=
    match env.get "per_recipient" with
    | some (.obj fields) => fields.map (fun r => (r.1, String.ofList (valueOf r.2).text))
    | _ => []

/-! ## Sending -/

/-- `r.split('@')[0].toLowerCase()`. -/
def nameOf (recipient : String) : String :=
  B.lower (String.ofList (recipient.toList.takeWhile (· ≠ '@')))

/-- The sender is always among those who can open the link. -/
def audience (recipients : List String) : List String :=
  (s.username :: recipients.map (nameOf B)).eraseDups

/-- The key for one of them, who is skipped when there is no public key or no wrapping. -/
def wrapFor (fetchPubKey : String → Option String) (rawKeyB64 u : String) :
    Option (String × String) :=
  let own := if u = s.username then s.pubKey else ""
  let pubKey := if own ≠ "" then some own else (fetchPubKey u).filter (· ≠ "")
  match pubKey with
  | none => none
  | some pubKey =>
    match encryptMsg B s rawKeyB64 pubKey with
    | .error _ => none
    | .ok wrapped => some (u, wrapped)

/-- `/\/\/host(\/|$|:)/i`. -/
def namesHost (host : String) (url : String) : Bool :=
  let needle := ("//" ++ host).toList
  url.toList.tails.any (fun t =>
    (t.take needle.length).map Char.toLower = needle &&
      match t.drop needle.length with
      | [] => true
      | c :: _ => c = '/' || c = ':')

/-- The answer to the upload. -/
structure Uploaded where
  cid : String
  expiresAt : Option String
  orderId : Option String
  claimId : Option String
  gatewayUrl : String

/-- The public URL of the file, unless it only means something on the gate's own machine. -/
def gatewayHint (gatewayUrl : String) (up : Uploaded) : String :=
  if up.gatewayUrl = "" || namesHost "ipfs.localhost" up.gatewayUrl ||
      namesHost "localhost" up.gatewayUrl then gatewayUrl ++ "/ipfs/" ++ up.cid
  else up.gatewayUrl

/-- What the sender chose, and what was drawn at random. -/
structure Send where
  file : File
  recipients : List String
  policyType : String
  rawKey : Bytes
  nonce : Bytes
  salt : Bytes
  createdAt : String

def rawKeyB64 (p : Send) : String := String.ofList (btoa p.rawKey)

/-- The envelope that follows an upload; without a key for the sender there is none. -/
def fieldsFor (fetchPubKey : String → Option String) (gatewayUrl : String) (p : Send)
    (up : Uploaded) : Except String Fields :=
  let blob := (buildInnerBlob B.lower B.encrypt p.file s.username p.rawKey p.nonce).blob
  let perRecipient :=
    (audience B s p.recipients).filterMap (wrapFor B s fetchPubKey (rawKeyB64 p))
  if ((perRecipient.lookup s.username).getD "") = "" then
    .error "could not wrap the key to your own account — aborting (no one could decrypt)."
  else
    .ok { cid := up.cid, sizeBytes := blob.length, sender := s.username, createdAt := p.createdAt,
          expiresAt := up.expiresAt, kindHint := mimeToKind (headerMime B.lower p.file),
          gatewayHint := gatewayHint gatewayUrl up, orderId := up.orderId, claimId := up.claimId,
          policyType := p.policyType, addresses := p.recipients.map (nameOf B),
          commitment := B.sha256Hex (p.file.bytes ++ p.salt),
          salt := String.ofList (btoa p.salt), perRecipient }

def envelopeSig (f : Fields) : String :=
  s.signRaw (privSigInput B.lower (readEnvelope (f.json none)))

/-- The link, or the envelope that is still to be signed. -/
def signed (f : Fields) : Except Fields String :=
  let sig := envelopeSig B s f
  if sig = "" then .error f else .ok (buildRevealArtifact (f.json (some sig)))

/-! ## Revealing -/

/-- Whether the sender's key made the signature; unknown when either is not to be had. -/
def verifyPrivEnvelopeSig (fetchPubKey : String → Option String) (env : RevealEnvelope)
    (envelopeSig : String) : Option Bool :=
  if envelopeSig = "" || env.sender = "" then none
  else
    match (fetchPubKey env.sender).filter (· ≠ "") with
    | none => none
    | some pubKeyStr =>
      (B.recover envelopeSig (privSigInput B.lower env)).map (fun recovered => recovered = pubKeyStr)

/-- `/^\[.*\]$/`, as the notes of `decryptMsg` are. -/
def isNote (text : String) : Bool :=
  match text.toList with
  | '[' :: rest =>
    rest.getLast? = some ']' && rest.dropLast.all (fun c => !Range.isLineTerminator c)
  | _ => false

def unwrapKey (wrapped : String) : Except String Bytes :=
  let rawKeyB64 := decryptMsg B s wrapped
  if rawKeyB64 = "" || isNote rawKeyB64 then
    .error "could not unwrap key (is this addressed to you?)"
  else
    match atob rawKeyB64.toList with
    | none => .error "The string to be decoded is not correctly encoded."
    | some rawKeyBytes =>
      if rawKeyBytes.length ≠ 32 then .error "unwrapped key wrong length" else .ok rawKeyBytes

/-- What a GET request brings. -/
inductive Fetched where
  | unreachable (message : String)
  | response (status : Nat) (body : Bytes)

def fetchCiphertext : Fetched → Except String Bytes
  | .unreachable message => .error ("✗ fetch failed: " ++ message)
  | .response status body =>
    if status = 404 then .error "✗ 404 — the pin expired or never landed at this gateway."
    else if 200 ≤ status && status < 300 then .ok body
    else .error s!"✗ fetch failed: HTTP {status}"

/-- What is shown of the file, and whether its sender was verified. -/
structure Revealed where
  verified : Option Bool
  filename : String
  mime : String
  kind : String
  header : Json
  fileBytes : Bytes

/-- The labels fall back on what the envelope says. -/
def renderRevealResult (env : RevealEnvelope) (verified : Option Bool) (opened : InnerBlob.Parsed) :
    Revealed :=
  let mime := (optionalText opened.header "mime").getD "application/octet-stream"
  let kind := String.ofList env.kindHint.text
  { verified, filename := (optionalText opened.header "filename").getD env.cid, mime,
    kind := if env.kindHint.text = [] then mimeToKind mime else kind,
    header := opened.header, fileBytes := opened.fileBytes }

def notAddressed (env : RevealEnvelope) : String :=
  let who := ", ".intercalate (env.recipients.map (fun u => "@" ++ u))
  s!"✗ This file isn't addressed to you (@{s.username}). Recipients: {who}."

def revealEnvelope (fetchPubKey : String → Option String) (gateway : String)
    (fetch : String → Fetched) (env : Json) : Except String Revealed :=
  let e := readEnvelope env
  if s.username = "" then .error "✗ Log in first."
  else
    let sigOk := verifyPrivEnvelopeSig B fetchPubKey e ((optionalText env "envelope_sig").getD "")
    if sigOk = some false then
      .error "✗ Signature check FAILED — this link was tampered with. Refusing to fetch."
    else
      match (e.perRecipient.lookup s.username).filter (· ≠ "") with
      | none => .error (notAddressed s e)
      | some wrapped =>
        if s.privKey = none then
          .error "✗ Unlock encryption first (🔑 bar at the top) to decrypt."
        else
          match unwrapKey B s wrapped with
          | .error message => .error ("✗ " ++ message)
          | .ok rawKeyBytes => do
            let ciphertextBytes ← fetchCiphertext (fetch (fetchUrl gateway e))
            match parseInnerBlob B.decrypt B.parse ciphertextBytes rawKeyBytes with
            | .error message => .error ("✗ decrypt failed — " ++ message)
            | .ok opened => .ok (renderRevealResult e sigOk opened)

/-- The page's Reveal tab. -/
def revealFromInput (fetchPubKey : String → Option String) (gateway : String)
    (fetch : String → Fetched) (raw : String) : Except String Revealed :=
  match parseRevealArtifact B.parse raw with
  | .error message => .error ("✗ " ++ message)
  | .ok env => revealEnvelope B s fetchPubKey gateway fetch env

end Page

/-! ## The envelope read back -/

/-- An empty text is left out. -/
def unlessEmpty (s : String) : Option String := if s = "" then none else some s

/-- What the envelope says. -/
def Fields.envelope (f : Fields) : RevealEnvelope where
  cid := f.cid
  sizeBytes := .number (.fin f.sizeBytes)
  sender := f.sender
  createdAt := .string f.createdAt
  expiresAt := valueOf (orNull f.expiresAt)
  kindHint := .string f.kindHint
  gatewayHint := unlessEmpty f.gatewayHint
  orderId := f.orderId.bind unlessEmpty
  releasePolicy := some ⟨f.policyType, f.addresses⟩
  commitment := .string f.commitment
  perRecipient := f.perRecipient

@[simp] theorem valueOf_str (s : String) : valueOf (.str s) = .string s := by rw [valueOf]

@[simp] theorem text_string (s : String) : (Value.string s).text = s.toList := rfl

section Read

variable {env : Json} {key : String}

theorem fieldValue_of {v : Json} (h : env.get key = some v) : fieldValue env key = valueOf v := by
  simp only [fieldValue, h]

theorem fieldValue_str {s : String} (h : env.get key = some (.str s)) :
    fieldValue env key = .string s := by
  rw [fieldValue_of h, valueOf_str]

theorem fieldText_of {s : String} (h : env.get key = some (.str s)) : fieldText env key = s := by
  rw [fieldText, fieldValue_str h, text_string, String.ofList_toList]

theorem optionalText_of {s : String} (h : env.get key = some (.str s)) :
    optionalText env key = unlessEmpty s := by
  by_cases hs : s = ""
  · simp [optionalText, unlessEmpty, h, hs, Json.truthy]
  · simp [optionalText, unlessEmpty, h, hs, Json.truthy, fieldText_of h]

theorem optionalText_orNull {s : Option String} (h : env.get key = some (orNull s)) :
    optionalText env key = s.bind unlessEmpty := by
  cases s with
  | none => simp [optionalText, h, orNull, Json.truthy]
  | some s => exact optionalText_of h

end Read

theorem textsOf_strs (names : List String) :
    textsOf (some (.arr (names.map .str))) = names := by
  simp [textsOf, Function.comp_def]

theorem unlessEmpty_getD (s : String) : (unlessEmpty s).getD "" = s := by
  by_cases h : s = "" <;> simp [unlessEmpty, h]

theorem readPolicy_json (type : String) (names : List String) :
    readPolicy (.obj [("type", .str type), ("addresses", .arr (names.map .str))]) =
      ⟨type, names⟩ := by
  have htype : optionalText (.obj [("type", .str type), ("addresses", .arr (names.map .str))])
      "type" = unlessEmpty type := optionalText_of rfl
  have hnames : Json.get (.obj [("type", .str type), ("addresses", .arr (names.map .str))])
      "addresses" = some (.arr (names.map .str)) := rfl
  rw [readPolicy, htype, unlessEmpty_getD, hnames, textsOf_strs]

/-- Its signature is no part of what an envelope says. -/
theorem readEnvelope_json (f : Fields) (sig : Option String) :
    readEnvelope (f.json sig) = f.envelope := by
  have hcid : fieldText (f.json sig) "cid" = f.cid := fieldText_of rfl
  have hsender : fieldText (f.json sig) "sender" = f.sender := fieldText_of rfl
  have hhint : optionalText (f.json sig) "gateway_hint" = unlessEmpty f.gatewayHint :=
    optionalText_of rfl
  have horder : optionalText (f.json sig) "order_id" = f.orderId.bind unlessEmpty :=
    optionalText_orNull rfl
  have hpolicy : (f.json sig).get "release_policy" =
      some (.obj [("type", .str f.policyType), ("addresses", .arr (f.addresses.map .str))]) := rfl
  have hkeys : (f.json sig).get "per_recipient" =
      some (.obj (f.perRecipient.map (fun r => (r.1, .str r.2)))) := rfl
  have hsize : fieldValue (f.json sig) "size_bytes" = .number (.fin f.sizeBytes) := by
    rw [fieldValue_of (v := .num (.fin f.sizeBytes)) rfl, valueOf]
  have hcreated : fieldValue (f.json sig) "created_at" = .string f.createdAt := fieldValue_str rfl
  have hexpires : fieldValue (f.json sig) "expires_at" = valueOf (orNull f.expiresAt) :=
    fieldValue_of rfl
  have hkind : fieldValue (f.json sig) "kind_hint" = .string f.kindHint := fieldValue_str rfl
  have hcommitment : fieldValue (f.json sig) "commitment" = .string f.commitment :=
    fieldValue_str rfl
  rw [readEnvelope, hcid, hsender, hhint, horder, hpolicy, hkeys, hsize, hcreated, hexpires,
    hkind, hcommitment]
  simp [Fields.envelope, readPolicy_json, Json.truthy, Function.comp_def]

theorem isPrivateReveal_json {f : Fields} (h : f.cid ≠ "") (sig : Option String) :
    isPrivateReveal (f.json sig) = true := by
  have htype : (f.json sig).get "type" = some (.str "private-reveal") := rfl
  have hcid : (f.json sig).get "cid" = some (.str f.cid) := rfl
  have hkeys : (f.json sig).get "per_recipient" =
      some (.obj (f.perRecipient.map (fun r => (r.1, .str r.2)))) := rfl
  have hobj : (f.json sig).truthy = true := rfl
  simp only [isPrivateReveal, hobj, htype, hcid, hkeys]
  simp [Json.truthy, h]

theorem envelope_sig_json (f : Fields) (sig : String) :
    (optionalText (f.json (some sig)) "envelope_sig").getD "" = sig := by
  have hsig : optionalText (f.json (some sig)) "envelope_sig" = unlessEmpty sig :=
    optionalText_of rfl
  rw [hsig, unlessEmpty_getD]

/-! ## The wrapped keys -/

/-- Looking up one of the names that were kept with a value of their own. -/
theorem lookup_filterMap {α β : Type} [DecidableEq α] {g : α → Option (α × β)}
    (hg : ∀ a r, g a = some r → r.1 = a) (names : List α) (a : α) :
    (names.filterMap g).lookup a = if a ∈ names then (g a).map Prod.snd else none := by
  induction names with
  | nil => rfl
  | cons b names ih =>
    by_cases hab : a = b
    · subst hab
      cases hga : g a with
      | none => simp [hga, ih]
      | some r =>
        obtain ⟨key, v⟩ := r
        obtain rfl : key = a := hg a _ hga
        simp [hga]
    · cases hgb : g b with
      | none => simp [hgb, ih, hab]
      | some r =>
        obtain ⟨key, v⟩ := r
        obtain rfl : key = b := hg b _ hgb
        simp [hgb, List.lookup_cons, beq_false_of_ne hab, hab, ih]

/-- The digits of a key are no note. -/
theorem digit_ne_bracket : ∀ v < 64, Lib.Base64.digit v ≠ '[' := by decide

theorem toList_rawKeyB64 (p : Send) : (rawKeyB64 p).toList = btoa p.rawKey := by
  rw [rawKeyB64, String.toList_ofList]

theorem rawKeyB64_plain {p : Send} (h : p.rawKey.length = 32) :
    rawKeyB64 p ≠ "" ∧ isNote (rawKeyB64 p) = false := by
  have hne : p.rawKey ≠ [] := List.ne_nil_of_length_pos (by omega)
  obtain ⟨v, rest, hv⟩ := List.exists_cons_of_ne_nil (Lib.Base64.sextets_ne_nil hne)
  have hlt : v < 64 := Lib.Base64.sextets_lt p.rawKey v (hv ▸ List.mem_cons_self)
  have htext : ∃ tail, (rawKeyB64 p).toList = Lib.Base64.digit v :: tail := by
    rw [toList_rawKeyB64, btoa, hv]
    exact ⟨_, rfl⟩
  obtain ⟨tail, htext⟩ := htext
  constructor
  · intro hempty
    rw [hempty] at htext
    cases htext
  · unfold isNote
    rw [htext]
    split
    · next heq => exact absurd (List.cons.inj heq).1 (digit_ne_bracket v hlt)
    · rfl

section Wrapped

variable {B : Browser} {fetchPubKey : String → Option String} {s r : Session} {p : Send}

/-- An account and its session: its key is the one that is published, and what it signs is
recovered as signed with it. -/
structure Known (B : Browser) (fetchPubKey : String → Option String) (s : Session) : Prop where
  named : s.username ≠ ""
  keyed : s.pubKey ≠ ""
  published : fetchPubKey s.username = some s.pubKey
  signs : ∀ text, s.signRaw text ≠ "" → B.recover (s.signRaw text) text = some s.pubKey

/-- The second session is unlocked, and reads the memos that the first writes to its key. -/
structure Reads (B : Browser) (s r : Session) : Prop where
  unlocked : r.privKey ≠ none
  memo : ∀ sent received plaintext wrapped, s.privKey = some sent → r.privKey = some received →
    B.encode sent r.pubKey plaintext = .ok wrapped →
    wrapped ≠ "" ∧ B.decode received wrapped = .ok plaintext

theorem wrapFor_named {key u : String} {w : String × String}
    (h : wrapFor B s fetchPubKey key u = some w) : w.1 = u := by
  unfold wrapFor at h
  dsimp only at h
  split at h
  · cases h
  · split at h
    · cases h
    · cases h
      rfl

theorem wrapFor_known (hs : Known B fetchPubKey s) (hr : Known B fetchPubKey r) (key : String) :
    wrapFor B s fetchPubKey key r.username =
      (encryptMsg B s key r.pubKey).toOption.map (fun wrapped => (r.username, wrapped)) := by
  have hpub : (if (if r.username = s.username then s.pubKey else "") ≠ "" then
      some (if r.username = s.username then s.pubKey else "")
      else (fetchPubKey r.username).filter (· ≠ "")) = some r.pubKey := by
    by_cases hself : r.username = s.username
    · have hkeys : some s.pubKey = some r.pubKey := by
        rw [← hs.published, ← hr.published, hself]
      simp [hself, hs.keyed, hkeys]
    · simp [hself, hr.published, hr.keyed]
  unfold wrapFor
  simp only [hpub]
  cases encryptMsg B s key r.pubKey <;> rfl

/-- The key that was wrapped for an account, unless it was skipped. -/
theorem lookup_wrapped (hs : Known B fetchPubKey s) (hr : Known B fetchPubKey r) (key : String)
    (names : List String) :
    (names.filterMap (wrapFor B s fetchPubKey key)).lookup r.username =
      if r.username ∈ names then (encryptMsg B s key r.pubKey).toOption else none := by
  rw [lookup_filterMap (fun _ _ => wrapFor_named), wrapFor_known hs hr, Option.map_map]
  simp [Function.comp_def]

theorem decryptMsg_wrapped (hr : Reads B s r) {text wrapped : String}
    (h : encryptMsg B s text r.pubKey = .ok wrapped) :
    wrapped ≠ "" ∧ decryptMsg B r wrapped = text := by
  obtain ⟨received, hreceived⟩ := Option.ne_none_iff_exists'.mp hr.unlocked
  unfold encryptMsg at h
  split at h
  · cases h
  · next sent hsent =>
    obtain ⟨hne, hdecode⟩ := hr.memo sent received _ wrapped hsent hreceived h
    refine ⟨hne, ?_⟩
    have hhash : ("#" ++ text).toList = '#' :: text.toList := by
      rw [String.toList_append]
      rfl
    simp only [decryptMsg, hreceived, hdecode, hhash, String.ofList_toList]

theorem unwrapKey_wrapped (hr : Reads B s r) (hkey : p.rawKey.length = 32) {wrapped : String}
    (h : encryptMsg B s (rawKeyB64 p) r.pubKey = .ok wrapped) :
    unwrapKey B r wrapped = .ok p.rawKey := by
  obtain ⟨hne, hnote⟩ := rawKeyB64_plain hkey
  simp only [unwrapKey, (decryptMsg_wrapped hr h).2, hne, hnote, toList_rawKeyB64, atob_btoa, hkey]
  rfl

end Wrapped

/-! ## What the gate answers -/

section Answered

variable {cfg : Config} {db : Db} {api : Server.CatApi}
  {content : Cid → Bytes} {cid : Cid}

/-- The page learns the status of a response, and its bytes if it has any. -/
def Hears (fetched : Fetched) (resp : Response) : Prop :=
  ∃ body, fetched = .response resp.status body ∧ ∀ data, resp.payload = .bytes data → body = data

/-- A file is got while it has an active pin and was not taken down. -/
def outcome {α : Type} (db : Db) (cid : Cid) (shown : α) : Except String α :=
  if Quota.isCidBlocked db cid then .error "✗ fetch failed: HTTP 451"
  else if Quota.hasActivePinForCid db cid then .ok shown
  else .error "✗ 404 — the pin expired or never landed at this gateway."

theorem outcome_hosted {α : Type} {shown : α} (hblocked : Quota.isCidBlocked db cid = false)
    (h : Quota.hasActivePinForCid db cid = true) : outcome db cid shown = .ok shown := by
  simp [outcome, hblocked, h]

theorem getIpfs_blocked (h : Quota.isCidBlocked db cid = true) :
    (Server.getIpfs cfg db api .get cid none).status = 451 := by
  have hstatus : Server.statusOf "legal_takedown" = 451 := by decide
  unfold Server.getIpfs
  rw [if_pos h]
  exact hstatus

theorem getIpfs_missing (hblocked : Quota.isCidBlocked db cid = false)
    (h : Quota.hasActivePinForCid db cid = false) :
    (Server.getIpfs cfg db api .get cid none).status = 404 := by
  have hstatus : Server.statusOf "not_found" = 404 := by decide
  have hserve : Server.getServeInfoForCid db cid = none := by
    by_contra hsome
    obtain ⟨info, hinfo⟩ := Option.ne_none_iff_exists'.mp hsome
    obtain ⟨pin, hpin, -⟩ := Server.getServeInfoForCid_mem hinfo
    rw [Quota.hasActivePinForCid_iff.mpr ⟨pin, hpin⟩] at h
    cases h
  unfold Server.getIpfs
  rw [hblocked, hserve]
  exact hstatus

theorem getIpfs_whole (hcat : Server.ServesSlices content api)
    (hblocked : Quota.isCidBlocked db cid = false)
    (h : Quota.hasActivePinForCid db cid = true) :
    (Server.getIpfs cfg db api .get cid none).status = 200 ∧
      (Server.getIpfs cfg db api .get cid none).payload = .bytes (content cid) := by
  obtain ⟨serve, hserve⟩ := Server.getServeInfoForCid_of_active h
  have hrange : Range.parseRange none serve.sizeBytes = none := rfl
  unfold Server.getIpfs
  rw [hblocked, if_neg Bool.false_ne_true, hserve]
  simp only [hrange, Server.cat_of_servesSlices hcat]
  exact ⟨Server.status_renderHeaders serve, rfl⟩

theorem fetchCiphertext_heard (hcat : Server.ServesSlices content api) {fetched : Fetched}
    (h : Hears fetched (Server.getIpfs cfg db api .get cid none)) :
    fetchCiphertext fetched = outcome db cid (content cid) := by
  obtain ⟨body, rfl, hbody⟩ := h
  unfold outcome
  cases hblocked : Quota.isCidBlocked db cid with
  | true =>
    rw [getIpfs_blocked hblocked]
    rfl
  | false =>
    cases hactive : Quota.hasActivePinForCid db cid with
    | false =>
      rw [getIpfs_missing hblocked hactive]
      rfl
    | true =>
      obtain ⟨hstatus, hpayload⟩ := getIpfs_whole hcat hblocked hactive
      rw [hstatus, hbody _ hpayload]
      rfl

end Answered

/-! ## Sent and revealed -/

section Revealed

variable {B : Browser} {fetchPubKey : String → Option String} {s r : Session} {p : Send}
  {up : Uploaded} {gatewayUrl gateway link : String} {f : Fields}

def blobOf (B : Browser) (s : Session) (p : Send) : Bytes :=
  (buildInnerBlob B.lower B.encrypt p.file s.username p.rawKey p.nonce).blob

/-- The seal can be opened with its key, and the header can be read. -/
structure Sealed (B : Browser) (s : Session) (p : Send) : Prop where
  key : p.rawKey.length = 32
  gcm : InnerBlob.Inverts B.encrypt B.decrypt p.rawKey p.nonce
    (InnerBlob.plaintext B.lower p.file s.username)
  short : InnerBlob.headerSize B.lower p.file s.username < 2 ^ 31
  json : B.parse (InnerBlob.header B.lower p.file s.username).stringify =
    .ok (InnerBlob.header B.lower p.file s.username)

/-- What is shown of a file that was sent. -/
def shownOf (B : Browser) (s : Session) (p : Send) (up : Uploaded) : Revealed where
  verified := some true
  filename := if p.file.name = "" then up.cid else p.file.name
  mime := headerMime B.lower p.file
  kind := mimeToKind (headerMime B.lower p.file)
  header := InnerBlob.header B.lower p.file s.username
  fileBytes := p.file.bytes

/-- What the envelope says after a send, but for what was drawn at random. -/
theorem fieldsFor_ok (h : fieldsFor B s fetchPubKey gatewayUrl p up = .ok f) :
    f.cid = up.cid ∧ f.sender = s.username ∧ f.kindHint = mimeToKind (headerMime B.lower p.file) ∧
      f.gatewayHint = gatewayHint gatewayUrl up ∧
      f.perRecipient = (audience B s p.recipients).filterMap
        (wrapFor B s fetchPubKey (rawKeyB64 p)) := by
  unfold fieldsFor at h
  dsimp only at h
  split at h
  · cases h
  · cases h
    exact ⟨rfl, rfl, rfl, rfl, rfl⟩

theorem signed_ok (h : signed B s f = .ok link) :
    envelopeSig B s f ≠ "" ∧ link = buildRevealArtifact (f.json (some (envelopeSig B s f))) := by
  unfold signed at h
  dsimp only at h
  split at h
  · cases h
  · next hsig =>
    cases h
    exact ⟨hsig, rfl⟩

theorem gatewayHint_ne (gatewayUrl : String) (up : Uploaded) : gatewayHint gatewayUrl up ≠ "" := by
  intro hempty
  unfold gatewayHint at hempty
  split at hempty
  · have hchars := congrArg String.toList hempty
    simp at hchars
  · next hkept => exact hkept (by simp [hempty])

theorem fetchUrl_envelope (hf : f.gatewayHint = gatewayHint gatewayUrl up) :
    fetchUrl gateway f.envelope = gatewayHint gatewayUrl up := by
  simp [fetchUrl, Fields.envelope, hf, unlessEmpty, gatewayHint_ne]

theorem mimeToKind_ne (mime : String) : mimeToKind mime ≠ "" := by
  simp only [mimeToKind]
  split_ifs <;> decide

theorem headerMime_ne (file : File) : headerMime B.lower file ≠ "" := by
  unfold headerMime
  split
  · decide
  · assumption

theorem renderRevealResult_sent {e : RevealEnvelope} (hcid : e.cid = up.cid)
    (hkind : e.kindHint = .string (mimeToKind (headerMime B.lower p.file))) :
    renderRevealResult e (some true) (InnerBlob.sealed B.lower p.file s.username) =
      shownOf B s p up := by
  have hname : optionalText (InnerBlob.header B.lower p.file s.username) "filename" =
      unlessEmpty p.file.name := optionalText_of rfl
  have hmime : optionalText (InnerBlob.header B.lower p.file s.username) "mime" =
      unlessEmpty (headerMime B.lower p.file) := optionalText_of rfl
  have hlabel : (mimeToKind (headerMime B.lower p.file)).toList ≠ [] :=
    fun hnil => mimeToKind_ne _ (String.toList_inj.mp hnil)
  simp only [renderRevealResult, InnerBlob.sealed, hname, hmime, hkind, text_string, hcid, shownOf]
  by_cases hempty : p.file.name = "" <;>
    simp [unlessEmpty, headerMime_ne, hlabel, hempty]

theorem verify_sent (hs : Known B fetchPubKey s) (hsender : f.sender = s.username)
    (hsig : envelopeSig B s f ≠ "") :
    verifyPrivEnvelopeSig B fetchPubKey f.envelope (envelopeSig B s f) = some true := by
  have hname : f.envelope.sender = s.username := hsender
  have hkey : (fetchPubKey s.username).filter (· ≠ "") = some s.pubKey := by
    simp [hs.published, hs.keyed]
  have hrecovered : B.recover (envelopeSig B s f) (privSigInput B.lower f.envelope) =
      some s.pubKey := by
    rw [← readEnvelope_json f none]
    exact hs.signs _ hsig
  unfold verifyPrivEnvelopeSig
  simp only [hname, hkey, hrecovered]
  simp [hsig, hs.named]

/-- Whom the key was wrapped for. -/
def Addressed (B : Browser) (s : Session) (p : Send) (r : Session) : Prop :=
  r.username ∈ audience B s p.recipients ∧
    ∃ wrapped, encryptMsg B s (rawKeyB64 p) r.pubKey = .ok wrapped

theorem lookup_sent (hs : Known B fetchPubKey s) (hr : Known B fetchPubKey r)
    (hf : fieldsFor B s fetchPubKey gatewayUrl p up = .ok f) :
    f.envelope.perRecipient.lookup r.username = if r.username ∈ audience B s p.recipients then
      (encryptMsg B s (rawKeyB64 p) r.pubKey).toOption else none := by
  have hkeys : f.envelope.perRecipient =
      (audience B s p.recipients).filterMap (wrapFor B s fetchPubKey (rawKeyB64 p)) :=
    (fieldsFor_ok hf).2.2.2.2
  rw [hkeys, lookup_wrapped hs hr]

end Revealed

section Sampled

open Server (serve getIpfs)
open Server.Sample (config hostedByAlice)

/-- A memo names the key it is for, and a signature the key it was made with. -/
def sampleBrowser (parse : String → Except String Json) : Browser where
  lower := id
  encrypt := InnerBlob.addTag
  decrypt := InnerBlob.untag
  encode _ recipient plaintext := .ok (recipient ++ plaintext)
  decode privKey memo := .ok (String.ofList (memo.toList.drop privKey.toList.length))
  recover sig text :=
    some (String.ofList (sig.toList.take (sig.toList.length - text.toList.length)))
  parse
  sha256Hex _ := "c0ffee"

/-- A session whose two keys are the same text. -/
def sessionOf (username key : String) : Session where
  username
  pubKey := key
  privKey := some key
  signRaw text := key ++ text

def sampleKeys (username : String) : Option String :=
  ([("alice", "STM5a"), ("bob", "STM6bob")] : List (String × String)).lookup username

def sampleSend : Send where
  file := ⟨"note.txt", "text/plain", [104, 105]⟩
  recipients := ["bob"]
  policyType := "any_of"
  rawKey := List.replicate 32 7
  nonce := List.replicate 12 1
  salt := List.replicate 16 9
  createdAt := "2026-01-01T00:00:00.000Z"

def sampleUpload : Uploaded where
  cid := "bafy"
  expiresAt := none
  orderId := some "order-1"
  claimId := none
  gatewayUrl := "https://gate.example/ipfs/bafy"

theorem known_sample {parse : String → Except String Json} {username key : String}
    (hname : username ≠ "") (hkey : key ≠ "") (hpub : sampleKeys username = some key) :
    Known (sampleBrowser parse) sampleKeys (sessionOf username key) where
  named := hname
  keyed := hkey
  published := hpub
  signs := by
    intro text _
    simp only [sampleBrowser, sessionOf, String.toList_append, List.length_append,
      Nat.add_sub_cancel, List.take_left, String.ofList_toList]

theorem reads_sample {parse : String → Except String Json} (s : Session) {username key : String}
    (hkey : key ≠ "") : Reads (sampleBrowser parse) s (sessionOf username key) where
  unlocked := by simp [sessionOf]
  memo := by
    rintro sent received plaintext wrapped - hreceived hwrapped
    cases hreceived
    cases hwrapped
    constructor
    · simp [sessionOf, hkey]
    · simp only [sampleBrowser, sessionOf, String.toList_append, List.drop_left,
        String.ofList_toList]

/-- Alice's envelope, before it is signed. -/
def sampleFields (B : Browser) : Fields :=
  let s := sessionOf "alice" "STM5a"
  { cid := "bafy", sizeBytes := (blobOf B s sampleSend).length, sender := "alice",
    createdAt := sampleSend.createdAt, expiresAt := none,
    kindHint := mimeToKind (headerMime B.lower sampleSend.file),
    gatewayHint := gatewayHint "https://gate.example" sampleUpload, orderId := some "order-1",
    claimId := none, policyType := "any_of", addresses := ["bob"].map (nameOf B),
    commitment := "c0ffee", salt := String.ofList (btoa sampleSend.salt),
    perRecipient := (audience B s ["bob"]).filterMap (wrapFor B s sampleKeys (rawKeyB64 sampleSend)) }

def sampleHeader : Json := InnerBlob.header id sampleSend.file "alice"

def sampleEnvelope (B : Browser) : Json :=
  (sampleFields B).json (some (envelopeSig B (sessionOf "alice" "STM5a") (sampleFields B)))

/-- `JSON.parse`, where it is asked about the header and the envelope. -/
def sampleParse (text : String) : Except String Json :=
  let envelope := sampleEnvelope (sampleBrowser sampleHeader.parseOnly)
  if text = sampleHeader.stringify then .ok sampleHeader else envelope.parseOnly text

/-- Behind the brace and the quote the first key begins. -/
theorem stringify_third {key : String} {c : Char} {chars : List Char} (v : Json)
    (fields : List (String × Json)) (hkey : key.toList.flatMap Json.escape = c :: chars) :
    (Json.obj ((key, v) :: fields)).stringify.toList[2]? = some c := by
  cases fields <;> simp [Json.stringify, Json.text, Json.fieldsText, Json.quote, hkey]

theorem sampleEnvelope_ne (parse : String → Except String Json) :
    (sampleEnvelope (sampleBrowser parse)).stringify ≠ sampleHeader.stringify := by
  intro heq
  have hheader : sampleHeader.stringify.toList[2]? = some 'v' :=
    stringify_third (.num (.fin 1)) _ rfl
  have henvelope : (sampleEnvelope (sampleBrowser parse)).stringify.toList[2]? = some 't' :=
    stringify_third (.str "private-reveal") _ rfl
  rw [heq, hheader] at henvelope
  exact absurd henvelope (by decide)

/-- What Alice hosts is the sealed note. -/
def sampleContent (_ : Cid) : Bytes :=
  blobOf (sampleBrowser sampleParse) (sessionOf "alice" "STM5a") sampleSend

def sampleApi : Server.CatApi := fun cid offset length =>
  .bytes (Server.sliceOf (sampleContent cid) offset length)

def sampleResponse : Response :=
  getIpfs config (serve config 0 hostedByAlice).world.db sampleApi .get "bafy" none

def sampleFetch (_ : String) : Fetched :=
  match sampleResponse.payload with
  | .bytes data => .response sampleResponse.status data
  | _ => .response sampleResponse.status []

def sampleLink : String := buildRevealArtifact (sampleEnvelope (sampleBrowser sampleParse))

theorem hears_sample (url : String) : Hears (sampleFetch url) sampleResponse := by
  unfold sampleFetch
  split
  · next data hpayload =>
    refine ⟨data, rfl, fun data' h => ?_⟩
    rw [hpayload] at h
    cases h
    rfl
  · next hpayload => exact ⟨[], rfl, fun data h => absurd h (hpayload data)⟩

theorem fieldsFor_sample : fieldsFor (sampleBrowser sampleParse) (sessionOf "alice" "STM5a")
    sampleKeys "https://gate.example" sampleSend sampleUpload =
    .ok (sampleFields (sampleBrowser sampleParse)) := by
  unfold fieldsFor
  exact if_neg (by decide +kernel)

theorem signed_sample : signed (sampleBrowser sampleParse) (sessionOf "alice" "STM5a")
    (sampleFields (sampleBrowser sampleParse)) = .ok sampleLink := by
  unfold signed
  exact if_neg (by simp [envelopeSig, sessionOf])

end Sampled

end IpfsGate.Client.PrivateSend
