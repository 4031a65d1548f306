import IpfsGate.Lib.Separated
import IpfsGate.Lib.Utf16
import IpfsGate.Numerals

/-!
# What the signature of a Reveal link covers

A link carries an envelope whose signature is verified before its file is fetched. The signed
text leaves out the gateway and the order, which the page acts on all the same, so the same
signature stands under links that fetch from, and report to, another gateway. What it signs it
does bind, as far as the text says where one field ends and the next one starts.
-/
namespace IpfsGate.Client

open Lib.Separated
open Lib.Utf16 (Plain joined_no_bar perm_of_joined sort sort_eq_iff)
open Numerals (Value)

/-- `type` is empty when it is absent. -/
structure RevealPolicy where
  type : String
  addresses : List String

/-- The object in a link. `gateway_hint` and `order_id` are absent when they are empty, and
`per_recipient` lists each recipient with the key that is wrapped for them. -/
structure RevealEnvelope where
  cid : String
  sizeBytes : Value
  sender : String
  createdAt : Value
  expiresAt : Value
  kindHint : Value
  gatewayHint : Option String
  orderId : Option String
  releasePolicy : Option RevealPolicy
  commitment : Value
  perRecipient : List (String × String)

namespace RevealEnvelope

def policyType (env : RevealEnvelope) : String :=
  match env.releasePolicy with
  | some policy => if policy.type = "" then "owner_only" else policy.type
  | none => "owner_only"

def addresses (env : RevealEnvelope) : List String :=
  (env.releasePolicy.map RevealPolicy.addresses).getD []

def recipients (env : RevealEnvelope) : List String := env.perRecipient.map Prod.fst

/-- `env.per_recipient[name]` holds a key. -/
def isAddressed (env : RevealEnvelope) (name : String) : Bool :=
  env.perRecipient.any (fun r => r.1 = name && r.2 ≠ "")

end RevealEnvelope

section Signed

variable (lower : String → String)

def joinedNames (names : List String) : String := ",".intercalate (sort (names.map lower))

def privSigInput (env : RevealEnvelope) : String :=
  let recips := joinedNames lower env.recipients
  let addrs := joinedNames lower env.addresses
  let size := String.ofList env.sizeBytes.text
  let created := String.ofList env.createdAt.text
  let expires := String.ofList env.expiresAt.text
  let kind := String.ofList env.kindHint.text
  let commitment := String.ofList env.commitment.text
  s!"v4call-reveal:v1:{env.cid}|{size}|{env.sender}|{created}|{expires}|{kind}|{commitment}|" ++
    s!"{env.policyType}:{addrs}|{recips}"

end Signed

/-! ## What the page acts on -/

/-- `/^\/ipfs\/[^/]*\/?$/i`. -/
def isIpfsPath (text : List Char) : Bool :=
  (text.take 6).map Char.toLower = "/ipfs/".toList && !((text.drop 6).dropLast.contains '/')

/-- The text up to the first path that reaches its end. -/
def dropIpfsPath : List Char → List Char
  | [] => []
  | c :: rest => if isIpfsPath (c :: rest) then [] else c :: dropIpfsPath rest

/-- Where the ciphertext is fetched from, on a page whose gate is `gateway`. -/
def fetchUrl (gateway : String) (env : RevealEnvelope) : String :=
  env.gatewayHint.getD (gateway ++ "/ipfs/" ++ env.cid)

/-- Where a receipt is sent to. -/
def gateBase (gateway : String) (env : RevealEnvelope) : String :=
  let base := String.ofList (dropIpfsPath (env.gatewayHint.getD "").toList)
  if base = "" then gateway else base

/-- The values `revealEnvelope` and `confirmReceipt` use. -/
structure Acts where
  cid : String
  fetchUrl : String
  gateBase : String
  orderId : Option String
  policyType : String
  addresses : List String
  kindHint : Value
  addressed : String → Bool

def acts (gateway : String) (env : RevealEnvelope) : Acts where
  cid := env.cid
  fetchUrl := fetchUrl gateway env
  gateBase := gateBase gateway env
  orderId := env.orderId
  policyType := env.policyType
  addresses := env.addresses
  kindHint := env.kindHint
  addressed := env.isAddressed

/-! ## What is left out -/

section Unbound

variable (lower : String → String) (env : RevealEnvelope)

/-- The envelope of a link that was made over to another gateway and another order. -/
def RevealEnvelope.redirected (hint order : String) : RevealEnvelope :=
  { env with gatewayHint := some hint, orderId := some order }

theorem privSigInput_redirected (hint order : String) :
    privSigInput lower (env.redirected hint order) = privSigInput lower env := rfl

end Unbound

section Sampled

/-- Bob's link to Alice. -/
def linkFromBob : RevealEnvelope :=
  { cid := "bafy", sizeBytes := .number (.fin 100), sender := "bob", createdAt := .string "1",
    expiresAt := .null, kindHint := .string "image",
    gatewayHint := some "https://gate.example/ipfs/bafy", orderId := some "order-1",
    releasePolicy := some { type := "any_of", addresses := ["alice"] },
    commitment := .string "c0ffee", perRecipient := [("alice", "wrapped-key")] }

end Sampled

/-! ## What is covered -/

section Bound

variable {lower : String → String} {e e' : RevealEnvelope}

/-- The separators stay out of the fields around the commitment. -/
structure Separable (lower : String → String) (env : RevealEnvelope) : Prop where
  cid : '|' ∉ env.cid.toList
  size : '|' ∉ env.sizeBytes.text
  sender : '|' ∉ env.sender.toList
  created : '|' ∉ env.createdAt.text
  expires : '|' ∉ env.expiresAt.text
  kind : '|' ∉ env.kindHint.text
  policy : '|' ∉ env.policyType.toList ∧ ':' ∉ env.policyType.toList
  addresses : ∀ a ∈ env.addresses.map lower, Plain a
  recipients : ∀ a ∈ env.recipients.map lower, Plain a

theorem privSigInput_framed (lower : String → String) (env : RevealEnvelope) :
    (privSigInput lower env).toList =
      "v4call-reveal:v1:".toList ++ framed '|' [env.cid.toList, env.sizeBytes.text,
        env.sender.toList, env.createdAt.text, env.expiresAt.text, env.kindHint.text]
        env.commitment.text
        [env.policyType.toList ++ ':' :: (joinedNames lower env.addresses).toList,
          (joinedNames lower env.recipients).toList] := by
  unfold privSigInput
  generalize env.sizeBytes.text = size, env.createdAt.text = created,
    env.expiresAt.text = expires, env.kindHint.text = kind, env.commitment.text = commitment
  simp [framed, toString_string]

theorem Separable.before (h : Separable lower e) : ∀ x ∈ [e.cid.toList, e.sizeBytes.text,
    e.sender.toList, e.createdAt.text, e.expiresAt.text, e.kindHint.text], '|' ∉ x := by
  intro x hx
  simp only [List.mem_cons, List.not_mem_nil, or_false] at hx
  rcases hx with rfl | rfl | rfl | rfl | rfl | rfl
  · exact h.cid
  · exact h.size
  · exact h.sender
  · exact h.created
  · exact h.expires
  · exact h.kind

theorem Separable.after (h : Separable lower e) : ∀ x ∈ [e.policyType.toList ++
    ':' :: (joinedNames lower e.addresses).toList, (joinedNames lower e.recipients).toList],
    '|' ∉ x := by
  intro x hx
  simp only [List.mem_cons, List.not_mem_nil, or_false] at hx
  rcases hx with rfl | rfl
  · simp only [List.mem_append, List.mem_cons, not_or]
    exact ⟨h.policy.1, by decide, joined_no_bar h.addresses⟩
  · exact joined_no_bar h.recipients

/-- What a signature does cover, while the separators stay where they belong. -/
theorem covered (h : Separable lower e) (h' : Separable lower e')
    (heq : privSigInput lower e = privSigInput lower e') :
    e.cid = e'.cid ∧ e.kindHint.text = e'.kindHint.text ∧ e.policyType = e'.policyType ∧
      (e.addresses.map lower).Perm (e'.addresses.map lower) ∧
      (e.recipients.map lower).Perm (e'.recipients.map lower) := by
  have hframed := congrArg String.toList heq
  rw [privSigInput_framed, privSigInput_framed] at hframed
  obtain ⟨hhead, _, htail⟩ := framed_inj (by rfl) (by rfl) (List.append_cancel_left hframed)
    h.before h'.before h.after h'.after
  simp only [List.cons.injEq, and_true] at hhead htail
  obtain ⟨hcid, _, _, _, _, hkind⟩ := hhead
  obtain ⟨htype, haddresses⟩ := split_first htail.1 h.policy.2 h'.policy.2
  exact ⟨String.toList_inj.mp hcid, hkind, String.toList_inj.mp htype,
    perm_of_joined h.addresses h'.addresses haddresses,
    perm_of_joined h.recipients h'.recipients htail.2⟩

/-- The CID stands first: the signed text gives it when it gives its length. -/
theorem cid_of_length (heq : privSigInput lower e = privSigInput lower e')
    (hlength : e.cid.length = e'.cid.length) : e.cid = e'.cid := by
  have hframed := congrArg String.toList heq
  rw [privSigInput_framed, privSigInput_framed] at hframed
  rw [framed_cons, framed_cons] at hframed
  rw [← String.length_toList, ← String.length_toList] at hlength
  exact String.toList_inj.mp (List.append_inj_left (List.append_cancel_left hframed) hlength)

end Bound

/-! ## When two links act alike -/

section Alike

variable {lower : String → String} {gateway : String} {e e' : RevealEnvelope}

/-- The second link spells out the address at which the page fetches the first, which has no
hint; and the page cuts it back to its own gate. -/
def SpellsOut (gateway : String) (e e' : RevealEnvelope) : Prop :=
  e.gatewayHint = none ∧ e'.gatewayHint = some (gateway ++ "/ipfs/" ++ e'.cid) ∧
    gateBase gateway e' = gateway

/-- The hints lead to the same place. -/
def Aimed (gateway : String) (e e' : RevealEnvelope) : Prop :=
  e.gatewayHint = e'.gatewayHint ∨ SpellsOut gateway e e' ∨ SpellsOut gateway e' e

/-- The signed fields that are acted on read the same: the CIDs end at the same place, and the
others are the same values, whatever the fields between them are. -/
structure ReadsAlike (e e' : RevealEnvelope) : Prop where
  cid : e.cid.length = e'.cid.length
  kindHint : e.kindHint = e'.kindHint
  policyType : e.policyType = e'.policyType
  addresses : e.addresses = e'.addresses
  addressed : e.isAddressed = e'.isAddressed

/-- The separators stay out of the fields, the kind is a text, the addresses are in order, and
every recipient has a key; the names are in lower case. -/
structure Tidy (lower : String → String) (env : RevealEnvelope) : Prop
    extends Separable lower env where
  text : ∃ s, env.kindHint = .string s
  sorted : env.addresses = sort (env.addresses.map lower)
  keyed : ∀ r ∈ env.perRecipient, lower r.1 = r.1 ∧ r.2 ≠ ""

theorem gateBase_none (h : e.gatewayHint = none) : gateBase gateway e = gateway := by
  unfold gateBase
  rw [h]
  rfl

theorem fetchUrl_none (h : e.gatewayHint = none) :
    fetchUrl gateway e = gateway ++ "/ipfs/" ++ e.cid := by
  unfold fetchUrl
  rw [h]
  rfl

theorem SpellsOut.same (h : SpellsOut gateway e e') (hcid : e.cid = e'.cid) :
    fetchUrl gateway e = fetchUrl gateway e' ∧ gateBase gateway e = gateBase gateway e' := by
  obtain ⟨hnone, hsome, hbase⟩ := h
  constructor
  · rw [fetchUrl_none hnone, fetchUrl, hsome, hcid]
    rfl
  · rw [gateBase_none hnone, hbase]

theorem spellsOut_of_same (hnone : e.gatewayHint = none) {hint : String}
    (hsome : e'.gatewayHint = some hint) (hcid : e.cid = e'.cid)
    (hurl : fetchUrl gateway e = fetchUrl gateway e')
    (hbase : gateBase gateway e = gateBase gateway e') : SpellsOut gateway e e' := by
  rw [fetchUrl_none hnone, fetchUrl, hsome, hcid] at hurl
  rw [gateBase_none hnone] at hbase
  exact ⟨hnone, hsome.trans (congrArg some hurl.symm), hbase.symm⟩

/-- Two links for the same CID have the same addresses exactly if their hints lead there. -/
theorem aimed_iff (hcid : e.cid = e'.cid) : Aimed gateway e e' ↔
    fetchUrl gateway e = fetchUrl gateway e' ∧ gateBase gateway e = gateBase gateway e' := by
  constructor
  · rintro (hhint | h | h)
    · exact ⟨by simp only [fetchUrl, hhint, hcid], by simp only [gateBase, hhint]⟩
    · exact h.same hcid
    · exact ⟨(h.same hcid.symm).1.symm, (h.same hcid.symm).2.symm⟩
  · rintro ⟨hurl, hbase⟩
    cases h : e.gatewayHint with
    | none =>
      cases h' : e'.gatewayHint with
      | none => exact Or.inl (h.trans h'.symm)
      | some hint => exact Or.inr (Or.inl (spellsOut_of_same h h' hcid hurl hbase))
    | some hint =>
      cases h' : e'.gatewayHint with
      | none => exact Or.inr (Or.inr (spellsOut_of_same h' h hcid.symm hurl.symm hbase.symm))
      | some hint' =>
        simp only [fetchUrl, h, h', Option.getD_some] at hurl
        exact Or.inl (h.trans ((congrArg some hurl).trans h'.symm))

theorem Tidy.isAddressed_iff (h : Tidy lower e) (name : String) :
    e.isAddressed name = true ↔ name ∈ e.recipients.map lower := by
  have hnames : e.recipients.map lower = e.recipients := by
    unfold RevealEnvelope.recipients
    rw [List.map_map]
    exact List.map_congr_left (fun r hr => (h.keyed r hr).1)
  rw [hnames]
  unfold RevealEnvelope.isAddressed RevealEnvelope.recipients
  rw [List.any_eq_true, List.mem_map]
  refine exists_congr (fun r => and_congr_right (fun hr => ?_))
  simp [(h.keyed r hr).2]

/-- Between tidy links the signature leaves nothing open of what it signs. -/
theorem Tidy.readsAlike (h : Tidy lower e) (h' : Tidy lower e')
    (heq : privSigInput lower e = privSigInput lower e') : ReadsAlike e e' := by
  obtain ⟨hcid, hkind, hpolicy, haddresses, hrecipients⟩ :=
    covered h.toSeparable h'.toSeparable heq
  refine ⟨congrArg String.length hcid, ?_, hpolicy, ?_, ?_⟩
  · obtain ⟨s, hs⟩ := h.text
    obtain ⟨s', hs'⟩ := h'.text
    rw [hs, hs'] at hkind ⊢
    exact congrArg Value.string (String.toList_inj.mp hkind)
  · rw [h.sorted, h'.sorted]
    exact sort_eq_iff.mpr haddresses
  · funext name
    rw [Bool.eq_iff_iff, h.isAddressed_iff, h'.isAddressed_iff]
    exact hrecipients.mem_iff

end Alike

section Sampled

/-- Bob's link to Alice and himself. -/
def linkToTwo : RevealEnvelope :=
  { linkFromBob with perRecipient := [("alice", "key-a"), ("bob", "key-b")] }

/-- The keys in another order, and no hint. -/
def linkReordered : RevealEnvelope :=
  { linkFromBob with gatewayHint := none, perRecipient := [("bob", "key-b"), ("alice", "key-a")] }

theorem separable_linkFromBob : Separable id linkFromBob where
  cid := by decide
  size := by decide +kernel
  sender := by decide
  created := by decide +kernel
  expires := by decide +kernel
  kind := by decide +kernel
  policy := by decide
  addresses := by decide
  recipients := by decide

theorem tidy_fromBob (gatewayHint : Option String) {perRecipient : List (String × String)}
    (hplain : ∀ a ∈ (perRecipient.map Prod.fst).map id, Plain a)
    (hkeyed : ∀ r ∈ perRecipient, id r.1 = r.1 ∧ r.2 ≠ "") :
    Tidy id { linkFromBob with gatewayHint, perRecipient } :=
  have h := separable_linkFromBob
  ⟨⟨h.cid, h.size, h.sender, h.created, h.expires, h.kind, h.policy, h.addresses, hplain⟩,
    ⟨_, rfl⟩, (by decide +kernel : linkFromBob.addresses = sort (linkFromBob.addresses.map id)),
    hkeyed⟩

end Sampled

end IpfsGate.Client
