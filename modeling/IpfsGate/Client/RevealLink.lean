import IpfsGate.Json
import IpfsGate.Lib.Base64
import IpfsGate.Lib.Search
import IpfsGate.Lib.Utf8

/-!
# Reveal links

A link is an envelope as JSON, in UTF-8 and in base64 without padding, behind a marker by which it
is found again in pasted text. The marker cannot overlap itself and no digit is a blank, so the
first link in a text is the one that was put there.
-/
namespace IpfsGate.Client.RevealLink

open Lib (Unbordered leftmost leftmost_append leftmost_of_some span_stop trimWhile_around)
open Lib.Base64 (atob atob_btoa btoa digit pad sextets sextets_lt sextets_ne_nil strip_pad)
open Range (isLineTerminator isSpace trim)

/-! ## The payload -/

def replace (old new : Char) (text : List Char) : List Char :=
  text.map (fun c => if c = old then new else c)

def b64urlEncode (str : String) : List Char :=
  (replace '/' '_' (replace '+' '-' (btoa (Lib.Utf8.encode str)))).rdropWhile (· = '=')

/-- `none` where `atob` throws. -/
def b64urlDecode (s : List Char) : Option String :=
  (atob (pad (replace '_' '/' (replace '-' '+' s)))).map Lib.Utf8.decode

/-- `[A-Za-z0-9\-_]` -/
def isUrlDigit (c : Char) : Bool :=
  ('A' ≤ c && c ≤ 'Z') || ('a' ≤ c && c ≤ 'z') || ('0' ≤ c && c ≤ '9') || c = '-' || c = '_'

/-- A digit as it stands in a link. -/
def urlDigit (v : Nat) : Char :=
  let c := if digit v = '+' then '-' else digit v
  if c = '/' then '_' else c

theorem urlDigit_plain : ∀ v < 64, isUrlDigit (urlDigit v) = true ∧ urlDigit v ≠ '=' := by
  decide

theorem urlDigit_restored : ∀ v < 64,
    replace '_' '/' (replace '-' '+' [urlDigit v]) = [digit v] := by
  decide

theorem replace_pad {old new : Char} (h : old ≠ '=') (text : List Char) :
    replace old new (pad text) = pad (replace old new text) := by
  have heq : ¬ '=' = old := fun heq => h heq.symm
  simp [replace, pad, heq]

/-- The payload has the digits of the numeral, in the other alphabet, and no padding. -/
theorem b64urlEncode_eq (str : String) :
    b64urlEncode str = (sextets (Lib.Utf8.encode str)).map urlDigit := by
  have hpad : '=' ∉ (sextets (Lib.Utf8.encode str)).map urlDigit := by
    intro h
    obtain ⟨v, hv, heq⟩ := List.mem_map.mp h
    exact (urlDigit_plain v (sextets_lt _ v hv)).2 heq
  rw [b64urlEncode, btoa, replace_pad (by decide), replace_pad (by decide)]
  simp only [replace, List.map_map]
  exact strip_pad hpad

theorem digits_restored {values : List Nat} (h : ∀ v ∈ values, v < 64) :
    replace '_' '/' (replace '-' '+' (values.map urlDigit)) = values.map digit := by
  simp only [replace, List.map_map]
  apply List.map_congr_left
  intro v hv
  simpa [replace] using urlDigit_restored v (h v hv)

theorem b64urlDecode_encode {str : String} (h : str.toList.head? ≠ some '\uFEFF') :
    b64urlDecode (b64urlEncode str) = some str := by
  rw [b64urlDecode, b64urlEncode_eq, digits_restored (sextets_lt _), ← btoa, atob_btoa,
    Option.map_some, Lib.Utf8.decode_encode h]

theorem b64urlEncode_digits (str : String) : ∀ c ∈ b64urlEncode str, isUrlDigit c = true := by
  intro c hc
  rw [b64urlEncode_eq] at hc
  obtain ⟨v, hv, rfl⟩ := List.mem_map.mp hc
  exact (urlDigit_plain v (sextets_lt _ v hv)).1

theorem b64urlEncode_ne_nil {str : String} (h : str.toList ≠ []) : b64urlEncode str ≠ [] := by
  obtain ⟨c, rest, hchars⟩ := List.exists_cons_of_ne_nil h
  have hbytes : Lib.Utf8.encode str ≠ [] := by
    simp [Lib.Utf8.encode, hchars, String.utf8EncodeChar_ne_nil]
  rw [b64urlEncode_eq]
  exact List.map_eq_nil_iff.not.mpr (sextets_ne_nil hbytes)

/-! ## The link -/

def marker : List Char := ['v', '4', 'r', 'e', 'v', 'e', 'a', 'l']

def buildRevealArtifact (env : Json) : String :=
  "v4reveal:" ++ String.ofList (b64urlEncode env.stringify)

theorem toList_artifact (env : Json) :
    (buildRevealArtifact env).toList = marker ++ ':' :: b64urlEncode env.stringify := by
  rw [buildRevealArtifact]
  generalize b64urlEncode env.stringify = payload
  rw [String.toList_append, String.toList_ofList (l := payload)]
  rfl

/-- `/v4reveal[:=]\s*([A-Za-z0-9\-_]+)/` at the start of a text. No digit is a blank, so the run
of blanks never has to give one back. -/
def linkAt (text : List Char) : Option (List Char) :=
  if marker <+: text then
    match text.drop marker.length with
    | [] => none
    | mark :: rest =>
      let payload := (rest.dropWhile isSpace).takeWhile isUrlDigit
      if (mark = ':' ∨ mark = '=') ∧ payload ≠ [] then some payload else none
  else none

/-- `.replace(/^v4reveal:/i, '').replace(/\s+/g, '')` -/
def withoutMarker (text : List Char) : List Char :=
  let rest := if (text.take 9).map Char.toLower = "v4reveal:".toList then text.drop 9 else text
  rest.filter (fun c => !isSpace c)

/-- `env.type === 'private-reveal'`, and `cid` and `per_recipient` are there. -/
def isPrivateReveal (env : Json) : Bool :=
  let has (key : String) := ((env.get key).map Json.truthy).getD false
  let type := match env.get "type" with
    | some (.str s) => s = "private-reveal"
    | _ => false
  env.truthy && type && has "cid" && has "per_recipient"

def parseRevealArtifact (parse : String → Except String Json) (raw : String) :
    Except String Json :=
  let s := trim raw.toList
  if s = [] then .error "paste a v4reveal link first"
  else
    let payload := (leftmost linkAt s).getD (withoutMarker s)
    match (b64urlDecode payload).bind (fun text => (parse text).toOption) with
    | none => .error "not a valid Reveal link (could not decode)"
    | some env =>
      if isPrivateReveal env then .ok env
      else .error "not a Private Send link (wrong format)"

/-! ## Found again -/

theorem isUrlDigit_le {c : Char} (h : isUrlDigit c = true) : c ≤ 'z' := by
  simp only [isUrlDigit, Bool.or_eq_true, Bool.and_eq_true, decide_eq_true_eq] at h
  rcases h with (((⟨-, h⟩ | ⟨-, h⟩) | ⟨-, h⟩) | rfl) | rfl
  · exact Char.le_trans h (by decide)
  · exact h
  · exact Char.le_trans h (by decide)
  · decide
  · decide

theorem isSpace_of_isUrlDigit {c : Char} (h : isUrlDigit c = true) : isSpace c = false := by
  by_contra hspace
  simp only [isSpace, isLineTerminator, Bool.not_eq_false, Bool.or_eq_true, decide_eq_true_eq,
    Bool.and_eq_true] at hspace
  rcases hspace with (((((((((((((rfl | rfl) | rfl) | rfl) | rfl) | rfl) | rfl) | rfl) | rfl) |
    rfl) | hrange) | rfl) | rfl) | rfl) | rfl
  case inl.inl.inl.inl.inr =>
    have hle : '\u2000' ≤ 'z' := Char.le_trans hrange.1 (isUrlDigit_le h)
    exact absurd hle (by decide)
  all_goals exact absurd h (by decide)

theorem marker_unbordered : Unbordered marker := by decide

section Find

variable {payload post : List Char}

theorem payload_stops (hdigits : ∀ c ∈ payload, isUrlDigit c = true)
    (hpost : ∀ c ∈ post.head?, isUrlDigit c = false) :
    (payload ++ post).takeWhile isUrlDigit = payload := by
  cases post with
  | nil => rw [List.append_nil, List.takeWhile_eq_self_iff.mpr hdigits]
  | cons stop post => exact (span_stop hdigits (hpost stop rfl)).1

theorem linkAt_link (hne : payload ≠ []) (hdigits : ∀ c ∈ payload, isUrlDigit c = true)
    (hpost : ∀ c ∈ post.head?, isUrlDigit c = false) :
    linkAt (marker ++ (':' :: payload ++ post)) = some payload := by
  have hstart : (payload ++ post).dropWhile isSpace = payload ++ post := by
    obtain ⟨c, rest, rfl⟩ := List.exists_cons_of_ne_nil hne
    have hspace := isSpace_of_isUrlDigit (hdigits c List.mem_cons_self)
    exact List.dropWhile_cons_of_neg (by simp [hspace])
  rw [linkAt, if_pos (List.prefix_append _ _), List.drop_left]
  simp [hstart, payload_stops hdigits hpost, hne]

/-- The marker stands nowhere before the link. -/
theorem leftmost_link {pre : List Char} (hpre : ¬ marker <:+: pre) (hne : payload ≠ [])
    (hdigits : ∀ c ∈ payload, isUrlDigit c = true)
    (hpost : ∀ c ∈ post.head?, isUrlDigit c = false) :
    leftmost linkAt (pre ++ (marker ++ (':' :: payload ++ post))) = some payload := by
  rw [leftmost_append]
  · exact leftmost_of_some (linkAt_link hne hdigits hpost)
  · intro x hx hsuffix
    have hno : ¬ marker <+: x ++ (marker ++ (':' :: payload ++ post)) :=
      marker_unbordered.not_prefix hx (fun hmarker => hpre (hmarker.trans hsuffix.isInfix))
    rw [linkAt, if_neg hno]

theorem trim_link {pre : List Char} (hne : payload ≠ [])
    (hdigits : ∀ c ∈ payload, isUrlDigit c = true) :
    trim (pre ++ (marker ++ ':' :: payload) ++ post) =
      pre.dropWhile isSpace ++ (marker ++ (':' :: payload ++ post.rdropWhile isSpace)) := by
  have hlast := isSpace_of_isUrlDigit (hdigits _ (List.getLast_mem hne))
  have hlink : marker ++ ':' :: payload =
      'v' :: ("4reveal:".toList ++ payload.dropLast) ++ [payload.getLast hne] := by
    rw [List.cons_append, List.append_assoc, List.dropLast_concat_getLast]
    rfl
  rw [hlink, trim, trimWhile_around (by decide) hlast, ← hlink]
  simp

end Find

section RoundTrip

variable {parse : String → Except String Json} {env : Json}

theorem exists_fields (h : isPrivateReveal env = true) : ∃ fields, env = .obj fields := by
  cases env with
  | obj fields => exact ⟨fields, rfl⟩
  | _ => simp [isPrivateReveal, Json.get] at h

/-- The first link in a text is the one that was put there. -/
theorem parse_found {raw : String} {pre payload post : List Char}
    (hraw : raw.toList = pre ++ (marker ++ ':' :: payload) ++ post) (hpre : ¬ marker <:+: pre)
    (hne : payload ≠ []) (hdigits : ∀ c ∈ payload, isUrlDigit c = true)
    (hpost : ∀ c ∈ post.head?, isUrlDigit c = false)
    (henv : (b64urlDecode payload).bind (fun text => (parse text).toOption) = some env)
    (h : isPrivateReveal env = true) : parseRevealArtifact parse raw = .ok env := by
  have hlead : ¬ marker <:+: pre.dropWhile isSpace :=
    fun hmarker => hpre (hmarker.trans (List.dropWhile_suffix _).isInfix)
  have htrail : ∀ c ∈ (post.rdropWhile isSpace).head?, isUrlDigit c = false := by
    intro c hc
    apply hpost
    have hstart := List.singleton_prefix_iff_head?_eq_some.mpr hc
    exact List.singleton_prefix_iff_head?_eq_some.mp
      (hstart.trans (List.rdropWhile_prefix isSpace post))
  have hfound := leftmost_link hlead hne hdigits htrail
  rw [parseRevealArtifact, hraw, trim_link hne hdigits]
  simp only [hfound, Option.getD_some, henv, h, if_true]
  rw [if_neg (by simp [marker])]

theorem parse_embedded (h : isPrivateReveal env = true) (hjson : parse env.stringify = .ok env)
    {pre post : String} (hpre : ¬ marker <:+: pre.toList)
    (hpost : ∀ c ∈ post.toList.head?, isUrlDigit c = false) :
    parseRevealArtifact parse (pre ++ buildRevealArtifact env ++ post) = .ok env := by
  obtain ⟨fields, rfl⟩ := exists_fields h
  have hhead := Json.stringify_head fields
  have hmark : (Json.obj fields).stringify.toList.head? ≠ some '\uFEFF' := by
    rw [hhead]
    decide
  have htext : (Json.obj fields).stringify.toList ≠ [] := by
    intro hnil
    rw [hnil] at hhead
    cases hhead
  have hraw : (pre ++ buildRevealArtifact (.obj fields) ++ post).toList = pre.toList ++
      (marker ++ ':' :: b64urlEncode (Json.obj fields).stringify) ++ post.toList := by
    rw [String.toList_append, String.toList_append, toList_artifact]
  apply parse_found hraw hpre (b64urlEncode_ne_nil htext) (b64urlEncode_digits _) hpost _ h
  rw [b64urlDecode_encode hmark, Option.bind_some, hjson]
  rfl

/-- A link gives its envelope back: by itself, between blanks, and in a text that has no marker
before the link and no digit right behind it. -/
theorem reveal_link_round_trip (h : isPrivateReveal env = true)
    (hjson : parse env.stringify = .ok env) :
    parseRevealArtifact parse (buildRevealArtifact env) = .ok env ∧
    (∀ pre post : String, (∀ c ∈ pre.toList, isSpace c = true) →
      (∀ c ∈ post.toList, isSpace c = true) →
      parseRevealArtifact parse (pre ++ buildRevealArtifact env ++ post) = .ok env) ∧
    ∀ pre post : String, ¬ marker <:+: pre.toList →
      (∀ c ∈ post.toList.head?, isUrlDigit c = false) →
      parseRevealArtifact parse (pre ++ buildRevealArtifact env ++ post) = .ok env := by
  refine ⟨?_, ?_, fun pre post => parse_embedded h hjson⟩
  · have hself : parseRevealArtifact parse ("" ++ buildRevealArtifact env ++ "") = .ok env :=
      parse_embedded h hjson (by decide) (by simp)
    simpa using hself
  · intro pre post hpre hpost
    apply parse_embedded h hjson
    · intro hmarker
      have hletter := hpre 'v' (hmarker.subset (by decide))
      exact absurd hletter (by decide)
    · intro c hc
      by_contra hdigit
      have hspace := hpost c (List.mem_of_mem_head? hc)
      rw [isSpace_of_isUrlDigit (by simpa using hdigit)] at hspace
      cases hspace

end RoundTrip

def sample : Json :=
  .obj [("type", .str "private-reveal"), ("cid", .str "bafy"), ("sender", .str "ælfred"),
    ("per_recipient", .obj [("bob", .str "€?>")])]

theorem reveal_link_round_trip_sample :
    parseRevealArtifact sample.parseOnly ("from ælfred: " ++ buildRevealArtifact sample ++ ".") =
      .ok sample :=
  (reveal_link_round_trip (by decide) (Json.parseOnly_stringify _)).2.2 _ _ (by decide)
    (fun c hc => by cases hc; rfl)

end IpfsGate.Client.RevealLink
