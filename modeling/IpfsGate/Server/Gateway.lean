import IpfsGate.Range
import IpfsGate.Server.Prices

/-!
# GET /ipfs/:cid

The gateway route reads the database in one turn, fixes the headers from the pins of the CID and
the range that was asked for, and passes Kubo's bytes on. The length it promises comes from the
database; that Kubo sends as much is because every pin of a CID has the size of its file.
-/
namespace IpfsGate.Server

open Quota Range

/-! ## The route -/

/-- The active pin that the gateway serves a CID from: the newest one, and among equally new ones,
where SQL leaves the choice open, the first. -/
def getServeInfoForCid (db : Db) (cid : Cid) : Option PinInfo :=
  (@List.argmax Pin Int Int.instLinearOrder.toPreorder Int.decLt Pin.createdAt
    (getActivePinsForCid db cid)).map
    (fun p => { sizeBytes := p.sizeBytes, mode := p.mode, mime := p.mime })

/-- `codeToStatus`. -/
def statusOf (code : String) : Nat :=
  (([("bad_request", 400), ("unauthorized", 401), ("forbidden", 403), ("not_found", 404),
    ("conflict", 409), ("gone", 410), ("payload_too_large", 413), ("rate_limited", 429),
    ("range_not_satisfiable", 416), ("unprocessable_entity", 422), ("legal_takedown", 451),
    ("insufficient_storage", 507), ("internal_error", 500), ("bad_gateway", 502),
    ("not_implemented", 501)] : List (String × Nat)).lookup code).getD 500

inductive Method where
  | get
  | head
deriving DecidableEq

inductive Payload where
  | nothing
  | bytes (data : List UInt8)
  | error (e : Fault)
deriving DecidableEq

/-- The length of an error's JSON is left to the framework. -/
structure Response where
  status : Nat
  contentType : Option String
  contentDisposition : Option String
  contentRange : Option String
  contentLength : Option Nat
  payload : Payload
deriving DecidableEq

def Response.fresh : Response where
  status := 200
  contentType := none
  contentDisposition := none
  contentRange := none
  contentLength := none
  payload := .nothing

def respondError (r : Response) (e : Fault) : Response :=
  { r with status := statusOf e.code, contentLength := none, payload := .error e }

/-- What Kubo's `/cat` answers. -/
inductive CatReply where
  | bytes (data : List UInt8)
  | refused (status : Nat) (text : String)
  | unreachable (message : String)

/-- `/cat` takes a CID, and perhaps an offset and a length. -/
abbrev CatApi := Cid → Option Nat → Option Nat → CatReply

/-- `/not pinned|no link|not found/i`. -/
def saysMissing (cfg : Config) (text : String) : Bool :=
  (["not pinned", "no link", "not found"] : List String).any (fun s =>
    s.toList <:+: (cfg.toLowerCase text).toList)

/-- An offset of zero is not sent. -/
def cat (cfg : Config) (api : CatApi) (cid : Cid) (offset length : Option Nat) :
    Except Fault (List UInt8) :=
  match api cid (offset.filter (fun n => 0 < n)) length with
  | .bytes data => .ok data
  | .refused status text =>
    if status = 500 && saysMissing cfg text then .error ⟨"not_found", "CID not found in Kubo"⟩
    else
      let shown := String.ofList (text.toList.take 200)
      .error ⟨"bad_gateway", s!"Kubo /cat HTTP {status}: {shown}"⟩
  | .unreachable message => .error ⟨"internal_error", message⟩

/-- Active content is never rendered on the gate's own origin. -/
def publicInlineDeny : List String := ["text/html", "application/xhtml+xml", "image/svg+xml"]

/-- The headers that say how a file is to be rendered. -/
def renderHeaders (serve : PinInfo) : Response :=
  match serve.mode, serve.mime with
  | .public, some mime =>
    if mime ≠ "" && mimeRe mime && !publicInlineDeny.contains mime then
      { Response.fresh with contentType := some mime }
    else
      { Response.fresh with
        contentType := some "application/octet-stream", contentDisposition := some "attachment" }
  | .public, none =>
    { Response.fresh with
      contentType := some "application/octet-stream", contentDisposition := some "attachment" }
  | .encrypted, _ => { Response.fresh with contentType := some "application/octet-stream" }

/-- A HEAD request ends here; for the others Kubo is asked. -/
def Response.sendBody (r : Response) (method : Method) (data : Except Fault (List UInt8)) :
    Response :=
  match method, data with
  | .head, _ => r
  | .get, .ok bytes => { r with payload := .bytes bytes }
  | .get, .error e => respondError r e

def getIpfs (cfg : Config) (db : Db) (api : CatApi) (method : Method) (cid : Cid)
    (range : Option String) : Response :=
  if isCidBlocked db cid then
    respondError .fresh ⟨"legal_takedown", "this CID has been removed"⟩
  else
    match getServeInfoForCid db cid with
    | none => respondError .fresh ⟨"not_found", "CID not pinned here"⟩
    | some serve =>
      let size := serve.sizeBytes
      let r := renderHeaders serve
      match parseRange range size with
      | some .unsatisfiable =>
        respondError { r with contentRange := some s!"bytes */{size}" }
          ⟨"range_not_satisfiable", "requested range beyond end of file"⟩
      | some (.slice start last) =>
        let length := last - start + 1
        Response.sendBody
          { r with status := 206, contentRange := some s!"bytes {start}-{last}/{size}",
                   contentLength := some length }
          method (cat cfg api cid (some start) (some length))
      | none =>
        Response.sendBody { r with contentLength := some size } method (cat cfg api cid none none)

/-! ## What is delivered -/

/-- The bytes of a file from an offset on, so many or all. -/
def sliceOf (bytes : List UInt8) (offset length : Option Nat) : List UInt8 :=
  match length with
  | none => bytes.drop (offset.getD 0)
  | some n => (bytes.drop (offset.getD 0)).take n

/-- A Kubo node that has the files, and answers with the slice that it is asked for. -/
def ServesSlices (content : Cid → List UInt8) (api : CatApi) : Prop :=
  ∀ cid offset length, api cid offset length = .bytes (sliceOf (content cid) offset length)

/-- The request names the byte. -/
def AsksFor (range : Option String) (size i : Nat) : Prop :=
  ∃ header, range = some header ∧ NamesByte header size i

/-- The response to a GET request is the file, the part that was asked for, or a refusal of a
range that names none of its bytes; what is sent is as long as promised. -/
structure Delivers (bytes : List UInt8) (range : Option String) (r : Response) : Prop where
  status : r.status = 200 ∨ r.status = 206 ∨ r.status = 416
  length : ∀ data, r.payload = .bytes data → r.contentLength = some data.length
  full : r.status = 200 → r.payload = .bytes bytes
  slice : r.status = 206 → ∃ start last, start ≤ last ∧ last < bytes.length ∧
    r.contentRange = some s!"bytes {start}-{last}/{bytes.length}" ∧
    r.payload = .bytes (bytes.extract start (last + 1)) ∧
    ∀ i, AsksFor range bytes.length i ↔ start ≤ i ∧ i ≤ last
  refused : r.status = 416 → ∀ i, ¬ AsksFor range bytes.length i

section Delivery

variable {cfg : Config} {db : Db} {api : CatApi} {content : Cid → List UInt8} {cid : Cid}
  {range : Option String}

theorem getServeInfoForCid_mem {info : PinInfo} (h : getServeInfoForCid db cid = some info) :
    ∃ p, ActivePin db cid p ∧ info.sizeBytes = p.sizeBytes := by
  obtain ⟨p, hp, rfl⟩ := Option.map_eq_some_iff.mp h
  exact ⟨p, mem_getActivePinsForCid.mp (List.argmax_mem hp), rfl⟩

theorem getServeInfoForCid_of_active (h : hasActivePinForCid db cid = true) :
    ∃ info, getServeInfoForCid db cid = some info := by
  cases hserve : getServeInfoForCid db cid with
  | some info => exact ⟨info, rfl⟩
  | none =>
    have hnil := List.argmax_eq_none.mp (Option.map_eq_none_iff.mp hserve)
    obtain ⟨p, hp⟩ := hasActivePinForCid_iff.mp h
    have hmem := mem_getActivePinsForCid.mpr hp
    rw [hnil] at hmem
    exact absurd hmem List.not_mem_nil

/-- An offset of zero is as good as none. -/
theorem sliceOf_filter (bytes : List UInt8) (offset length : Option Nat) :
    sliceOf bytes (offset.filter (fun n => 0 < n)) length = sliceOf bytes offset length := by
  have hdefault : (offset.filter (fun n => 0 < n)).getD 0 = offset.getD 0 := by
    cases offset with
    | none => rfl
    | some n =>
      cases n with
      | zero => rfl
      | succ n => rfl
  unfold sliceOf
  rw [hdefault]

theorem cat_of_servesSlices (h : ServesSlices content api) (offset length : Option Nat) :
    cat cfg api cid offset length = .ok (sliceOf (content cid) offset length) := by
  unfold cat
  rw [h]
  exact congrArg Except.ok (sliceOf_filter _ _ _)

theorem length_slice {bytes : List UInt8} {start last : Nat} (hle : start ≤ last)
    (hlt : last < bytes.length) :
    (sliceOf bytes (some start) (some (last - start + 1))).length = last - start + 1 := by
  change ((bytes.drop start).take (last - start + 1)).length = _
  rw [List.length_take, List.length_drop]
  omega

theorem slice_eq_extract (bytes : List UInt8) {start last : Nat} (hle : start ≤ last) :
    sliceOf bytes (some start) (some (last - start + 1)) = bytes.extract start (last + 1) := by
  have hlength : last - start + 1 = last + 1 - start := by omega
  rw [hlength]
  rfl

theorem status_renderHeaders (serve : PinInfo) : (renderHeaders serve).status = 200 := by
  unfold renderHeaders
  split
  · split <;> rfl
  · rfl
  · rfl

theorem asksFor_some {header : String} {size i : Nat} :
    AsksFor (some header) size i ↔ NamesByte header size i := by
  constructor
  · rintro ⟨header', heq, h⟩
    cases heq
    exact h
  · exact fun h => ⟨header, rfl, h⟩

section Outcomes

variable {bytes : List UInt8} {r : Response} {header : String}

theorem delivers_full (hok : r.status = 200) :
    Delivers bytes range
      (Response.sendBody { r with contentLength := some bytes.length } .get (.ok bytes)) where
  status := Or.inl hok
  length := by
    intro data hdata
    cases hdata
    rfl
  full := fun _ => rfl
  slice := fun h => absurd (hok.symm.trans h) (by decide)
  refused := fun h => absurd (hok.symm.trans h) (by decide)

theorem delivers_slice {start last : Nat}
    (h : parseRange (some header) bytes.length = some (.slice start last)) :
    Delivers bytes (some header)
      (Response.sendBody
        { r with status := 206, contentRange := some s!"bytes {start}-{last}/{bytes.length}",
                 contentLength := some (last - start + 1) }
        .get (.ok (sliceOf bytes (some start) (some (last - start + 1))))) where
  status := Or.inr (Or.inl rfl)
  length := by
    intro data hdata
    obtain ⟨hle, hlt, _⟩ := namesByte_of_slice h
    cases hdata
    exact congrArg some (length_slice hle hlt).symm
  full := fun h => absurd h (by decide : ¬ 206 = 200)
  slice := by
    intro _
    obtain ⟨hle, hlt, hnames⟩ := namesByte_of_slice h
    exact ⟨start, last, hle, hlt, rfl, congrArg Payload.bytes (slice_eq_extract bytes hle),
      fun i => asksFor_some.trans (hnames i)⟩
  refused := fun h => absurd h (by decide : ¬ 206 = 416)

theorem delivers_refused
    (h : parseRange (some header) bytes.length = some .unsatisfiable) :
    Delivers bytes (some header)
      (respondError r ⟨"range_not_satisfiable", "requested range beyond end of file"⟩) := by
  have hstatus : (respondError r
      ⟨"range_not_satisfiable", "requested range beyond end of file"⟩).status = 416 := by
    change statusOf "range_not_satisfiable" = 416
    decide
  constructor
  case status => exact Or.inr (Or.inr hstatus)
  case length =>
    intro data hdata
    cases hdata
  case full =>
    intro hfull
    rw [hstatus] at hfull
    cases hfull
  case slice =>
    intro hslice
    rw [hstatus] at hslice
    cases hslice
  case refused => exact fun _ i hi => not_namesByte_of_unsatisfiable h (asksFor_some.mp hi)

end Outcomes

/-- Where the pin that is served has the size of the file, the response delivers it. -/
theorem delivers_getIpfs (hcat : ServesSlices content api)
    (hsize : ∀ p, ActivePin db cid p → p.sizeBytes = (content cid).length)
    (hactive : hasActivePinForCid db cid = true) (hblocked : isCidBlocked db cid = false) :
    Delivers (content cid) range (getIpfs cfg db api .get cid range) := by
  obtain ⟨serve, hserve⟩ := getServeInfoForCid_of_active hactive
  obtain ⟨p, hp, hbytes⟩ := getServeInfoForCid_mem hserve
  have hlength : serve.sizeBytes = (content cid).length := hbytes.trans (hsize p hp)
  unfold getIpfs
  rw [hblocked, if_neg Bool.false_ne_true, hserve]
  dsimp only
  rw [hlength]
  cases hrange : parseRange range (content cid).length with
  | none =>
    dsimp only
    rw [cat_of_servesSlices hcat]
    exact delivers_full (status_renderHeaders serve)
  | some out =>
    obtain ⟨header, rfl⟩ : ∃ header, range = some header := by
      cases range with
      | none => cases hrange
      | some header => exact ⟨header, rfl⟩
    cases out with
    | unsatisfiable => exact delivers_refused hrange
    | slice start last =>
      dsimp only
      rw [cat_of_servesSlices hcat]
      exact delivers_slice hrange

end Delivery

/-- In every run every pin of a CID has the size of its file, and the gateway delivers what it
promises of every CID that has an active pin, unless it was taken down. -/
theorem gateway_delivers (cfg : Config) (t : Int) (events : List (GateEvent cfg))
    {content : Cid → List UInt8} (hcount : ∀ cid, (content cid).length = cfg.byteCount cid)
    {api : CatApi} (hcat : ServesSlices content api) (cid : Cid)
    (hactive : hasActivePinForCid (serve cfg t events).world.db cid = true)
    (range : Option String) :
    (∀ p ∈ (serve cfg t events).world.db.pins, p.cid = cid →
      p.sizeBytes = (content cid).length) ∧
    (isCidBlocked (serve cfg t events).world.db cid = false → Delivers (content cid) range
      (getIpfs cfg (serve cfg t events).world.db api .get cid range)) ∧
    (isCidBlocked (serve cfg t events).world.db cid = true →
      getIpfs cfg (serve cfg t events).world.db api .get cid range =
        respondError .fresh ⟨"legal_takedown", "this CID has been removed"⟩) := by
  have hsourced := (serve_accounted cfg t events).sourced
  have hsize : ∀ p ∈ (serve cfg t events).world.db.pins, p.cid = cid →
      p.sizeBytes = (content cid).length := by
    intro p hp hcid
    rw [hsourced.pins p hp, hcid, hcount]
  refine ⟨hsize, fun hblocked => ?_, fun hblocked => ?_⟩
  · exact delivers_getIpfs hcat (fun p hp => hsize p hp.mem hp.cid_eq) hactive hblocked
  · unfold getIpfs
    rw [if_pos hblocked]

section Sampled

open Sample

/-- A hundred bytes, whatever the name. -/
def hundredBytes : Cid → List UInt8 := fun _ => (List.range 100).map UInt8.ofNat

def sliceApi : CatApi := fun cid offset length => .bytes (sliceOf (hundredBytes cid) offset length)

/-- Alice's file, from the eleventh byte on. -/
theorem gateway_delivers_hosted :
    hasActivePinForCid (serve config 0 hostedByAlice).world.db "bafy" = true ∧
    isCidBlocked (serve config 0 hostedByAlice).world.db "bafy" = false ∧
    Delivers (hundredBytes "bafy") (some "bytes=10-")
      (getIpfs config (serve config 0 hostedByAlice).world.db sliceApi .get "bafy"
        (some "bytes=10-")) := by
  have hactive : hasActivePinForCid (serve config 0 hostedByAlice).world.db "bafy" = true := by
    decide +kernel
  have hblocked : isCidBlocked (serve config 0 hostedByAlice).world.db "bafy" = false := by
    decide +kernel
  exact ⟨hactive, hblocked, (gateway_delivers config 0 hostedByAlice (fun _ => rfl)
    (fun _ _ _ => rfl) "bafy" hactive (some "bytes=10-")).2.1 hblocked⟩

end Sampled

end IpfsGate.Server
