import IpfsGate.Json
import IpfsGate.Lib.Utf8
import Mathlib.Data.Nat.Bitwise

/-!
# The encrypted inner blob

A file is sealed behind a JSON header, whose length in bytes stands before it in 32 bits. The
length is written as an unsigned number and read as a signed one, so the blob can be opened only
while the header is shorter than `2 ^ 31` bytes. Whatever is decrypted, the header and the file
that are read from it leave nothing out.
-/
namespace IpfsGate.Client.InnerBlob

open Lib.Utf8 (encode decode)

abbrev Bytes := List UInt8

/-! ## Lengths in 32 bits -/

def u32be (n : Nat) : Bytes :=
  let w := BitVec.ofNat 32 n
  [w >>> 24 &&& 0xff#32, w >>> 16 &&& 0xff#32, w >>> 8 &&& 0xff#32, w &&& 0xff#32].map
    (fun b => UInt8.ofNat b.toNat)

/-- Shifts and `|` have a signed result. -/
def signedLength (b₀ b₁ b₂ b₃ : UInt8) : Int :=
  let word (b : UInt8) := BitVec.ofNat 32 b.toNat
  (word b₀ <<< 24 ||| word b₁ <<< 16 ||| word b₂ <<< 8 ||| word b₃).toInt

theorem word_byte (w : BitVec 32) :
    BitVec.ofNat 32 (UInt8.ofNat (w &&& 0xff#32).toNat).toNat = w &&& 0xff#32 := by
  have h : (w &&& 0xff#32).toNat = w.toNat % 256 := by
    rw [BitVec.toNat_and]
    exact Nat.and_two_pow_sub_one_eq_mod w.toNat 8
  apply BitVec.eq_of_toNat_eq
  rw [h, BitVec.toNat_ofNat, UInt8.toNat_ofNat']
  omega

/-- A byte in its place has the bits of the word there, and no others. -/
theorem getLsbD_byte (w : BitVec 32) {i k : Nat} (hi : i < 32) :
    ((w >>> k &&& 0xff#32) <<< k).getLsbD i = (decide (k ≤ i ∧ i < k + 8) && w.getLsbD i) := by
  have hmask : ∀ j < 32, (0xff#32).getLsbD j = decide (j < 8) := by decide
  rw [BitVec.getLsbD_shiftLeft, BitVec.getLsbD_and, BitVec.getLsbD_ushiftRight,
    hmask _ (by omega)]
  by_cases hk : k ≤ i
  · have hplace : k + (i - k) = i := by omega
    have hbound : i - k < 8 ↔ i < k + 8 := by omega
    simp [hi, hk, hplace, hbound, Bool.and_comm]
  · simp [hk, show i < k by omega]

theorem join_bytes (w : BitVec 32) :
    (w >>> 24 &&& 0xff#32) <<< 24 ||| (w >>> 16 &&& 0xff#32) <<< 16 |||
      (w >>> 8 &&& 0xff#32) <<< 8 ||| (w &&& 0xff#32) = w := by
  apply BitVec.eq_of_getLsbD_eq
  intro i hi
  have hlast := getLsbD_byte w (k := 0) hi
  rw [BitVec.ushiftRight_zero, BitVec.shiftLeft_zero] at hlast
  rw [BitVec.getLsbD_or, BitVec.getLsbD_or, BitVec.getLsbD_or, getLsbD_byte w hi,
    getLsbD_byte w hi, getLsbD_byte w hi, hlast]
  cases w.getLsbD i with
  | false => simp
  | true =>
    simp only [Bool.and_true, ← Bool.decide_or, decide_eq_true_eq]
    omega

/-- What is read is the length, taken as a signed number. -/
theorem signedLength_u32be {n : Nat} {b₀ b₁ b₂ b₃ : UInt8} (h : u32be n = [b₀, b₁, b₂, b₃]) :
    signedLength b₀ b₁ b₂ b₃ = (BitVec.ofNat 32 n).toInt := by
  simp only [u32be, List.map_cons, List.map_nil, List.cons.injEq, and_true] at h
  obtain ⟨rfl, rfl, rfl, rfl⟩ := h
  simp only [signedLength, word_byte, join_bytes]

theorem signed_short {n : Nat} (h : n < 2 ^ 31) : (BitVec.ofNat 32 n).toInt = n := by
  rw [BitVec.toInt_eq_toNat_cond, BitVec.toNat_ofNat, Nat.mod_eq_of_lt (by omega),
    if_pos (by omega)]

/-- A longer one comes out negative or shorter. -/
theorem signed_long {n : Nat} (h : 2 ^ 31 ≤ n) : (BitVec.ofNat 32 n).toInt < n := by
  rw [BitVec.toInt_eq_toNat_cond, BitVec.toNat_ofNat]
  split <;> omega

/-! ## The blob -/

structure File where
  name : String
  type : String
  bytes : Bytes

section Build

variable (lower : String → String) (encrypt : Bytes → Bytes → Bytes → Bytes)

def endsWith (name extension : String) : Bool := extension.toList.isSuffixOf name.toList

def detectFileMime (file : File) : String :=
  let name := lower file.name
  if endsWith name ".tar.gz" || endsWith name ".tgz" then "application/gzip"
  else if endsWith name ".tar.bz2" || endsWith name ".tbz" || endsWith name ".tbz2" then
    "application/x-tar"
  else if endsWith name ".tar.xz" || endsWith name ".txz" then "application/x-tar"
  else if file.type ≠ "" && file.type ≠ "application/octet-stream" then file.type
  else if endsWith name ".md" || endsWith name ".markdown" then "text/markdown"
  else if endsWith name ".txt" then "text/plain"
  else if endsWith name ".zip" then "application/zip"
  else if endsWith name ".tar" then "application/x-tar"
  else if endsWith name ".gz" then "application/gzip"
  else if endsWith name ".7z" then "application/x-7z-compressed"
  else if endsWith name ".rar" then "application/vnd.rar"
  else file.type

def headerMime (file : File) : String :=
  if detectFileMime lower file = "" then "application/octet-stream" else detectFileMime lower file

def header (file : File) (sender : String) : Json :=
  .obj [("v", .num (.fin 1)), ("filename", .str file.name), ("mime", .str (headerMime lower file)),
    ("original_size", .num (.fin file.bytes.length)), ("sender", .str sender)]

def plaintext (file : File) (sender : String) : Bytes :=
  let headerBytes := encode (header lower file sender).stringify
  u32be headerBytes.length ++ headerBytes ++ file.bytes

/-- The bytes of a text. -/
def size (text : List Char) : Nat := (encode (String.ofList text)).length

/-- The bytes of the header: the strings in their quotes, the digits of the file's size, and the
54 bytes between them. -/
def headerSize (file : File) (sender : String) : Nat :=
  54 + size (Json.quote file.name) + size (Json.quote (headerMime lower file)) +
    size (Numerals.numberText (.fin file.bytes.length)) + size (Json.quote sender)

structure Built where
  blob : Bytes
  rawKey : Bytes
  plaintextSize : Nat

/-- The key and the nonce are drawn at random. -/
def buildInnerBlob (file : File) (sender : String) (rawKey nonce : Bytes) : Built :=
  { blob := nonce ++ encrypt rawKey nonce (plaintext lower file sender)
    rawKey := rawKey
    plaintextSize := file.bytes.length }

end Build

theorem size_append (a b : List Char) : size (a ++ b) = size a + size b := by
  simp [size, encode]

theorem size_cons (c : Char) (text : List Char) : size (c :: text) = c.utf8Size + size text := by
  simp [size, encode]

theorem header_length (lower : String → String) (file : File) (sender : String) :
    (encode (header lower file sender).stringify).length = headerSize lower file sender := by
  have hmarks : '{'.utf8Size = 1 ∧ '}'.utf8Size = 1 ∧ ','.utf8Size = 1 ∧ ':'.utf8Size = 1 := by
    decide
  have hkeys : size (Json.quote "v") = 3 ∧ size (Json.quote "filename") = 10 ∧
      size (Json.quote "mime") = 6 ∧ size (Json.quote "original_size") = 15 ∧
      size (Json.quote "sender") = 8 := by
    decide
  have hone : size (Numerals.numberText (.fin 1)) = 1 := by decide +kernel
  have hnil : size [] = 0 := rfl
  show size (header lower file sender).text = headerSize lower file sender
  simp only [header, Json.text, Json.fieldsText, headerSize, size_append, size_cons, hmarks, hkeys,
    hone, hnil]
  omega

structure Parsed where
  header : Json
  fileBytes : Bytes

section Parse

variable (decrypt : Bytes → Bytes → Bytes → Except String Bytes) (parse : String → Except String Json)

def parsePlaintext : Bytes → Except String Parsed
  | pt@(b₀ :: b₁ :: b₂ :: b₃ :: _) => do
    let len := signedLength b₀ b₁ b₂ b₃
    if len < 0 ∨ 4 + len > pt.length then
      .error "bad header length"
    else
      let headerStr := decode ((pt.drop 4).take len.toNat)
      let header ← parse headerStr
      pure ⟨header, pt.drop (4 + len.toNat)⟩
  | _ => .error "plaintext too small"

def parseInnerBlob (blob rawKey : Bytes) : Except String Parsed :=
  if blob.length < 12 + 16 then .error "blob too small"
  else do
    let pt ← decrypt rawKey (blob.take 12) (blob.drop 12)
    parsePlaintext parse pt

end Parse

/-! ## What is read from a plaintext -/

section Plaintext

variable {parse : String → Except String Json}

/-- Behind the four bytes of the length stand the header's bytes, and behind them the file's. -/
structure Splits (parse : String → Except String Json) (pt : Bytes) (r : Parsed)
    (headerBytes : Bytes) : Prop where
  parsed : parse (decode headerBytes) = .ok r.header
  split : pt = pt.take 4 ++ headerBytes ++ r.fileBytes
  total : 4 + headerBytes.length + r.fileBytes.length = pt.length

theorem parsePlaintext_splits {pt : Bytes} {r : Parsed} (h : parsePlaintext parse pt = .ok r) :
    ∃ headerBytes, Splits parse pt r headerBytes := by
  unfold parsePlaintext at h
  split at h
  · next b₀ b₁ b₂ b₃ rest =>
    simp only at h
    generalize signedLength b₀ b₁ b₂ b₃ = len at h
    split_ifs at h with hlen
    cases hheader : parse (decode (((b₀ :: b₁ :: b₂ :: b₃ :: rest).drop 4).take len.toNat)) with
    | error e => rw [hheader] at h; cases h
    | ok header =>
      rw [hheader] at h
      cases h
      refine ⟨rest.take len.toNat, hheader, ?_, ?_⟩
      · simp [Nat.add_comm 4]
      · simp at hlen ⊢
        omega
  · cases h

/-- The prefix that was written, as it is read. -/
theorem parsePlaintext_u32be (n : Nat) (rest : Bytes) :
    parsePlaintext parse (u32be n ++ rest) =
      let len := (BitVec.ofNat 32 n).toInt
      if len < 0 ∨ len > rest.length then .error "bad header length"
      else (parse (decode (rest.take len.toNat))).map (⟨·, rest.drop len.toNat⟩) := by
  obtain ⟨b₀, b₁, b₂, b₃, hbytes⟩ : ∃ b₀ b₁ b₂ b₃, u32be n = [b₀, b₁, b₂, b₃] :=
    ⟨_, _, _, _, rfl⟩
  have hlen := signedLength_u32be hbytes
  rw [hbytes]
  simp only [List.cons_append, List.nil_append, parsePlaintext, hlen]
  generalize (BitVec.ofNat 32 n).toInt = len
  have hbound : (len < 0 ∨ 4 + len > (b₀ :: b₁ :: b₂ :: b₃ :: rest).length) ↔
      (len < 0 ∨ len > rest.length) := by
    simp only [List.length_cons]
    omega
  by_cases hbad : len < 0 ∨ len > rest.length
  · rw [if_pos (hbound.mpr hbad), if_pos hbad]
  · rw [if_neg (fun h => hbad (hbound.mp h)), if_neg hbad, Nat.add_comm]
    simp only [List.drop_succ_cons, List.drop_zero]
    cases parse (decode (rest.take len.toNat)) <;> rfl

end Plaintext

/-! ## Sealed and opened -/

section RoundTrip

variable {lower : String → String} {encrypt : Bytes → Bytes → Bytes → Bytes}
variable {decrypt : Bytes → Bytes → Bytes → Except String Bytes}
variable {parse : String → Except String Json} {rawKey nonce headerBytes fileBytes : Bytes}

/-- Opening with the key and the nonce gives back what was sealed; the nonce has 12 bytes, and
the tag 16. -/
structure Inverts (encrypt : Bytes → Bytes → Bytes → Bytes)
    (decrypt : Bytes → Bytes → Bytes → Except String Bytes) (rawKey nonce pt : Bytes) : Prop where
  length : nonce.length = 12
  tag : (encrypt rawKey nonce pt).length = pt.length + 16
  decrypts : decrypt rawKey nonce (encrypt rawKey nonce pt) = .ok pt

theorem parseInnerBlob_sealed {pt : Bytes} (h : Inverts encrypt decrypt rawKey nonce pt) :
    parseInnerBlob decrypt parse (nonce ++ encrypt rawKey nonce pt) rawKey =
      parsePlaintext parse pt := by
  have hlength : ¬ (nonce ++ encrypt rawKey nonce pt).length < 12 + 16 := by
    rw [List.length_append, h.length, h.tag]
    omega
  rw [parseInnerBlob, if_neg hlength, List.take_append_of_le_length h.length.ge,
    List.take_of_length_le h.length.le, List.drop_append_of_le_length h.length.ge,
    List.drop_of_length_le h.length.le, List.nil_append, h.decrypts]
  rfl

theorem parsePlaintext_short (h : headerBytes.length < 2 ^ 31) :
    parsePlaintext parse (u32be headerBytes.length ++ (headerBytes ++ fileBytes)) =
      (parse (decode headerBytes)).map (⟨·, fileBytes⟩) := by
  have hbound : ¬ ((headerBytes.length : Int) < 0 ∨
      (headerBytes.length : Int) > (headerBytes ++ fileBytes).length) := by
    rw [List.length_append]
    omega
  rw [parsePlaintext_u32be]
  simp only [signed_short h, if_neg hbound, Int.toNat_natCast, List.take_left, List.drop_left]

/-- The file comes out longer than it went in, if anything does. -/
theorem parsePlaintext_long (h : 2 ^ 31 ≤ headerBytes.length) {r : Parsed}
    (hr : parsePlaintext parse (u32be headerBytes.length ++ (headerBytes ++ fileBytes)) = .ok r) :
    r.fileBytes ≠ fileBytes := by
  have hshort := signed_long h
  rw [parsePlaintext_u32be] at hr
  generalize (BitVec.ofNat 32 headerBytes.length).toInt = len at hr hshort
  simp only at hr
  split_ifs at hr with hlen
  cases hheader : parse (decode ((headerBytes ++ fileBytes).take len.toNat)) with
  | error e => rw [hheader] at hr; cases hr
  | ok header =>
    rw [hheader] at hr
    cases hr
    intro heq
    have hlength := congrArg List.length heq
    simp only [List.length_drop, List.length_append] at hlength
    omega

theorem decode_header (lower : String → String) (file : File) (sender : String) :
    decode (encode (header lower file sender).stringify) =
      (header lower file sender).stringify := by
  apply Lib.Utf8.decode_encode
  rw [header, Json.stringify_head]
  decide

/-- The header and the bytes that were sealed. -/
def sealed (lower : String → String) (file : File) (sender : String) : Parsed :=
  ⟨header lower file sender, file.bytes⟩

section Seal

variable {file : File} {sender : String}
variable (hgcm : Inverts encrypt decrypt rawKey nonce (plaintext lower file sender))
include hgcm

theorem parse_built : parseInnerBlob decrypt parse
    (buildInnerBlob lower encrypt file sender rawKey nonce).blob rawKey =
    parsePlaintext parse (plaintext lower file sender) :=
  parseInnerBlob_sealed hgcm

theorem opened_of_short (hshort : headerSize lower file sender < 2 ^ 31)
    (hjson : parse (header lower file sender).stringify = .ok (header lower file sender)) :
    parseInnerBlob decrypt parse
      (buildInnerBlob lower encrypt file sender rawKey nonce).blob rawKey =
      .ok (sealed lower file sender) := by
  rw [← header_length] at hshort
  rw [parse_built hgcm, plaintext, List.append_assoc, parsePlaintext_short hshort, decode_header,
    hjson]
  rfl

theorem unopened_of_long (hlong : 2 ^ 31 ≤ headerSize lower file sender) :
    parseInnerBlob decrypt parse
      (buildInnerBlob lower encrypt file sender rawKey nonce).blob rawKey ≠
      .ok (sealed lower file sender) := by
  rw [← header_length] at hlong
  rw [parse_built hgcm, plaintext, List.append_assoc]
  intro hok
  exact parsePlaintext_long hlong hok rfl

end Seal

/-- The blob opens to what was sealed, and whatever is decrypted is split without a rest. -/
theorem inner_blob_opens {file : File} {sender : String}
    (hgcm : Inverts encrypt decrypt rawKey nonce (plaintext lower file sender))
    (hjson : parse (header lower file sender).stringify = .ok (header lower file sender)) :
    (parseInnerBlob decrypt parse (buildInnerBlob lower encrypt file sender rawKey nonce).blob
        (buildInnerBlob lower encrypt file sender rawKey nonce).rawKey =
        .ok (sealed lower file sender) ∧
      ∀ pt r, parsePlaintext parse pt = .ok r → ∃ headerBytes, Splits parse pt r headerBytes) ↔
    headerSize lower file sender < 2 ^ 31 := by
  constructor
  · rintro ⟨hok, -⟩
    by_contra hlong
    exact unopened_of_long hgcm (Nat.le_of_not_lt hlong) hok
  · intro hshort
    exact ⟨opened_of_short hgcm hshort hjson, fun pt r => parsePlaintext_splits⟩

/-- A seal that hides nothing, with a tag of zeros. -/
def addTag (_ _ pt : Bytes) : Bytes := pt ++ List.replicate 16 0

def untag (_ _ ct : Bytes) : Except String Bytes :=
  if ct.drop (ct.length - 16) = List.replicate 16 0 then .ok (ct.take (ct.length - 16))
  else .error "The operation failed"

theorem addTag_inverts {rawKey nonce pt : Bytes} (h : nonce.length = 12) :
    Inverts addTag untag rawKey nonce pt := by
  refine ⟨h, by simp [addTag], ?_⟩
  simp [addTag, untag]

def note : File := ⟨"été.txt", "text/plain", [0xe2, 0x82, 0x00]⟩

theorem inner_blob_opens_note :
    parseInnerBlob untag (Json.parseOnly (header String.toLower note "ælfred"))
      (buildInnerBlob String.toLower addTag note "ælfred" (List.replicate 32 7)
        (List.replicate 12 1)).blob (List.replicate 32 7) =
      .ok (sealed String.toLower note "ælfred") :=
  ((inner_blob_opens (addTag_inverts (by simp)) (Json.parseOnly_stringify _)).mpr (by decide +kernel)).1

/-- A name of `n` letters. -/
def longNamed (n : Nat) : File := ⟨String.ofList (List.replicate n 'a'), "", []⟩

theorem le_headerSize (lower : String → String) (n : Nat) (sender : String) :
    n ≤ headerSize lower (longNamed n) sender := by
  have hname := Json.length_le_quote (longNamed n).name
  have hsize := Lib.Utf8.length_le_encode (String.ofList (Json.quote (longNamed n).name))
  rw [String.toList_ofList] at hsize
  simp only [longNamed, String.toList_ofList, List.length_replicate] at hname hsize
  simp only [headerSize, size, longNamed]
  omega

theorem inner_blob_long_name :
    Inverts addTag untag (List.replicate 32 7) (List.replicate 12 1)
      (plaintext String.toLower (longNamed (2 ^ 31)) "alice") ∧
    Json.parseOnly (header String.toLower (longNamed (2 ^ 31)) "alice")
      (header String.toLower (longNamed (2 ^ 31)) "alice").stringify =
      .ok (header String.toLower (longNamed (2 ^ 31)) "alice") ∧
    parseInnerBlob untag (Json.parseOnly (header String.toLower (longNamed (2 ^ 31)) "alice"))
      (buildInnerBlob String.toLower addTag (longNamed (2 ^ 31)) "alice" (List.replicate 32 7)
        (List.replicate 12 1)).blob (List.replicate 32 7) ≠
      .ok (sealed String.toLower (longNamed (2 ^ 31)) "alice") :=
  ⟨addTag_inverts (by simp), Json.parseOnly_stringify _,
    unopened_of_long (addTag_inverts (by simp)) (le_headerSize _ _ _)⟩

end RoundTrip

end IpfsGate.Client.InnerBlob
