/-!
# UTF-8

A text as bytes, and the decoder that never fails: it reads one byte at a time, and where a byte
cannot continue the character that is under way it writes a replacement character and starts over
with that byte. What was encoded is decoded to the same text, unless it starts with the mark of
the byte order, which the decoder takes away.
-/
namespace IpfsGate.Lib.Utf8

def encode (text : String) : List UInt8 := text.toList.flatMap String.utf8EncodeChar

/-- A character under way: its bits so far, how many bytes it still needs, and the bounds of the
next one. -/
structure Pending where
  codePoint : Nat
  needed : Nat
  lower : Nat
  upper : Nat
deriving DecidableEq

/-- The first byte of a character. -/
def start (b : Nat) : List Char × Option Pending :=
  if b ≤ 0x7F then ([Char.ofNat b], none)
  else if 0xC2 ≤ b ∧ b ≤ 0xDF then ([], some ⟨b - 0xC0, 1, 0x80, 0xBF⟩)
  else if 0xE0 ≤ b ∧ b ≤ 0xEF then
    ([], some ⟨b - 0xE0, 2, if b = 0xE0 then 0xA0 else 0x80, if b = 0xED then 0x9F else 0xBF⟩)
  else if 0xF0 ≤ b ∧ b ≤ 0xF4 then
    ([], some ⟨b - 0xF0, 3, if b = 0xF0 then 0x90 else 0x80, if b = 0xF4 then 0x8F else 0xBF⟩)
  else (['\uFFFD'], none)

/-- A byte after the first, if it fits. -/
def follow (p : Pending) (b : Nat) : List Char × Option Pending :=
  if p.lower ≤ b ∧ b ≤ p.upper then
    let codePoint := p.codePoint * 0x40 + b % 0x40
    if p.needed = 1 then ([Char.ofNat codePoint], none)
    else ([], some ⟨codePoint, p.needed - 1, 0x80, 0xBF⟩)
  else ('\uFFFD' :: (start b).1, (start b).2)

def step : Option Pending → Nat → List Char × Option Pending
  | none => start
  | some p => follow p

def decodeFrom : Option Pending → List UInt8 → List Char
  | none, [] => []
  | some _, [] => ['\uFFFD']
  | s, b :: rest => (step s b.toNat).1 ++ decodeFrom (step s b.toNat).2 rest

def stripMark : List Char → List Char
  | '\uFEFF' :: text => text
  | text => text

/-- `new TextDecoder().decode`. -/
def decode (bytes : List UInt8) : String := String.ofList (stripMark (decodeFrom none bytes))

/-! ## Round trip -/

section Steps

variable {b lower upper codePoint needed : Nat} {rest : List UInt8}

theorem toNat_byte (h : b < 256) : (UInt8.ofNat b).toNat = b := by
  simp [Nat.mod_eq_of_lt h]

theorem decode_one (h : b ≤ 0x7F) :
    decodeFrom none (UInt8.ofNat b :: rest) = Char.ofNat b :: decodeFrom none rest := by
  simp only [decodeFrom, step, start, toNat_byte (show b < 256 by omega), if_pos h,
    List.cons_append, List.nil_append]

/-- The first byte of a character that has more. -/
theorem decode_start {p : Pending} (hb : b < 256) (h : start b = ([], some p)) :
    decodeFrom none (UInt8.ofNat b :: rest) = decodeFrom (some p) rest := by
  simp only [decodeFrom, step, toNat_byte hb, h, List.nil_append]

theorem decode_more (hb : b < 256) (hlow : lower ≤ b) (hup : b ≤ upper) (hneeded : needed ≠ 1) :
    decodeFrom (some ⟨codePoint, needed, lower, upper⟩) (UInt8.ofNat b :: rest) =
      decodeFrom (some ⟨codePoint * 0x40 + b % 0x40, needed - 1, 0x80, 0xBF⟩) rest := by
  simp only [decodeFrom, step, follow, toNat_byte hb, hlow, hup, and_self, if_true, hneeded,
    if_false, List.nil_append]

theorem decode_last (hb : b < 256) (hlow : lower ≤ b) (hup : b ≤ upper) :
    decodeFrom (some ⟨codePoint, 1, lower, upper⟩) (UInt8.ofNat b :: rest) =
      Char.ofNat (codePoint * 0x40 + b % 0x40) :: decodeFrom none rest := by
  simp only [decodeFrom, step, follow, toNat_byte hb, hlow, hup, and_self, if_true,
    List.cons_append, List.nil_append]

end Steps

theorem start_two : ∀ n < 32, 2 ≤ n →
    start (n % 32 + 192) = ([], some ⟨n, 1, 0x80, 0xBF⟩) := by
  decide

/-- The second byte is bounded where the bits before it say little, and before the surrogates. -/
theorem start_three : ∀ n < 16, start (n % 16 + 224) =
    ([], some ⟨n, 2, if n = 0 then 0xA0 else 0x80, if n = 13 then 0x9F else 0xBF⟩) := by
  decide

theorem start_four : ∀ n < 5, start (n % 8 + 240) =
    ([], some ⟨n, 3, if n = 0 then 0x90 else 0x80, if n = 4 then 0x8F else 0xBF⟩) := by
  decide

theorem ofNat_eq {c : Char} {n : Nat} (h : n = c.toNat) : Char.ofNat n = c := by
  rw [h, Char.ofNat_toNat]

/-- The bounds of the second byte are those of the characters that are encoded in two, three or
four bytes, without the surrogates. -/
theorem decode_char (c : Char) (rest : List UInt8) :
    decodeFrom none (String.utf8EncodeChar c ++ rest) = c :: decodeFrom none rest := by
  have hvalid : c.toNat < 0xD800 ∨ (0xDFFF < c.toNat ∧ c.toNat < 0x110000) := c.valid
  have hval : c.val.toNat = c.toNat := rfl
  simp only [String.utf8EncodeChar, hval]
  split
  · rw [List.cons_append, List.nil_append, decode_one (by omega), ofNat_eq rfl]
  · split
    · have hfirst := start_two (c.toNat / 64) (by omega) (by omega)
      rw [List.cons_append, List.cons_append, List.nil_append, decode_start (by omega) hfirst,
        decode_last (by omega) (by omega) (by omega), ofNat_eq (c := c) (by omega)]
    · split
      · have hfirst := start_three (c.toNat / 4096) (by omega)
        simp only [List.cons_append, List.nil_append]
        rw [decode_start (by omega) hfirst,
          decode_more (by omega) (by split <;> omega) (by split <;> omega) (by omega),
          decode_last (by omega) (by omega) (by omega), ofNat_eq (c := c) (by omega)]
      · have hfirst := start_four (c.toNat / 262144) (by omega)
        simp only [List.cons_append, List.nil_append]
        rw [decode_start (by omega) hfirst,
          decode_more (by omega) (by split <;> omega) (by split <;> omega) (by omega),
          decode_more (by omega) (by omega) (by omega) (by omega),
          decode_last (by omega) (by omega) (by omega), ofNat_eq (c := c) (by omega)]

theorem decode_chars (text : List Char) :
    decodeFrom none (text.flatMap String.utf8EncodeChar) = text := by
  induction text with
  | nil => rfl
  | cons c text ih => rw [List.flatMap_cons, decode_char, ih]

theorem decode_encode {text : String} (h : text.toList.head? ≠ some '\uFEFF') :
    decode (encode text) = text := by
  have hstrip : stripMark text.toList = text.toList := by
    unfold stripMark
    split
    · next heq => simp [heq] at h
    · rfl
  rw [decode, encode, decode_chars, hstrip, String.ofList_toList]

/-- No character takes less than a byte. -/
theorem length_le_encode (text : String) : text.toList.length ≤ (encode text).length := by
  rw [encode]
  generalize text.toList = chars
  induction chars with
  | nil => simp
  | cons c chars ih =>
    have hchar : 0 < (String.utf8EncodeChar c).length :=
      List.length_pos_iff.mpr String.utf8EncodeChar_ne_nil
    simp only [List.flatMap_cons, List.length_cons, List.length_append]
    omega

end IpfsGate.Lib.Utf8
