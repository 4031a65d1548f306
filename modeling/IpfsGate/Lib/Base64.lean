import IpfsGate.Lib.Text

/-!
# Base64

Three bytes are four digits of six bits. What is left over takes two or three digits, and the
numeral is padded to a whole number of fours. The reader drops blanks and padding before it reads
the digits.
-/
namespace IpfsGate.Lib.Base64

/-! ## Six bits at a time -/

def sextets : List UInt8 → List Nat
  | a :: b :: c :: rest =>
    a.toNat / 4 :: (a.toNat % 4 * 16 + b.toNat / 16) :: (b.toNat % 16 * 4 + c.toNat / 64) ::
      c.toNat % 64 :: sextets rest
  | [a, b] => [a.toNat / 4, a.toNat % 4 * 16 + b.toNat / 16, b.toNat % 16 * 4]
  | [a] => [a.toNat / 4, a.toNat % 4 * 16]
  | [] => []

/-- The bits that do not fill a byte are dropped. -/
def octets : List Nat → List UInt8
  | a :: b :: c :: d :: rest =>
    UInt8.ofNat (a * 4 + b / 16) :: UInt8.ofNat (b % 16 * 16 + c / 4) ::
      UInt8.ofNat (c % 4 * 64 + d) :: octets rest
  | [a, b, c] => [UInt8.ofNat (a * 4 + b / 16), UInt8.ofNat (b % 16 * 16 + c / 4)]
  | [a, b] => [UInt8.ofNat (a * 4 + b / 16)]
  | _ => []

theorem ofNat_eq {b : UInt8} {n : Nat} (h : n = b.toNat) : UInt8.ofNat n = b := by
  rw [h, UInt8.ofNat_toNat]

theorem octets_sextets (bytes : List UInt8) : octets (sextets bytes) = bytes := by
  induction bytes using sextets.induct with
  | case1 a b c rest ih =>
    have ha := a.toNat_lt
    have hb := b.toNat_lt
    have hc := c.toNat_lt
    rw [sextets, octets, ih, ofNat_eq (b := a) (by omega), ofNat_eq (b := b) (by omega),
      ofNat_eq (b := c) (by omega)]
  | case2 a b =>
    have ha := a.toNat_lt
    have hb := b.toNat_lt
    rw [sextets, octets, ofNat_eq (b := a) (by omega), ofNat_eq (b := b) (by omega)]
  | case3 a =>
    have ha := a.toNat_lt
    rw [sextets, octets, ofNat_eq (b := a) (by omega)]
  | case4 => rfl

theorem sextets_lt (bytes : List UInt8) : ∀ v ∈ sextets bytes, v < 64 := by
  induction bytes using sextets.induct with
  | case1 a b c rest ih =>
    have ha := a.toNat_lt
    have hb := b.toNat_lt
    have hc := c.toNat_lt
    simp only [sextets, List.forall_mem_cons]
    exact ⟨by omega, by omega, by omega, by omega, ih⟩
  | case2 a b =>
    have ha := a.toNat_lt
    have hb := b.toNat_lt
    simp only [sextets, List.forall_mem_cons]
    exact ⟨by omega, by omega, by omega, List.forall_mem_nil _⟩
  | case3 a =>
    have ha := a.toNat_lt
    simp only [sextets, List.forall_mem_cons]
    exact ⟨by omega, by omega, List.forall_mem_nil _⟩
  | case4 => simp [sextets]

/-- One digit is never left over. -/
theorem sextets_length (bytes : List UInt8) : (sextets bytes).length % 4 ≠ 1 := by
  induction bytes using sextets.induct with
  | case1 a b c rest ih =>
    simp only [sextets, List.length_cons]
    omega
  | case2 a b => simp [sextets]
  | case3 a => simp [sextets]
  | case4 => simp [sextets]

theorem sextets_ne_nil {bytes : List UInt8} (h : bytes ≠ []) : sextets bytes ≠ [] := by
  unfold sextets
  split <;> simp_all

/-! ## Digits -/

def digit (v : Nat) : Char :=
  if v < 26 then Char.ofNat ('A'.toNat + v)
  else if v < 52 then Char.ofNat ('a'.toNat + (v - 26))
  else if v < 62 then Char.ofNat ('0'.toNat + (v - 52))
  else if v = 62 then '+' else '/'

def value (c : Char) : Option Nat :=
  if 'A' ≤ c ∧ c ≤ 'Z' then some (c.toNat - 'A'.toNat)
  else if 'a' ≤ c ∧ c ≤ 'z' then some (c.toNat - 'a'.toNat + 26)
  else if '0' ≤ c ∧ c ≤ '9' then some (c.toNat - '0'.toNat + 52)
  else if c = '+' then some 62
  else if c = '/' then some 63
  else none

theorem value_digit : ∀ v < 64, value (digit v) = some v := by decide

/-- Blanks are no digits, and neither is the padding. -/
def isBlank (c : Char) : Bool := c = '\t' || c = '\n' || c = '\u000c' || c = '\r' || c = ' '

theorem digit_plain : ∀ v < 64, isBlank (digit v) = false ∧ digit v ≠ '=' := by decide

def pad (text : List Char) : List Char :=
  text ++ List.replicate ((4 - text.length % 4) % 4) '='

/-- Of a text of whole fours, one or two `=` at its end are dropped. -/
def unpad (text : List Char) : List Char :=
  if text.length % 4 ≠ 0 then text
  else if ['=', '='] <:+ text then text.take (text.length - 2)
  else if ['='] <:+ text then text.take (text.length - 1)
  else text

/-- `btoa`, of the bytes that are the characters of its text. -/
def btoa (bytes : List UInt8) : List Char := pad ((sextets bytes).map digit)

/-- `atob`, or its error. -/
def atob (text : List Char) : Option (List UInt8) :=
  let digits := unpad (text.filter (fun c => !isBlank c))
  if digits.length % 4 = 1 then none else (digits.mapM value).map octets

theorem mapM_value {values : List Nat} (h : ∀ v ∈ values, v < 64) :
    (values.map digit).mapM value = some values := by
  induction values with
  | nil => rfl
  | cons v values ih =>
    rw [List.forall_mem_cons] at h
    simp [List.mapM_cons, value_digit v h.1, ih h.2]

/-- Without padding at its end a text is not shortened. -/
theorem unpad_pad {text : List Char} (h : '=' ∉ text) (hlength : text.length % 4 ≠ 1) :
    unpad (pad text) = text := by
  have hmod : text.length % 4 = 0 ∨ text.length % 4 = 2 ∨ text.length % 4 = 3 := by omega
  have hlast : ∀ trail, '=' ∈ trail → ¬ trail <:+ text :=
    fun trail hmem hsuffix => h (hsuffix.subset hmem)
  rcases hmod with hmod | hmod | hmod
  · have hpad : pad text = text := by simp [pad, hmod]
    rw [hpad, unpad, if_neg (by omega), if_neg (hlast _ (by simp)), if_neg (hlast _ (by simp))]
  · have hpad : pad text = text ++ ['=', '='] := by simp [pad, hmod]
    rw [hpad, unpad, if_neg (by simp; omega), if_pos (List.suffix_append _ _)]
    simp
  · have hpad : pad text = text ++ ['='] := by simp [pad, hmod]
    have hone : ¬ ['=', '='] <:+ text ++ ['='] := by
      rw [show ['=', '='] = ['='] ++ ['='] from rfl, List.suffix_append_inj_of_length_eq rfl]
      exact fun hsuffix => hlast _ (by simp) hsuffix.1
    rw [hpad, unpad, if_neg (by simp; omega), if_neg hone, if_pos (List.suffix_append _ _)]
    simp

theorem digits_plain (bytes : List UInt8) :
    ∀ c ∈ (sextets bytes).map digit, isBlank c = false ∧ c ≠ '=' := by
  intro c hc
  obtain ⟨v, hv, rfl⟩ := List.mem_map.mp hc
  exact digit_plain v (sextets_lt bytes v hv)

theorem atob_btoa (bytes : List UInt8) : atob (btoa bytes) = some bytes := by
  have hplain := digits_plain bytes
  have hfilter : (btoa bytes).filter (fun c => !isBlank c) = btoa bytes := by
    rw [List.filter_eq_self]
    intro c hc
    rw [btoa, pad, List.mem_append, List.mem_replicate] at hc
    rcases hc with hc | ⟨-, rfl⟩
    · simp [(hplain c hc).1]
    · decide
  have hunpad : unpad (btoa bytes) = (sextets bytes).map digit :=
    unpad_pad (fun h => (hplain _ h).2 rfl) (by simpa using sextets_length bytes)
  rw [atob, hfilter, hunpad]
  simp [sextets_length bytes, mapM_value (sextets_lt bytes), octets_sextets]

theorem strip_pad {text : List Char} (h : '=' ∉ text) :
    (pad text).rdropWhile (· = '=') = text := by
  rw [pad, rdropWhile_append_of_pos (by simp), List.rdropWhile_eq_self_iff]
  intro hne hlast
  exact h (of_decide_eq_true hlast ▸ List.getLast_mem hne)

end IpfsGate.Lib.Base64
