import IpfsGate.Lib.Binary64
import IpfsGate.Range

/-!
# Values as numbers and as texts

What `Number` makes of a request field, and what a template literal makes of it. A text stands
for a number only if it is a numeral, so nothing that is read as a number contains a colon.
-/
namespace IpfsGate.Numerals

open Lib (Number nearest nearestInt)
open Range (isDigit isSpace trim number)

/-! ## Numbers as texts -/

def decimal (n : Nat) : List Char := Nat.toDigits 10 n

/-- Take the trailing zeros off a numeral. -/
def stripZeros : Nat → Nat → Int → Nat × Int
  | 0, m, e => (m, e)
  | fuel + 1, m, e => if m ≠ 0 ∧ m % 10 = 0 then stripZeros fuel (m / 10) (e + 1) else (m, e)

/-- The shortest numeral, a whole number times a power of ten, whose nearest double is the given
one. Seventeen digits always do. -/
def shortest (q : ℚ) : Nat × Int :=
  let n := Int.log 10 q + 1
  let candidate (k : Nat) : Nat × Int :=
    ((nearestInt (q / (10 : ℚ) ^ (n - k))).toNat, n - k)
  let k := ((List.range' 1 16).find? (fun k =>
    nearest ((candidate k).1 * (10 : ℚ) ^ (candidate k).2) = .fin q)).getD 17
  stripZeros 17 (candidate k).1 (candidate k).2

/-- Where the point stands among the digits, and when an exponent is written. -/
def layout (digits : List Char) (n : Int) : List Char :=
  let k : Int := digits.length
  if k ≤ n ∧ n ≤ 21 then digits ++ List.replicate (n - k).toNat '0'
  else if 0 < n ∧ n ≤ 21 then digits.take n.toNat ++ '.' :: digits.drop n.toNat
  else if -6 < n ∧ n ≤ 0 then '0' :: '.' :: (List.replicate (-n).toNat '0' ++ digits)
  else
    let mantissa := if k = 1 then digits else digits.take 1 ++ '.' :: digits.drop 1
    mantissa ++ 'e' :: (if 0 < n then '+' else '-') :: decimal (n - 1).natAbs

def positiveText (q : ℚ) : List Char :=
  let (m, e) := shortest q
  layout (decimal m) ((decimal m).length + e)

/-- `Number::toString`. -/
def numberText : Number → List Char
  | .fin q =>
    if q = 0 then ['0'] else if 0 < q then positiveText q else '-' :: positiveText (-q)
  | .posInf => "Infinity".toList
  | .negInf => "-Infinity".toList
  | .nan => "NaN".toList

/-! ## Texts as numbers -/

def digitsValue (text : List Char) : Option Nat :=
  if text ≠ [] ∧ text.all isDigit then some (number text) else none

/-- What follows the letter of an exponent. -/
def signedDigits : List Char → Option Int
  | '+' :: text => (digitsValue text).map Int.ofNat
  | '-' :: text => (digitsValue text).map (fun n : Nat => -(n : Int))
  | text => (digitsValue text).map Int.ofNat

def exponentValue : List Char → Option Int
  | [] => some 0
  | c :: rest => if c = 'e' ∨ c = 'E' then signedDigits rest else none

/-- The digits after the point, if there is one, and what follows them. -/
def fraction : List Char → List Char × List Char
  | '.' :: rest => (rest.takeWhile isDigit, rest.dropWhile isDigit)
  | rest => ([], rest)

/-- A decimal numeral without a sign. -/
def unsignedValue (text : List Char) : Number :=
  if text = "Infinity".toList then .posInf
  else
    let whole := text.takeWhile isDigit
    let (part, rest) := fraction (text.dropWhile isDigit)
    if whole = [] ∧ part = [] then .nan
    else
      match exponentValue rest with
      | none => .nan
      | some e => nearest (number (whole ++ part) * (10 : ℚ) ^ (e - part.length))

def negated : Number → Number
  | .fin q => .fin (-q)
  | .posInf => .negInf
  | .negInf => .posInf
  | .nan => .nan

def signedValue : List Char → Number
  | '+' :: text => unsignedValue text
  | '-' :: text => negated (unsignedValue text)
  | text => unsignedValue text

/-- The value of a digit of a base up to sixteen, and sixteen for any other character. -/
def digitOf (c : Char) : Nat :=
  if isDigit c then c.toNat - '0'.toNat
  else if 'a' ≤ c ∧ c ≤ 'f' then c.toNat - 'a'.toNat + 10
  else if 'A' ≤ c ∧ c ≤ 'F' then c.toNat - 'A'.toNat + 10
  else 16

def basedValue (base : Nat) (text : List Char) : Number :=
  if text ≠ [] ∧ text.all (fun c => digitOf c < base) then
    nearest (text.foldl (fun n c => base * n + digitOf c) 0 : Nat)
  else .nan

/-- The numeral that a text without blanks around it is. -/
def numeralValue : List Char → Number
  | [] => .fin 0
  | '0' :: c :: text =>
    if c = 'x' ∨ c = 'X' then basedValue 16 text
    else if c = 'o' ∨ c = 'O' then basedValue 8 text
    else if c = 'b' ∨ c = 'B' then basedValue 2 text
    else signedValue ('0' :: c :: text)
  | text => signedValue text

/-- `Number` of a string. -/
def textValue (text : List Char) : Number := numeralValue (trim text)

/-! ## Values -/

/-- A field of a parsed request. An object has no text or number of its own. -/
inductive Value where
  | undefined
  | null
  | bool (b : Bool)
  | number (x : Number)
  | string (s : String)
  | array (items : List Value)
  | object

mutual

/-- What `String` makes of a value; `join` leaves out what stands for nothing. -/
def Value.written (joined : Bool) : Value → List Char
  | .undefined => if joined then [] else "undefined".toList
  | .null => if joined then [] else "null".toList
  | .bool b => if b then "true".toList else "false".toList
  | .number x => numberText x
  | .string s => s.toList
  | .array items => joinedText items
  | .object => "[object Object]".toList

def joinedText : List Value → List Char
  | [] => []
  | v :: rest => v.written true ++ restText rest

def restText : List Value → List Char
  | [] => []
  | v :: rest => ',' :: (v.written true ++ restText rest)

end

/-- What a template literal writes. -/
def Value.text (v : Value) : List Char := v.written false

/-- `Number` of a value. -/
def Value.toNumber : Value → Number
  | .undefined => .nan
  | .null => .fin 0
  | .bool b => .fin (if b then 1 else 0)
  | .number x => x
  | .string s => textValue s.toList
  | .array items => textValue (joinedText items)
  | .object => .nan

/-! ## Numerals have no colon -/

/-- The text can be told from what follows a colon. -/
def NoColon (text : List Char) : Prop := ':' ∉ text

theorem NoColon.append {a b : List Char} (ha : NoColon a) (hb : NoColon b) : NoColon (a ++ b) := by
  intro h
  exact (List.mem_append.mp h).elim ha hb

theorem NoColon.cons {c : Char} {text : List Char} (hc : c ≠ ':') (h : NoColon text) :
    NoColon (c :: text) := by
  intro hmem
  exact (List.mem_cons.mp hmem).elim (fun he => hc he.symm) h

theorem noColon_of_all {p : Char → Bool} {text : List Char} (hp : p ':' = false)
    (h : ∀ c ∈ text, p c = true) : NoColon text := by
  intro hmem
  rw [h _ hmem] at hp
  cases hp

theorem noColon_decimal (n : Nat) : NoColon (decimal n) :=
  noColon_of_all (p := Char.isDigit) (by decide)
    (fun _ hc => Nat.isDigit_of_mem_toDigits (by decide) (by decide) hc)

theorem noColon_zeros (n : Nat) : NoColon (List.replicate n '0') := by
  intro h
  exact absurd (List.eq_of_mem_replicate h) (by decide)

theorem noColon_layout {digits : List Char} (h : NoColon digits) (n : Int) :
    NoColon (layout digits n) := by
  have htake : ∀ k, NoColon (digits.take k) := fun k hc => h (List.mem_of_mem_take hc)
  have hdrop : ∀ k, NoColon (digits.drop k) := fun k hc => h (List.mem_of_mem_drop hc)
  unfold layout
  dsimp only
  split
  · exact h.append (noColon_zeros _)
  split
  · exact (htake _).append ((hdrop _).cons (by decide))
  split
  · exact (((noColon_zeros _).append h).cons (by decide)).cons (by decide)
  · have hexp : NoColon ('e' :: (if 0 < n then '+' else '-') :: decimal (n - 1).natAbs) := by
      apply NoColon.cons (by decide)
      split
      · exact (noColon_decimal _).cons (by decide)
      · exact (noColon_decimal _).cons (by decide)
    split
    · exact h.append hexp
    · exact ((htake _).append ((hdrop _).cons (by decide))).append hexp

theorem noColon_numberText (x : Number) : NoColon (numberText x) := by
  have hpos : ∀ q, NoColon (positiveText q) := fun _ => noColon_layout (noColon_decimal _) _
  cases x with
  | fin q =>
    show NoColon (if q = 0 then _ else if 0 < q then _ else _)
    split
    · unfold NoColon
      decide
    split
    · exact hpos q
    · exact (hpos _).cons (by decide)
  | posInf => show ':' ∉ _; decide
  | negInf => show ':' ∉ _; decide
  | nan => show ':' ∉ _; decide

theorem noColon_digits {text : List Char} {n : Nat} (h : digitsValue text = some n) :
    NoColon text := by
  unfold digitsValue at h
  split at h
  · rename_i hall
    exact noColon_of_all (by decide) (List.all_eq_true.mp hall.2)
  · cases h

theorem noColon_signedDigits {text : List Char} {e : Int} (h : signedDigits text = some e) :
    NoColon text := by
  unfold signedDigits at h
  split at h
  · obtain ⟨n, hn, _⟩ := Option.map_eq_some_iff.mp h
    exact (noColon_digits hn).cons (by decide)
  · obtain ⟨n, hn, _⟩ := Option.map_eq_some_iff.mp h
    exact (noColon_digits hn).cons (by decide)
  · obtain ⟨n, hn, _⟩ := Option.map_eq_some_iff.mp h
    exact noColon_digits hn

theorem noColon_exponent {text : List Char} {e : Int} (h : exponentValue text = some e) :
    NoColon text := by
  cases text with
  | nil => exact List.not_mem_nil
  | cons c rest =>
    rw [exponentValue] at h
    by_cases hc : c = 'e' ∨ c = 'E'
    · rw [if_pos hc] at h
      apply (noColon_signedDigits h).cons
      rintro rfl
      exact absurd hc (by decide)
    · rw [if_neg hc] at h
      cases h

/-- What the digits after the point and the exponent leave of a text is the text. -/
theorem noColon_fraction {text : List Char} (h : NoColon (fraction text).2) : NoColon text := by
  unfold fraction at h
  split at h
  · rename_i rest
    apply NoColon.cons (by decide)
    rw [← List.takeWhile_append_dropWhile (p := isDigit) (l := rest)]
    exact NoColon.append (noColon_of_all (by decide) (fun _ hc => List.mem_takeWhile_imp hc)) h
  · exact h

theorem noColon_unsigned {text : List Char} (h : unsignedValue text ≠ .nan) : NoColon text := by
  unfold unsignedValue at h
  split at h
  · rename_i hinf
    rw [hinf]
    show ':' ∉ _
    decide
  · dsimp only at h
    split at h
    · exact absurd rfl h
    · split at h
      · exact absurd rfl h
      · rename_i e he
        rw [← List.takeWhile_append_dropWhile (p := isDigit) (l := text)]
        exact NoColon.append (noColon_of_all (by decide) (fun _ hc => List.mem_takeWhile_imp hc))
          (noColon_fraction (noColon_exponent he))

theorem noColon_signed {text : List Char} (h : signedValue text ≠ .nan) : NoColon text := by
  unfold signedValue at h
  split at h
  · exact (noColon_unsigned h).cons (by decide)
  · rename_i rest
    apply NoColon.cons (by decide)
    apply noColon_unsigned
    intro hnan
    rw [hnan] at h
    exact h rfl
  · exact noColon_unsigned h

theorem noColon_based {base : Nat} (hbase : base ≤ 16) {text : List Char}
    (h : basedValue base text ≠ .nan) : NoColon text := by
  unfold basedValue at h
  split at h
  · rename_i hall
    apply noColon_of_all ?_ (List.all_eq_true.mp hall.2)
    rw [show digitOf ':' = 16 by rfl, decide_eq_false_iff_not]
    omega
  · exact absurd rfl h

/-- The two letters of a base are no colons. -/
theorem noColon_prefixed {base : Nat} (hbase : base ≤ 16) {c lower upper : Char}
    (hc : c = lower ∨ c = upper) (hlower : lower ≠ ':') (hupper : upper ≠ ':') {text : List Char}
    (h : basedValue base text ≠ .nan) : NoColon ('0' :: c :: text) := by
  apply NoColon.cons (by decide)
  rcases hc with rfl | rfl
  · exact (noColon_based hbase h).cons hlower
  · exact (noColon_based hbase h).cons hupper

theorem noColon_numeral {text : List Char} (h : numeralValue text ≠ .nan) : NoColon text := by
  unfold numeralValue at h
  split at h
  · exact List.not_mem_nil
  · rename_i c rest
    split at h
    · rename_i hc
      exact noColon_prefixed (by decide) hc (by decide) (by decide) h
    split at h
    · rename_i hc
      exact noColon_prefixed (by decide) hc (by decide) (by decide) h
    split at h
    · rename_i hc
      exact noColon_prefixed (by decide) hc (by decide) (by decide) h
    · exact noColon_signed h
  · exact noColon_signed h

theorem noColon_textValue {text : List Char} (h : textValue text ≠ .nan) : NoColon text := by
  obtain ⟨lead, trail, hjoin, hlead, htrail⟩ := Lib.exists_trimWhile isSpace text
  rw [hjoin]
  have hblank : ∀ blanks : List Char, (∀ c ∈ blanks, isSpace c = true) → NoColon blanks :=
    fun _ => noColon_of_all (by decide)
  exact ((hblank lead hlead).append (noColon_numeral h)).append (hblank trail htrail)

/-- What is read as a number is written without a colon. -/
theorem Value.noColon_text {v : Value} (h : v.toNumber ≠ .nan) : NoColon v.text := by
  have hnull : NoColon "null".toList := by unfold NoColon; decide
  have htrue : NoColon "true".toList := by unfold NoColon; decide
  have hfalse : NoColon "false".toList := by unfold NoColon; decide
  cases v with
  | undefined => exact (h rfl).elim
  | null => exact hnull
  | bool b =>
    cases b
    · exact hfalse
    · exact htrue
  | number x => exact noColon_numberText x
  | string s => exact noColon_textValue h
  | array items => exact noColon_textValue h
  | object => exact (h rfl).elim

end IpfsGate.Numerals
