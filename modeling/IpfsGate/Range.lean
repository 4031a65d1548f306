import IpfsGate.Lib.Text
import Mathlib.Data.List.Basic

/-!
# Byte ranges

`range.js`: the `bytes` unit, one range, and `none` for whatever else a header says. What a
header asks for is also stated by its grammar alone, and the two agree.
-/
namespace IpfsGate.Range

open Lib

/-- `last` is the inclusive bound that the source calls `end`. -/
inductive ByteRange where
  | unsatisfiable
  | slice (start last : Nat)
deriving DecidableEq, Repr

def isDigit (c : Char) : Bool := '0' ≤ c && c ≤ '9'

def isLineTerminator (c : Char) : Bool :=
  c = '\n' || c = '\r' || c = '\u2028' || c = '\u2029'

/-- What `trim` removes. -/
def isSpace (c : Char) : Bool :=
  isLineTerminator c || c = '\t' || c = '\u000b' || c = '\u000c' || c = ' ' || c = '\u00a0' ||
    c = '\u1680' || ('\u2000' ≤ c && c ≤ '\u200a') || c = '\u202f' || c = '\u205f' ||
    c = '\u3000' || c = '\ufeff'

def trim (text : List Char) : List Char := trimWhile isSpace text

/-- `Number` of a string of digits. -/
def number (digits : List Char) : Nat :=
  digits.foldl (fun n d => 10 * n + (d.toNat - '0'.toNat)) 0

/-- `/^bytes=(.+)$/`, and `trim` on what it captures. -/
def rangeSpec (header : String) : Option (List Char) :=
  match header.toList.dropPrefix? "bytes=".toList with
  | none => none
  | some rest =>
    if rest ≠ [] && rest.all (fun c => !isLineTerminator c) then some (trim rest) else none

/-- `/^(\d*)-(\d*)$/`. -/
def rangeParts (spec : List Char) : Option (List Char × List Char) :=
  match spec.dropWhile isDigit with
  | '-' :: rawEnd =>
    if rawEnd.all isDigit then some (spec.takeWhile isDigit, rawEnd) else none
  | _ => none

def parseRange (header : Option String) (size : Nat) : Option ByteRange :=
  match header.bind rangeSpec with
  | none => none
  | some spec =>
    if spec.contains ',' then none
    else
      match rangeParts spec with
      | none => none
      | some (rawStart, rawEnd) =>
        if rawStart = [] ∧ rawEnd = [] then none
        else if rawStart = [] then
          let suffix := number rawEnd
          if suffix = 0 ∨ size = 0 then some .unsatisfiable
          else some (.slice (size - suffix) (size - 1))
        else
          let start := number rawStart
          if size ≤ start then some .unsatisfiable
          else if rawEnd = [] then some (.slice start (size - 1))
          else if number rawEnd < start then none
          else some (.slice start (min (number rawEnd) (size - 1)))

example : parseRange (some "bytes=-500") 10000 = some (.slice 9500 9999) := by decide

example : parseRange (some "bytes=5-2") 10000 = none := by decide

/-! ## The grammar -/

/-- The three forms of a single range. -/
inductive RangeForm where
  | closed (first last : Nat)
  | openEnded (first : Nat)
  | suffix (count : Nat)

/-- The bytes of a file of that size that a range names. -/
def RangeForm.Names (size : Nat) : RangeForm → Nat → Prop
  | closed first last, i => first ≤ i ∧ i ≤ last ∧ i < size
  | openEnded first, i => first ≤ i ∧ i < size
  | suffix count, i => size ≤ i + count ∧ i < size

/-- The text is a number in decimal, leading zeros allowed. -/
structure Numeral (raw : List Char) (n : Nat) : Prop where
  nonempty : raw ≠ []
  digits : ∀ c ∈ raw, isDigit c = true
  value : number raw = n

/-- The two numerals around the dash; either may be missing. -/
inductive RangeForm.Written : RangeForm → List Char → List Char → Prop
  | closed {a b : List Char} {x y : Nat} : Numeral a x → Numeral b y → Written (.closed x y) a b
  | openEnded {a : List Char} {x : Nat} : Numeral a x → Written (.openEnded x) a []
  | suffix {b : List Char} {y : Nat} : Numeral b y → Written (.suffix y) [] b

/-- Blanks that a header can hold. -/
def Padding (text : List Char) : Prop :=
  ∀ c ∈ text, isSpace c = true ∧ isLineTerminator c = false

/-- The header asks for one range of bytes. -/
def Asks (header : String) (form : RangeForm) : Prop :=
  ∃ lead a b trail, header.toList = "bytes=".toList ++ (lead ++ (a ++ '-' :: b) ++ trail) ∧
    Padding lead ∧ Padding trail ∧ form.Written a b

/-- The header asks for one range, and the byte is in it. -/
def NamesByte (header : String) (size i : Nat) : Prop :=
  ∃ form, Asks header form ∧ form.Names size i

/-- The range that a form stands for in a file of that size, unless it is inverted. -/
def RangeForm.resolve (size : Nat) : RangeForm → Option ByteRange
  | closed first last =>
    if size ≤ first then some .unsatisfiable
    else if last < first then none
    else some (.slice first (min last (size - 1)))
  | openEnded first =>
    if size ≤ first then some .unsatisfiable else some (.slice first (size - 1))
  | suffix count =>
    if count = 0 ∨ size = 0 then some .unsatisfiable
    else some (.slice (size - count) (size - 1))

section Grammar

variable {raw spec text : List Char} {form : RangeForm} {header : String} {size n i : Nat}

theorem isSpace_of_isDigit {c : Char} (h : isDigit c = true) : isSpace c = false := by
  by_contra hspace
  simp only [isSpace, isLineTerminator, Bool.not_eq_false, Bool.or_eq_true, decide_eq_true_eq,
    Bool.and_eq_true] at hspace
  rcases hspace with (((((((((((((rfl | rfl) | rfl) | rfl) | rfl) | rfl) | rfl) | rfl) | rfl) |
    rfl) | hrange) | rfl) | rfl) | rfl) | rfl
  case inl.inl.inl.inl.inr =>
    simp only [isDigit, Bool.and_eq_true, decide_eq_true_eq] at h
    have hle : '\u2000' ≤ '9' := Char.le_trans hrange.1 h.2
    exact absurd hle (by decide)
  all_goals exact absurd h (by decide)

theorem rangeParts_eq_some {a b : List Char} : rangeParts spec = some (a, b) ↔
    spec = a ++ '-' :: b ∧ (∀ c ∈ a, isDigit c = true) ∧ ∀ c ∈ b, isDigit c = true := by
  constructor
  · intro h
    have hjoin := List.takeWhile_append_dropWhile (p := isDigit) (l := spec)
    unfold rangeParts at h
    split at h
    · rename_i rawEnd hrest
      by_cases hall : rawEnd.all isDigit = true
      · rw [if_pos hall] at h
        cases h
        rw [hrest] at hjoin
        exact ⟨hjoin.symm, fun c hc => List.mem_takeWhile_imp hc, List.all_eq_true.mp hall⟩
      · rw [if_neg hall] at h
        cases h
    · cases h
  · rintro ⟨rfl, ha, hb⟩
    have hdash : isDigit '-' = false := by decide
    obtain ⟨htake, hdrop⟩ : (a ++ '-' :: b).takeWhile isDigit = a ∧
        (a ++ '-' :: b).dropWhile isDigit = '-' :: b := span_stop ha hdash
    unfold rangeParts
    rw [htake, hdrop]
    exact if_pos (List.all_eq_true.mpr hb)

theorem spec_plain {a b : List Char} (ha : ∀ c ∈ a, isDigit c = true)
    (hb : ∀ c ∈ b, isDigit c = true) :
    ∀ c ∈ a ++ '-' :: b, isSpace c = false ∧ isLineTerminator c = false := by
  intro c hc
  have hspace : isSpace c = false := by
    rcases List.mem_append.mp hc with hc | hc
    · exact isSpace_of_isDigit (ha c hc)
    · rcases List.mem_cons.mp hc with rfl | hc
      · decide
      · exact isSpace_of_isDigit (hb c hc)
  refine ⟨hspace, ?_⟩
  simp only [isSpace, Bool.or_eq_false_iff] at hspace
  simp [hspace]

theorem rangeSpec_found (h : rangeSpec header = some spec) :
    ∃ lead trail, header.toList = "bytes=".toList ++ (lead ++ spec ++ trail) ∧ Padding lead ∧
      Padding trail := by
  unfold rangeSpec at h
  split at h
  · cases h
  · rename_i rest hrest
    obtain ⟨start, hheader, hstart⟩ := List.dropPrefix?_eq_some_iff.mp hrest
    rw [beq_iff_eq] at hstart
    split at h
    · rename_i hok
      obtain ⟨lead, trail, hjoin, hlead, htrail⟩ := exists_trimWhile isSpace rest
      change some (trimWhile isSpace rest) = _ at h
      rw [Option.some.inj h] at hjoin
      simp only [Bool.and_eq_true, List.all_eq_true] at hok
      refine ⟨lead, trail, by rw [hheader, hstart, ← hjoin], fun c hc => ⟨hlead c hc, ?_⟩,
        fun c hc => ⟨htrail c hc, ?_⟩⟩
      · simpa using hok.2 c (by rw [hjoin]; simp [hc])
      · simpa using hok.2 c (by rw [hjoin]; simp [hc])
    · cases h

theorem rangeSpec_padded {lead trail : List Char} (hlead : Padding lead) (htrail : Padding trail)
    (hspec : ∀ c ∈ spec, isSpace c = false ∧ isLineTerminator c = false) (hne : spec ≠ [])
    (hheader : header.toList = "bytes=".toList ++ (lead ++ spec ++ trail)) :
    rangeSpec header = some spec := by
  have hdropped : header.toList.dropPrefix? "bytes=".toList = some (lead ++ spec ++ trail) :=
    List.dropPrefix?_eq_some_iff.mpr ⟨_, hheader, beq_self_eq_true _⟩
  have hall : (lead ++ spec ++ trail).all (fun c => !isLineTerminator c) = true := by
    rw [List.all_eq_true]
    intro c hc
    rw [Bool.not_eq_true']
    rcases List.mem_append.mp hc with hc | hc
    · rcases List.mem_append.mp hc with hc | hc
      · exact (hlead c hc).2
      · exact (hspec c hc).2
    · exact (htrail c hc).2
  have htrim : trim (lead ++ spec ++ trail) = spec :=
    trimWhile_padded (fun c hc => (hlead c hc).1) (fun c hc => (htrail c hc).1)
      (fun c hc => (hspec c hc).1) hne
  unfold rangeSpec
  rw [hdropped]
  dsimp only
  rw [hall, htrim]
  simp [hne]

/-- The text between the blanks of a header. -/
theorem rangeSpec_eq_some {a b : List Char} (ha : ∀ c ∈ a, isDigit c = true)
    (hb : ∀ c ∈ b, isDigit c = true) : rangeSpec header = some (a ++ '-' :: b) ↔
      ∃ lead trail, header.toList = "bytes=".toList ++ (lead ++ (a ++ '-' :: b) ++ trail) ∧
        Padding lead ∧ Padding trail := by
  constructor
  · exact rangeSpec_found
  · rintro ⟨lead, trail, hheader, hlead, htrail⟩
    exact rangeSpec_padded hlead htrail (spec_plain ha hb) (by simp) hheader

theorem RangeForm.Written.digits {a b : List Char} (h : form.Written a b) :
    (∀ c ∈ a, isDigit c = true) ∧ ∀ c ∈ b, isDigit c = true := by
  cases h with
  | closed ha hb => exact ⟨ha.digits, hb.digits⟩
  | openEnded ha => exact ⟨ha.digits, fun c hc => absurd hc List.not_mem_nil⟩
  | suffix hb => exact ⟨fun c hc => absurd hc List.not_mem_nil, hb.digits⟩

theorem no_comma {a b : List Char} (ha : ∀ c ∈ a, isDigit c = true)
    (hb : ∀ c ∈ b, isDigit c = true) : (a ++ '-' :: b).contains ',' = false := by
  have hcomma : isDigit ',' = false := by decide
  have hmem : ',' ∉ a ++ '-' :: b := by
    intro h
    rcases List.mem_append.mp h with h | h
    · rw [ha _ h] at hcomma
      cases hcomma
    · rcases List.mem_cons.mp h with h | h
      · exact absurd h (by decide)
      · rw [hb _ h] at hcomma
        cases hcomma
  simp [hmem]

theorem exists_written {a b : List Char} (ha : ∀ c ∈ a, isDigit c = true)
    (hb : ∀ c ∈ b, isDigit c = true) (hne : ¬ (a = [] ∧ b = [])) :
    ∃ form : RangeForm, form.Written a b := by
  by_cases hstart : a = []
  · subst hstart
    exact ⟨.suffix (number b), .suffix ⟨fun hend => hne ⟨rfl, hend⟩, hb, rfl⟩⟩
  · by_cases hend : b = []
    · subst hend
      exact ⟨.openEnded (number a), .openEnded ⟨hstart, ha, rfl⟩⟩
    · exact ⟨.closed (number a) (number b), .closed ⟨hstart, ha, rfl⟩ ⟨hend, hb, rfl⟩⟩

theorem asks_of_parseRange {r : ByteRange} (h : parseRange (some header) size = some r) :
    ∃ form, Asks header form := by
  unfold parseRange at h
  rw [Option.bind_some] at h
  cases hspec : rangeSpec header with
  | none => rw [hspec] at h; cases h
  | some spec =>
    rw [hspec] at h
    dsimp only at h
    split at h
    · cases h
    · cases hparts : rangeParts spec with
      | none => rw [hparts] at h; cases h
      | some parts =>
        obtain ⟨a, b⟩ := parts
        rw [hparts] at h
        obtain ⟨rfl, ha, hb⟩ := rangeParts_eq_some.mp hparts
        obtain ⟨lead, trail, hheader, hlead, htrail⟩ := rangeSpec_found hspec
        have hne : ¬ (a = [] ∧ b = []) := by
          intro hempty
          dsimp only at h
          rw [if_pos hempty] at h
          cases h
        obtain ⟨form, hw⟩ := exists_written ha hb hne
        exact ⟨form, lead, a, b, trail, hheader, hlead, htrail, hw⟩

/-- A header that asks for one range gets what its form stands for. -/
theorem parseRange_of_asks (h : Asks header form) :
    parseRange (some header) size = form.resolve size := by
  obtain ⟨lead, a, b, trail, hheader, hlead, htrail, hw⟩ := h
  obtain ⟨ha, hb⟩ := hw.digits
  have hspec := (rangeSpec_eq_some ha hb).mpr ⟨lead, trail, hheader, hlead, htrail⟩
  have hparts : rangeParts (a ++ '-' :: b) = some (a, b) :=
    rangeParts_eq_some.mpr ⟨rfl, ha, hb⟩
  unfold parseRange
  rw [Option.bind_some, hspec]
  dsimp only
  rw [no_comma ha hb, hparts, if_neg Bool.false_ne_true]
  dsimp only
  cases hw with
  | closed hx hy =>
    rw [if_neg (fun hand => hx.nonempty hand.1), if_neg hx.nonempty, if_neg hy.nonempty, hx.value,
      hy.value]
    rfl
  | openEnded hx =>
    rw [if_neg (fun hand => hx.nonempty hand.1), if_neg hx.nonempty, if_pos rfl, hx.value]
    rfl
  | suffix hy =>
    rw [if_neg (fun hand => hy.nonempty hand.2), if_pos rfl, hy.value]
    rfl

/-- The parser reads the grammar: it answers what a form resolves to, and nothing else. -/
theorem parseRange_eq_some {r : ByteRange} :
    parseRange (some header) size = some r ↔
      ∃ form, Asks header form ∧ form.resolve size = some r := by
  constructor
  · intro h
    obtain ⟨form, hasks⟩ := asks_of_parseRange h
    exact ⟨form, hasks, (parseRange_of_asks hasks).symm.trans h⟩
  · rintro ⟨form, hasks, hr⟩
    exact (parseRange_of_asks hasks).trans hr

/-- A slice is within the file, and holds the bytes that are named. -/
theorem names_of_resolve {start last : Nat} (h : form.resolve size = some (.slice start last)) :
    start ≤ last ∧ last < size ∧ ∀ i, form.Names size i ↔ start ≤ i ∧ i ≤ last := by
  cases form with
  | closed x y =>
    simp only [RangeForm.resolve] at h
    split at h
    · cases h
    · split at h
      · cases h
      · cases h
        refine ⟨by omega, by omega, fun i => ?_⟩
        simp only [RangeForm.Names]
        omega
  | openEnded x =>
    simp only [RangeForm.resolve] at h
    split at h
    · cases h
    · cases h
      refine ⟨by omega, by omega, fun i => ?_⟩
      simp only [RangeForm.Names]
      omega
  | suffix n =>
    simp only [RangeForm.resolve] at h
    split at h
    · cases h
    · cases h
      refine ⟨by omega, by omega, fun i => ?_⟩
      simp only [RangeForm.Names]
      omega

/-- A form that names a byte is not refused. -/
theorem resolve_of_names (h : form.Names size i) :
    ∃ start last, form.resolve size = some (.slice start last) := by
  cases form with
  | closed x y =>
    obtain ⟨hx, hy, hi⟩ := h
    refine ⟨x, min y (size - 1), ?_⟩
    rw [RangeForm.resolve]
    rw [if_neg (by omega), if_neg (by omega)]
  | openEnded x =>
    obtain ⟨hx, hi⟩ := h
    refine ⟨x, size - 1, ?_⟩
    rw [RangeForm.resolve]
    rw [if_neg (by omega)]
  | suffix n =>
    obtain ⟨hn, hi⟩ := h
    refine ⟨size - n, size - 1, ?_⟩
    rw [RangeForm.resolve]
    rw [if_neg (by omega)]

/-- A slice answers a header that names exactly its bytes. -/
theorem namesByte_of_slice {start last : Nat}
    (h : parseRange (some header) size = some (.slice start last)) :
    start ≤ last ∧ last < size ∧ ∀ i, NamesByte header size i ↔ start ≤ i ∧ i ≤ last := by
  obtain ⟨form, hasks, hform⟩ := parseRange_eq_some.mp h
  obtain ⟨hle, hlt, hnames⟩ := names_of_resolve hform
  refine ⟨hle, hlt, fun i => ⟨?_, fun hi => ⟨form, hasks, (hnames i).mpr hi⟩⟩⟩
  rintro ⟨form', hasks', hi⟩
  -- a second reading of the header would be answered too
  obtain ⟨start', last', hform'⟩ := resolve_of_names hi
  have hsame := parseRange_eq_some.mpr ⟨form', hasks', hform'⟩
  rw [h] at hsame
  cases hsame
  exact ((names_of_resolve hform').2.2 i).mp hi

/-- What cannot be satisfied names no byte of the file. -/
theorem not_namesByte_of_unsatisfiable (h : parseRange (some header) size = some .unsatisfiable) :
    ¬ NamesByte header size i := by
  rintro ⟨form, hasks, hi⟩
  obtain ⟨start, last, hform⟩ := resolve_of_names hi
  have hsame := parseRange_eq_some.mpr ⟨form, hasks, hform⟩
  rw [h] at hsame
  cases hsame

end Grammar

end IpfsGate.Range
