import IpfsGate.Lib.Double
import IpfsGate.Range

/-!
# What a range header is answered with

The contract of the parser: malformed and inverted ranges are ignored, ranges that name no byte
are refused, and the others are cut to the file. `Number` rounds long strings of digits, which
makes no difference for files of less than `2 ^ 53` bytes. The parser looks for the first byte
before it looks whether the range is inverted.
-/
namespace IpfsGate.Range

open Lib

/-- `parseRange`, where `Number` gives the nearest double. -/
def parseRangeOfDoubles (header : Option String) (size : Nat) : Option ByteRange :=
  match header.bind rangeSpec with
  | none => none
  | some spec =>
    if spec.contains ',' then none
    else
      match rangeParts spec with
      | none => none
      | some (rawStart, rawEnd) =>
        if rawStart = [] ∧ rawEnd = [] then none
        else if rawStart = [] then
          let suffix := Double.ofNat (number rawEnd)
          if suffix = 0 ∨ size = 0 then some .unsatisfiable
          else some (.slice (Double.subFrom size suffix) (size - 1))
        else
          match Double.ofNat (number rawStart) with
          | ⊤ => some .unsatisfiable
          | (start : Nat) =>
            if size ≤ start then some .unsatisfiable
            else if rawEnd = [] then some (.slice start (size - 1))
            else if Double.ofNat (number rawEnd) < start then none
            else some (.slice start (Double.minNat (Double.ofNat (number rawEnd)) (size - 1)))

/-- The first byte comes after the last. -/
def RangeForm.Inverted : RangeForm → Prop
  | closed first last => last < first
  | openEnded _ => False
  | suffix _ => False

/-- The documented answer to a header. -/
structure KeepsContract (header : String) (size : Nat) : Prop where
  ignored : (∀ form, Asks header form → form.Inverted) →
    parseRangeOfDoubles (some header) size = none
  refused : ∀ form, Asks header form → ¬ form.Inverted → (∀ i, ¬ form.Names size i) →
    parseRangeOfDoubles (some header) size = some .unsatisfiable
  served : ∀ form, Asks header form → ¬ form.Inverted → (∃ i, form.Names size i) →
    ∃ start last, parseRangeOfDoubles (some header) size = some (.slice start last) ∧
      ∀ i, form.Names size i ↔ start ≤ i ∧ i ≤ last

section Doubles

variable {size : Nat}

/-- Rounding is not noticed below the bound. -/
theorem parseRangeOfDoubles_eq (header : Option String) (hsize : size < Double.exactBound) :
    parseRangeOfDoubles header size = parseRange header size := by
  unfold parseRangeOfDoubles parseRange
  cases header.bind rangeSpec with
  | none => rfl
  | some spec =>
    dsimp only
    split
    · rfl
    · cases rangeParts spec with
      | none => rfl
      | some parts =>
        obtain ⟨a, b⟩ := parts
        dsimp only
        rw [Double.subFrom_ofNat hsize.le]
        have hzero : (Double.ofNat (number b) = 0 ∨ size = 0) ↔ (number b = 0 ∨ size = 0) :=
          or_congr_left Double.ofNat_eq_zero_iff
        simp only [hzero]
        split
        · rfl
        · split
          · rfl
          · rcases Double.ofNat_cases (number a) with ha | ⟨ha, hbound⟩
            · rw [ha]
              dsimp only
              rw [Nat.cast_id]
              by_cases hstart : size ≤ number a
              · rw [if_pos hstart, if_pos hstart]
              · have hexact : number a ≤ Double.exactBound := by omega
                have hlast : size - 1 ≤ Double.exactBound := by omega
                rw [if_neg hstart, if_neg hstart, Double.minNat_ofNat hlast]
                simp only [Double.ofNat_lt_iff hexact]
            · rw [if_pos (hsize.le.trans ha)]
              have hle := hbound size hsize.le
              cases hx : Double.ofNat (number a) with
              | top => rfl
              | coe n =>
                rw [hx] at hle
                exact if_pos (WithTop.coe_le_coe.mp hle)

end Doubles

section Contract

variable {header : String} {form form' : RangeForm} {size : Nat}

theorem RangeForm.Written.unique {a b : List Char} (h : form.Written a b)
    (h' : form'.Written a b) : form = form' := by
  cases h with
  | closed hx hy =>
    cases h' with
    | closed hx' hy' => rw [← hx.value, ← hy.value, ← hx'.value, ← hy'.value]
    | openEnded _ => exact absurd rfl hy.nonempty
    | suffix _ => exact absurd rfl hx.nonempty
  | openEnded hx =>
    cases h' with
    | closed _ hy' => exact absurd rfl hy'.nonempty
    | openEnded hx' => rw [← hx.value, ← hx'.value]
    | suffix _ => exact absurd rfl hx.nonempty
  | suffix hy =>
    cases h' with
    | closed hx' _ => exact absurd rfl hx'.nonempty
    | openEnded hx' => exact absurd rfl hx'.nonempty
    | suffix hy' => rw [← hy.value, ← hy'.value]

/-- A header asks for one range at most. -/
theorem Asks.unique (h : Asks header form) (h' : Asks header form') : form = form' := by
  obtain ⟨lead, a, b, trail, hheader, hlead, htrail, hw⟩ := h
  obtain ⟨lead', a', b', trail', hheader', hlead', htrail', hw'⟩ := h'
  obtain ⟨ha, hb⟩ := hw.digits
  obtain ⟨ha', hb'⟩ := hw'.digits
  have hspec := (rangeSpec_eq_some ha hb).mpr ⟨lead, trail, hheader, hlead, htrail⟩
  have hspec' := (rangeSpec_eq_some ha' hb').mpr ⟨lead', trail', hheader', hlead', htrail'⟩
  rw [hspec] at hspec'
  have hparts := rangeParts_eq_some.mpr ⟨rfl, ha, hb⟩
  have hparts' := rangeParts_eq_some.mpr ⟨rfl, ha', hb'⟩
  rw [← Option.some.inj hspec', hparts] at hparts'
  cases hparts'
  exact hw.unique hw'

/-- A header that asks for no range is ignored. -/
theorem parseRange_of_not_asks (h : ∀ form, ¬ Asks header form) :
    parseRange (some header) size = none := by
  cases hr : parseRange (some header) size with
  | none => rfl
  | some r =>
    obtain ⟨form, hasks, _⟩ := parseRange_eq_some.mp hr
    exact absurd hasks (h form)

/-- A range that is not inverted is refused if it names no byte. -/
theorem resolve_of_empty (hinv : ¬ form.Inverted) (hnone : ∀ i, ¬ form.Names size i) :
    form.resolve size = some .unsatisfiable := by
  cases form with
  | closed first last =>
    have hle : first ≤ last := not_lt.mp hinv
    refine if_pos ?_
    by_contra hstart
    exact hnone first ⟨le_rfl, hle, not_le.mp hstart⟩
  | openEnded first =>
    refine if_pos ?_
    by_contra hstart
    exact hnone first ⟨le_rfl, not_le.mp hstart⟩
  | suffix count =>
    refine if_pos ?_
    by_contra hsome
    have hlast := hnone (size - 1)
    simp only [RangeForm.Names] at hlast
    omega

/-- An inverted range is ignored if its first byte is in the file, and refused otherwise. -/
theorem resolve_of_inverted {first last : Nat} (h : last < first) :
    (RangeForm.closed first last).resolve size =
      if size ≤ first then some .unsatisfiable else none := by
  rw [RangeForm.resolve, if_pos h]

/-- The contract is kept, except with an inverted range whose first byte is past the file. -/
theorem keeps_contract_iff (header : String) (size : Nat) (hsize : size < Double.exactBound) :
    KeepsContract header size ↔
      ¬ ∃ first last, Asks header (.closed first last) ∧ last < first ∧ size ≤ first := by
  have hparse := parseRangeOfDoubles_eq (some header) hsize
  constructor
  · rintro h ⟨first, last, hasks, hlt, hle⟩
    have hignored := h.ignored (fun form hform => by
      rw [← hasks.unique hform]
      exact hlt)
    rw [hparse, parseRange_of_asks hasks, resolve_of_inverted hlt, if_pos hle] at hignored
    cases hignored
  · intro hcond
    refine ⟨fun hall => ?_, fun form hasks hinv hnone => ?_, fun form hasks hinv ⟨i, hi⟩ => ?_⟩
    · rw [hparse]
      by_cases hsome : ∃ form, Asks header form
      · obtain ⟨form, hasks⟩ := hsome
        have hinv := hall form hasks
        cases form with
        | closed first last =>
          rw [parseRange_of_asks hasks, resolve_of_inverted hinv]
          exact if_neg (fun hle => hcond ⟨first, last, hasks, hinv, hle⟩)
        | openEnded first => exact hinv.elim
        | suffix count => exact hinv.elim
      · exact parseRange_of_not_asks (fun form hasks => hsome ⟨form, hasks⟩)
    · rw [hparse, parseRange_of_asks hasks]
      exact resolve_of_empty hinv hnone
    · obtain ⟨start, last, hform⟩ := resolve_of_names hi
      refine ⟨start, last, ?_, (names_of_resolve hform).2.2⟩
      rw [hparse, parseRange_of_asks hasks, hform]

end Contract

/-- A range of a file of `10000` bytes. -/
theorem keeps_contract_slice : KeepsContract "bytes=100-199" 10000 := by
  refine (keeps_contract_iff "bytes=100-199" 10000 (by decide)).mpr ?_
  rintro ⟨first, last, hasks, hlt, hle⟩
  have hslice : parseRange (some "bytes=100-199") 10000 = some (.slice 100 199) := by decide
  rw [parseRange_of_asks hasks, resolve_of_inverted hlt, if_pos hle] at hslice
  cases hslice

/-- `5-2` is inverted, and in a file of three bytes it is refused. -/
theorem inverted_refused : parseRangeOfDoubles (some "bytes=5-2") 3 = some .unsatisfiable ∧
    parseRangeOfDoubles (some "bytes=5-2") 10000 = none ∧ ¬ KeepsContract "bytes=5-2" 3 := by
  have hrefused : parseRangeOfDoubles (some "bytes=5-2") 3 = some .unsatisfiable := by decide
  have hasks : Asks "bytes=5-2" (.closed 5 2) := by
    refine ⟨[], ['5'], ['2'], [], rfl, ?_, ?_, .closed ⟨?_, ?_, rfl⟩ ⟨?_, ?_, rfl⟩⟩
    all_goals simp [Padding, isDigit]
  refine ⟨hrefused, by decide, fun h => ?_⟩
  have hignored := h.ignored (fun form hform => by
    rw [← hasks.unique hform]
    exact Nat.lt_of_lt_of_le (by decide) le_rfl)
  rw [hrefused] at hignored
  cases hignored

end IpfsGate.Range

