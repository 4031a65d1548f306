import IpfsGate.Numerals

/-!
# Values as JSON

What `JSON.stringify` writes. The text of an object starts with a brace, and a text that is quoted
loses none of its characters.
-/
namespace IpfsGate

open Lib (Number)

/-- What `JSON.parse` returns. -/
inductive Json where
  | null
  | bool (b : Bool)
  | num (x : Number)
  | str (s : String)
  | arr (items : List Json)
  | obj (fields : List (String × Json))

namespace Json

def hexDigit (n : Nat) : Char := Char.ofNat (if n < 10 then '0'.toNat + n else 'a'.toNat + (n - 10))

def escape (c : Char) : List Char :=
  if c = '\"' then ['\\', '\"']
  else if c = '\\' then ['\\', '\\']
  else if c = '\u0008' then ['\\', 'b']
  else if c = '\t' then ['\\', 't']
  else if c = '\n' then ['\\', 'n']
  else if c = '\u000c' then ['\\', 'f']
  else if c = '\r' then ['\\', 'r']
  else if c < ' ' then ['\\', 'u', '0', '0', hexDigit (c.toNat / 16), hexDigit (c.toNat % 16)]
  else [c]

def quote (s : String) : List Char := '\"' :: (s.toList.flatMap escape ++ ['\"'])

mutual

def text : Json → List Char
  | .null => "null".toList
  | .bool b => if b then "true".toList else "false".toList
  | .num (.fin q) => Numerals.numberText (.fin q)
  | .num _ => "null".toList
  | .str s => quote s
  | .arr items => '[' :: (itemsText items ++ [']'])
  | .obj fields => '{' :: (fieldsText fields ++ ['}'])

def itemsText : List Json → List Char
  | [] => []
  | [v] => v.text
  | v :: rest => v.text ++ ',' :: itemsText rest

def fieldsText : List (String × Json) → List Char
  | [] => []
  | [(key, v)] => quote key ++ ':' :: v.text
  | (key, v) :: rest => quote key ++ ':' :: (v.text ++ ',' :: fieldsText rest)

end

def stringify (v : Json) : String := String.ofList v.text

/-- A field of an object; nothing else has fields of its own. -/
def get (v : Json) (key : String) : Option Json :=
  match v with
  | .obj fields => fields.lookup key
  | _ => none

/-- What passes for true. -/
def truthy : Json → Bool
  | .null => false
  | .bool b => b
  | .num x => x ≠ .fin 0 && x ≠ .nan
  | .str s => s ≠ ""
  | .arr _ => true
  | .obj _ => true

/-! ## Texts -/

theorem stringify_head (fields : List (String × Json)) :
    (stringify (.obj fields)).toList.head? = some '{' := by
  simp [stringify, text]

theorem escape_ne_nil (c : Char) : escape c ≠ [] := by
  unfold escape
  split_ifs <;> simp

theorem length_le_quote (s : String) : s.toList.length ≤ (quote s).length := by
  have hescape : s.toList.length ≤ (s.toList.flatMap escape).length := by
    induction s.toList with
    | nil => simp
    | cons c chars ih =>
      have hchar := List.length_pos_iff.mpr (escape_ne_nil c)
      simp only [List.flatMap_cons, List.length_cons, List.length_append]
      omega
  simp only [quote, List.length_cons, List.length_append]
  omega

/-- `JSON.parse`, where it is asked about one text. -/
def parseOnly (v : Json) (text : String) : Except String Json :=
  if text = v.stringify then .ok v else .error "Unexpected token"

theorem parseOnly_stringify (v : Json) : parseOnly v v.stringify = .ok v := by simp [parseOnly]

end Json

end IpfsGate
