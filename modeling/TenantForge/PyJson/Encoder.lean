import TenantForge.PyJson.Numbers
import TenantForge.PyJson.Strings
/-!
# JSON encoding

`json.dumps(value, separators=(",", ":"), default=str)`. A tuple is written as an array, and an object of
another class as the string that `str` gives. The text of a float is the interpreter's (`FloatFormat`); an
integer has a text within the limit on its digits only, so a value has one if and only if its integers
are within that limit (`dumps_isSome`).
-/

namespace PyJson

/-! ### Values -/

/-- A float with the finite floats `F`. -/
inductive JsonFloat (F : Type) where
  | finite (x : F)
  | infinite (negative : Bool)
  | nan
  deriving DecidableEq

/-- What is encoded and what is decoded: `other` is an object that only `default` knows, as its text. -/
inductive Value (F : Type) where
  | null
  | bool (value : Bool)
  | int (value : Int)
  | float (value : JsonFloat F)
  | str (text : Text)
  | list (items : List (Value F))
  | tuple (items : List (Value F))
  | dict (fields : List (Text × Value F))
  | other (text : Text)

/-- `float.__repr__` and `float(text)` of a numeral: the text of a finite float is a numeral, and the
float is read back from it. -/
structure FloatFormat (F : Type) where
  repr : F → List Char
  parse : List Char → JsonFloat F
  numeral_repr : ∀ x, numeral (repr x) = some ⟨repr x, true, []⟩
  parse_repr : ∀ x, parse (repr x) = .finite x

variable {F : Type} (float : FloatFormat F)

/-! ### The encoder -/

def floatText : JsonFloat F → List Char
  | .finite x => float.repr x
  | .infinite false => ['I', 'n', 'f', 'i', 'n', 'i', 't', 'y']
  | .infinite true => ['-', 'I', 'n', 'f', 'i', 'n', 'i', 't', 'y']
  | .nan => ['N', 'a', 'N']

mutual

/-- `none` is the `ValueError` of an integer with too many digits. -/
def dumps : Value F → Option (List Char)
  | .null => some ['n', 'u', 'l', 'l']
  | .bool true => some ['t', 'r', 'u', 'e']
  | .bool false => some ['f', 'a', 'l', 's', 'e']
  | .int n => Python.intText n
  | .float x => some (floatText float x)
  | .str text | .other text => some (encodeString text)
  | .list items | .tuple items => (dumpsItems items).map fun text => '[' :: text
  | .dict fields => (dumpsFields fields).map fun text => '{' :: text

/-- The items of an array, and its closing bracket. -/
def dumpsItems : List (Value F) → Option (List Char)
  | [] => some [']']
  | [item] => (dumps item).map fun text => text ++ [']']
  | item :: next :: items => (dumps item).bind fun text =>
    (dumpsItems (next :: items)).map fun rest => text ++ ',' :: rest

/-- The fields of an object, and its closing brace. -/
def dumpsFields : List (Text × Value F) → Option (List Char)
  | [] => some ['}']
  | [field] => (dumpsField field).map fun text => text ++ ['}']
  | field :: next :: fields => (dumpsField field).bind fun text =>
    (dumpsFields (next :: fields)).map fun rest => text ++ ',' :: rest

def dumpsField : Text × Value F → Option (List Char)
  | (key, item) => (dumps item).map fun text => encodeString key ++ ':' :: text

end

/-! ### Predicates on the parts of a value -/

section Every

variable (number : Int → Prop) (keys : List Text → Prop)

mutual

/-- The integers of a value satisfy `number`, and the keys of each of its dicts `keys`. -/
def Value.Every : Value F → Prop
  | .int n => number n
  | .list items | .tuple items => EveryItem items
  | .dict fields => keys (fields.map Prod.fst) ∧ EveryField fields
  | _ => True

def EveryItem : List (Value F) → Prop
  | [] => True
  | item :: items => item.Every ∧ EveryItem items

def EveryField : List (Text × Value F) → Prop
  | [] => True
  | (_, item) :: fields => item.Every ∧ EveryField fields

end

end Every

/-- The integers that have a text. -/
def InRange (n : Int) : Prop := n.natAbs < 10 ^ Python.maxDigits

/-- All integers of a value have a text. -/
def Value.Fits (value : Value F) : Prop := value.Every InRange fun _ => True

theorem intText_isSome {n : Int} : (Python.intText n).isSome ↔ InRange n := by
  rw [Python.intText, InRange, ← Nat.length_toDigits_le_iff (by decide) (by decide)]
  split <;> simp <;> omega

mutual

/-- **A value has a text** if and only if its integers have one. -/
theorem dumps_isSome : ∀ value : Value F, (dumps float value).isSome ↔ value.Fits
  | .null | .bool true | .bool false | .float _ | .str _ | .other _ => iff_of_true rfl trivial
  | .int _ => intText_isSome
  | .list items | .tuple items => by
    rw [dumps, Option.isSome_map, dumpsItems_isSome items, Value.Fits, Value.Every]
  | .dict fields => by
    rw [dumps, Option.isSome_map, dumpsFields_isSome fields, Value.Fits, Value.Every, true_and]

theorem dumpsItems_isSome :
    ∀ items : List (Value F), (dumpsItems float items).isSome ↔ EveryItem InRange (fun _ => True) items
  | [] => iff_of_true rfl trivial
  | [item] => by
    rw [dumpsItems, Option.isSome_map, dumps_isSome item, EveryItem, EveryItem, and_true, Value.Fits]
  | item :: next :: items => by
    rw [dumpsItems, Option.isSome_bind, EveryItem, ← dumpsItems_isSome (next :: items), ← Value.Fits,
      ← dumps_isSome item]
    cases dumps float item <;> simp

theorem dumpsFields_isSome : ∀ fields : List (Text × Value F),
    (dumpsFields float fields).isSome ↔ EveryField InRange (fun _ => True) fields
  | [] => iff_of_true rfl trivial
  | [(key, item)] => by
    rw [dumpsFields, dumpsField, Option.isSome_map, Option.isSome_map, dumps_isSome item, EveryField,
      EveryField, and_true, Value.Fits]
  | (key, item) :: next :: fields => by
    rw [dumpsFields, dumpsField, Option.isSome_bind, EveryField, ← dumpsFields_isSome (next :: fields),
      ← Value.Fits, ← dumps_isSome item]
    cases dumps float item <;> simp

end

end PyJson
