import Mathlib.Data.List.Nodup
import TenantForge.PyJson.Encoder
/-!
# JSON decoding

`json.loads`, with what becomes of the fields of an object as a parameter (`object_pairs_hook`): `dict`,
where the last value of a key stands in the place of the first, or all of them. What was encoded is
decoded (`loads_dumps`): tuples as lists, other objects as their texts, and surrogate pairs joined, so
that a dict loses a field if and only if two of its keys have the same text. Encoding the decoded value
gives the same text exactly when no dict does (`redumps_iff`).
-/

namespace PyJson

variable {F : Type}

/-! ### Dicts -/

/-- `items[key] = value`: a key keeps its place. -/
def setItem (items : List (Text × Value F)) (field : Text × Value F) : List (Text × Value F) :=
  if field.1 ∈ items.map Prod.fst then
    items.map fun item => if item.1 = field.1 then field else item
  else items ++ [field]

/-- `dict(fields)` -/
def dict (fields : List (Text × Value F)) : List (Text × Value F) := fields.foldl setItem []

/-! ### The scanner -/

/-- The blanks at the front are skipped. -/
def skip (chars : List Char) : List Char :=
  chars.dropWhile fun c => c = ' ' || c = '\t' || c = '\n' || c = '\r'

variable (float : FloatFormat F) (hook : List (Text × Value F) → List (Text × Value F))

def scanNumber (chars : List Char) : Option (Value F × List Char) :=
  (numeral chars).bind fun found =>
    (if found.isFloat then some (.float (float.parse found.text))
      else (Python.parseInt found.text).map .int).map fun value => (value, found.rest)

mutual

/-- A value at the front, with at most this many nested steps. -/
def scanOnce : Nat → List Char → Option (Value F × List Char)
  | 0, _ => none
  | fuel + 1, chars =>
    match chars with
    | '"' :: rest => (scanString rest).map fun found => (.str found.1, found.2)
    | '{' :: rest =>
      match skip rest with
      | '}' :: rest => some (.dict (hook []), rest)
      | rest => (scanFields fuel rest).map fun found => (.dict (hook found.1), found.2)
    | '[' :: rest =>
      match skip rest with
      | ']' :: rest => some (.list [], rest)
      | rest => (scanItems fuel rest).map fun found => (.list found.1, found.2)
    | 'n' :: 'u' :: 'l' :: 'l' :: rest => some (.null, rest)
    | 't' :: 'r' :: 'u' :: 'e' :: rest => some (.bool true, rest)
    | 'f' :: 'a' :: 'l' :: 's' :: 'e' :: rest => some (.bool false, rest)
    | 'N' :: 'a' :: 'N' :: rest => some (.float .nan, rest)
    | 'I' :: 'n' :: 'f' :: 'i' :: 'n' :: 'i' :: 't' :: 'y' :: rest =>
      some (.float (.infinite false), rest)
    | '-' :: 'I' :: 'n' :: 'f' :: 'i' :: 'n' :: 'i' :: 't' :: 'y' :: rest =>
      some (.float (.infinite true), rest)
    | chars => scanNumber float chars

/-- The items of an array, and its closing bracket. -/
def scanItems : Nat → List Char → Option (List (Value F) × List Char)
  | 0, _ => none
  | fuel + 1, chars => (scanOnce fuel chars).bind fun item =>
    match skip item.2 with
    | ']' :: rest => some ([item.1], rest)
    | ',' :: rest => (scanItems fuel (skip rest)).map fun found => (item.1 :: found.1, found.2)
    | _ => none

/-- The fields of an object, and its closing brace. -/
def scanFields : Nat → List Char → Option (List (Text × Value F) × List Char)
  | 0, _ => none
  | fuel + 1, chars => (scanField fuel chars).bind fun field =>
    match skip field.2 with
    | '}' :: rest => some ([field.1], rest)
    | ',' :: rest => (scanFields fuel (skip rest)).map fun found => (field.1 :: found.1, found.2)
    | _ => none

def scanField : Nat → List Char → Option ((Text × Value F) × List Char)
  | fuel + 1, '"' :: rest => (scanString rest).bind fun key =>
    match skip key.2 with
    | ':' :: rest => (scanOnce fuel (skip rest)).map fun item => ((key.1, item.1), item.2)
    | _ => none
  | _, _ => none

end

/-- `json.loads(text)`; `none` is a `ValueError`. Each character allows at most two nested steps. -/
def loads (chars : List Char) : Option (Value F) :=
  (scanOnce float hook (2 * chars.length + 1) (skip chars)).bind fun found =>
    if skip found.2 = [] then some found.1 else none

/-! ### What is decoded -/

mutual

/-- What the decoder makes of the text of a value. -/
def Value.decoded : Value F → Value F
  | .str text | .other text => .str (normText text)
  | .list items | .tuple items => .list (decodedItems items)
  | .dict fields => .dict (hook (decodedFields fields))
  | .null => .null
  | .bool value => .bool value
  | .int value => .int value
  | .float value => .float value

def decodedItems : List (Value F) → List (Value F)
  | [] => []
  | item :: items => item.decoded :: decodedItems items

def decodedFields : List (Text × Value F) → List (Text × Value F)
  | [] => []
  | (key, item) :: fields => (normText key, item.decoded) :: decodedFields fields

end

/-! ### Decoding an encoded value -/

/-- How the text of a value begins. -/
def Begins (text : List Char) : Prop :=
  ∃ c rest, text = c :: rest ∧ (c.isDigit = true ∨ c ∈ ['"', '{', '[', 'n', 't', 'f', 'N', 'I', '-'])

variable {float hook}

theorem Begins.append {text : List Char} (h : Begins text) (rest : List Char) : Begins (text ++ rest) := by
  obtain ⟨c, chars, rfl, hc⟩ := h
  exact ⟨c, chars ++ rest, rfl, hc⟩

theorem Begins.skip {text : List Char} (h : Begins text) : skip text = text := by
  obtain ⟨c, rest, rfl, hc⟩ := h
  refine List.dropWhile_cons_of_neg ?_
  rcases hc with hc | hc
  · simp only [Bool.or_eq_true, decide_eq_true_eq]
    rintro (((rfl | rfl) | rfl) | rfl) <;> exact absurd hc (by decide)
  · have hblank : ∀ d ∈ ['"', '{', '[', 'n', 't', 'f', 'N', 'I', '-'],
        ¬(d = ' ' || d = '\t' || d = '\n' || d = '\r') = true := by simp
    exact hblank c hc

theorem Begins.ne_bracket {text : List Char} (h : Begins text) (rest : List Char) : text ≠ ']' :: rest := by
  obtain ⟨c, chars, rfl, hc⟩ := h
  rintro heq
  obtain rfl := (List.cons.inj heq).1
  exact absurd hc (by decide)

theorem begins_numeral {text : List Char} {found : Numeral} (h : numeral text = some found) : Begins text := by
  obtain ⟨c, rest, hc, rfl | rfl⟩ := numeral_head h
  · exact ⟨c, rest, rfl, Or.inl hc⟩
  · exact ⟨'-', c :: rest, rfl, Or.inr (by decide)⟩

theorem numeral_intText {n : Int} {text : List Char} (h : Python.intText n = some text) :
    numeral text = some ⟨text, false, []⟩ := by
  rw [Python.intText, Option.ite_none_left_eq_some, Option.some.injEq] at h
  obtain ⟨-, rfl⟩ := h
  exact numeral_toString n

theorem begins_dumps {value : Value F} {text : List Char} (h : dumps float value = some text) :
    Begins text := by
  cases value with
  | int n => exact begins_numeral (numeral_intText h)
  | float x =>
    obtain rfl := Option.some.inj h
    match x with
    | .finite x => exact begins_numeral (float.numeral_repr x)
    | .infinite false | .infinite true | .nan => exact ⟨_, _, rfl, Or.inr (by decide)⟩
  | null => exact Option.some.inj h ▸ ⟨_, _, rfl, Or.inr (by decide)⟩
  | bool value => cases value <;> exact Option.some.inj h ▸ ⟨_, _, rfl, Or.inr (by decide)⟩
  | str | other => exact Option.some.inj h ▸ ⟨_, _, rfl, Or.inr (by decide)⟩
  | list | tuple | dict =>
    obtain ⟨rest, -, rfl⟩ := Option.map_eq_some_iff.mp h
    exact ⟨_, _, rfl, Or.inr (by decide)⟩

theorem begins_dumpsItems {item : Value F} {items : List (Value F)} {text : List Char}
    (h : dumpsItems float (item :: items) = some text) : Begins text := by
  cases items with
  | nil =>
    obtain ⟨first, hfirst, rfl⟩ := Option.map_eq_some_iff.mp h
    exact (begins_dumps hfirst).append _
  | cons next items =>
    obtain ⟨first, hfirst, hrest⟩ := Option.bind_eq_some_iff.mp h
    obtain ⟨rest, -, rfl⟩ := Option.map_eq_some_iff.mp hrest
    exact (begins_dumps hfirst).append _

theorem dumpsFields_head {field : Text × Value F} {fields : List (Text × Value F)} {text : List Char}
    (h : dumpsFields float (field :: fields) = some text) : ∃ rest, text = '"' :: rest := by
  obtain ⟨key, item⟩ := field
  have hfield : ∀ {text}, dumpsField float (key, item) = some text → ∃ rest, text = '"' :: rest := by
    intro text htext
    obtain ⟨chars, -, rfl⟩ := Option.map_eq_some_iff.mp htext
    exact ⟨_, rfl⟩
  cases fields with
  | nil =>
    obtain ⟨first, hfirst, rfl⟩ := Option.map_eq_some_iff.mp h
    obtain ⟨rest, rfl⟩ := hfield hfirst
    exact ⟨_, rfl⟩
  | cons next fields =>
    obtain ⟨first, hfirst, hothers⟩ := Option.bind_eq_some_iff.mp h
    obtain ⟨others, -, rfl⟩ := Option.map_eq_some_iff.mp hothers
    obtain ⟨rest, rfl⟩ := hfield hfirst
    exact ⟨_, rfl⟩

theorem scanOnce_items {text : List Char} (h : Begins text) (fuel : Nat) :
    scanOnce float hook (fuel + 1) ('[' :: text) =
      (scanItems float hook fuel text).map fun found => (.list found.1, found.2) := by
  rw [scanOnce, h.skip]
  split
  · exact absurd rfl (h.ne_bracket _)
  · rfl

/-- A numeral is not taken for anything else. -/
theorem scanOnce_numeral {text : List Char} {found : Numeral} (h : numeral text = some found)
    (rest : List Char) (fuel : Nat) :
    scanOnce float hook (fuel + 1) (text ++ rest) = scanNumber float (text ++ rest) := by
  obtain ⟨c, chars, hc, rfl | rfl⟩ := numeral_head h
  all_goals
    simp only [List.cons_append]
    rw [scanOnce.eq_def]
    dsimp only
    split
    all_goals first
      | rfl
      | (rename_i heq; exfalso; simp at heq; done)
      | (rename_i heq; exfalso; simp at heq; simp [heq] at hc)

theorem scanNumber_int {n : Int} {text rest : List Char} (h : Python.intText n = some text)
    (hrest : Stops rest) : scanNumber float (text ++ rest) = some (.int n, rest) := by
  rw [scanNumber, numeral_append hrest (numeral_intText h), Option.bind_some]
  dsimp only
  rw [if_neg Bool.false_ne_true, Python.parseInt_of_intText h]
  rfl

theorem scanNumber_float (x : F) {rest : List Char} (hrest : Stops rest) :
    scanNumber float (float.repr x ++ rest) = some (.float (.finite x), rest) := by
  rw [scanNumber, numeral_append hrest (float.numeral_repr x), Option.bind_some]
  dsimp only
  rw [if_pos rfl, float.parse_repr]
  rfl

theorem encodeString_append (text : Text) (rest : List Char) :
    encodeString text ++ rest = '"' :: ((units text).flatMap escapeUnit ++ '"' :: rest) := by
  rw [encodeString, List.cons_append, List.append_assoc, List.singleton_append]

theorem scanOnce_string (text : Text) (rest : List Char) (fuel : Nat) :
    scanOnce float hook (fuel + 1) (encodeString text ++ rest) = some (.str (normText text), rest) := by
  rw [encodeString_append, scanOnce, scanString_escape, Option.map_some]

/-- An array is scanned if its items are. -/
theorem scanOnce_array {items : List (Value F)} {fuel : Nat} {text rest : List Char}
    (htext : dumpsItems float items = some text)
    (hitems : items ≠ [] → scanItems float hook fuel (text ++ rest) = some (decodedItems hook items, rest)) :
    scanOnce float hook (fuel + 1) ('[' :: (text ++ rest)) =
      some (.list (decodedItems hook items), rest) := by
  cases items with
  | nil => exact Option.some.inj htext ▸ rfl
  | cons item items =>
    rw [scanOnce_items ((begins_dumpsItems htext).append rest), hitems (List.cons_ne_nil _ _)]
    rfl

theorem scanOnce_object {fields : List (Text × Value F)} {fuel : Nat} {text rest : List Char}
    (htext : dumpsFields float fields = some text)
    (hfields : fields ≠ [] →
      scanFields float hook fuel (text ++ rest) = some (decodedFields hook fields, rest)) :
    scanOnce float hook (fuel + 1) ('{' :: (text ++ rest)) =
      some (.dict (hook (decodedFields hook fields)), rest) := by
  cases fields with
  | nil => exact Option.some.inj htext ▸ rfl
  | cons field fields =>
    have hscan := hfields (List.cons_ne_nil _ _)
    obtain ⟨chars, rfl⟩ := dumpsFields_head htext
    rw [List.cons_append] at hscan ⊢
    rw [scanOnce]
    change (scanFields float hook fuel ('"' :: (chars ++ rest))).map _ = _
    rw [hscan]
    rfl

mutual

/-- The text of a value is scanned, whatever may follow a value follows it. -/
theorem scanOnce_dumps : ∀ (value : Value F) (fuel : Nat) (rest : List Char) {text : List Char},
    dumps float value = some text → Stops rest → 2 * text.length < fuel →
      scanOnce float hook fuel (text ++ rest) = some (value.decoded hook, rest)
  | _, 0, _, _, _, _, hfuel => nomatch hfuel
  | .null, fuel + 1, rest, text, h, hrest, hfuel => Option.some.inj h ▸ rfl
  | .bool true, fuel + 1, rest, text, h, hrest, hfuel => Option.some.inj h ▸ rfl
  | .bool false, fuel + 1, rest, text, h, hrest, hfuel => Option.some.inj h ▸ rfl
  | .int n, fuel + 1, rest, text, h, hrest, hfuel => by
    rw [scanOnce_numeral (numeral_intText h), scanNumber_int h hrest, Value.decoded]
  | .float (.finite x), fuel + 1, rest, text, h, hrest, hfuel => by
    obtain rfl := Option.some.inj h
    rw [floatText, scanOnce_numeral (float.numeral_repr x), scanNumber_float x hrest, Value.decoded]
  | .float (.infinite false), fuel + 1, rest, text, h, hrest, hfuel => Option.some.inj h ▸ rfl
  | .float (.infinite true), fuel + 1, rest, text, h, hrest, hfuel => Option.some.inj h ▸ rfl
  | .float .nan, fuel + 1, rest, text, h, hrest, hfuel => Option.some.inj h ▸ rfl
  | .str string, fuel + 1, rest, text, h, hrest, hfuel => by
    obtain rfl := Option.some.inj h
    rw [scanOnce_string, Value.decoded]
  | .other string, fuel + 1, rest, text, h, hrest, hfuel => by
    obtain rfl := Option.some.inj h
    rw [scanOnce_string, Value.decoded]
  | .list items, fuel + 1, rest, text, h, hrest, hfuel => by
    obtain ⟨chars, hchars, rfl⟩ := Option.map_eq_some_iff.mp h
    rw [List.length_cons] at hfuel
    have hitems := fun hne => scanItems_dumps items fuel rest hne hchars (by omega)
    rw [List.cons_append, scanOnce_array hchars hitems, Value.decoded]
  | .tuple items, fuel + 1, rest, text, h, hrest, hfuel => by
    obtain ⟨chars, hchars, rfl⟩ := Option.map_eq_some_iff.mp h
    rw [List.length_cons] at hfuel
    have hitems := fun hne => scanItems_dumps items fuel rest hne hchars (by omega)
    rw [List.cons_append, scanOnce_array hchars hitems, Value.decoded]
  | .dict fields, fuel + 1, rest, text, h, hrest, hfuel => by
    obtain ⟨chars, hchars, rfl⟩ := Option.map_eq_some_iff.mp h
    rw [List.length_cons] at hfuel
    have hfields := fun hne => scanFields_dumps fields fuel rest hne hchars (by omega)
    rw [List.cons_append, scanOnce_object hchars hfields, Value.decoded]

theorem scanItems_dumps : ∀ (items : List (Value F)) (fuel : Nat) (rest : List Char) {text : List Char},
    items ≠ [] → dumpsItems float items = some text → 2 * text.length < fuel →
      scanItems float hook fuel (text ++ rest) = some (decodedItems hook items, rest)
  | _, 0, _, _, _, _, hfuel => nomatch hfuel
  | [], _, _, _, hne, _, _ => absurd rfl hne
  | [item], fuel + 1, rest, text, hne, h, hfuel => by
    obtain ⟨first, hfirst, rfl⟩ := Option.map_eq_some_iff.mp h
    rw [List.length_append, List.length_singleton] at hfuel
    rw [List.append_assoc, List.singleton_append, scanItems,
      scanOnce_dumps item fuel _ hfirst stops_bracket (by omega)]
    rfl
  | item :: next :: items, fuel + 1, rest, text, hne, h, hfuel => by
    obtain ⟨first, hfirst, hmap⟩ := Option.bind_eq_some_iff.mp h
    obtain ⟨others, hothers, rfl⟩ := Option.map_eq_some_iff.mp hmap
    rw [List.length_append, List.length_cons] at hfuel
    have hitems := scanItems_dumps (next :: items) fuel rest (List.cons_ne_nil _ _) hothers (by omega)
    rw [List.append_assoc, List.cons_append, scanItems,
      scanOnce_dumps item fuel _ hfirst stops_comma (by omega), Option.bind_some]
    change (scanItems float hook fuel (skip (others ++ rest))).map _ = _
    rw [((begins_dumpsItems hothers).append rest).skip, hitems]
    rfl

theorem scanFields_dumps : ∀ (fields : List (Text × Value F)) (fuel : Nat) (rest : List Char)
    {text : List Char}, fields ≠ [] → dumpsFields float fields = some text → 2 * text.length < fuel →
      scanFields float hook fuel (text ++ rest) = some (decodedFields hook fields, rest)
  | _, 0, _, _, _, _, hfuel => nomatch hfuel
  | [], _, _, _, hne, _, _ => absurd rfl hne
  | [field], fuel + 1, rest, text, hne, h, hfuel => by
    obtain ⟨first, hfirst, rfl⟩ := Option.map_eq_some_iff.mp h
    rw [List.length_append, List.length_singleton] at hfuel
    rw [List.append_assoc, List.singleton_append, scanFields,
      scanField_dumps field fuel _ hfirst stops_brace (by omega)]
    rfl
  | field :: next :: fields, fuel + 1, rest, text, hne, h, hfuel => by
    obtain ⟨first, hfirst, hmap⟩ := Option.bind_eq_some_iff.mp h
    obtain ⟨others, hothers, rfl⟩ := Option.map_eq_some_iff.mp hmap
    rw [List.length_append, List.length_cons] at hfuel
    have hfields := scanFields_dumps (next :: fields) fuel rest (List.cons_ne_nil _ _) hothers (by omega)
    obtain ⟨chars, rfl⟩ := dumpsFields_head hothers
    rw [List.append_assoc, List.cons_append, scanFields,
      scanField_dumps field fuel _ hfirst stops_comma (by omega), Option.bind_some]
    change (scanFields float hook fuel ('"' :: chars ++ rest)).map _ = _
    rw [hfields]
    rfl

theorem scanField_dumps : ∀ (field : Text × Value F) (fuel : Nat) (rest : List Char) {text : List Char},
    dumpsField float field = some text → Stops rest → 2 * text.length < fuel →
      scanField float hook fuel (text ++ rest) =
        some ((normText field.1, field.2.decoded hook), rest)
  | _, 0, _, _, _, _, hfuel => nomatch hfuel
  | (key, item), fuel + 1, rest, text, h, hrest, hfuel => by
    obtain ⟨chars, hchars, rfl⟩ := Option.map_eq_some_iff.mp h
    rw [List.length_append, List.length_cons] at hfuel
    have hitem := scanOnce_dumps item fuel rest hchars hrest (by omega)
    rw [List.append_assoc, encodeString_append, scanField, scanString_escape, Option.bind_some]
    change (scanOnce float hook fuel (skip (chars ++ rest))).map _ = _
    rw [((begins_dumps hchars).append rest).skip, hitem]
    rfl

end

variable (hook) in
/-- **What was encoded is decoded.** -/
theorem loads_dumps {value : Value F} {text : List Char} (h : dumps float value = some text) :
    loads float hook text = some (value.decoded hook) := by
  have hscan : scanOnce float hook _ (text ++ []) = _ :=
    scanOnce_dumps value (2 * text.length + 1) [] h stops_nil (Nat.lt_succ_self _)
  rw [List.append_nil] at hscan
  rw [loads, (begins_dumps h).skip, hscan]
  rfl

/-! ### Encoding a decoded value -/

/-- No dict of a value has two keys with the same text. -/
def Value.Clear (value : Value F) : Prop := value.Every (fun _ => True) fun keys => (keys.map units).Nodup

theorem normText_normText (text : Text) : normText (normText text) = normText text :=
  normText_eq_iff.mpr (units_normText text)

theorem everyField_iff {number : Int → Prop} {keys : List Text → Prop} {fields : List (Text × Value F)} :
    EveryField number keys fields ↔ ∀ field ∈ fields, field.2.Every number keys := by
  induction fields with
  | nil => exact iff_of_true trivial fun _ h => nomatch h
  | cons field fields ih => rw [EveryField, List.forall_mem_cons, ih]

theorem keys_decodedFields (fields : List (Text × Value F)) :
    (decodedFields hook fields).map Prod.fst = (fields.map Prod.fst).map normText := by
  induction fields with
  | nil => rfl
  | cons field fields ih => rw [decodedFields, List.map_cons, List.map_cons, List.map_cons, ih]

theorem units_keys_decodedFields (fields : List (Text × Value F)) :
    ((decodedFields hook fields).map Prod.fst).map units = (fields.map Prod.fst).map units := by
  rw [keys_decodedFields, List.map_map]
  exact List.map_congr_left fun key _ => units_normText key

mutual

/-- The text tells nothing but what is decoded with all fields. -/
theorem dumps_decoded : ∀ value : Value F, dumps float (value.decoded id) = dumps float value
  | .null | .bool _ | .int _ | .float _ => rfl
  | .str text | .other text => by rw [Value.decoded, dumps, encodeString_normText, dumps]
  | .list items | .tuple items => by rw [Value.decoded, dumps, dumpsItems_decoded items, dumps]
  | .dict fields => by rw [Value.decoded, dumps, id_eq, dumpsFields_decoded fields, dumps]

theorem dumpsItems_decoded :
    ∀ items : List (Value F), dumpsItems float (decodedItems id items) = dumpsItems float items
  | [] => rfl
  | [item] => by rw [decodedItems, decodedItems, dumpsItems, dumps_decoded item, dumpsItems]
  | item :: next :: items => by
    have hitems := dumpsItems_decoded (next :: items)
    rw [decodedItems] at hitems
    rw [decodedItems, decodedItems, dumpsItems, hitems, dumps_decoded item, dumpsItems]

theorem dumpsFields_decoded : ∀ fields : List (Text × Value F),
    dumpsFields float (decodedFields id fields) = dumpsFields float fields
  | [] => rfl
  | [(key, item)] => by
    rw [decodedFields, decodedFields, dumpsFields, dumpsField, dumps_decoded item, encodeString_normText,
      dumpsFields, dumpsField]
  | (key, item) :: next :: fields => by
    have hfields := dumpsFields_decoded (next :: fields)
    rw [decodedFields] at hfields
    rw [decodedFields, decodedFields, dumpsFields, hfields, dumpsField, dumps_decoded item,
      encodeString_normText, dumpsFields, dumpsField]

end

mutual

theorem clear_decoded : ∀ value : Value F, (value.decoded id).Clear ↔ value.Clear
  | .null | .bool _ | .int _ | .float _ | .str _ | .other _ => Iff.rfl
  | .list items | .tuple items => clearItems_decoded items
  | .dict fields => by
    rw [Value.decoded, id_eq, Value.Clear, Value.Clear, Value.Every, Value.Every,
      units_keys_decodedFields, clearFields_decoded fields]

theorem clearItems_decoded : ∀ items : List (Value F),
    EveryItem (fun _ => True) (fun keys => (keys.map units).Nodup) (decodedItems id items) ↔
      EveryItem (fun _ => True) (fun keys => (keys.map units).Nodup) items
  | [] => Iff.rfl
  | item :: items => and_congr (clear_decoded item) (clearItems_decoded items)

theorem clearFields_decoded : ∀ fields : List (Text × Value F),
    EveryField (fun _ => True) (fun keys => (keys.map units).Nodup) (decodedFields id fields) ↔
      EveryField (fun _ => True) (fun keys => (keys.map units).Nodup) fields
  | [] => Iff.rfl
  | (_, item) :: fields => and_congr (clear_decoded item) (clearFields_decoded fields)

end

theorem keys_setItem (items : List (Text × Value F)) (field : Text × Value F) :
    (setItem items field).map Prod.fst =
      if field.1 ∈ items.map Prod.fst then items.map Prod.fst else items.map Prod.fst ++ [field.1] := by
  rw [setItem]
  split
  · rw [List.map_map]
    refine List.map_congr_left fun item _ => ?_
    dsimp only [Function.comp_apply]
    split
    · exact Eq.symm (by assumption)
    · rfl
  · rw [List.map_append, List.map_singleton]

theorem mem_setItem {items : List (Text × Value F)} {field item : Text × Value F}
    (h : item ∈ setItem items field) : item ∈ items ∨ item = field := by
  rw [setItem] at h
  split at h
  · obtain ⟨old, hold, heq⟩ := List.mem_map.mp h
    split at heq
    · exact Or.inr heq.symm
    · exact Or.inl (heq ▸ hold)
  · simpa using h

/-- A dict has each key once, and no field of its own. -/
theorem dict_spec (fields : List (Text × Value F)) :
    ((dict fields).map Prod.fst).Nodup ∧ ∀ field ∈ dict fields, field ∈ fields := by
  induction fields using List.reverseRecOn with
  | nil => exact ⟨List.nodup_nil, fun _ h => nomatch h⟩
  | append_singleton fields field ih =>
    have hstep : dict (fields ++ [field]) = setItem (dict fields) field := List.foldl_append
    rw [hstep]
    refine ⟨?_, fun item hitem => ?_⟩
    · rw [keys_setItem]
      split
      · exact ih.1
      · rename_i hnew
        exact List.Nodup.append ih.1 (List.nodup_singleton _) (List.disjoint_singleton.mpr hnew)
    · rcases mem_setItem hitem with hitem | rfl
      · exact List.mem_append_left _ (ih.2 item hitem)
      · simp

/-- Fields with different keys are all kept. -/
theorem dict_eq_self {fields : List (Text × Value F)} (h : (fields.map Prod.fst).Nodup) :
    dict fields = fields := by
  induction fields using List.reverseRecOn with
  | nil => rfl
  | append_singleton fields field ih =>
    rw [List.map_append, List.nodup_append] at h
    have hnew : field.1 ∉ fields.map Prod.fst := fun hmem => h.2.2 _ hmem field.1 (by simp) rfl
    have hstep : dict (fields ++ [field]) = setItem (dict fields) field := List.foldl_append
    rw [hstep, ih h.1, setItem, if_neg hnew]

theorem nodup_units {fields : List (Text × Value F)} (h : (fields.map Prod.fst).Nodup)
    (hnorm : ∀ field ∈ fields, normText field.1 = field.1) : ((fields.map Prod.fst).map units).Nodup := by
  refine List.Nodup.map_on (fun key hkey key' hkey' heq => ?_) h
  obtain ⟨field, hfield, rfl⟩ := List.mem_map.mp hkey
  obtain ⟨field', hfield', rfl⟩ := List.mem_map.mp hkey'
  rw [← hnorm field hfield, ← hnorm field' hfield', normText_eq_iff]
  exact heq

theorem normText_decodedFields {fields : List (Text × Value F)} :
    ∀ field ∈ decodedFields hook fields, normText field.1 = field.1 := by
  intro field hfield
  have hkey : field.1 ∈ (decodedFields hook fields).map Prod.fst := List.mem_map_of_mem hfield
  rw [keys_decodedFields] at hkey
  obtain ⟨key, -, hkey⟩ := List.mem_map.mp hkey
  rw [← hkey, normText_normText]

mutual

/-- The keys of a decoded dict have different texts. -/
theorem clear_decoded_dict : ∀ value : Value F, (value.decoded dict).Clear
  | .null | .bool _ | .int _ | .float _ | .str _ | .other _ => trivial
  | .list items | .tuple items => clearItems_decoded_dict items
  | .dict fields => by
    obtain ⟨hkeys, hfields⟩ := dict_spec (decodedFields dict fields)
    refine ⟨nodup_units hkeys fun field hfield => normText_decodedFields field (hfields field hfield), ?_⟩
    exact everyField_iff.mpr fun field hfield =>
      everyField_iff.mp (clearFields_decoded_dict fields) field (hfields field hfield)

theorem clearItems_decoded_dict : ∀ items : List (Value F),
    EveryItem (fun _ => True) (fun keys => (keys.map units).Nodup) (decodedItems dict items)
  | [] => trivial
  | item :: items => ⟨clear_decoded_dict item, clearItems_decoded_dict items⟩

theorem clearFields_decoded_dict : ∀ fields : List (Text × Value F),
    EveryField (fun _ => True) (fun keys => (keys.map units).Nodup) (decodedFields dict fields)
  | [] => trivial
  | (_, item) :: fields => ⟨clear_decoded_dict item, clearFields_decoded_dict fields⟩

end

mutual

/-- No field is lost from a value without two keys of one text. -/
theorem decoded_dict : ∀ value : Value F, value.Clear → value.decoded dict = value.decoded id
  | .null, _ | .bool _, _ | .int _, _ | .float _, _ | .str _, _ | .other _, _ => rfl
  | .list items, h | .tuple items, h => by rw [Value.decoded, decodedItems_dict items h, Value.decoded]
  | .dict fields, ⟨hkeys, hfields⟩ => by
    have hnodup : ((decodedFields id fields).map Prod.fst).Nodup := by
      refine List.Nodup.of_map units ?_
      rw [units_keys_decodedFields]
      exact hkeys
    rw [Value.decoded, decodedFields_dict fields hfields, dict_eq_self hnodup, Value.decoded, id_eq]

theorem decodedItems_dict : ∀ items : List (Value F),
    EveryItem (fun _ => True) (fun keys => (keys.map units).Nodup) items →
      decodedItems dict items = decodedItems id items
  | [], _ => rfl
  | item :: items, h => by
    rw [decodedItems, decoded_dict item h.1, decodedItems_dict items h.2, decodedItems]

theorem decodedFields_dict : ∀ fields : List (Text × Value F),
    EveryField (fun _ => True) (fun keys => (keys.map units).Nodup) fields →
      decodedFields dict fields = decodedFields id fields
  | [], _ => rfl
  | (key, item) :: fields, h => by
    rw [decodedFields, decoded_dict item h.1, decodedFields_dict fields h.2, decodedFields]

end

/-- **The decoded value has the same text** if and only if no dict of the value has two keys with one
text. -/
theorem redumps_iff {value : Value F} {text : List Char} (h : dumps float value = some text) :
    dumps float (value.decoded dict) = some text ↔ value.Clear := by
  refine ⟨fun hagain => ?_, fun hclear => ?_⟩
  · -- with all fields kept, one text is read in one way
    have hraw := loads_dumps id h
    rw [loads_dumps id hagain, Option.some.injEq] at hraw
    rw [← clear_decoded, ← hraw, clear_decoded]
    exact clear_decoded_dict value
  · rw [decoded_dict value hclear, dumps_decoded, h]

end PyJson
