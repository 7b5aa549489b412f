import TenantForge.App
/-!
# JSON text

A compact printer and a parser of JSON values. The parser reads back what the printer wrote
(`loads_dumps`), so that the two are one possible choice of the runtime's codec. A rational that is no
integer has no JSON numeral and is written as a fraction.
-/

namespace TenantForge.Reference

/-! ### Numerals -/

def printNat (n : Nat) : List Char := Nat.toDigits 10 n

/-- The digits at the front, if there are any, and what follows them. -/
def parseNat (chars : List Char) : Option (Nat × List Char) :=
  if chars.takeWhile Char.isDigit = [] then none
  else some (Nat.ofDigitChars 10 (chars.takeWhile Char.isDigit) 0, chars.dropWhile Char.isDigit)

/-- What follows a numeral does not belong to it. -/
def Ends (rest : List Char) : Prop := ∀ c ∈ rest.head?, c.isDigit = false ∧ c ≠ '.' ∧ c ≠ '/'

theorem isDigit_of_mem_printNat {n : Nat} {c : Char} (h : c ∈ printNat n) : c.isDigit = true :=
  Nat.isDigit_of_mem_toDigits (by decide) (by decide) h

theorem parseNat_printNat (n : Nat) {rest : List Char} (h : ∀ c ∈ rest.head?, c.isDigit = false) :
    parseNat (printNat n ++ rest) = some (n, rest) := by
  have hdigits : ∀ c ∈ printNat n, Char.isDigit c = true := fun c => isDigit_of_mem_printNat
  have hrest : rest.takeWhile Char.isDigit = [] ∧ rest.dropWhile Char.isDigit = rest := by
    cases rest with
    | nil => exact ⟨rfl, rfl⟩
    | cons c rest =>
      have hc : c.isDigit = false := h c rfl
      exact ⟨List.takeWhile_cons_of_neg (by simp [hc]), List.dropWhile_cons_of_neg (by simp [hc])⟩
  have htake : (printNat n ++ rest).takeWhile Char.isDigit = printNat n := by
    rw [List.takeWhile_append_of_pos hdigits, hrest.1, List.append_nil]
  have hdrop : (printNat n ++ rest).dropWhile Char.isDigit = rest := by
    rw [List.dropWhile_append_of_pos hdigits, hrest.2]
  rw [parseNat, htake, hdrop, printNat, if_neg Nat.toDigits_ne_nil, Nat.ofDigitChars_ten_toDigits]

def printInt (n : Int) : List Char :=
  if n < 0 then '-' :: printNat n.natAbs else printNat n.natAbs

def parseInt : List Char → Option (Int × List Char)
  | '-' :: chars => (parseNat chars).map fun found => (-(found.1 : Int), found.2)
  | chars => (parseNat chars).map fun found => ((found.1 : Int), found.2)

theorem printNat_head (n : Nat) : ∃ c rest, printNat n = c :: rest ∧ c.isDigit = true := by
  cases h : printNat n with
  | nil => exact absurd h Nat.toDigits_ne_nil
  | cons c rest => exact ⟨c, rest, rfl, isDigit_of_mem_printNat (n := n) (by rw [h]; exact List.mem_cons_self)⟩

theorem parseInt_printInt (n : Int) {rest : List Char} (h : ∀ c ∈ rest.head?, c.isDigit = false) :
    parseInt (printInt n ++ rest) = some (n, rest) := by
  rw [printInt]
  split
  · rename_i hneg
    rw [List.cons_append, parseInt, parseNat_printNat _ h, Option.map_some]
    congr 2
    omega
  · rename_i hpos
    obtain ⟨c, digits, hdigits, hc⟩ := printNat_head n.natAbs
    have hsign : c ≠ '-' := by
      rintro rfl
      exact absurd hc (by decide)
    have hparse : parseInt (printNat n.natAbs ++ rest) =
        (parseNat (printNat n.natAbs ++ rest)).map fun found => ((found.1 : Int), found.2) := by
      rw [hdigits, List.cons_append, parseInt]
      rintro _ ⟨⟩
      exact hsign rfl
    rw [hparse, parseNat_printNat _ h, Option.map_some]
    congr 2
    omega

/-- A rational, in a form that no integer has. -/
def printRat (q : Rat) : List Char :=
  printInt q.num ++ if q.den = 1 then ['.', '0'] else '/' :: printNat q.den

/-- An integer, or a finite float. -/
def parseNumber (chars : List Char) : Option (Value × List Char) :=
  (parseInt chars).bind fun found =>
    match found.2 with
    | '.' :: '0' :: rest => some (.float (.finite found.1), rest)
    | '/' :: rest => (parseNat rest).map fun den => (.float (.finite (mkRat found.1 den.1)), den.2)
    | rest => some (.int found.1, rest)

theorem parseNumber_printInt (n : Int) {rest : List Char} (h : Ends rest) :
    parseNumber (printInt n ++ rest) = some (.int n, rest) := by
  rw [parseNumber, parseInt_printInt n fun c hc => (h c hc).1, Option.bind_some]
  cases rest with
  | nil => rfl
  | cons c rest =>
    obtain ⟨_, hdot, hslash⟩ := h c rfl
    split
    · rename_i heq
      cases heq
      exact absurd rfl hdot
    · rename_i heq
      cases heq
      exact absurd rfl hslash
    · rfl

theorem parseNumber_printRat (q : Rat) {rest : List Char} (h : Ends rest) :
    parseNumber (printRat q ++ rest) = some (.float (.finite q), rest) := by
  rw [parseNumber, printRat]
  by_cases hden : q.den = 1
  · rw [if_pos hden, List.append_assoc, parseInt_printInt _ (by simp), Option.bind_some]
    simp [Rat.den_eq_one_iff q |>.mp hden]
  · rw [if_neg hden, List.append_assoc, parseInt_printInt _ (by simp), Option.bind_some]
    simp [parseNat_printNat q.den fun c hc => (h c hc).1, Rat.mkRat_self]

/-! ### Strings -/

def escapeChar (c : Char) : List Char := if c = '"' ∨ c = '\\' then ['\\', c] else [c]

def printString (text : String) : List Char := '"' :: (text.toList.flatMap escapeChar ++ ['"'])

/-- The characters up to the closing quote, and what follows it. -/
def parseChars : List Char → Option (List Char × List Char)
  | [] => none
  | '"' :: rest => some ([], rest)
  | '\\' :: c :: rest => (parseChars rest).map fun found => (c :: found.1, found.2)
  | c :: rest => (parseChars rest).map fun found => (c :: found.1, found.2)

theorem parseChars_escape (chars rest : List Char) :
    parseChars (chars.flatMap escapeChar ++ '"' :: rest) = some (chars, rest) := by
  induction chars with
  | nil => simp [parseChars]
  | cons c chars ih =>
    rw [List.flatMap_cons, escapeChar]
    split
    · simp [parseChars, ih]
    · rename_i hplain
      have hquote : c ≠ '"' := fun hc => hplain (Or.inl hc)
      have hslash : c ≠ '\\' := fun hc => hplain (Or.inr hc)
      rw [List.append_assoc, List.singleton_append, parseChars, ih, Option.map_some]
      · exact hquote
      · rintro _ _ rfl
        exact fun _ => hslash rfl

def parseString : List Char → Option (String × List Char)
  | '"' :: rest => (parseChars rest).map fun found => (String.ofList found.1, found.2)
  | _ => none

theorem parseString_printString (text : String) (rest : List Char) :
    parseString (printString text ++ rest) = some (text, rest) := by
  simp [printString, parseString, parseChars_escape]

/-! ### Values -/

mutual

def print : Value → List Char
  | .null => ['n', 'u', 'l', 'l']
  | .bool true => ['t', 'r', 'u', 'e']
  | .bool false => ['f', 'a', 'l', 's', 'e']
  | .int n => printInt n
  | .float (.finite q) => printRat q
  | .float (.infinite false) => ['I', 'n', 'f', 'i', 'n', 'i', 't', 'y']
  | .float (.infinite true) => ['-', 'I', 'n', 'f', 'i', 'n', 'i', 't', 'y']
  | .float .nan => ['N', 'a', 'N']
  | .str text => printString text
  | .list [] => ['[', ']']
  | .list (item :: items) => '[' :: (print item ++ printItems items)
  | .dict [] => ['{', '}']
  | .dict (field :: fields) => '{' :: (printField field ++ printFields fields)

/-- The rest of a list after an item. -/
def printItems : List Value → List Char
  | [] => [']']
  | item :: items => ',' :: (print item ++ printItems items)

/-- The rest of an object after a field. -/
def printFields : List (String × Value) → List Char
  | [] => ['}']
  | field :: fields => ',' :: (printField field ++ printFields fields)

def printField : String × Value → List Char
  | (key, item) => printString key ++ ':' :: print item

end

mutual

/-- A value at the front, with at most this many nested steps. -/
def parse : Nat → List Char → Option (Value × List Char)
  | 0, _ => none
  | fuel + 1, chars =>
    match chars with
    | 'n' :: 'u' :: 'l' :: 'l' :: rest => some (.null, rest)
    | 't' :: 'r' :: 'u' :: 'e' :: rest => some (.bool true, rest)
    | 'f' :: 'a' :: 'l' :: 's' :: 'e' :: rest => some (.bool false, rest)
    | 'N' :: 'a' :: 'N' :: rest => some (.float .nan, rest)
    | 'I' :: 'n' :: 'f' :: 'i' :: 'n' :: 'i' :: 't' :: 'y' :: rest =>
      some (.float (.infinite false), rest)
    | '-' :: 'I' :: 'n' :: 'f' :: 'i' :: 'n' :: 'i' :: 't' :: 'y' :: rest =>
      some (.float (.infinite true), rest)
    | '"' :: rest => (parseString ('"' :: rest)).map fun found => (.str found.1, found.2)
    | '[' :: ']' :: rest => some (.list [], rest)
    | '[' :: rest => (parse fuel rest).bind fun item =>
      (parseItems fuel item.2).map fun items => (.list (item.1 :: items.1), items.2)
    | '{' :: '}' :: rest => some (.dict [], rest)
    | '{' :: rest => (parseField fuel rest).bind fun item =>
      (parseFields fuel item.2).map fun items => (.dict (item.1 :: items.1), items.2)
    | chars => parseNumber chars

def parseItems : Nat → List Char → Option (List Value × List Char)
  | 0, _ => none
  | fuel + 1, chars =>
    match chars with
    | ']' :: rest => some ([], rest)
    | ',' :: rest => (parse fuel rest).bind fun item =>
      (parseItems fuel item.2).map fun items => (item.1 :: items.1, items.2)
    | _ => none

def parseField : Nat → List Char → Option ((String × Value) × List Char)
  | 0, _ => none
  | fuel + 1, chars => (parseString chars).bind fun key =>
    match key.2 with
    | ':' :: rest => (parse fuel rest).map fun item => ((key.1, item.1), item.2)
    | _ => none

def parseFields : Nat → List Char → Option (List (String × Value) × List Char)
  | 0, _ => none
  | fuel + 1, chars =>
    match chars with
    | '}' :: rest => some ([], rest)
    | ',' :: rest => (parseField fuel rest).bind fun item =>
      (parseFields fuel item.2).map fun items => (item.1 :: items.1, items.2)
    | _ => none

end

theorem parse_number {fuel : Nat} {n : Int} {rest : List Char} :
    parse (fuel + 1) (printInt n ++ rest) = parseNumber (printInt n ++ rest) := by
  obtain ⟨c, digits, hdigits, hc⟩ := printNat_head n.natAbs
  rw [printInt]
  split
  -- no value but a numeral begins with a digit, or with a sign and a digit
  all_goals
    simp only [hdigits, List.cons_append]
    rw [parse.eq_def]
    dsimp only
    split
    all_goals first
      | rfl
      | (rename_i heq; exfalso; simp at heq; done)
      | (rename_i heq; exfalso; simp at heq; simp [heq] at hc)

/-- A value never begins like the end of a list. -/
theorem print_head (value : Value) : ∃ c rest, print value = c :: rest ∧ c ≠ ']' := by
  have hint : ∀ n : Int, ∃ c rest, printInt n = c :: rest ∧ c ≠ ']' := fun n => by
    rw [printInt]
    split
    · exact ⟨_, _, rfl, by decide⟩
    · obtain ⟨c, digits, hdigits, hc⟩ := printNat_head n.natAbs
      refine ⟨c, digits, hdigits, ?_⟩
      rintro rfl
      exact absurd hc (by decide)
  match value with
  | .null | .bool true | .bool false | .float (.infinite true) | .float (.infinite false)
  | .float .nan | .str _ | .list [] | .list (_ :: _) | .dict [] | .dict (_ :: _) =>
    exact ⟨_, _, by simp only [print, printString]; rfl, by decide⟩
  | .int n => rw [print]; exact hint n
  | .float (.finite q) =>
    obtain ⟨c, rest, hrest, hc⟩ := hint q.num
    exact ⟨c, _, by rw [print, printRat, hrest, List.cons_append], hc⟩

theorem parse_list (value : Value) (fuel : Nat) (rest : List Char) :
    parse (fuel + 1) ('[' :: (print value ++ rest)) = (parse fuel (print value ++ rest)).bind fun item =>
      (parseItems fuel item.2).map fun items => (.list (item.1 :: items.1), items.2) := by
  obtain ⟨c, chars, hchars, hc⟩ := print_head value
  rw [hchars, List.cons_append, parse.eq_def]
  dsimp only
  split
  all_goals first
    | rfl
    | (rename_i heq; exfalso; simp at heq; done)
    | (rename_i heq; exfalso; simp at heq; exact hc heq.1)
    | (rename_i heq; cases heq; rfl)
    | simp_all

theorem parse_dict (key : String) (fuel : Nat) (rest : List Char) :
    parse (fuel + 1) ('{' :: (printString key ++ rest)) =
      (parseField fuel (printString key ++ rest)).bind fun item =>
        (parseFields fuel item.2).map fun items => (.dict (item.1 :: items.1), items.2) := by
  rw [printString, List.cons_append, parse]
  rintro _ ⟨⟩

theorem ends_comma {rest : List Char} : Ends (',' :: rest) := by
  rintro _ ⟨⟩
  decide

theorem ends_bracket {rest : List Char} : Ends (']' :: rest) := by
  rintro _ ⟨⟩
  decide

theorem ends_brace {rest : List Char} : Ends ('}' :: rest) := by
  rintro _ ⟨⟩
  decide

theorem ends_printItems (items : List Value) (rest : List Char) : Ends (printItems items ++ rest) := by
  cases items with
  | nil => exact ends_bracket
  | cons item items => exact ends_comma

theorem ends_printFields (items : List (String × Value)) (rest : List Char) :
    Ends (printFields items ++ rest) := by
  cases items with
  | nil => exact ends_brace
  | cons item items => exact ends_comma

mutual

theorem parse_print : ∀ (value : Value) (fuel : Nat) {rest : List Char}, Ends rest →
    (print value).length < fuel → parse fuel (print value ++ rest) = some (value, rest)
  | _, 0, _, _, hfuel => nomatch hfuel
  | .null, fuel + 1, rest, hrest, hfuel => rfl
  | .bool true, fuel + 1, rest, hrest, hfuel => rfl
  | .bool false, fuel + 1, rest, hrest, hfuel => rfl
  | .int n, fuel + 1, rest, hrest, hfuel => by
    rw [print, parse_number, parseNumber_printInt n hrest]
  | .float (.finite q), fuel + 1, rest, hrest, hfuel => by
    have hnumber := parseNumber_printRat q hrest
    rw [print]
    rw [printRat, List.append_assoc] at hnumber ⊢
    rw [parse_number, hnumber]
  | .float (.infinite false), fuel + 1, rest, hrest, hfuel => rfl
  | .float (.infinite true), fuel + 1, rest, hrest, hfuel => rfl
  | .float .nan, fuel + 1, rest, hrest, hfuel => rfl
  | .str text, fuel + 1, rest, hrest, hfuel => by
    have hstring := parseString_printString text rest
    rw [print]
    rw [printString, List.cons_append] at hstring ⊢
    rw [parse, hstring, Option.map_some]
  | .list [], fuel + 1, rest, hrest, hfuel => rfl
  | .list (item :: items), fuel + 1, rest, hrest, hfuel => by
    simp only [print, List.length_cons, List.length_append] at hfuel
    have hitem := parse_print item fuel (ends_printItems items rest) (by omega)
    have hitems := parseItems_print items fuel rest (by omega)
    rw [print, List.cons_append, List.append_assoc, parse_list, hitem, Option.bind_some, hitems,
      Option.map_some]
  | .dict [], fuel + 1, rest, hrest, hfuel => rfl
  | .dict ((key, item) :: fields), fuel + 1, rest, hrest, hfuel => by
    simp only [print, List.length_cons, List.length_append] at hfuel
    have hfield := parseField_print (key, item) fuel (ends_printFields fields rest) (by omega)
    have hfields := parseFields_print fields fuel rest (by omega)
    rw [printField, List.append_assoc] at hfield
    rw [print, List.cons_append, List.append_assoc, printField, List.append_assoc, parse_dict, hfield,
      Option.bind_some, hfields, Option.map_some]

theorem parseItems_print : ∀ (items : List Value) (fuel : Nat) (rest : List Char),
    (printItems items).length < fuel → parseItems fuel (printItems items ++ rest) = some (items, rest)
  | _, 0, _, hfuel => nomatch hfuel
  | [], fuel + 1, rest, hfuel => rfl
  | item :: items, fuel + 1, rest, hfuel => by
    simp only [printItems, List.length_cons, List.length_append] at hfuel
    have hitem := parse_print item fuel (ends_printItems items rest) (by omega)
    have hitems := parseItems_print items fuel rest (by omega)
    rw [printItems, List.cons_append, List.append_assoc, parseItems, hitem, Option.bind_some, hitems,
      Option.map_some]

theorem parseField_print : ∀ (field : String × Value) (fuel : Nat) {rest : List Char}, Ends rest →
    (printField field).length < fuel → parseField fuel (printField field ++ rest) = some (field, rest)
  | _, 0, _, _, hfuel => nomatch hfuel
  | (key, item), fuel + 1, rest, hrest, hfuel => by
    simp only [printField, List.length_cons, List.length_append] at hfuel
    have hitem := parse_print item fuel hrest (by omega)
    rw [printField, List.append_assoc, parseField, parseString_printString, Option.bind_some,
      List.cons_append]
    simp [hitem]

theorem parseFields_print : ∀ (fields : List (String × Value)) (fuel : Nat) (rest : List Char),
    (printFields fields).length < fuel →
      parseFields fuel (printFields fields ++ rest) = some (fields, rest)
  | _, 0, _, hfuel => nomatch hfuel
  | [], fuel + 1, rest, hfuel => rfl
  | field :: fields, fuel + 1, rest, hfuel => by
    simp only [printFields, List.length_cons, List.length_append] at hfuel
    have hfield := parseField_print field fuel (ends_printFields fields rest) (by omega)
    have hfields := parseFields_print fields fuel rest (by omega)
    rw [printFields, List.cons_append, List.append_assoc, parseFields, hfield, Option.bind_some,
      hfields, Option.map_some]

end

/-! ### The codec -/

def dumps (value : Value) : String := String.ofList (print value)

def loads (text : String) : Except JsonError Value :=
  match parse (text.length + 1) text.toList with
  | some (value, []) => .ok value
  | _ => .error .decode

theorem loads_dumps (value : Value) : loads (dumps value) = .ok value := by
  have hends : Ends [] := by
    rintro _ ⟨⟩
  have hparse := parse_print value ((print value).length + 1) hends (Nat.lt_succ_self _)
  rw [List.append_nil] at hparse
  rw [loads, dumps, String.toList_ofList, String.length_ofList, hparse]

end TenantForge.Reference
