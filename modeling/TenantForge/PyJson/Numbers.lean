import TenantForge.Python.Text
/-!
# JSON numerals

`NUMBER_RE`, the numeral at the front of a document: a fraction or an exponent belongs to it only when it
has digits, and makes it a float. What follows a value in a document belongs to no numeral, so a numeral
is scanned the same way alone and in front of it (`numeral_append`).
-/

namespace PyJson

/-- What `NUMBER_RE` matches, and what follows it. -/
structure Numeral where
  text : List Char
  isFloat : Bool
  rest : List Char
  deriving DecidableEq

def digits (chars : List Char) : List Char := chars.takeWhile Char.isDigit

def afterDigits (chars : List Char) : List Char := chars.dropWhile Char.isDigit

/-- `0|[1-9][0-9]*` -/
def magnitude : List Char → Option (List Char × List Char)
  | [] => none
  | '0' :: rest => some (['0'], rest)
  | c :: rest => if c.isDigit then some (c :: digits rest, afterDigits rest) else none

/-- `-?(?:0|[1-9][0-9]*)` -/
def integer : List Char → Option (List Char × List Char)
  | '-' :: rest => (magnitude rest).map fun found => ('-' :: found.1, found.2)
  | chars => magnitude chars

/-- `[0-9]+` after the characters `lead`, or nothing. -/
def digitsAfter (lead rest chars : List Char) : List Char × List Char :=
  if digits rest = [] then ([], chars) else (lead ++ digits rest, afterDigits rest)

/-- `(\.[0-9]+)?` -/
def fraction : List Char → List Char × List Char
  | '.' :: rest => digitsAfter ['.'] rest ('.' :: rest)
  | chars => ([], chars)

/-- `[-+]?` -/
def sign : List Char → List Char × List Char
  | '-' :: rest => (['-'], rest)
  | '+' :: rest => (['+'], rest)
  | chars => ([], chars)

/-- `([eE][-+]?[0-9]+)?` -/
def exponent : List Char → List Char × List Char
  | [] => ([], [])
  | c :: rest =>
    if c = 'e' ∨ c = 'E' then digitsAfter (c :: (sign rest).1) (sign rest).2 (c :: rest)
    else ([], c :: rest)

/-- The match of `NUMBER_RE` at the front. -/
def numeral (chars : List Char) : Option Numeral :=
  (integer chars).map fun whole =>
    let part := fraction whole.2
    let power := exponent part.2
    ⟨whole.1 ++ part.1 ++ power.1, part.1 ≠ [] || power.1 ≠ [], power.2⟩

/-- What may follow a value within an array or an object, or nothing. -/
def Stops (rest : List Char) : Prop := ∀ c ∈ rest.head?, c = ',' ∨ c = ']' ∨ c = '}'

theorem stops_nil : Stops [] := by
  rintro _ ⟨⟩

theorem stops_comma {rest : List Char} : Stops (',' :: rest) := by
  rintro _ ⟨⟩
  exact Or.inl rfl

theorem stops_bracket {rest : List Char} : Stops (']' :: rest) := by
  rintro _ ⟨⟩
  exact Or.inr (Or.inl rfl)

theorem stops_brace {rest : List Char} : Stops ('}' :: rest) := by
  rintro _ ⟨⟩
  exact Or.inr (Or.inr rfl)

theorem Stops.head {c : Char} {rest : List Char} (h : Stops (c :: rest)) : c = ',' ∨ c = ']' ∨ c = '}' :=
  h c rfl

theorem Stops.ne_cons {c : Char} {rest after : List Char} (h : Stops rest)
    (hc : ¬(c = ',' ∨ c = ']' ∨ c = '}')) : rest ≠ c :: after := by
  rintro rfl
  exact hc h.head

/-! ### In front of something else -/

section Append

variable {rest : List Char}

theorem digits_append (h : Stops rest) (chars : List Char) : digits (chars ++ rest) = digits chars := by
  induction chars with
  | nil =>
    cases rest with
    | nil => rfl
    | cons c rest => rcases h.head with rfl | rfl | rfl <;> rfl
  | cons c chars ih =>
    rw [digits, digits, List.cons_append, List.takeWhile_cons, List.takeWhile_cons, ← digits, ← digits, ih]

theorem afterDigits_append (h : Stops rest) (chars : List Char) :
    afterDigits (chars ++ rest) = afterDigits chars ++ rest := by
  induction chars with
  | nil =>
    cases rest with
    | nil => rfl
    | cons c rest => rcases h.head with rfl | rfl | rfl <;> rfl
  | cons c chars ih =>
    rw [afterDigits, afterDigits, List.cons_append, List.dropWhile_cons, List.dropWhile_cons,
      ← afterDigits, ← afterDigits, ih]
    split <;> rfl

theorem magnitude_append (h : Stops rest) {chars : List Char} {found : List Char × List Char}
    (hfound : magnitude chars = some found) : magnitude (chars ++ rest) = some (found.1, found.2 ++ rest) := by
  revert hfound
  fun_cases magnitude chars with
  | case1 => rintro ⟨⟩
  | case2 chars =>
    rintro ⟨⟩
    rfl
  | case3 c chars hzero hdigit =>
    rintro ⟨⟩
    rw [List.cons_append, magnitude, if_pos hdigit, digits_append h, afterDigits_append h]
    exact hzero
  | case4 => rintro ⟨⟩

theorem integer_append (h : Stops rest) {chars : List Char} {found : List Char × List Char}
    (hfound : integer chars = some found) : integer (chars ++ rest) = some (found.1, found.2 ++ rest) := by
  revert hfound
  fun_cases integer chars with
  | case1 chars =>
    intro hfound
    obtain ⟨whole, hwhole, rfl⟩ := Option.map_eq_some_iff.mp hfound
    rw [List.cons_append, integer, magnitude_append h hwhole]
    rfl
  | case2 chars hminus =>
    intro hfound
    rw [integer, magnitude_append h hfound]
    cases chars with
    | nil => cases hfound
    | cons c chars => exact fun _ heq => hminus _ (congrArg (· :: chars) (List.cons.inj heq).1)

theorem digitsAfter_append (h : Stops rest) (lead after chars : List Char) :
    digitsAfter lead (after ++ rest) (chars ++ rest) =
      ((digitsAfter lead after chars).1, (digitsAfter lead after chars).2 ++ rest) := by
  rw [digitsAfter, digitsAfter, digits_append h, afterDigits_append h]
  split <;> rfl

theorem fraction_append (h : Stops rest) (chars : List Char) :
    fraction (chars ++ rest) = ((fraction chars).1, (fraction chars).2 ++ rest) := by
  fun_cases fraction chars with
  | case1 chars => exact digitsAfter_append h ['.'] chars ('.' :: chars)
  | case2 chars hdot =>
    rw [fraction]
    rintro after heq
    cases chars with
    | nil => exact h.ne_cons (by decide) heq
    | cons c chars => exact hdot _ (congrArg (· :: chars) (List.cons.inj heq).1)

theorem sign_append (h : Stops rest) (chars : List Char) :
    sign (chars ++ rest) = ((sign chars).1, (sign chars).2 ++ rest) := by
  fun_cases sign chars with
  | case1 | case2 => rfl
  | case3 chars hminus hplus =>
    cases chars with
    | nil =>
      rw [sign]
      · exact fun _ => h.ne_cons (by decide)
      · exact fun _ => h.ne_cons (by decide)
    | cons c chars =>
      rw [sign]
      · exact fun _ heq => hminus _ (congrArg (· :: chars) (List.cons.inj heq).1)
      · exact fun _ heq => hplus _ (congrArg (· :: chars) (List.cons.inj heq).1)

theorem exponent_append (h : Stops rest) (chars : List Char) :
    exponent (chars ++ rest) = ((exponent chars).1, (exponent chars).2 ++ rest) := by
  cases chars with
  | nil =>
    cases rest with
    | nil => rfl
    | cons c rest => rcases h.head with rfl | rfl | rfl <;> rfl
  | cons c chars =>
    rw [List.cons_append, exponent, exponent, sign_append h]
    split
    · exact digitsAfter_append h _ _ (c :: chars)
    · rfl

/-- **A numeral is scanned the same way** in front of what may follow a value. -/
theorem numeral_append (h : Stops rest) {chars : List Char} {found : Numeral}
    (hfound : numeral chars = some found) :
    numeral (chars ++ rest) = some { found with rest := found.rest ++ rest } := by
  obtain ⟨whole, hwhole, rfl⟩ := Option.map_eq_some_iff.mp hfound
  rw [numeral, integer_append h hwhole, Option.map_some]
  dsimp only
  rw [fraction_append h, exponent_append h]

end Append

/-! ### Integers -/

/-- No numeral but that of zero begins with `0`. -/
theorem head_toDigits {n : Nat} (h : n ≠ 0) : (Nat.toDigits 10 n).head? ≠ some '0' := by
  induction n using Nat.strong_induction_on with
  | _ n ih =>
    by_cases hsmall : n < 10
    · rw [Nat.toDigits_of_lt_base hsmall]
      have hdigit : ∀ d < 10, d ≠ 0 → [Nat.digitChar d].head? ≠ some '0' := by decide
      exact hdigit n hsmall h
    · have hten : 10 ≤ n := by omega
      have hquotient := ih (n / 10) (by omega) (by omega)
      rw [Nat.toDigits_of_base_le (by decide) hten, List.head?_append_of_ne_nil _ Nat.toDigits_ne_nil]
      exact hquotient

theorem magnitude_toDigits (n : Nat) : magnitude (Nat.toDigits 10 n) = some (Nat.toDigits 10 n, []) := by
  by_cases hzero : n = 0
  · rw [hzero]
    rfl
  · have hhead := head_toDigits hzero
    have hdigits : ∀ c ∈ Nat.toDigits 10 n, c.isDigit = true := fun c => Python.isDigit_of_mem
    cases htext : Nat.toDigits 10 n with
    | nil => exact absurd htext Nat.toDigits_ne_nil
    | cons c rest =>
      rw [htext] at hhead hdigits
      obtain ⟨hc, hrest⟩ := List.forall_mem_cons.mp hdigits
      rw [magnitude, if_pos hc, digits, afterDigits, List.takeWhile_eq_self_iff.mpr hrest,
        List.dropWhile_eq_nil_iff.mpr hrest]
      rintro rfl
      exact hhead rfl

/-- The text of an integer is its own numeral. -/
theorem numeral_toString (n : Int) : numeral (toString n).toList = some ⟨(toString n).toList, false, []⟩ := by
  have hinteger : integer (toString n).toList = some ((toString n).toList, []) := by
    rcases Python.toString_cases n with ⟨-, htext⟩ | ⟨-, htext⟩
    · have hmagnitude := magnitude_toDigits n.toNat
      rw [htext, integer, hmagnitude]
      rintro rest hrest
      have hminus : '-' ∈ Nat.toDigits 10 n.toNat := hrest ▸ List.mem_cons_self
      exact absurd (Python.isDigit_of_mem hminus) (by decide)
    · rw [htext, integer, magnitude_toDigits]
      rfl
  rw [numeral, hinteger]
  simp [fraction, exponent]

/-- A numeral begins with a digit, or with a sign and a digit. -/
theorem numeral_head {chars : List Char} {found : Numeral} (h : numeral chars = some found) :
    ∃ c rest, c.isDigit = true ∧ (chars = c :: rest ∨ chars = '-' :: c :: rest) := by
  have hmagnitude : ∀ {chars found}, magnitude chars = some found →
      ∃ c rest, c.isDigit = true ∧ chars = c :: rest := by
    intro chars found
    fun_cases magnitude chars with
    | case1 => rintro ⟨⟩
    | case2 rest => exact fun _ => ⟨'0', rest, rfl, rfl⟩
    | case3 c rest _ hc => exact fun _ => ⟨c, rest, hc, rfl⟩
    | case4 => rintro ⟨⟩
  obtain ⟨whole, hwhole, -⟩ := Option.map_eq_some_iff.mp h
  revert hwhole
  fun_cases integer chars with
  | case1 chars =>
    intro hwhole
    obtain ⟨unsigned, hunsigned, -⟩ := Option.map_eq_some_iff.mp hwhole
    obtain ⟨c, rest, hc, rfl⟩ := hmagnitude hunsigned
    exact ⟨c, rest, hc, Or.inr rfl⟩
  | case2 chars =>
    intro hwhole
    obtain ⟨c, rest, hc, hchars⟩ := hmagnitude hwhole
    exact ⟨c, rest, hc, Or.inl hchars⟩

end PyJson
