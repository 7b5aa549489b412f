import Mathlib.Data.List.Basic
import Mathlib.Data.List.Infix
/-!
# JSON strings

A Python string is a list of code points, lone surrogates among them. The encoder writes ASCII: a code
point beyond the basic plane becomes the two escapes of its surrogate pair, and the decoder joins such a
pair. So the text of a string tells its 16-bit `units` and no more: strings with the same units have the
same text, and a string is decoded with its pairs joined (`scanString_escape`).
-/

namespace PyJson

/-! ### Code points -/

/-- A code point of Unicode, a surrogate or not. -/
@[ext] structure CodePoint where
  val : Nat
  isLt : val < 0x110000
  deriving DecidableEq

abbrev Text := List CodePoint

theorem toNat_lt (c : Char) : c.toNat < 0x110000 := by
  rcases c.valid with h | h
  · exact Nat.lt_trans h (by decide)
  · exact h.2

def CodePoint.ofChar (c : Char) : CodePoint := ⟨c.toNat, toNat_lt c⟩

/-- The first halves of surrogate pairs. -/
def IsHigh (c : CodePoint) : Prop := 0xD800 ≤ c.val ∧ c.val < 0xDC00

/-- The second halves. -/
def IsLow (c : CodePoint) : Prop := 0xDC00 ≤ c.val ∧ c.val < 0xE000

/-- A code point of the basic plane. -/
def IsUnit (c : CodePoint) : Prop := c.val < 0x10000

instance (c : CodePoint) : Decidable (IsHigh c) := inferInstanceAs (Decidable (_ ∧ _))

instance (c : CodePoint) : Decidable (IsLow c) := inferInstanceAs (Decidable (_ ∧ _))

instance (c : CodePoint) : Decidable (IsUnit c) := inferInstanceAs (Decidable (_ < _))

theorem high_lt (c : CodePoint) : 0xD800 + (c.val - 0x10000) / 0x400 < 0x110000 := by
  have hlt := c.isLt
  omega

theorem low_lt (c : CodePoint) : 0xDC00 + (c.val - 0x10000) % 0x400 < 0x110000 := by omega

theorem pair_lt {hi lo : CodePoint} (hhi : IsHigh hi) (hlo : IsLow lo) :
    0x10000 + (hi.val - 0xD800) * 0x400 + (lo.val - 0xDC00) < 0x110000 := by
  obtain ⟨hhi, hhi'⟩ := hhi
  obtain ⟨hlo, hlo'⟩ := hlo
  omega

/-- The first half of the surrogate pair of a code point beyond the basic plane. -/
def high (c : CodePoint) : CodePoint := ⟨_, high_lt c⟩

def low (c : CodePoint) : CodePoint := ⟨_, low_lt c⟩

/-- The code point of a surrogate pair. -/
def pair (hi lo : CodePoint) (hhi : IsHigh hi) (hlo : IsLow lo) : CodePoint := ⟨_, pair_lt hhi hlo⟩

theorem high_val (c : CodePoint) : (high c).val = 0xD800 + (c.val - 0x10000) / 0x400 := rfl

theorem low_val (c : CodePoint) : (low c).val = 0xDC00 + (c.val - 0x10000) % 0x400 := rfl

theorem pair_val {hi lo : CodePoint} (hhi : IsHigh hi) (hlo : IsLow lo) :
    (pair hi lo hhi hlo).val = 0x10000 + (hi.val - 0xD800) * 0x400 + (lo.val - 0xDC00) := rfl

theorem isHigh_high {c : CodePoint} (h : ¬IsUnit c) : IsHigh (high c) := by
  have hlt := c.isLt
  rw [IsUnit] at h
  rw [IsHigh, high_val]
  omega

theorem isLow_low (c : CodePoint) : IsLow (low c) := by
  rw [IsLow, low_val]
  omega

theorem high_pair {hi lo : CodePoint} (hhi : IsHigh hi) (hlo : IsLow lo) : high (pair hi lo hhi hlo) = hi := by
  ext
  rw [high_val, pair_val]
  obtain ⟨hhi, hhi'⟩ := hhi
  obtain ⟨hlo, hlo'⟩ := hlo
  omega

theorem low_pair {hi lo : CodePoint} (hhi : IsHigh hi) (hlo : IsLow lo) : low (pair hi lo hhi hlo) = lo := by
  ext
  rw [low_val, pair_val]
  obtain ⟨hhi, hhi'⟩ := hhi
  obtain ⟨hlo, hlo'⟩ := hlo
  omega

theorem not_isUnit_pair {hi lo : CodePoint} (hhi : IsHigh hi) (hlo : IsLow lo) :
    ¬IsUnit (pair hi lo hhi hlo) := by
  rw [IsUnit, pair_val]
  omega

theorem pair_high_low {c : CodePoint} (h : ¬IsUnit c) :
    pair (high c) (low c) (isHigh_high h) (isLow_low c) = c := by
  ext
  rw [pair_val, high_val, low_val]
  rw [IsUnit] at h
  omega

/-- The 16-bit units of a code point. -/
def unitsOf (c : CodePoint) : Text := if IsUnit c then [c] else [high c, low c]

/-- The 16-bit units of a text. -/
def units (text : Text) : Text := text.flatMap unitsOf

/-- The text with its surrogate pairs joined, from the left. -/
def join : Text → Text
  | [] => []
  | [c] => [c]
  | hi :: lo :: rest =>
    if h : IsHigh hi ∧ IsLow lo then pair hi lo h.1 h.2 :: join rest
    else hi :: join (lo :: rest)

@[simp] theorem units_nil : units [] = [] := rfl

@[simp] theorem units_cons (c : CodePoint) (text : Text) : units (c :: text) = unitsOf c ++ units text :=
  List.flatMap_cons

theorem unitsOf_unit {c : CodePoint} (h : IsUnit c) : unitsOf c = [c] := if_pos h

theorem unitsOf_pair {hi lo : CodePoint} (hhi : IsHigh hi) (hlo : IsLow lo) :
    unitsOf (pair hi lo hhi hlo) = [hi, lo] := by
  rw [unitsOf, if_neg (not_isUnit_pair hhi hlo), high_pair, low_pair]

theorem isUnit_of_mem_units {text : Text} {c : CodePoint} (h : c ∈ units text) : IsUnit c := by
  obtain ⟨d, -, hd⟩ := List.mem_flatMap.mp h
  rw [unitsOf] at hd
  split at hd
  · rw [List.mem_singleton.mp hd]
    assumption
  · rename_i hbeyond
    simp only [List.mem_cons, List.not_mem_nil, or_false] at hd
    rcases hd with rfl | rfl
    · exact Nat.lt_trans (isHigh_high hbeyond).2 (by decide)
    · exact Nat.lt_trans (isLow_low d).2 (by decide)

/-- Joining keeps the units. -/
theorem units_join {text : Text} (h : ∀ c ∈ text, IsUnit c) : units (join text) = text := by
  induction text using join.induct with
  | case1 => rfl
  | case2 c => rw [join, units_cons, unitsOf_unit (h c List.mem_cons_self)]; rfl
  | case3 hi lo rest hpair ih =>
    have hrest : ∀ c ∈ rest, IsUnit c := fun c hc => h c (by simp [hc])
    rw [join, dif_pos hpair, units_cons, unitsOf_pair hpair.1 hpair.2, ih hrest]
    rfl
  | case4 hi lo rest hpair ih =>
    have hrest : ∀ c ∈ lo :: rest, IsUnit c := fun c hc => h c (List.mem_cons_of_mem _ hc)
    rw [join, dif_neg hpair, units_cons, unitsOf_unit (h hi List.mem_cons_self), ih hrest]
    rfl

/-- What the decoder makes of a string. -/
def normText (text : Text) : Text := join (units text)

@[simp] theorem units_normText (text : Text) : units (normText text) = units text :=
  units_join fun _ => isUnit_of_mem_units

theorem normText_eq_iff {s t : Text} : normText s = normText t ↔ units s = units t := by
  refine ⟨fun h => ?_, fun h => congrArg join h⟩
  rw [← units_normText s, h, units_normText]

/-- A text without surrogates is decoded as it is. -/
theorem normText_eq_self {text : Text} (h : ∀ c ∈ text, ¬IsHigh c ∧ ¬IsLow c) : normText text = text := by
  induction text with
  | nil => rfl
  | cons c text ih =>
    obtain ⟨hc, htext⟩ := List.forall_mem_cons.mp h
    have ih := ih htext
    rw [normText] at ih ⊢
    rw [units_cons, unitsOf]
    split
    · cases hrest : units text with
      | nil =>
        rw [hrest] at ih
        rw [← ih]
        rfl
      | cons d rest =>
        rw [hrest] at ih
        rw [List.singleton_append, join, dif_neg fun hpair => hc.1 hpair.1, ih]
    · rename_i hbeyond
      rw [List.cons_append, List.singleton_append, join, dif_pos ⟨isHigh_high hbeyond, isLow_low c⟩,
        pair_high_low hbeyond, ih]

/-! ### Escapes -/

/-- `ESCAPE_DCT`: the code points whose escape is a letter. -/
def letterEscapes : List (Nat × Char) :=
  [(0x5C, '\\'), (0x22, '"'), (0x08, 'b'), (0x0C, 'f'), (0x0A, 'n'), (0x0D, 'r'), (0x09, 't')]

/-- `'{0:04x}'.format(n)` of a number below `0x10000`. -/
def hex4 (n : Nat) : List Char :=
  [Nat.digitChar (n / 4096 % 16), Nat.digitChar (n / 256 % 16), Nat.digitChar (n / 16 % 16),
    Nat.digitChar (n % 16)]

/-- One unit, as `encode_basestring_ascii` writes it. -/
def escapeUnit (c : CodePoint) : List Char :=
  match letterEscapes.lookup c.val with
  | some letter => ['\\', letter]
  | none => if 0x20 ≤ c.val ∧ c.val ≤ 0x7E then [Char.ofNat c.val] else '\\' :: 'u' :: hex4 c.val

/-- `encode_basestring_ascii(text)` -/
def encodeString (text : Text) : List Char := '"' :: ((units text).flatMap escapeUnit ++ ['"'])

def hexDigit (c : Char) : Option (Fin 16) := ("0123456789abcdef".toList.findFinIdx? fun d => d = c.toLower)

/-- The unit of a `\uXXXX` escape. -/
def unitOfHex (a b c d : Char) : Option CodePoint :=
  match hexDigit a, hexDigit b, hexDigit c, hexDigit d with
  | some a, some b, some c, some d => some ⟨((a.val * 16 + b.val) * 16 + c.val) * 16 + d.val, by omega⟩
  | _, _, _, _ => none

/-- `BACKSLASH`: the code points of the escapes with a letter. -/
def backslash : Char → Option CodePoint
  | '"' => some (.ofChar '"')
  | '\\' => some (.ofChar '\\')
  | '/' => some (.ofChar '/')
  | 'b' => some ⟨0x08, by decide⟩
  | 'f' => some ⟨0x0C, by decide⟩
  | 'n' => some ⟨0x0A, by decide⟩
  | 'r' => some ⟨0x0D, by decide⟩
  | 't' => some ⟨0x09, by decide⟩
  | _ => none

/-- The characters up to the closing quote, each escape read as one unit, and what follows the quote. A
control character must be escaped. -/
def scanUnits : List Char → Option (Text × List Char)
  | [] => none
  | '"' :: rest => some ([], rest)
  | ['\\'] => none
  | '\\' :: 'u' :: a :: b :: c :: d :: rest => (unitOfHex a b c d).bind fun unit =>
    (scanUnits rest).map fun found => (unit :: found.1, found.2)
  | '\\' :: letter :: rest => (backslash letter).bind fun unit =>
    (scanUnits rest).map fun found => (unit :: found.1, found.2)
  | c :: rest =>
    if c.toNat < 0x20 then none else (scanUnits rest).map fun found => (.ofChar c :: found.1, found.2)

/-- `scanstring`, after the opening quote. Two escapes that are a surrogate pair are one code point; no
other character of a document is a surrogate. -/
def scanString (chars : List Char) : Option (Text × List Char) :=
  (scanUnits chars).map fun found => (join found.1, found.2)

/-- A unit in front of what is scanned. -/
def consUnit (c : CodePoint) (found : Text × List Char) : Text × List Char := (c :: found.1, found.2)

theorem hexDigit_digitChar : ∀ d < 16, (hexDigit (Nat.digitChar d)).map Fin.val = some d := by decide

theorem unitOfHex_hex4 {c : CodePoint} (h : IsUnit c) :
    unitOfHex (Nat.digitChar (c.val / 4096 % 16)) (Nat.digitChar (c.val / 256 % 16))
      (Nat.digitChar (c.val / 16 % 16)) (Nat.digitChar (c.val % 16)) = some c := by
  have hdigit : ∀ n, ∃ d : Fin 16, hexDigit (Nat.digitChar (n % 16)) = some d ∧ d.val = n % 16 :=
    fun n => Option.map_eq_some_iff.mp (hexDigit_digitChar (n % 16) (Nat.mod_lt _ (by decide)))
  obtain ⟨d₃, h₃, hd₃⟩ := hdigit (c.val / 4096)
  obtain ⟨d₂, h₂, hd₂⟩ := hdigit (c.val / 256)
  obtain ⟨d₁, h₁, hd₁⟩ := hdigit (c.val / 16)
  obtain ⟨d₀, h₀, hd₀⟩ := hdigit c.val
  simp only [unitOfHex, h₃, h₂, h₁, h₀, Option.some.injEq]
  ext
  rw [IsUnit] at h
  simp only [hd₃, hd₂, hd₁, hd₀]
  omega

theorem letterEscapes_spec : ∀ escape ∈ letterEscapes,
    (backslash escape.2).map CodePoint.val = some escape.1 ∧ escape.2 ≠ 'u' := by decide

theorem mem_of_lookup {n : Nat} {letter : Char} (h : letterEscapes.lookup n = some letter) :
    (n, letter) ∈ letterEscapes := by
  obtain ⟨before, after, hsplit, -⟩ := List.lookup_eq_some_iff.mp h
  rw [hsplit]
  simp

/-- A printable character that is neither a quote nor a backslash stands for itself. -/
theorem scanUnits_plain {c : CodePoint} (hlow : 0x20 ≤ c.val) (hhigh : c.val ≤ 0x7E)
    (hletter : letterEscapes.lookup c.val = none) (rest : List Char) :
    scanUnits (Char.ofNat c.val :: rest) = (scanUnits rest).map (consUnit c) := by
  have hvalid : c.val.isValidChar := Or.inl (by omega)
  have hnat : (Char.ofNat c.val).toNat = c.val := by
    rw [Char.ofNat, dif_pos hvalid]
    rfl
  have hne : ∀ d : Char, (letterEscapes.lookup d.toNat).isSome → Char.ofNat c.val ≠ d := by
    rintro d hd rfl
    rw [hnat, hletter] at hd
    cases hd
  have hquote := hne '"' (by decide)
  have hslash := hne '\\' (by decide)
  have hchar : CodePoint.ofChar (Char.ofNat c.val) = c := CodePoint.ext hnat
  rw [scanUnits, if_neg (by omega), hchar]
  · rfl
  · exact hquote
  · exact fun hc _ => hslash hc
  · exact fun _ _ _ _ _ hc => absurd hc hslash
  · exact fun _ _ hc => absurd hc hslash

theorem scanUnits_escapeUnit {c : CodePoint} (h : IsUnit c) (rest : List Char) :
    scanUnits (escapeUnit c ++ rest) = (scanUnits rest).map (consUnit c) := by
  rw [escapeUnit]
  split
  · rename_i letter hletter
    obtain ⟨hbackslash, hu⟩ := letterEscapes_spec _ (mem_of_lookup hletter)
    obtain ⟨d, hd, hval⟩ := Option.map_eq_some_iff.mp hbackslash
    obtain rfl : d = c := CodePoint.ext hval
    rw [List.cons_append, List.singleton_append, scanUnits, hd]
    · rfl
    · exact fun _ _ _ _ _ hu' => absurd hu' hu
  · rename_i hletter
    split
    · rename_i hprintable
      exact scanUnits_plain hprintable.1 hprintable.2 hletter rest
    · rw [hex4]
      simp only [List.cons_append, List.nil_append]
      rw [scanUnits, unitOfHex_hex4 h]
      rfl

theorem scanUnits_escape {text : Text} (h : ∀ c ∈ text, IsUnit c) (rest : List Char) :
    scanUnits (text.flatMap escapeUnit ++ '"' :: rest) = some (text, rest) := by
  induction text with
  | nil => rfl
  | cons c text ih =>
    obtain ⟨hc, htext⟩ := List.forall_mem_cons.mp h
    rw [List.flatMap_cons, List.append_assoc, scanUnits_escapeUnit hc, ih htext]
    rfl

/-- **A string is decoded** with its surrogate pairs joined. -/
theorem scanString_escape (text : Text) (rest : List Char) :
    scanString ((units text).flatMap escapeUnit ++ '"' :: rest) = some (normText text, rest) := by
  rw [scanString, scanUnits_escape fun _ => isUnit_of_mem_units]
  rfl

@[simp] theorem encodeString_normText (text : Text) : encodeString (normText text) = encodeString text := by
  rw [encodeString, units_normText, encodeString]

end PyJson
