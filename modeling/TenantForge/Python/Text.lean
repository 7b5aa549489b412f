import Mathlib.Algebra.Group.Nat.Defs
import Mathlib.Data.List.DropRight
import Mathlib.Data.List.Basic
/-!
# Python text

`str.strip`, `str.partition`, `int(text)` and `str(n)` on lists of characters. Digits are the decimal
digits of Latin-1, which are those of ASCII. `parseInt_of_intText` and `intText_of_parseInt` say that the
conversions between numbers and numerals undo each other within the limit on the digits.
-/

namespace Python

/-! ### Stripping -/

/-- `str.isspace` of one character. -/
def isSpace (c : Char) : Bool :=
  let n := c.toNat
  (9 ≤ n && n ≤ 13) || (28 ≤ n && n ≤ 32) || n = 0x85 || n = 0xA0 || n = 0x1680 ||
    (0x2000 ≤ n && n ≤ 0x200A) || n = 0x2028 || n = 0x2029 || n = 0x202F || n = 0x205F || n = 0x3000

/-- `str.isascii` of one character. -/
def isAscii (c : Char) : Bool := c.toNat < 128

/-- The text without the characters at both ends that satisfy `p`. -/
def stripWhere (p : Char → Bool) (text : List Char) : List Char := (text.dropWhile p).rdropWhile p

/-- `text.strip()`. -/
def strip (text : List Char) : List Char := stripWhere isSpace text

variable {p : Char → Bool} {text before after : List Char}

theorem rdropWhile_append (h : ∀ c ∈ after, p c = true) :
    (text ++ after).rdropWhile p = text.rdropWhile p := by
  rw [List.rdropWhile, List.reverse_append, List.dropWhile_append_of_pos fun c hc =>
    h c (List.mem_reverse.mp hc), ← List.rdropWhile]

/-- What is added at the ends is taken off again. -/
theorem stripWhere_append (hbefore : ∀ c ∈ before, p c = true) (hafter : ∀ c ∈ after, p c = true) :
    stripWhere p (before ++ (text ++ after)) = stripWhere p text := by
  rw [stripWhere, stripWhere, List.dropWhile_append_of_pos hbefore, List.dropWhile_append]
  split
  · rename_i hempty
    rw [List.isEmpty_iff.mp hempty, List.dropWhile_eq_nil_iff.mpr hafter]
  · exact rdropWhile_append hafter

theorem stripWhere_eq_self (h : ∀ c ∈ text, p c = false) : stripWhere p text = text := by
  have hdrop : text.dropWhile p = text := by
    cases text with
    | nil => rfl
    | cons c text => exact List.dropWhile_cons_of_neg (by simp [h c List.mem_cons_self])
  rw [stripWhere, hdrop, List.rdropWhile_eq_self_iff]
  intro hne
  simp [h _ (List.getLast_mem hne)]

/-- What is left begins where the text goes on after what is taken off in front. -/
theorem exists_stripWhere_append (p : Char → Bool) (text : List Char) :
    ∃ rest, stripWhere p text ++ rest = text.dropWhile p :=
  List.rdropWhile_prefix p (text.dropWhile p)

theorem length_stripWhere_le (p : Char → Bool) (text : List Char) :
    (stripWhere p text).length ≤ text.length := by
  obtain ⟨rest, hrest⟩ := exists_stripWhere_append p text
  have hlength := congrArg List.length hrest
  have hle := (text.dropWhile_suffix p).length_le
  rw [List.length_append] at hlength
  omega

theorem head_dropWhile {c : Char} (h : c ∈ (text.dropWhile p).head?) : p c = false := by
  have hhead := List.head?_dropWhile_not p text
  rw [Option.mem_def.mp h] at hhead
  exact hhead

/-- Nothing is left of a text if and only if all of it is taken off. -/
theorem stripWhere_eq_nil_iff : stripWhere p text = [] ↔ ∀ c ∈ text, p c = true := by
  rw [stripWhere, List.rdropWhile_eq_nil_iff]
  refine ⟨fun h => ?_, fun h c hc => h c ((text.dropWhile_suffix p).mem hc)⟩
  cases hdrop : text.dropWhile p with
  | nil => exact List.dropWhile_eq_nil_iff.mp hdrop
  | cons c rest =>
    have hhead : c ∈ (text.dropWhile p).head? := by
      rw [hdrop]
      rfl
    have hkept := head_dropWhile hhead
    rw [h c (hdrop ▸ List.mem_cons_self)] at hkept
    cases hkept

/-- The ends of what is left are not taken off again. -/
theorem stripWhere_ends (p : Char → Bool) (text : List Char) :
    (∀ c ∈ (stripWhere p text).head?, p c = false) ∧ ∀ c ∈ (stripWhere p text).getLast?, p c = false := by
  refine ⟨fun c hc => ?_, fun c hc => ?_⟩
  · obtain ⟨rest, hrest⟩ := exists_stripWhere_append p text
    have hhead : c ∈ (text.dropWhile p).head? := by
      rw [← hrest, List.head?_append, Option.mem_def.mp hc]
      rfl
    exact head_dropWhile hhead
  · have hne : stripWhere p text ≠ [] := by
      rintro hnil
      rw [hnil] at hc
      cases hc
    have hlast := (text.dropWhile p).rdropWhile_last_not p hne
    rw [List.getLast?_eq_some_getLast hne, Option.mem_some_iff] at hc
    rw [← hc]
    exact Bool.eq_false_iff.mpr hlast

/-! ### Partitioning -/

section Partition

variable {α : Type} [DecidableEq α]

/-- `text.partition(separator)`: what stands before the first separator, and what stands after it if
there is one. -/
def partition (separator : α) (text : List α) : List α × Option (List α) :=
  (text.takeWhile (· ≠ separator), (text.dropWhile (· ≠ separator)).tail?)

theorem partition_append {separator : α} {key value : List α} (h : separator ∉ key) :
    partition separator (key ++ separator :: value) = (key, some value) := by
  have hkey : ∀ c ∈ key, decide (c ≠ separator) = true := fun c hc => by
    simpa using fun heq : c = separator => h (heq ▸ hc)
  rw [partition, List.takeWhile_append_of_pos hkey, List.dropWhile_append_of_pos hkey]
  simp

/-- The first separator is found again. -/
theorem append_cons_inj {separator : α} {a b x y : List α} (ha : separator ∉ a) (hb : separator ∉ b)
    (h : a ++ separator :: x = b ++ separator :: y) : a = b ∧ x = y := by
  have hparts := congrArg (partition separator) h
  rw [partition_append ha, partition_append hb, Prod.mk.injEq, Option.some.injEq] at hparts
  exact hparts

end Partition

/-! ### Numerals -/

/-- The limit of the interpreter on the digits of a numeral. -/
def maxDigits : Nat := 4300

/-- The digits of a numeral, without the underscores that may stand between two of them. The flag says
whether a digit came just before. -/
def scanDigits : Bool → List Char → Option (List Char)
  | afterDigit, [] => if afterDigit then some [] else none
  | afterDigit, c :: rest =>
    if c.isDigit then (scanDigits true rest).map (c :: ·)
    else if c = '_' ∧ afterDigit = true then scanDigits false rest
    else none

/-- The blanks that `int` takes off: among the ASCII characters those of C only. -/
def isIntSpace (c : Char) : Bool :=
  c = ' ' || (9 ≤ c.toNat && c.toNat ≤ 13) || (127 ≤ c.toNat && isSpace c)

/-- The sign of a numeral, and the rest. -/
def splitSign : List Char → Bool × List Char
  | '-' :: rest => (true, rest)
  | '+' :: rest => (false, rest)
  | rest => (false, rest)

/-- `int(text)`; `none` is a `ValueError`. -/
def parseInt (text : List Char) : Option Int :=
  let (negative, numeral) := splitSign (stripWhere isIntSpace text)
  (scanDigits false numeral).bind fun digits =>
    if maxDigits < digits.length then none
    else
      let magnitude := Nat.ofDigitChars 10 digits 0
      some (if negative then -(magnitude : Int) else magnitude)

/-- `str(n)`; `none` is a `ValueError`. -/
def intText (n : Int) : Option (List Char) :=
  if maxDigits < (Nat.toDigits 10 n.natAbs).length then none else some (toString n).toList

theorem isDigit_of_mem {n : Nat} {c : Char} (h : c ∈ Nat.toDigits 10 n) : c.isDigit = true :=
  Nat.isDigit_of_mem_toDigits (by decide) (by decide) h

theorem toString_cases (n : Int) : (0 ≤ n ∧ (toString n).toList = Nat.toDigits 10 n.toNat) ∨
    (n < 0 ∧ (toString n).toList = '-' :: Nat.toDigits 10 (-n).toNat) := by
  rw [Int.toString_eq_repr, Int.repr_eq_if]
  split
  · exact Or.inl ⟨by assumption, by simp⟩
  · exact Or.inr ⟨by omega, by simp⟩

/-- A numeral consists of digits and perhaps a sign. -/
theorem isDigit_of_mem_toString {n : Int} {c : Char} (h : c ∈ (toString n).toList) :
    c.isDigit = true ∨ c = '-' := by
  rcases toString_cases n with ⟨_, htext⟩ | ⟨_, htext⟩
  · exact Or.inl (isDigit_of_mem (htext ▸ h))
  · rw [htext, List.mem_cons] at h
    exact h.symm.imp_left isDigit_of_mem

theorem toString_injective {m n : Int} (h : toString m = toString n) : m = n := by
  have hnat : ∀ a b : Nat, Nat.toDigits 10 a = Nat.toDigits 10 b → a = b := fun a b hab => by
    rw [← Nat.ofDigitChars_ten_toDigits (n := a), hab, Nat.ofDigitChars_ten_toDigits]
  have hsign : ∀ (a : Nat) (rest : List Char), Nat.toDigits 10 a ≠ '-' :: rest := fun a rest ha =>
    absurd (isDigit_of_mem (ha ▸ List.mem_cons_self)) (by decide)
  rcases toString_cases m with ⟨hm, hm'⟩ | ⟨hm, hm'⟩ <;>
    rcases toString_cases n with ⟨hn, hn'⟩ | ⟨hn, hn'⟩ <;> rw [h, hn'] at hm'
  · have := hnat _ _ hm'
    omega
  · exact absurd hm'.symm (hsign _ _)
  · exact absurd hm' (hsign _ _)
  · have := hnat _ _ (List.cons.inj hm').2
    omega

theorem scanDigits_of_digits {digits : List Char} (h : ∀ c ∈ digits, c.isDigit = true) :
    scanDigits true digits = some digits := by
  induction digits with
  | nil => rfl
  | cons c digits ih =>
    obtain ⟨hc, hdigits⟩ := List.forall_mem_cons.mp h
    rw [scanDigits, if_pos hc, ih hdigits, Option.map_some]

/-- The first character of a numeral has to be a digit. -/
theorem scanDigits_toDigits (n : Nat) :
    scanDigits false (Nat.toDigits 10 n) = some (Nat.toDigits 10 n) := by
  cases hdigits : Nat.toDigits 10 n with
  | nil => exact absurd hdigits Nat.toDigits_ne_nil
  | cons c rest =>
    have hall : ∀ d ∈ c :: rest, d.isDigit = true := fun d hd => isDigit_of_mem (hdigits ▸ hd)
    obtain ⟨hc, hrest⟩ := List.forall_mem_cons.mp hall
    rw [scanDigits, if_pos hc, scanDigits_of_digits hrest, Option.map_some]

theorem isDigit_of_scanDigits {afterDigit : Bool} {numeral digits : List Char}
    (h : scanDigits afterDigit numeral = some digits) : ∀ c ∈ digits, c.isDigit = true := by
  induction numeral generalizing afterDigit digits with
  | nil =>
    obtain ⟨_, rfl⟩ : _ ∧ [] = digits := by simpa [scanDigits] using h
    simp
  | cons c rest ih =>
    rw [scanDigits] at h
    split at h
    · rename_i hc
      obtain ⟨others, hothers, rfl⟩ := Option.map_eq_some_iff.mp h
      exact List.forall_mem_cons.mpr ⟨hc, ih hothers⟩
    · split at h
      · exact ih h
      · cases h

theorem toNat_of_isDigit {c : Char} (h : c.isDigit = true) : 48 ≤ c.toNat ∧ c.toNat ≤ 57 := by
  simpa [Char.isDigit, UInt32.le_iff_toNat_le] using h

theorem ofDigitChars_lt {digits : List Char} (h : ∀ c ∈ digits, c.isDigit = true) :
    Nat.ofDigitChars 10 digits 0 < 10 ^ digits.length := by
  induction digits with
  | nil => simp
  | cons c digits ih =>
    obtain ⟨hc, hdigits⟩ := List.forall_mem_cons.mp h
    have hvalue : c.toNat - '0'.toNat ≤ 9 := by
      have hrange := toNat_of_isDigit hc
      simp
      omega
    have hrest := ih hdigits
    rw [Nat.ofDigitChars_cons, Nat.ofDigitChars_eq_ofDigitChars_zero, List.length_cons, Nat.pow_succ,
      Nat.mul_zero, Nat.zero_add]
    have hmul := Nat.mul_le_mul_left (10 ^ digits.length) hvalue
    omega

theorem splitSign_toDigits (n : Nat) : splitSign (Nat.toDigits 10 n) = (false, Nat.toDigits 10 n) := by
  cases hdigits : Nat.toDigits 10 n with
  | nil => rfl
  | cons c rest =>
    have hc : c.isDigit = true := isDigit_of_mem (hdigits ▸ List.mem_cons_self)
    unfold splitSign
    split
    · simp_all
    · simp_all
    · rfl

theorem isSpace_of_isDigit {c : Char} (h : c.isDigit = true) : isSpace c = false := by
  have hrange := toNat_of_isDigit h
  simp only [isSpace, Bool.or_eq_false_iff, Bool.and_eq_false_iff, decide_eq_false_iff_not]
  omega

theorem isIntSpace_of_isDigit {c : Char} (h : c.isDigit = true) : isIntSpace c = false := by
  have hrange := toNat_of_isDigit h
  have hblank : c ≠ ' ' := by
    rintro rfl
    simp at h
  simp only [isIntSpace, Bool.or_eq_false_iff, Bool.and_eq_false_iff, decide_eq_false_iff_not]
  exact ⟨⟨hblank, Or.inr (by omega)⟩, Or.inl (by omega)⟩

/-- **`int` reads what `str` writes.** -/
theorem parseInt_of_intText {n : Int} {text : List Char} (h : intText n = some text) :
    parseInt text = some n := by
  simp only [intText, Option.ite_none_left_eq_some, Option.some.injEq, not_lt] at h
  obtain ⟨hlength, rfl⟩ := h
  have hstrip : stripWhere isIntSpace (toString n).toList = (toString n).toList := by
    refine stripWhere_eq_self fun c hc => ?_
    rcases isDigit_of_mem_toString hc with hdigit | rfl
    · exact isIntSpace_of_isDigit hdigit
    · decide
  rw [parseInt, hstrip]
  rcases toString_cases n with ⟨hn, htext⟩ | ⟨hn, htext⟩
  · have habs : n.natAbs = n.toNat := by omega
    rw [habs] at hlength
    rw [htext, splitSign_toDigits]
    simp [scanDigits_toDigits, hlength]
    omega
  · have habs : n.natAbs = (-n).toNat := by omega
    rw [habs] at hlength
    rw [htext, splitSign]
    simp [scanDigits_toDigits, hlength]
    omega

/-- What `int` reads is within the limit of `str`. -/
theorem intText_of_parseInt {n : Int} {text : List Char} (h : parseInt text = some n) :
    intText n = some (toString n).toList := by
  rw [parseInt] at h
  obtain ⟨digits, hdigits, hvalue⟩ := Option.bind_eq_some_iff.mp h
  simp only [Option.ite_none_left_eq_some, Option.some.injEq, not_lt] at hvalue
  obtain ⟨hlength, hvalue⟩ := hvalue
  have hmagnitude : n.natAbs = Nat.ofDigitChars 10 digits 0 := by
    rw [← hvalue]
    split <;> simp
  have hlt : n.natAbs < 10 ^ maxDigits :=
    hmagnitude ▸ (ofDigitChars_lt (isDigit_of_scanDigits hdigits)).trans_le
      (Nat.pow_le_pow_right (by decide) hlength)
  rw [intText, if_neg (not_lt.mpr ((Nat.length_toDigits_le_iff (by decide) (by decide)).mpr hlt))]

end Python
