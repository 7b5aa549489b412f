import Mathlib.Algebra.Order.Field.Power
import Mathlib.Data.Int.Log
import Mathlib.Data.Rat.Floor
import Mathlib.Tactic.Linarith
import Mathlib.Tactic.Positivity
import TenantForge.Value
/-!
# Floating point arithmetic

What Python computes with a `float` and an `int`: the difference is rounded to binary64, and an integer
beyond its range cannot be converted. Where the integer part of a quotient survives the rounding is
`trunc_rounded`.
-/

namespace TenantForge

namespace PyFloat

/-- The nearest integer, the even one of two. -/
def roundHalfEven (q : Rat) : Int :=
  let below := ⌊q⌋
  if q - below < 1 / 2 then below
  else if 1 / 2 < q - below then below + 1
  else if below % 2 = 0 then below
  else below + 1

/-- The `e` with `2 ^ e ≤ |q| < 2 ^ (e + 1)`, for `q ≠ 0`. -/
def exponent (q : Rat) : Int :=
  let e : Int := (q.num.natAbs.log2 : Int) - q.den.log2
  if (2 : Rat) ^ e ≤ |q| then e else e - 1

/-- The binary64 number nearest to `q`, were there no greatest one. -/
def rounded (q : Rat) : Rat :=
  if q = 0 then 0
  else
    let unit : Rat := 2 ^ max (exponent q - 52) (-1074)
    roundHalfEven (q / unit) * unit

/-- The binary64 number nearest to `q`. -/
def ofRat (q : Rat) : PyFloat :=
  if 2 ^ 1024 ≤ |rounded q| then .infinite (q < 0) else .finite (rounded q)

/-- `int(value)` of a finite value. -/
def trunc (q : Rat) : Int := q.num.tdiv q.den

/-- `float(n)`; `none` is an `OverflowError`, from half a unit below `2 ^ 1024` on. -/
def ofInt (n : Int) : Option PyFloat :=
  if n.natAbs < 2 ^ 1024 - 2 ^ 970 then some (ofRat n) else none

def sub : PyFloat → PyFloat → PyFloat
  | .nan, _ | _, .nan => .nan
  | .infinite a, .infinite b => if a = b then .nan else .infinite a
  | .infinite a, .finite _ => .infinite a
  | .finite _, .infinite b => .infinite !b
  | .finite a, .finite b => ofRat (a - b)

def abs : PyFloat → PyFloat
  | .nan => .nan
  | .infinite _ => .infinite false
  | .finite q => .finite |q|

/-- `value > n`, which compares exactly. -/
def exceeds : PyFloat → Int → Bool
  | .nan, _ => false
  | .infinite negative, _ => !negative
  | .finite q, n => n < q

/-! ### Rounding and the integer part -/

theorem le_roundHalfEven {q : Rat} {n : Int} (h : (n : Rat) ≤ q) : n ≤ roundHalfEven q := by
  have hfloor : n ≤ ⌊q⌋ := Int.le_floor.mpr h
  simp only [roundHalfEven]
  split_ifs <;> omega

theorem roundHalfEven_le {q : Rat} {n : Int} (h : q < n + 1 / 2) : roundHalfEven q ≤ n := by
  have hfloor : ⌊q⌋ ≤ n := Int.lt_add_one_iff.mp (Int.floor_lt.mpr (by push_cast; linarith))
  rcases hfloor.lt_or_eq with hlt | heq
  · simp only [roundHalfEven]
    split_ifs <;> omega
  · have hnear : q - ⌊q⌋ < 1 / 2 := by rw [heq]; linarith
    rw [roundHalfEven, if_pos hnear, heq]

/-- From half a unit below an even integer on, up to it, that integer is the nearest. -/
theorem roundHalfEven_eq {q : Rat} {n : Int} (heven : n % 2 = 0) (hlow : n - 1 / 2 ≤ q) (hhigh : q ≤ n) :
    roundHalfEven q = n := by
  refine le_antisymm (roundHalfEven_le (by linarith)) ?_
  rcases hhigh.lt_or_eq with hlt | heq
  · have hfloor : ⌊q⌋ = n - 1 := Int.floor_eq_iff.mpr ⟨by push_cast; linarith, by push_cast; linarith⟩
    have hfar : ¬q - ⌊q⌋ < 1 / 2 := by rw [hfloor]; push_cast; linarith
    rw [roundHalfEven, if_neg hfar]
    split_ifs <;> omega
  · exact le_roundHalfEven heq.ge

/-- The guess is the binary logarithm, or one more. -/
theorem exponent_eq_log {q : Rat} (h : q ≠ 0) : exponent q = Int.log 2 |q| := by
  have hnum : q.num.natAbs ≠ 0 := Int.natAbs_ne_zero.mpr (Rat.num_ne_zero.mpr h)
  have hden : (0 : Rat) < q.den := by exact_mod_cast q.den_pos
  have habs : |q| = q.num.natAbs / q.den := by
    rw [Nat.cast_natAbs, Int.cast_abs]
    nth_rewrite 1 [← Rat.num_div_den q]
    rw [abs_div, abs_of_pos hden]
  have hnum₁ : (2 : Rat) ^ (q.num.natAbs.log2 : Int) ≤ q.num.natAbs := by
    exact_mod_cast Nat.log2_self_le hnum
  have hnum₂ : (q.num.natAbs : Rat) < 2 ^ (q.num.natAbs.log2 + 1 : Int) := by
    exact_mod_cast Nat.lt_log2_self
  have hden₁ : (2 : Rat) ^ (q.den.log2 : Int) ≤ q.den := by
    exact_mod_cast Nat.log2_self_le q.den_ne_zero
  have hden₂ : (q.den : Rat) < 2 ^ (q.den.log2 + 1 : Int) := by
    exact_mod_cast Nat.lt_log2_self
  have hpos : 0 < |q| := abs_pos.mpr h
  have hlow : (q.num.natAbs.log2 : Int) - q.den.log2 - 1 ≤ Int.log 2 |q| := by
    refine (Int.zpow_le_iff_le_log one_lt_two hpos).mp ?_
    rw [habs, le_div_iff₀ hden]
    calc ((2 : Nat) : Rat) ^ ((q.num.natAbs.log2 : Int) - q.den.log2 - 1) * q.den
        ≤ 2 ^ ((q.num.natAbs.log2 : Int) - q.den.log2 - 1) * 2 ^ (q.den.log2 + 1 : Int) := by
          rw [Nat.cast_two]
          gcongr
      _ = 2 ^ (q.num.natAbs.log2 : Int) := by
          rw [← zpow_add₀ two_ne_zero]
          congr 1
          omega
      _ ≤ q.num.natAbs := hnum₁
  have hhigh : Int.log 2 |q| < (q.num.natAbs.log2 : Int) - q.den.log2 + 1 := by
    refine (Int.lt_zpow_iff_log_lt one_lt_two hpos).mp ?_
    rw [habs, div_lt_iff₀ hden]
    calc (q.num.natAbs : Rat) < 2 ^ (q.num.natAbs.log2 + 1 : Int) := hnum₂
      _ = ((2 : Nat) : Rat) ^ ((q.num.natAbs.log2 : Int) - q.den.log2 + 1) * 2 ^ (q.den.log2 : Int) := by
          rw [Nat.cast_two, ← zpow_add₀ two_ne_zero]
          congr 1
          omega
      _ ≤ ((2 : Nat) : Rat) ^ ((q.num.natAbs.log2 : Int) - q.den.log2 + 1) * q.den := by gcongr
  simp only [exponent]
  split_ifs with hguess
  · have := (Int.zpow_le_iff_le_log one_lt_two hpos).mp (by rw [Nat.cast_two]; exact hguess)
    omega
  · have := (Int.lt_zpow_iff_log_lt one_lt_two hpos).mp (by rw [Nat.cast_two]; exact not_le.mp hguess)
    omega

theorem exponent_of_one_le {q : Rat} (h : 1 ≤ q) : exponent q = ⌊q⌋.toNat.log2 := by
  rw [exponent_eq_log (by linarith), abs_of_pos (by linarith), Int.log_of_one_le_right 2 h, Nat.log2_eq_log_two]
  rfl

theorem trunc_of_nonneg {q : Rat} (h : 0 ≤ q) : trunc q = ⌊q⌋ := by
  rw [trunc, Int.tdiv_eq_ediv_of_nonneg (Rat.num_nonneg.mpr h), Rat.floor_def']

/-- The integer part of a float is the next integer if it is at most half a unit in the last place away, and
else the integer part of what was rounded. -/
theorem trunc_rounded {q : Rat} (hone : 1 ≤ q) (hsmall : q < 2 ^ 52) :
    trunc (rounded q) = if (⌊q⌋ + 1 - q) * 2 ^ 53 ≤ 2 ^ ⌊q⌋.toNat.log2 then ⌊q⌋ + 1 else ⌊q⌋ := by
  have hfloor : 1 ≤ ⌊q⌋ := Int.le_floor.mpr (by exact_mod_cast hone)
  have hbelow := Int.floor_le q
  have habove := Int.lt_floor_add_one q
  obtain ⟨k, hk, hlog⟩ : ∃ k : Nat, 1 ≤ k ∧ ⌊q⌋.toNat.log2 + k = 52 := by
    have hlt : ⌊q⌋.toNat < 2 ^ 52 := by
      have hcast : ⌊q⌋ < 2 ^ 52 := Int.floor_lt.mpr (by exact_mod_cast hsmall)
      omega
    have hlog := (Nat.log2_lt (by omega)).mpr hlt
    exact ⟨52 - ⌊q⌋.toNat.log2, by omega, by omega⟩
  have hunit : (2 : Rat) ^ max (exponent q - 52) (-1074) = (2 ^ k)⁻¹ := by
    rw [exponent_of_one_le hone, max_eq_left (by omega), ← zpow_natCast, ← zpow_neg]
    congr 1
    omega
  have hpow : (0 : Rat) < 2 ^ k := by positivity
  have hrounded : rounded q = roundHalfEven (q * 2 ^ k) / 2 ^ k := by
    rw [rounded, if_neg (by linarith)]
    simp only [hunit, div_inv_eq_mul]
    rw [← div_eq_mul_inv]
  have hcond : (⌊q⌋ + 1 - q) * 2 ^ 53 ≤ 2 ^ ⌊q⌋.toNat.log2 ↔ (⌊q⌋ + 1) * 2 ^ k - 1 / 2 ≤ q * 2 ^ k := by
    have hsplit : (2 : Rat) ^ 53 = 2 ^ ⌊q⌋.toNat.log2 * (2 ^ k * 2) := by
      rw [← pow_succ, ← pow_add]
      congr 1
      omega
    have hlogpos : (0 : Rat) < 2 ^ ⌊q⌋.toNat.log2 := by positivity
    rw [hsplit, mul_left_comm, mul_le_iff_le_one_right hlogpos]
    constructor <;> intro h <;> linarith
  simp only [hcond, hrounded]
  by_cases hup : (⌊q⌋ + 1) * 2 ^ k - 1 / 2 ≤ q * 2 ^ k
  · have heven : (⌊q⌋ + 1) * 2 ^ k % 2 = 0 := by
      obtain ⟨j, rfl⟩ := Nat.exists_eq_add_of_le' hk
      rw [pow_succ, ← mul_assoc, Int.mul_emod_left]
    have hround : roundHalfEven (q * 2 ^ k) = (⌊q⌋ + 1) * 2 ^ k :=
      roundHalfEven_eq heven (by push_cast; exact hup) (by push_cast; gcongr)
    have hwhole : ((((⌊q⌋ + 1) * 2 ^ k : Int)) : Rat) / 2 ^ k = ((⌊q⌋ + 1 : Int) : Rat) := by
      push_cast
      exact mul_div_cancel_right₀ _ hpow.ne'
    rw [if_pos hup, hround, hwhole, trunc_of_nonneg (by exact_mod_cast (by omega : 0 ≤ ⌊q⌋ + 1)),
      Int.floor_intCast]
  · have hlow : ⌊q⌋ * 2 ^ k ≤ roundHalfEven (q * 2 ^ k) :=
      le_roundHalfEven (by push_cast; gcongr)
    have hhigh : roundHalfEven (q * 2 ^ k) ≤ (⌊q⌋ + 1) * 2 ^ k - 1 :=
      roundHalfEven_le (by push_cast; linarith [not_le.mp hup])
    have hlow' : (⌊q⌋ : Rat) ≤ roundHalfEven (q * 2 ^ k) / 2 ^ k := by
      rw [le_div_iff₀ hpow]
      exact_mod_cast hlow
    have hhigh' : (roundHalfEven (q * 2 ^ k) : Rat) / 2 ^ k < ⌊q⌋ + 1 := by
      rw [div_lt_iff₀ hpow]
      exact_mod_cast Int.lt_of_le_sub_one hhigh
    have hnonneg : (0 : Rat) ≤ ⌊q⌋ := by exact_mod_cast (by omega : 0 ≤ ⌊q⌋)
    rw [if_neg hup, trunc_of_nonneg (hnonneg.trans hlow')]
    exact Int.floor_eq_iff.mpr ⟨hlow', hhigh'⟩

theorem trunc_rounded_of_lt_one {q : Rat} (hpos : 0 < q) (hone : q < 1) : trunc (rounded q) ≤ 1 := by
  have hexponent : exponent q < 0 := by
    rw [exponent_eq_log hpos.ne', abs_of_pos hpos]
    exact (Int.lt_zpow_iff_log_lt one_lt_two hpos).mp (by simpa using hone)
  obtain ⟨k, hk⟩ : ∃ k : Nat, max (exponent q - 52) (-1074) = -(k : Int) :=
    ⟨(max (exponent q - 52) (-1074)).natAbs, by omega⟩
  have hpow : (0 : Rat) < 2 ^ k := by positivity
  have hrounded : rounded q = roundHalfEven (q * 2 ^ k) / 2 ^ k := by
    rw [rounded, if_neg hpos.ne']
    simp only [hk, zpow_neg, zpow_natCast, div_inv_eq_mul]
    rw [← div_eq_mul_inv]
  have hlow : 0 ≤ roundHalfEven (q * 2 ^ k) := le_roundHalfEven (by push_cast; positivity)
  have hhigh : roundHalfEven (q * 2 ^ k) ≤ 2 ^ k := by
    refine roundHalfEven_le ?_
    have hle : q * 2 ^ k ≤ 1 * 2 ^ k := by gcongr
    push_cast
    linarith
  have hle : rounded q ≤ 1 := by
    rw [hrounded, div_le_one hpow]
    exact_mod_cast hhigh
  have hnonneg : 0 ≤ rounded q := by
    rw [hrounded]
    exact div_nonneg (by exact_mod_cast hlow) hpow.le
  rw [trunc_of_nonneg hnonneg]
  exact_mod_cast (Int.floor_le (rounded q)).trans hle

end PyFloat

/-- A time in seconds: `int | float`. -/
inductive PyNumber where
  | int (value : Int)
  | float (value : PyFloat)

namespace PyNumber

/-- `value - n`; `none` is an `OverflowError`. -/
def subInt : PyNumber → Int → Option PyNumber
  | .int value, n => some (.int (value - n))
  | .float value, n => (PyFloat.ofInt n).map fun converted => .float (value.sub converted)

/-- `abs(value) > n` -/
def absExceeds : PyNumber → Int → Bool
  | .int value, n => n < |value|
  | .float value, n => value.abs.exceeds n

end PyNumber

end TenantForge
