import Mathlib.Order.Lattice
import Mathlib.Tactic.Ring
/-!
# UTC dates and times

An instant is a valid civil date of the proleptic Gregorian calendar, years 1 to 9999, and the
microseconds since midnight. Instants are ordered by `DateTime.key`, a number made of the four fields,
so that questions of order become linear arithmetic.
-/

namespace Gregorian

def isLeap (year : Nat) : Bool := year % 4 = 0 && (year % 100 != 0 || year % 400 = 0)

def daysInMonth (year month : Nat) : Nat :=
  match month with
  | 2 => if isLeap year then 29 else 28
  | 4 | 6 | 9 | 11 => 30
  | _ => 31

theorem daysInMonth_pos (year month : Nat) : 1 ≤ daysInMonth year month := by
  unfold daysInMonth
  split <;> (try split) <;> omega

theorem daysInMonth_le (year month : Nat) : daysInMonth year month ≤ 31 := by
  unfold daysInMonth
  split <;> (try split) <;> omega

/-- Microseconds in a day. -/
abbrev microsPerDay : Nat := 86400000000

/-- The four fields denote an instant. -/
def Valid (year month day micro : Nat) : Prop :=
  (1 ≤ year ∧ year ≤ 9999) ∧ (1 ≤ month ∧ month ≤ 12) ∧ (1 ≤ day ∧ day ≤ daysInMonth year month) ∧
    micro < microsPerDay

instance (year month day micro : Nat) : Decidable (Valid year month day micro) :=
  inferInstanceAs (Decidable (_ ∧ _ ∧ _ ∧ _))

structure DateTime where
  year : Nat
  month : Nat
  day : Nat
  micro : Nat
  valid : Valid year month day micro
  deriving DecidableEq

namespace DateTime

/-- The instant with these fields, if there is one. -/
def of? (year month day micro : Nat) : Option DateTime :=
  if h : Valid year month day micro then some ⟨year, month, day, micro, h⟩ else none

/-- A number that orders instants. -/
def key (t : DateTime) : Nat := ((t.year * 13 + t.month) * 32 + t.day) * microsPerDay + t.micro

theorem month_le (t : DateTime) : 1 ≤ t.month ∧ t.month ≤ 12 := t.valid.2.1

theorem day_le (t : DateTime) : 1 ≤ t.day ∧ t.day ≤ 31 :=
  ⟨t.valid.2.2.1.1, t.valid.2.2.1.2.trans (daysInMonth_le _ _)⟩

theorem micro_lt (t : DateTime) : t.micro < microsPerDay := t.valid.2.2.2

theorem key_injective : Function.Injective key := by
  intro a b h
  have ha := a.month_le
  have hb := b.month_le
  have ha' := a.day_le
  have hb' := b.day_le
  have ha'' := a.micro_lt
  have hb'' := b.micro_lt
  simp only [key, microsPerDay] at h ha'' hb''
  cases a
  cases b
  simp only [mk.injEq]
  dsimp only at *
  omega

instance : LinearOrder DateTime := LinearOrder.lift' key key_injective

theorem le_iff {a b : DateTime} : a ≤ b ↔ a.key ≤ b.key := Iff.rfl

theorem lt_iff {a b : DateTime} : a < b ↔ a.key < b.key := by
  rw [← not_le, le_iff, not_le]

theorem year_le_of_le {a b : DateTime} (h : a ≤ b) : a.year ≤ b.year := by
  have hmonth := a.month_le
  have hmonth' := b.month_le
  have hday := a.day_le
  have hday' := b.day_le
  have hmicro := a.micro_lt
  have hmicro' := b.micro_lt
  rw [le_iff] at h
  simp only [key, microsPerDay] at h hmicro hmicro'
  omega

/-- The first instant of the month of `t`. -/
def startOfMonth (t : DateTime) : DateTime where
  year := t.year
  month := t.month
  day := 1
  micro := 0
  valid := ⟨t.valid.1, t.valid.2.1, ⟨Nat.le_refl 1, daysInMonth_pos _ _⟩, by decide⟩

theorem startOfMonth_le (t : DateTime) : t.startOfMonth ≤ t := by
  have hday := t.day_le
  rw [le_iff]
  simp only [key, startOfMonth, microsPerDay]
  omega

/-- The same day of the next month, or the last day of it; `none` past year 9999. -/
def addMonth (t : DateTime) : Option DateTime :=
  let year := t.year + if t.month = 12 then 1 else 0
  let month := if t.month = 12 then 1 else t.month + 1
  of? year month (min t.day (daysInMonth year month)) t.micro

/-- How many times a month can be added. -/
def monthsLeft (t : DateTime) : Nat := (9999 - t.year) * 12 + (12 - t.month)

theorem addMonth_spec {t next : DateTime} (h : t.addMonth = some next) :
    t < next ∧ next.monthsLeft + 1 = t.monthsLeft := by
  simp only [addMonth, of?, Option.dite_none_right_eq_some, Option.some.injEq] at h
  obtain ⟨hvalid, rfl⟩ := h
  have hyear := hvalid.1.2
  have hpos := hvalid.2.2.1.1
  have hmonth := t.month_le
  have hday := t.day_le
  have hmicro := t.micro_lt
  rw [lt_iff]
  by_cases h12 : t.month = 12
  · simp only [key, monthsLeft, microsPerDay, h12, if_true] at hyear hpos hmicro ⊢
    omega
  · simp only [key, monthsLeft, microsPerDay, h12, if_false] at hyear hpos hmicro ⊢
    omega

theorem addMonth_isSome {t : DateTime} : t.addMonth.isSome ↔ t.monthsLeft ≠ 0 := by
  have hmonth := t.month_le
  obtain ⟨⟨hpos, hyear⟩, -, hday, hmicro⟩ := t.valid
  have hdays := daysInMonth_pos
  by_cases h12 : t.month = 12
  · have hvalid : Valid (t.year + 1) 1 (min t.day (daysInMonth (t.year + 1) 1)) t.micro ↔
        t.year + 1 ≤ 9999 :=
      ⟨fun h => h.1.2, fun h => ⟨⟨by omega, h⟩, by decide, ⟨le_min hday.1 (hdays _ _), min_le_right _ _⟩,
        hmicro⟩⟩
    simp only [addMonth, of?, h12, if_true, hvalid, monthsLeft]
    split <;> simp <;> omega
  · have hvalid : Valid t.year (t.month + 1) (min t.day (daysInMonth t.year (t.month + 1))) t.micro :=
      ⟨⟨hpos, hyear⟩, by omega, ⟨le_min hday.1 (hdays _ _), min_le_right _ _⟩, hmicro⟩
    simp only [addMonth, of?, h12, if_false, Nat.add_zero, hvalid, dite_true, Option.isSome_some,
      monthsLeft, true_iff]
    omega

/-- The same time of the next day; `none` past year 9999. -/
def nextDay (t : DateTime) : Option DateTime :=
  if t.day < daysInMonth t.year t.month then of? t.year t.month (t.day + 1) t.micro
  else if t.month < 12 then of? t.year (t.month + 1) 1 t.micro
  else of? (t.year + 1) 1 1 t.micro

/-- `t` and a number of days; `none` past year 9999. -/
def addDays (t : DateTime) : Nat → Option DateTime
  | 0 => some t
  | n + 1 => t.nextDay.bind fun next => next.addDays n

/-- The same time of the day before; `none` before year 1. -/
def previousDay (t : DateTime) : Option DateTime :=
  if 1 < t.day then of? t.year t.month (t.day - 1) t.micro
  else if 1 < t.month then of? t.year (t.month - 1) (daysInMonth t.year (t.month - 1)) t.micro
  else of? (t.year - 1) 12 31 t.micro

/-- The days before a year. -/
def daysBeforeYear (year : Nat) : Nat :=
  (year - 1) * 365 + (year - 1) / 4 - (year - 1) / 100 + (year - 1) / 400

/-- The days of a year before a month of it. -/
def daysBefore (year month : Nat) : Nat :=
  ((List.range month).drop 1).foldl (fun days month => days + daysInMonth year month) 0

/-- Days since the first of January of year 1. -/
def ordinal (t : DateTime) : Nat :=
  daysBeforeYear t.year + daysBefore t.year t.month + (t.day - 1)

/-- Microseconds from one instant to another. -/
def microsUntil (a b : DateTime) : Int :=
  ((b.ordinal : Int) - a.ordinal) * microsPerDay + ((b.micro : Int) - a.micro)

/-! ### Months -/

/-- The months since year 0. -/
def monthNumber (t : DateTime) : Nat := t.year * 12 + (t.month - 1)

/-- The days of a month by its number. -/
def daysOfMonth (month : Nat) : Nat := daysInMonth (month / 12) (month % 12 + 1)

theorem addMonth_fields {t next : DateTime} (h : t.addMonth = some next) :
    next.monthNumber = t.monthNumber + 1 ∧ next.day = min t.day (daysOfMonth next.monthNumber) ∧
      next.micro = t.micro := by
  simp only [addMonth, of?, Option.dite_none_right_eq_some, Option.some.injEq] at h
  obtain ⟨hvalid, rfl⟩ := h
  have hmonth := t.month_le
  by_cases h12 : t.month = 12
  · simp only [h12, if_true] at hvalid ⊢
    refine ⟨by simp only [monthNumber, h12]; omega, ?_, trivial⟩
    have hnumber : ((t.year + 1) * 12 + (1 - 1)) / 12 = t.year + 1 := by omega
    have hrest : ((t.year + 1) * 12 + (1 - 1)) % 12 + 1 = 1 := by omega
    simp only [monthNumber, daysOfMonth]
    rw [hnumber, hrest]
  · simp only [h12, if_false, Nat.add_zero] at hvalid ⊢
    refine ⟨by simp only [monthNumber]; omega, ?_, trivial⟩
    have hnumber : (t.year * 12 + (t.month + 1 - 1)) / 12 = t.year := by omega
    have hrest : (t.year * 12 + (t.month + 1 - 1)) % 12 + 1 = t.month + 1 := by omega
    simp only [monthNumber, daysOfMonth]
    rw [hnumber, hrest]

/-- A month added `n` times. -/
def addMonthTimes (t : DateTime) : Nat → Option DateTime
  | 0 => some t
  | n + 1 => (t.addMonthTimes n).bind addMonth

theorem addMonthTimes_succ (t : DateTime) (n : Nat) :
    t.addMonthTimes (n + 1) = t.addMonth.bind fun next => next.addMonthTimes n := by
  induction n with
  | zero => cases h : t.addMonth <;> simp [addMonthTimes, h]
  | succ n ih =>
    rw [addMonthTimes, ih]
    cases t.addMonth <;> rfl

theorem le_of_addMonthTimes {t b : DateTime} {n : Nat} (h : t.addMonthTimes n = some b) : t ≤ b := by
  induction n generalizing b with
  | zero => exact (Option.some.inj h).le
  | succ n ih =>
    obtain ⟨previous, hprevious, hadd⟩ := Option.bind_eq_some_iff.mp h
    exact (ih hprevious).trans (addMonth_spec hadd).1.le

/-- The day that is left of `day` after the months that follow a month: each of them cuts it to its own
length. -/
def clippedDay (month day : Nat) : Nat → Nat
  | 0 => day
  | n + 1 => min (clippedDay month day n) (daysOfMonth (month + n + 1))

theorem addMonthTimes_fields {t next : DateTime} {n : Nat} (h : t.addMonthTimes n = some next) :
    next.monthNumber = t.monthNumber + n ∧ next.day = clippedDay t.monthNumber t.day n ∧
      next.micro = t.micro := by
  induction n generalizing next with
  | zero =>
    obtain rfl := Option.some.inj h
    exact ⟨rfl, rfl, rfl⟩
  | succ n ih =>
    obtain ⟨previous, hprevious, hadd⟩ := Option.bind_eq_some_iff.mp h
    obtain ⟨hmonth, hday, hmicro⟩ := ih hprevious
    obtain ⟨hmonth', hday', hmicro'⟩ := addMonth_fields hadd
    refine ⟨by omega, ?_, hmicro'.trans hmicro⟩
    rw [hday', hday, hmonth', hmonth, clippedDay]

/-- The clipped day is the least of the day and the lengths of the months. -/
theorem le_clippedDay_iff {month day n k : Nat} :
    k ≤ clippedDay month day n ↔ k ≤ day ∧ ∀ i < n, k ≤ daysOfMonth (month + i + 1) := by
  induction n with
  | zero => simp [clippedDay]
  | succ n ih =>
    rw [clippedDay, le_min_iff, ih, and_assoc]
    refine and_congr_right fun _ => ⟨fun h i hi => ?_, fun h => ⟨fun i hi => h i (by omega), h n (by omega)⟩⟩
    rcases Nat.lt_succ_iff_lt_or_eq.mp hi with hi | rfl
    · exact h.1 i hi
    · exact h.2

/-- Adding a month again and again agrees with adding the months at once if and only if no month on the
way is shorter than the day that is due at the end. -/
theorem clippedDay_eq_iff {month day n : Nat} :
    clippedDay month day (n + 1) = min day (daysOfMonth (month + n + 1)) ↔
      ∀ i < n, min day (daysOfMonth (month + n + 1)) ≤ daysOfMonth (month + i + 1) := by
  have hle : clippedDay month day (n + 1) ≤ min day (daysOfMonth (month + n + 1)) := by
    obtain ⟨hday, hmonths⟩ := le_clippedDay_iff.mp (le_refl (clippedDay month day (n + 1)))
    exact le_min hday (hmonths n (Nat.lt_succ_self n))
  constructor
  · intro heq i hi
    exact (le_clippedDay_iff.mp heq.ge).2 i (Nat.lt_succ_of_lt hi)
  · intro h
    refine le_antisymm hle (le_clippedDay_iff.mpr ⟨min_le_left _ _, fun i hi => ?_⟩)
    rcases Nat.lt_succ_iff_lt_or_eq.mp hi with hi | rfl
    · exact h i hi
    · exact min_le_right _ _

/-! ### Elapsed time -/

theorem daysBefore_succ (year : Nat) {month : Nat} (hmonth : 1 ≤ month) :
    daysBefore year (month + 1) = daysBefore year month + daysInMonth year month := by
  rw [daysBefore, List.range_succ, List.drop_append_of_le_length (by simpa using hmonth),
    List.foldl_append]
  rfl

theorem daysBefore_mono (year : Nat) {month month' : Nat} (hmonth : 1 ≤ month) (h : month < month') :
    daysBefore year month + daysInMonth year month ≤ daysBefore year month' := by
  induction month', h using Nat.le_induction with
  | base => exact (daysBefore_succ year hmonth).ge
  | succ month' hle ih => exact ih.trans (by rw [daysBefore_succ year (by omega)]; omega)

def daysInYear (year : Nat) : Nat := if isLeap year then 366 else 365

theorem daysBefore_year (year : Nat) : daysBefore year 13 = daysInYear year := by
  have hfebruary : daysInMonth year 2 = if isLeap year then 29 else 28 := rfl
  have hdays : daysBefore year 13 = daysInMonth year 2 + 337 := by
    simp only [daysBefore, List.range, List.range.loop, List.drop, List.foldl, daysInMonth]
    omega
  rw [hdays, hfebruary, daysInYear]
  split <;> rfl

theorem daysBeforeYear_succ {year : Nat} (hyear : 1 ≤ year) :
    daysBeforeYear (year + 1) = daysBeforeYear year + daysInYear year := by
  obtain ⟨y, rfl⟩ : ∃ y, year = y + 1 := ⟨year - 1, by omega⟩
  -- each of the three terms grows by one in the years that it counts
  have h4 : (y + 1) / 4 = y / 4 + if (y + 1) % 4 = 0 then 1 else 0 := by split <;> omega
  have h100 : (y + 1) / 100 = y / 100 + if (y + 1) % 100 = 0 then 1 else 0 := by split <;> omega
  have h400 : (y + 1) / 400 = y / 400 + if (y + 1) % 400 = 0 then 1 else 0 := by split <;> omega
  have hcentury : (y + 1) % 100 = 0 → (y + 1) % 4 = 0 := by omega
  have hfourth : (y + 1) % 400 = 0 → (y + 1) % 100 = 0 := by omega
  have hfewer : y / 100 ≤ y / 4 := by omega
  simp only [daysBeforeYear, daysInYear, isLeap, Nat.add_sub_cancel, h4, h100, h400]
  generalize y / 4 = a at *
  generalize y / 100 = b at *
  generalize y / 400 = c at *
  by_cases h : (y + 1) % 4 = 0
  · by_cases h' : (y + 1) % 100 = 0
    · by_cases h'' : (y + 1) % 400 = 0
      · simp [h, h', h'']; omega
      · simp [h, h', h'']; omega
    · have h'' : ¬(y + 1) % 400 = 0 := fun hzero => h' (hfourth hzero)
      simp [h, h', h'']; omega
  · have h' : ¬(y + 1) % 100 = 0 := fun hzero => h (hcentury hzero)
    have h'' : ¬(y + 1) % 400 = 0 := fun hzero => h' (hfourth hzero)
    simp [h, h', h'']; omega

theorem daysBeforeYear_mono {year year' : Nat} (hyear : 1 ≤ year) (h : year < year') :
    daysBeforeYear year + daysInYear year ≤ daysBeforeYear year' := by
  induction year', h using Nat.le_induction with
  | base => exact (daysBeforeYear_succ hyear).ge
  | succ year' hle ih => exact ih.trans (by rw [daysBeforeYear_succ (by omega)]; omega)

/-- A later date has a later ordinal. -/
theorem ordinal_lt {a b : DateTime} (h : (a.year * 13 + a.month) * 32 + a.day <
    (b.year * 13 + b.month) * 32 + b.day) : a.ordinal < b.ordinal := by
  obtain ⟨⟨hyear, -⟩, hmonth, hday, -⟩ := a.valid
  obtain ⟨-, hmonth', hday', -⟩ := b.valid
  have hbound := a.day_le
  have hbound' := b.day_le
  rw [ordinal, ordinal]
  rcases lt_trichotomy a.year b.year with hlt | heq | hgt
  · have hyears := daysBeforeYear_mono hyear hlt
    have hmonths := daysBefore_mono a.year hmonth.1 (Nat.lt_succ_of_le hmonth.2)
    rw [daysBefore_year] at hmonths
    omega
  · rw [heq] at h hday ⊢
    rcases Nat.lt_or_ge a.month b.month with hlt | hge
    · have hmonths := daysBefore_mono b.year hmonth.1 hlt
      omega
    · have hsame : a.month = b.month := by omega
      rw [hsame] at h ⊢
      omega
  · omega

/-- The days are fewer than four millions. -/
theorem ordinal_bound (t : DateTime) : t.ordinal < 4000000 := by
  obtain ⟨⟨-, hyear⟩, hmonth, hday, -⟩ := t.valid
  have hmonths := daysBefore_mono t.year hmonth.1 (Nat.lt_succ_of_le hmonth.2)
  have hlength : daysInYear t.year ≤ 366 := by
    unfold daysInYear
    split <;> omega
  rw [daysBefore_year] at hmonths
  rw [ordinal, daysBeforeYear]
  omega

theorem microsUntil_lt (a b : DateTime) : a.microsUntil b < 4000001 * microsPerDay := by
  have hordinal := b.ordinal_bound
  have hmicro := b.micro_lt
  simp only [microsUntil, microsPerDay] at hmicro ⊢
  omega

theorem microsUntil_trans (a b c : DateTime) :
    a.microsUntil b + b.microsUntil c = a.microsUntil c := by
  simp only [microsUntil]
  ring

theorem microsUntil_pos {a b : DateTime} (h : a < b) : 0 < a.microsUntil b := by
  have hmicro := a.micro_lt
  have hmicro' := b.micro_lt
  rw [lt_iff] at h
  simp only [key, microsPerDay] at h hmicro hmicro'
  simp only [microsUntil, microsPerDay]
  by_cases hdate : (a.year * 13 + a.month) * 32 + a.day < (b.year * 13 + b.month) * 32 + b.day
  · have hordinal := ordinal_lt hdate
    omega
  · have hyear : a.year = b.year ∧ a.month = b.month ∧ a.day = b.day := by
      have hmonth := a.month_le
      have hmonth' := b.month_le
      have hday := a.day_le
      have hday' := b.day_le
      omega
    have hordinal : a.ordinal = b.ordinal := by rw [ordinal, ordinal, hyear.1, hyear.2.1, hyear.2.2]
    omega

theorem microsUntil_self (t : DateTime) : t.microsUntil t = 0 := by simp [microsUntil]

theorem lt_iff_microsUntil {a b : DateTime} : a < b ↔ 0 < a.microsUntil b := by
  refine ⟨microsUntil_pos, fun hpos => lt_of_not_ge fun hle => ?_⟩
  have hback := microsUntil_trans a b a
  rw [microsUntil_self] at hback
  rcases hle.lt_or_eq with hlt | rfl
  · have := microsUntil_pos hlt
    omega
  · rw [microsUntil_self] at hpos
    exact lt_irrefl _ hpos

theorem le_iff_microsUntil {a b : DateTime} : a ≤ b ↔ 0 ≤ a.microsUntil b := by
  have hback := microsUntil_trans a b a
  rw [microsUntil_self] at hback
  rw [← not_lt, lt_iff_microsUntil]
  omega

/-- A month is at least a day long. -/
theorem day_le_addMonth {t next : DateTime} (h : t.addMonth = some next) :
    (microsPerDay : Int) ≤ t.microsUntil next := by
  obtain ⟨hmonth, hday, hmicro⟩ := addMonth_fields h
  have hordinal : t.ordinal < next.ordinal := by
    refine ordinal_lt ?_
    have hmonth₁ := t.month_le
    have hmonth₂ := next.month_le
    have hday₁ := t.day_le
    have hday₂ := next.day_le
    simp only [monthNumber] at hmonth
    omega
  simp only [microsUntil, hmicro, microsPerDay]
  omega

end DateTime

end Gregorian
