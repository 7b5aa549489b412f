import TenantForge.Contracts.Usage
import TenantForge.Reference.Runtime
/-!
# Billing periods

`subscription_period` rolls the stored period forward, one calendar month at a time. The rolled periods
tile the time line from the stored start on (`subscriptionPeriod_tiles`), and each of them may be stored
in place of the first one without any effect on later periods (`subscriptionPeriod_rolled`). What the
loop does not keep is the day of the month: every month that is shorter than the day cuts it for good
(`boundary_onBillingDay_iff`).
-/

namespace TenantForge

open Gregorian ReadCommitted

/-! ### Rolling -/

section Rolling

variable {t t' start stop s e s' e' : DateTime}

theorem rollPeriod_of_lt (h : t < stop) : rollPeriod t start stop = some (start, stop) := by
  rw [rollPeriod_eq, if_neg (not_le.mpr h)]

/-- While a year is left after the current time, the loop finds a period. -/
theorem rollPeriod_isSome (start stop : DateTime) (h : t.year < 9999) :
    ∃ period, rollPeriod t start stop = some period := by
  induction hn : stop.monthsLeft using Nat.strong_induction_on generalizing start stop with
  | _ n ih =>
    rw [rollPeriod_eq]
    split
    · rename_i hle
      have hyear := DateTime.year_le_of_le hle
      have hleft : stop.monthsLeft ≠ 0 := by
        simp only [DateTime.monthsLeft]
        omega
      obtain ⟨next, hnext⟩ := Option.isSome_iff_exists.mp (DateTime.addMonth_isSome.mpr hleft)
      rw [hnext, Option.bind_some]
      exact ih next.monthsLeft (by have := (DateTime.addMonth_spec hnext).2; omega) stop next rfl
    · exact ⟨_, rfl⟩

/-- The period that the loop ends with contains the current time. -/
theorem rollPeriod_contains (hstart : start ≤ t) (h : rollPeriod t start stop = some (s, e)) :
    s ≤ t ∧ t < e := by
  induction hn : stop.monthsLeft using Nat.strong_induction_on generalizing start stop with
  | _ n ih =>
    rw [rollPeriod_eq] at h
    split at h
    · rename_i hle
      obtain ⟨next, hnext, hroll⟩ := Option.bind_eq_some_iff.mp h
      exact ih next.monthsLeft (by have := (DateTime.addMonth_spec hnext).2; omega) hle hroll rfl
    · rename_i hlt
      cases h
      exact ⟨hstart, not_le.mp hlt⟩

/-- A period ends with the given end, or a month after an instant of the past. -/
theorem rollPeriod_stop (h : rollPeriod t start stop = some (s, e)) :
    e = stop ∨ ∃ previous, previous ≤ t ∧ previous.addMonth = some e := by
  induction hn : stop.monthsLeft using Nat.strong_induction_on generalizing start stop with
  | _ n ih =>
    rw [rollPeriod_eq] at h
    split at h
    · rename_i hle
      obtain ⟨next, hnext, hroll⟩ := Option.bind_eq_some_iff.mp h
      have hfewer := (DateTime.addMonth_spec hnext).2
      rcases ih next.monthsLeft (by omega) hroll rfl with hstop | hprevious
      · exact Or.inr ⟨stop, hle, by rw [hstop, hnext]⟩
      · exact Or.inr hprevious
    · cases h
      exact Or.inl rfl

/-- The periods at two times are the same, or the later one begins when the earlier one has ended. -/
theorem rollPeriod_apart (hle : t ≤ t') (h : rollPeriod t start stop = some (s, e))
    (h' : rollPeriod t' start stop = some (s', e')) : (s', e') = (s, e) ∨ e ≤ s' := by
  induction hn : stop.monthsLeft using Nat.strong_induction_on generalizing start stop with
  | _ n ih =>
    by_cases hroll : stop ≤ t
    · rw [rollPeriod_eq, if_pos hroll] at h
      rw [rollPeriod_eq, if_pos (hroll.trans hle)] at h'
      obtain ⟨next, hnext, h⟩ := Option.bind_eq_some_iff.mp h
      obtain ⟨next', hnext', h'⟩ := Option.bind_eq_some_iff.mp h'
      obtain rfl : next = next' := Option.some.inj (hnext.symm.trans hnext')
      exact ih next.monthsLeft (by have := (DateTime.addMonth_spec hnext).2; omega) h h' rfl
    · rw [rollPeriod_of_lt (not_le.mp hroll)] at h
      cases h
      exact (rollPeriod_start h').imp And.left And.left

/-- **Confluence**: rolling on from a rolled period is rolling from the start. -/
theorem rollPeriod_rolled (hle : t ≤ t') (h : rollPeriod t start stop = some (s, e)) :
    rollPeriod t' s e = rollPeriod t' start stop := by
  induction hn : stop.monthsLeft using Nat.strong_induction_on generalizing start stop with
  | _ n ih =>
    by_cases hroll : stop ≤ t
    · rw [rollPeriod_eq, if_pos hroll] at h
      obtain ⟨next, hnext, h⟩ := Option.bind_eq_some_iff.mp h
      rw [ih next.monthsLeft (by have := (DateTime.addMonth_spec hnext).2; omega) h rfl,
        rollPeriod_eq t' start stop, if_pos (hroll.trans hle), hnext, Option.bind_some]
    · rw [rollPeriod_of_lt (not_le.mp hroll)] at h
      cases h
      rfl

/-- At its own end a period is followed by the one that begins there. -/
theorem rollPeriod_at_stop (hstart : start ≤ t) (h : rollPeriod t start stop = some (s, e)) :
    rollPeriod e start stop = e.addMonth.map fun next => (e, next) := by
  have hstop := (rollPeriod_contains hstart h).2
  rw [← rollPeriod_rolled hstop.le h, rollPeriod_eq, if_pos (le_refl e)]
  cases hnext : e.addMonth with
  | none => rfl
  | some next =>
    rw [Option.bind_some, Option.map_some, rollPeriod_of_lt (DateTime.addMonth_spec hnext).1]

end Rolling

/-! ### Periods of a subscription -/

section Periods

variable {subscription : Subscription} {t t' : DateTime} {period : DateTime × DateTime}

theorem subscriptionPeriod_of_started
    (hlt : subscription.currentPeriodStart < subscription.currentPeriodEnd)
    (hstart : subscription.currentPeriodStart ≤ t) :
    subscriptionPeriod (some subscription) t =
      rollPeriod t subscription.currentPeriodStart subscription.currentPeriodEnd := by
  rw [subscriptionPeriod, if_neg (not_le.mpr hlt), if_neg (not_lt.mpr hstart)]

/-- **The periods tile the time line.** -/
theorem subscriptionPeriod_tiles {t₁ t₂ : DateTime}
    (hlt : subscription.currentPeriodStart < subscription.currentPeriodEnd)
    (hend : subscription.currentPeriodEnd.year < 9998)
    (hstart₁ : subscription.currentPeriodStart ≤ t₁) (hyear₁ : t₁.year < 9998)
    (hstart₂ : subscription.currentPeriodStart ≤ t₂) (hyear₂ : t₂.year < 9998) :
    ∃ s₁ e₁ s₂ e₂, subscriptionPeriod (some subscription) t₁ = some (s₁, e₁) ∧
      subscriptionPeriod (some subscription) t₂ = some (s₂, e₂) ∧
      (s₁ ≤ t₁ ∧ t₁ < e₁) ∧ (s₂ ≤ t₂ ∧ t₂ < e₂) ∧ ((s₁, e₁) = (s₂, e₂) ∨ e₁ ≤ s₂ ∨ e₂ ≤ s₁) ∧
      ∃ next, subscriptionPeriod (some subscription) e₁ = some (e₁, next) := by
  rw [subscriptionPeriod_of_started hlt hstart₁, subscriptionPeriod_of_started hlt hstart₂]
  obtain ⟨⟨s₁, e₁⟩, h₁⟩ := rollPeriod_isSome subscription.currentPeriodStart
    subscription.currentPeriodEnd (by omega : t₁.year < 9999)
  obtain ⟨⟨s₂, e₂⟩, h₂⟩ := rollPeriod_isSome subscription.currentPeriodStart
    subscription.currentPeriodEnd (by omega : t₂.year < 9999)
  have hcontains₁ := rollPeriod_contains hstart₁ h₁
  have hcontains₂ := rollPeriod_contains hstart₂ h₂
  have hstart : subscription.currentPeriodStart ≤ e₁ := hstart₁.trans hcontains₁.2.le
  refine ⟨s₁, e₁, s₂, e₂, h₁, h₂, hcontains₁, hcontains₂, ?_, ?_⟩
  · rcases le_total t₁ t₂ with hle | hle
    · exact (rollPeriod_apart hle h₁ h₂).imp Eq.symm Or.inl
    · exact (rollPeriod_apart hle h₂ h₁).imp id Or.inr
  · have hnext : rollPeriod e₁ subscription.currentPeriodStart subscription.currentPeriodEnd =
        e₁.addMonth.map fun next => (e₁, next) := rollPeriod_at_stop hstart₁ h₁
    rw [subscriptionPeriod_of_started hlt hstart, hnext]
    have hyear : e₁.year < 9999 := by
      rcases rollPeriod_stop h₁ with heq | ⟨previous, hprevious, hadd⟩
      · rw [show e₁ = _ from heq]
        omega
      · have hmonth := (DateTime.addMonth_fields hadd).1
        have hle := DateTime.year_le_of_le hprevious
        have hmonth₁ := e₁.month_le
        have hmonth₂ := previous.month_le
        simp only [DateTime.monthNumber] at hmonth
        omega
    have hleft : e₁.monthsLeft ≠ 0 := by
      simp only [DateTime.monthsLeft]
      omega
    obtain ⟨next, hnext⟩ := Option.isSome_iff_exists.mp (DateTime.addMonth_isSome.mpr hleft)
    exact ⟨next, by rw [hnext]; rfl⟩

/-- A subscription that ends at the end of January, on the last day. -/
def Reference.january : Subscription :=
  { Reference.subscription 15 5 .free 0 0 with
    currentPeriodStart := ⟨2025, 12, 31, 0, by decide⟩
    currentPeriodEnd := ⟨2026, 1, 31, 0, by decide⟩ }

theorem Reference.january_tiles :
    ∃ s₁ e₁ s₂ e₂, subscriptionPeriod (some Reference.january) (Reference.noon 9) = some (s₁, e₁) ∧
      subscriptionPeriod (some Reference.january) (Reference.noon 27) = some (s₂, e₂) ∧
      (s₁ ≤ Reference.noon 9 ∧ Reference.noon 9 < e₁) ∧
      (s₂ ≤ Reference.noon 27 ∧ Reference.noon 27 < e₂) ∧ ((s₁, e₁) = (s₂, e₂) ∨ e₁ ≤ s₂ ∨ e₂ ≤ s₁) ∧
      ∃ next, subscriptionPeriod (some Reference.january) e₁ = some (e₁, next) :=
  subscriptionPeriod_tiles (by decide) (by decide) (by decide) (by decide) (by decide) (by decide)

theorem calendarPeriod_contains {s e : DateTime} (h : calendarPeriod t = some (s, e)) :
    s ≤ t ∧ t < e := by
  obtain ⟨stop, hstop, hperiod⟩ := Option.map_eq_some_iff.mp h
  obtain ⟨rfl, rfl⟩ := Prod.mk.inj hperiod
  refine ⟨t.startOfMonth_le, ?_⟩
  have hnumber := (DateTime.addMonth_fields hstop).1
  have hmonth := t.month_le
  have hmonth' := stop.month_le
  have hday := t.day_le
  have hday' := stop.day_le
  have hmicro := t.micro_lt
  simp only [DateTime.monthNumber, DateTime.startOfMonth] at hnumber
  rw [DateTime.lt_iff]
  simp only [DateTime.key, microsPerDay] at hmicro ⊢
  omega

/-- The stored period lies ahead. -/
def NotBegun (subscription : Option Subscription) (t : DateTime) : Prop :=
  match subscription with
  | none => False
  | some stored =>
    stored.currentPeriodStart < stored.currentPeriodEnd ∧ t < stored.currentPeriodStart

/-- The current time lies in the current period, unless that one has not begun. -/
theorem subscriptionPeriod_contains_iff {subscription : Option Subscription} {s e : DateTime}
    (h : subscriptionPeriod subscription t = some (s, e)) : (s ≤ t ∧ t < e) ↔ ¬NotBegun subscription t := by
  cases subscription with
  | none => exact iff_of_true (calendarPeriod_contains h) not_false
  | some stored =>
    by_cases hlt : stored.currentPeriodStart < stored.currentPeriodEnd
    · by_cases hstart : stored.currentPeriodStart ≤ t
      · rw [subscriptionPeriod_of_started hlt hstart] at h
        exact iff_of_true (rollPeriod_contains hstart h) fun hahead => not_le.mpr hahead.2 hstart
      · rw [subscriptionPeriod, if_neg (not_le.mpr hlt), if_pos (not_le.mp hstart)] at h
        obtain ⟨hs, _⟩ := Prod.mk.inj (Option.some.inj h)
        exact iff_of_false (fun hin => hstart (hs ▸ hin.1)) (not_not.mpr ⟨hlt, not_le.mp hstart⟩)
    · rw [subscriptionPeriod, if_pos (not_lt.mp hlt)] at h
      exact iff_of_true (calendarPeriod_contains h) fun hahead => hlt hahead.1

/-- A subscription whose boundaries were rolled is billed as before at every later time. -/
theorem subscriptionPeriod_rolled {rolled : Subscription}
    (hlt : subscription.currentPeriodStart < subscription.currentPeriodEnd) (hle : t ≤ t')
    (h : subscriptionPeriod (some subscription) t =
      some (rolled.currentPeriodStart, rolled.currentPeriodEnd)) :
    rolled.currentPeriodStart < rolled.currentPeriodEnd ∧
      subscriptionPeriod (some rolled) t' = subscriptionPeriod (some subscription) t' := by
  by_cases hstart : subscription.currentPeriodStart ≤ t
  · rw [subscriptionPeriod_of_started hlt hstart] at h
    obtain ⟨hbegin, hstop⟩ := rollPeriod_contains hstart h
    have hrolled : rolled.currentPeriodStart < rolled.currentPeriodEnd := lt_of_le_of_lt hbegin hstop
    refine ⟨hrolled, ?_⟩
    rw [subscriptionPeriod_of_started hlt (hstart.trans hle),
      subscriptionPeriod_of_started hrolled (hbegin.trans hle), rollPeriod_rolled hle h]
  · -- a period that has not begun is kept as it is
    rw [subscriptionPeriod, if_neg (not_le.mpr hlt), if_pos (not_le.mp hstart)] at h
    obtain ⟨hsame, hsame'⟩ := Prod.mk.inj (Option.some.inj h)
    rw [← hsame, ← hsame']
    refine ⟨hlt, ?_⟩
    rw [subscriptionPeriod, subscriptionPeriod, ← hsame, ← hsame']

end Periods

/-! ### The day of the month -/

section BillingDay

/-- The value of `end` after `n` turns of the loop. -/
def boundary (subscription : Subscription) (n : Nat) : Option DateTime :=
  subscription.currentPeriodEnd.addMonthTimes n

variable {subscription : Subscription} {n : Nat} {t b b' : DateTime}

/-- After `n` turns the loop is at the boundaries `n - 1` and `n`: at the first of them it stops there. -/
theorem rollPeriod_boundary {start stop : DateTime} (hb : stop.addMonthTimes n = some b)
    (hb' : stop.addMonthTimes (n + 1) = some b') : rollPeriod b start stop = some (b, b') := by
  induction n generalizing start stop with
  | zero =>
    obtain rfl := Option.some.inj hb
    have hadd : stop.addMonth = some b' := hb'
    rw [rollPeriod_eq, if_pos (le_refl stop), hadd, Option.bind_some,
      rollPeriod_of_lt (DateTime.addMonth_spec hadd).1]
  | succ n ih =>
    have hle := DateTime.le_of_addMonthTimes hb
    rw [DateTime.addMonthTimes_succ] at hb hb'
    obtain ⟨next, hnext, hb⟩ := Option.bind_eq_some_iff.mp hb
    rw [hnext, Option.bind_some] at hb'
    rw [rollPeriod_eq, if_pos hle, hnext, Option.bind_some]
    exact ih hb hb'

theorem subscriptionPeriod_boundary
    (hlt : subscription.currentPeriodStart < subscription.currentPeriodEnd)
    (hb : boundary subscription n = some b) (hb' : boundary subscription (n + 1) = some b') :
    subscriptionPeriod (some subscription) b = some (b, b') := by
  rw [subscriptionPeriod_of_started hlt (hlt.le.trans (DateTime.le_of_addMonthTimes hb))]
  exact rollPeriod_boundary hb hb'

/-- Every period that is not the stored one lies between two boundaries. -/
theorem boundary_of_subscriptionPeriod {period : DateTime × DateTime}
    (hlt : subscription.currentPeriodStart < subscription.currentPeriodEnd)
    (hroll : subscription.currentPeriodEnd ≤ t)
    (h : subscriptionPeriod (some subscription) t = some period) :
    ∃ n, boundary subscription n = some period.1 ∧ boundary subscription (n + 1) = some period.2 := by
  rw [subscriptionPeriod_of_started hlt (hlt.le.trans hroll)] at h
  unfold boundary
  generalize subscription.currentPeriodStart = start at h
  generalize subscription.currentPeriodEnd = stop at h hroll
  induction hn : stop.monthsLeft using Nat.strong_induction_on generalizing start stop with
  | _ n ih =>
    rw [rollPeriod_eq, if_pos hroll] at h
    obtain ⟨next, hnext, h⟩ := Option.bind_eq_some_iff.mp h
    by_cases hnextroll : next ≤ t
    · obtain ⟨m, hm, hm'⟩ := ih next.monthsLeft (by have := (DateTime.addMonth_spec hnext).2; omega) stop next
        h hnextroll rfl
      refine ⟨m + 1, ?_, ?_⟩
      · rw [DateTime.addMonthTimes_succ, hnext, Option.bind_some, hm]
      · rw [DateTime.addMonthTimes_succ, hnext, Option.bind_some, hm']
    · rw [rollPeriod_of_lt (not_le.mp hnextroll)] at h
      obtain rfl := Option.some.inj h
      exact ⟨0, rfl, hnext⟩

/-- The boundary is the stored end moved `n` calendar months forward, on the same day or the last day of
the month, at the same time of day. -/
structure OnBillingDay (subscription : Subscription) (n : Nat) (b : DateTime) : Prop where
  month : b.monthNumber = subscription.currentPeriodEnd.monthNumber + n
  day : b.day = min subscription.currentPeriodEnd.day (DateTime.daysOfMonth b.monthNumber)
  time : b.micro = subscription.currentPeriodEnd.micro

/-- **The billing day** is kept at a boundary if and only if no month on the way is shorter than the day
that is due there. -/
theorem boundary_onBillingDay_iff (subscription : Subscription) (n : Nat) (b : DateTime) (hn : 1 ≤ n)
    (hb : boundary subscription n = some b) :
    OnBillingDay subscription n b ↔ ∀ i, 1 ≤ i → i < n →
      min subscription.currentPeriodEnd.day
          (DateTime.daysOfMonth (subscription.currentPeriodEnd.monthNumber + n)) ≤
        DateTime.daysOfMonth (subscription.currentPeriodEnd.monthNumber + i) := by
  obtain ⟨m, rfl⟩ : ∃ m, n = m + 1 := ⟨n - 1, by omega⟩
  obtain ⟨hmonth, hday, hmicro⟩ := DateTime.addMonthTimes_fields hb
  have hiff := @DateTime.clippedDay_eq_iff subscription.currentPeriodEnd.monthNumber
    subscription.currentPeriodEnd.day m
  rw [← hday, Nat.add_assoc, ← hmonth] at hiff
  constructor
  · intro h i hi him
    obtain ⟨j, rfl⟩ : ∃ j, i = j + 1 := ⟨i - 1, by omega⟩
    rw [← hmonth]
    exact hiff.mp h.day j (by omega)
  · intro h
    refine ⟨hmonth, hiff.mpr fun i hi => ?_, hmicro⟩
    have hle := h (i + 1) (by omega) (by omega)
    rwa [← hmonth] at hle

/-- The second boundary after the end of January is due on the 31st of March. -/
theorem Reference.january_drifts : ¬∀ subscription n b, 1 ≤ n → boundary subscription n = some b →
    OnBillingDay subscription n b := by
  intro h
  have hday := (h Reference.january 2 ⟨2026, 3, 28, 0, by decide⟩ (by decide) (by decide)).day
  exact absurd hday (by decide)

theorem Reference.january_onBillingDay_iff :
    OnBillingDay Reference.january 2 ⟨2026, 3, 28, 0, by decide⟩ ↔ ∀ i, 1 ≤ i → i < 2 →
      min Reference.january.currentPeriodEnd.day
          (DateTime.daysOfMonth (Reference.january.currentPeriodEnd.monthNumber + 2)) ≤
        DateTime.daysOfMonth (Reference.january.currentPeriodEnd.monthNumber + i) :=
  boundary_onBillingDay_iff Reference.january 2 _ (by decide) (by decide)

end BillingDay

end TenantForge
