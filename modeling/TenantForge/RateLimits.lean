import Mathlib.Data.List.Induction
import TenantForge.Infrastructure.RateLimit
import TenantForge.Python.Text
/-!
# The bound of the fixed windows

A counter lives one second longer than its window, from its first hit on. If the offset between the
clocks varies by at most one second, no counter expires while a check may still hit its window
(`Counted`), so the counter numbers the checks of the window in the order of their execution.
-/

namespace TenantForge.FixedWindowRateLimiter

open Python

/-! ### Keys -/

theorem colon_not_mem_toString (n : Int) : ':' ∉ (toString n).toList := by
  intro h
  rcases isDigit_of_mem_toString h with hdigit | hsign
  · exact absurd hdigit (by decide)
  · exact absurd hsign (by decide)

/-- What stands after the last colon is found again. -/
theorem eq_of_append_colon {a b x y : List Char} (hx : ':' ∉ x) (hy : ':' ∉ y)
    (h : a ++ ':' :: x = b ++ ':' :: y) : a = b ∧ x = y := by
  induction a generalizing b with
  | nil =>
    cases b with
    | nil => simpa using h
    | cons c b =>
      simp only [List.nil_append, List.cons_append, List.cons.injEq] at h
      exact absurd (h.2 ▸ List.mem_append_right b List.mem_cons_self) hx
  | cons c a ih =>
    cases b with
    | nil =>
      simp only [List.nil_append, List.cons_append, List.cons.injEq] at h
      exact absurd (h.2 ▸ List.mem_append_right a List.mem_cons_self) hy
    | cons d b =>
      simp only [List.cons_append, List.cons.injEq] at h
      obtain ⟨rfl, rfl⟩ := ih h.2
      exact ⟨by rw [h.1], rfl⟩

theorem redisKey_injective {keyPrefix : String} {i j : String} {m n : Int}
    (h : redisKey keyPrefix i m = redisKey keyPrefix j n) : i = j ∧ m = n := by
  have hchars := congrArg String.toList h
  simp only [redisKey, String.toList_append, List.append_assoc] at hchars
  have hsplit := List.append_cancel_left (List.append_cancel_left hchars)
  obtain ⟨hid, hwindow⟩ := eq_of_append_colon (colon_not_mem_toString m) (colon_not_mem_toString n) hsplit
  exact ⟨String.toList_injective hid, toString_injective (String.toList_injective hwindow)⟩

/-! ### The counters -/

/-- A check of this identifier in this window. -/
def InWindow (identifier : String) (windowSeconds k : Int) (call : RateLimitCheck) : Prop :=
  call.identifier = identifier ∧ window call.now windowSeconds = k

instance (identifier : String) (windowSeconds k : Int) (call : RateLimitCheck) :
    Decidable (InWindow identifier windowSeconds k call) :=
  inferInstanceAs (Decidable (_ ∧ _))

/-- The checks of one identifier have these settings, and the offset between the two clocks varies by
at most one second over them. -/
structure Uniform (identifier : String) (limit windowSeconds : Int) (calls : List RateLimitCheck) :
    Prop where
  settings : ∀ call ∈ calls, call.identifier = identifier →
    call.limit = limit ∧ call.windowSeconds = windowSeconds
  offset : ∀ a ∈ calls, ∀ b ∈ calls, a.identifier = identifier → b.identifier = identifier →
    (a.redisTime - a.now) - (b.redisTime - b.now) ≤ 1

/-- The counter of a window counts its checks, and lives from the first one on. -/
def Counted (keyPrefix identifier : String) (windowSeconds : Int) (calls : List RateLimitCheck) : Prop :=
  ∀ k, execute keyPrefix (fun _ => none) calls (redisKey keyPrefix identifier k) =
    (calls.filter (InWindow identifier windowSeconds k)).head?.map fun first =>
      ⟨(calls.filter (InWindow identifier windowSeconds k)).length, first.redisTime + (windowSeconds + 1 : Int)⟩

theorem execute_append (keyPrefix : String) (counters : Counters) (calls : List RateLimitCheck)
    (call : RateLimitCheck) : execute keyPrefix counters (calls ++ [call]) =
      (check keyPrefix call (execute keyPrefix counters calls)).2 := by
  simp [execute]

/-- Two checks of a window are so close that the counter of the first one is alive at the second. -/
theorem redisTime_lt {a b : RateLimitCheck} {windowSeconds : Int} (hW : 1 ≤ windowSeconds)
    (hwindow : window a.now windowSeconds = window b.now windowSeconds)
    (hoffset : (b.redisTime - b.now) - (a.redisTime - a.now) ≤ 1) :
    b.redisTime < a.redisTime + (windowSeconds + 1 : Int) := by
  have hpos : (0 : ℚ) < windowSeconds := by exact_mod_cast (by omega : 0 < windowSeconds)
  have ha : (window a.now windowSeconds : ℚ) * windowSeconds ≤ a.now := by
    rw [← le_div_iff₀ hpos]
    exact Int.floor_le _
  have hb : b.now < ((window b.now windowSeconds : ℚ) + 1) * windowSeconds := by
    rw [← div_lt_iff₀ hpos]
    exact Int.lt_floor_add_one _
  rw [← hwindow] at hb
  push_cast
  linarith

/-- What the script answers to a check, given that its counter counts. -/
theorem answer_of_counted {keyPrefix identifier : String} {windowSeconds : Int}
    {before : List RateLimitCheck} {call : RateLimitCheck} (hW : 1 ≤ windowSeconds)
    (hcounted : Counted keyPrefix identifier windowSeconds before)
    (hoffset : ∀ a ∈ before, a.identifier = identifier →
      (call.redisTime - call.now) - (a.redisTime - a.now) ≤ 1) :
    let k := window call.now windowSeconds
    let seen := before.filter (InWindow identifier windowSeconds k)
    let key := redisKey keyPrefix identifier k
    incrementWindow (execute keyPrefix (fun _ => none) before) key (windowSeconds + 1) call.redisTime =
      (seen.length + 1, Function.update (execute keyPrefix (fun _ => none) before) key
        ((seen ++ [call]).head?.map fun first =>
          ⟨seen.length + 1, first.redisTime + (windowSeconds + 1 : Int)⟩)) := by
  intro k seen key
  have hcount := hcounted k
  rw [incrementWindow, hcount]
  cases hseen : before.filter (InWindow identifier windowSeconds k) with
  | nil => simp [seen, hseen]
  | cons first rest =>
    have hfirst : first ∈ before.filter (InWindow identifier windowSeconds k) := by simp [hseen]
    obtain ⟨hmem, hin⟩ := List.mem_filter.mp hfirst
    have hin : InWindow identifier windowSeconds k first := by simpa using hin
    have halive := redisTime_lt hW hin.2 (hoffset first hmem hin.1)
    simp only [Int.cast_add, Int.cast_one] at halive
    simp [seen, hseen, Option.filter, halive]

theorem check_of_limit {keyPrefix : String} (call : RateLimitCheck) {counters : Counters}
    (hlimit : 1 ≤ call.limit) (hW : 1 ≤ call.windowSeconds) :
    let answer := incrementWindow counters
      (redisKey keyPrefix call.identifier (window call.now call.windowSeconds))
      (call.windowSeconds + 1) call.redisTime
    passed (check keyPrefix call counters).1 = decide ((answer.1 : Int) ≤ call.limit) ∧
      (check keyPrefix call counters).2 = answer.2 := by
  have hvalid : ¬(call.limit < 1 ∨ call.windowSeconds < 1) := by omega
  simp [check, hvalid, passed]

/-- A check touches no counter but its own. -/
theorem check_frame {keyPrefix : String} {call : RateLimitCheck} {counters : Counters} {key : String}
    (hkey : key ≠ redisKey keyPrefix call.identifier (window call.now call.windowSeconds)) :
    (check keyPrefix call counters).2 key = counters key := by
  rw [check]
  split
  · rfl
  · simp only [incrementWindow]
    split <;> simp [hkey]

/-- **The step**: one more check keeps the counters right. -/
theorem Counted.append {keyPrefix identifier : String} {limit windowSeconds : Int}
    {before : List RateLimitCheck} {call : RateLimitCheck} (hlimit : 1 ≤ limit) (hW : 1 ≤ windowSeconds)
    (huniform : Uniform identifier limit windowSeconds (before ++ [call]))
    (hcounted : Counted keyPrefix identifier windowSeconds before) :
    Counted keyPrefix identifier windowSeconds (before ++ [call]) := by
  intro k
  rw [execute_append]
  by_cases hin : InWindow identifier windowSeconds k call
  · obtain ⟨hid, hwindow⟩ := hin
    obtain ⟨rfl, rfl⟩ := huniform.settings call (by simp) hid
    have hanswer := answer_of_counted hW hcounted fun a ha hid' =>
      huniform.offset call (by simp) a (by simp [ha]) hid hid'
    rw [(check_of_limit _ hlimit hW).2, hid, hanswer, hwindow]
    dsimp only
    rw [Function.update_self]
    simp [List.filter_append, InWindow, hid, hwindow]
  · have hkey : redisKey keyPrefix identifier k ≠
        redisKey keyPrefix call.identifier (window call.now call.windowSeconds) := by
      intro hkey
      obtain ⟨hid, hk⟩ := redisKey_injective hkey
      refine hin ⟨hid.symm, ?_⟩
      rw [hk, (huniform.settings call (by simp) hid.symm).2]
    rw [check_frame hkey, hcounted k]
    simp [List.filter_append, hin]

theorem Uniform.of_append {identifier : String} {limit windowSeconds : Int}
    {before after : List RateLimitCheck} (h : Uniform identifier limit windowSeconds (before ++ after)) :
    Uniform identifier limit windowSeconds before where
  settings call hcall := h.settings call (List.mem_append_left _ hcall)
  offset a ha b hb := h.offset a (List.mem_append_left _ ha) b (List.mem_append_left _ hb)

theorem counted_of_uniform (keyPrefix : String) {identifier : String} {limit windowSeconds : Int}
    {calls : List RateLimitCheck} (hlimit : 1 ≤ limit) (hW : 1 ≤ windowSeconds)
    (h : Uniform identifier limit windowSeconds calls) :
    Counted keyPrefix identifier windowSeconds calls := by
  induction calls using List.reverseRecOn with
  | nil => intro k; rfl
  | append_singleton before call ih => exact (ih h.of_append).append hlimit hW h

/-! ### The bound -/

/-- A check is let pass if fewer than `limit` checks of its window came before it. -/
theorem passed_iff (keyPrefix : String) {identifier : String} {limit windowSeconds : Int}
    {before : List RateLimitCheck} {call : RateLimitCheck} (hlimit : 1 ≤ limit) (hW : 1 ≤ windowSeconds)
    (h : Uniform identifier limit windowSeconds (before ++ [call])) (hid : call.identifier = identifier) :
    passed (result keyPrefix before call) = true ↔
      ((before.countP (InWindow identifier windowSeconds (window call.now windowSeconds)) : Nat) : Int) <
        limit := by
  obtain ⟨rfl, rfl⟩ := h.settings call (by simp) hid
  have hanswer := answer_of_counted hW (counted_of_uniform keyPrefix hlimit hW h.of_append)
    fun a ha hid' => h.offset call (by simp) a (by simp [ha]) hid hid'
  rw [result, (check_of_limit _ hlimit hW).1, hid, hanswer, decide_eq_true_iff, List.countP_eq_length_filter]
  push_cast
  omega

theorem outcomes_append (keyPrefix : String) (counters : Counters) (calls : List RateLimitCheck)
    (call : RateLimitCheck) : outcomes keyPrefix counters (calls ++ [call]) =
      outcomes keyPrefix counters calls ++
        [(call, passed (check keyPrefix call (execute keyPrefix counters calls)).1)] := by
  induction calls generalizing counters with
  | nil => rfl
  | cons first calls ih => simp [outcomes, execute, ih]

/-- An executed check of this window that was let pass. -/
def PassedIn (identifier : String) (windowSeconds k : Int) (entry : RateLimitCheck × Bool) : Bool :=
  InWindow identifier windowSeconds k entry.1 && entry.2

/-- A window lets at most `limit` checks pass. -/
theorem countP_passedIn (keyPrefix : String) {identifier : String} {limit windowSeconds : Int}
    {calls : List RateLimitCheck} (hlimit : 1 ≤ limit) (hW : 1 ≤ windowSeconds)
    (h : Uniform identifier limit windowSeconds calls) (k : Int) :
    (((outcomes keyPrefix (fun _ => none) calls).countP (PassedIn identifier windowSeconds k) : Nat) : Int) =
      min ((calls.countP (InWindow identifier windowSeconds k) : Nat) : Int) limit := by
  induction calls using List.reverseRecOn with
  | nil => simp [outcomes]; omega
  | append_singleton before call ih =>
    have hbefore := ih h.of_append
    rw [outcomes_append, List.countP_append, List.countP_append, List.countP_singleton,
      List.countP_singleton]
    by_cases hin : InWindow identifier windowSeconds k call
    · have hpassed := passed_iff keyPrefix hlimit hW h hin.1
      rw [hin.2] at hpassed
      rw [result] at hpassed
      cases hp : passed (check keyPrefix call (execute keyPrefix (fun _ => none) before)).1 with
      | true =>
        simp only [PassedIn, hin, decide_true, Bool.true_and, if_true]
        have := hpassed.mp hp
        push_cast
        omega
      | false =>
        have : ¬_ := fun hlt => Bool.false_ne_true (hp.symm.trans (hpassed.mpr hlt))
        simp only [PassedIn, hin, decide_true, Bool.and_false, if_true]
        push_cast
        omega
    · simp only [PassedIn, hin, decide_false, Bool.false_and]
      simpa using hbefore

/-- The times of an interval of the length of a window lie in two windows at most. -/
theorem window_of_interval {a t : Rat} {windowSeconds : Int} (hW : 1 ≤ windowSeconds) (hle : a ≤ t)
    (hlt : t ≤ a + windowSeconds) :
    window t windowSeconds = window a windowSeconds ∨
      window t windowSeconds = window a windowSeconds + 1 := by
  have hpos : (0 : ℚ) < windowSeconds := by exact_mod_cast (by omega : 0 < windowSeconds)
  have hlow : window a windowSeconds ≤ window t windowSeconds :=
    Int.floor_le_floor (div_le_div_of_nonneg_right hle hpos.le)
  have hhigh : window t windowSeconds ≤ window a windowSeconds + 1 := by
    rw [window, window, ← Int.floor_add_one]
    refine Int.floor_le_floor ?_
    rw [div_add_one hpos.ne']
    exact div_le_div_of_nonneg_right hlt hpos.le
  omega

theorem countP_le_add {α : Type} {p q r : α → Bool} {l : List α}
    (h : ∀ a, p a = true → q a = true ∨ r a = true) : l.countP p ≤ l.countP q + l.countP r := by
  induction l with
  | nil => simp
  | cons a l ih =>
    have ha := h a
    simp only [List.countP_cons]
    split <;> split <;> split <;> simp_all <;> omega

/-- **The bound of a fixed window**: in each window exactly the first `limit` executed checks are let
pass, and in any interval of the length of a window at most twice as many. -/
theorem fixedWindow_bound (keyPrefix identifier : String) (limit windowSeconds : Int)
    (calls : List RateLimitCheck) (hlimit : 1 ≤ limit) (hW : 1 ≤ windowSeconds)
    (huniform : Uniform identifier limit windowSeconds calls) :
    (∀ before call after, calls = before ++ call :: after → call.identifier = identifier →
      (passed (result keyPrefix before call) = true ↔
        ((before.countP (InWindow identifier windowSeconds (window call.now windowSeconds)) : Nat) : Int) <
          limit)) ∧
    ∀ start : Rat, (((outcomes keyPrefix (fun _ => none) calls).countP fun entry =>
      entry.1.identifier = identifier ∧ start ≤ entry.1.now ∧ entry.1.now ≤ start + windowSeconds ∧
        entry.2 = true : Nat) : Int) ≤ 2 * limit := by
  constructor
  · rintro before call after rfl hid
    rw [List.append_cons] at huniform
    exact passed_iff keyPrefix hlimit hW huniform.of_append hid
  · intro start
    have hfirst := countP_passedIn keyPrefix hlimit hW huniform (window start windowSeconds)
    have hsecond := countP_passedIn keyPrefix hlimit hW huniform
      (window start windowSeconds + 1)
    have hsplit := countP_le_add (l := outcomes keyPrefix (fun _ => none) calls)
      (p := fun entry => entry.1.identifier = identifier ∧ start ≤ entry.1.now ∧
        entry.1.now ≤ start + windowSeconds ∧ entry.2 = true)
      (q := PassedIn identifier windowSeconds (window start windowSeconds))
      (r := PassedIn identifier windowSeconds (window start windowSeconds + 1)) fun entry hentry => by
        obtain ⟨hid, hle, hlt, hpassed⟩ := of_decide_eq_true hentry
        rcases window_of_interval hW hle hlt with hwindow | hwindow <;>
          simp [PassedIn, InWindow, hid, hwindow, hpassed]
    omega

/-- Three checks of one client by two servers, one of which is a second behind Redis. -/
def threeChecks : List RateLimitCheck :=
  [⟨"user:1", 2, 60, 30, 30⟩, ⟨"user:1", 2, 60, 29, 30⟩, ⟨"user:1", 2, 60, 31, 31⟩]

theorem threeChecks_bound :
    (∀ before call after, threeChecks = before ++ call :: after → call.identifier = "user:1" →
      (passed (result "tenantforge:rate-limit" before call) = true ↔
        ((before.countP (InWindow "user:1" 60 (window call.now 60)) : Nat) : Int) < 2)) ∧
    ∀ start : Rat, (((outcomes "tenantforge:rate-limit" (fun _ => none) threeChecks).countP fun entry =>
      entry.1.identifier = "user:1" ∧ start ≤ entry.1.now ∧ entry.1.now ≤ start + (60 : Int) ∧
        entry.2 = true : Nat) : Int) ≤ 2 * 2 :=
  fixedWindow_bound "tenantforge:rate-limit" "user:1" 2 60 threeChecks (by decide) (by decide)
    ⟨by simp [threeChecks], by simp [threeChecks]; norm_num⟩

example : (outcomes "tenantforge:rate-limit" (fun _ => none) threeChecks).map Prod.snd =
    [true, true, false] := by
  decide +kernel

/-! ### Waiting -/

/-- The window of a time is `k` if the time lies between its two boundaries. -/
theorem window_eq_iff {t : Rat} {windowSeconds k : Int} (hW : 1 ≤ windowSeconds) :
    window t windowSeconds = k ↔ (k : Rat) * windowSeconds ≤ t ∧ t < ((k : Rat) + 1) * windowSeconds := by
  have hpos : (0 : ℚ) < windowSeconds := by exact_mod_cast (by omega : 0 < windowSeconds)
  rw [window, Int.floor_eq_iff, le_div_iff₀ hpos, div_lt_iff₀ hpos]

theorem le_window_iff {t : Rat} {windowSeconds k : Int} (hW : 1 ≤ windowSeconds) :
    k ≤ window t windowSeconds ↔ (k : Rat) * windowSeconds ≤ t := by
  have hpos : (0 : ℚ) < windowSeconds := by exact_mod_cast (by omega : 0 < windowSeconds)
  rw [window, Int.le_floor, le_div_iff₀ hpos]

/-- The seconds from a time to the end of its window, rounded up. -/
theorem ceil_windowEnd {t : Rat} {windowSeconds : Int} (hW : 1 ≤ windowSeconds) :
    let r := ⌈((window t windowSeconds + 1 : Int) * windowSeconds : Rat) - t⌉
    1 ≤ r ∧ r ≤ windowSeconds ∧ window t windowSeconds < window (t + r) windowSeconds ∧
      window (t + (r - 1 : Int)) windowSeconds = window t windowSeconds := by
  intro r
  have hpos : (0 : ℚ) < windowSeconds := by exact_mod_cast (by omega : 0 < windowSeconds)
  obtain ⟨hbegun, hrunning⟩ := (window_eq_iff hW).mp (Eq.refl (window t windowSeconds))
  have hup : ((window t windowSeconds + 1 : Int) * windowSeconds : Rat) - t ≤ r := Int.le_ceil _
  have hdown : (r : Rat) < ((window t windowSeconds + 1 : Int) * windowSeconds : Rat) - t + 1 :=
    Int.ceil_lt_add_one _
  push_cast at hup hdown
  have hone : 1 ≤ r := by
    have hr : (0 : ℚ) < r := by linarith
    exact_mod_cast hr
  have hmost : r ≤ windowSeconds := by
    have hr : (r : ℚ) < windowSeconds + 1 := by linarith
    exact Int.lt_add_one_iff.mp (by exact_mod_cast hr)
  refine ⟨hone, hmost, ?_, (window_eq_iff hW).mpr ⟨?_, ?_⟩⟩
  · rw [← Int.add_one_le_iff, le_window_iff hW]
    push_cast
    linarith
  · have hr : (1 : ℚ) ≤ r := by exact_mod_cast hone
    push_cast
    linarith
  · push_cast
    linarith

/-- **The wait is tight**: it ends in a later window, a second less does not, and a caller whose counter
of that window has room left is let pass. -/
theorem retryAfter_tight (keyPrefix : String) (call : RateLimitCheck) (counters : Counters)
    (result : RateLimitResult) (h : (check keyPrefix call counters).1 = .ok result) :
    (1 ≤ result.retryAfter ∧ result.retryAfter ≤ call.windowSeconds ∧
      window call.now call.windowSeconds < window (call.now + result.retryAfter) call.windowSeconds ∧
      window (call.now + (result.retryAfter - 1 : Int)) call.windowSeconds =
        window call.now call.windowSeconds) ∧
    ∀ (later : Counters) (redisTime : Rat), (∀ counter, later (redisKey keyPrefix call.identifier
        (window (call.now + result.retryAfter) call.windowSeconds)) = some counter →
          redisTime < counter.expiresAt → (counter.count : Int) < call.limit) →
      passed (check keyPrefix
        { call with now := call.now + result.retryAfter, redisTime := redisTime } later).1 = true := by
  rw [check] at h
  split at h
  · cases h
  · rename_i hvalid
    obtain ⟨hlimit, hW⟩ : 1 ≤ call.limit ∧ 1 ≤ call.windowSeconds := by omega
    have htight := ceil_windowEnd (t := call.now) hW
    have hretry : result.retryAfter =
        ⌈((window call.now call.windowSeconds + 1 : Int) * call.windowSeconds : Rat) - call.now⌉ := by
      rw [← Except.ok.inj h]
      exact max_eq_right htight.1
    rw [← hretry] at htight
    refine ⟨htight, fun later redisTime hroom => ?_⟩
    rw [(check_of_limit { call with now := _, redisTime := redisTime } hlimit hW).1,
      decide_eq_true_iff, incrementWindow]
    cases hcounter : (later (redisKey keyPrefix call.identifier (window (call.now + result.retryAfter)
      call.windowSeconds))).filter fun counter => redisTime < counter.expiresAt with
    | none => simpa [hcounter] using hlimit
    | some counter =>
      obtain ⟨hstored, halive⟩ := Option.filter_eq_some_iff.mp hcounter
      have hfew := hroom counter hstored (by simpa using halive)
      push_cast
      omega

/-- The third check is refused at the time 31, and a second before the end of the wait it still is. -/
theorem threeChecks_retryAfter :
    (1 ≤ (29 : Int) ∧ (29 : Int) ≤ 60 ∧ window 31 60 < window (31 + (29 : Int)) 60 ∧
      window (31 + (29 - 1 : Int)) 60 = window 31 60) ∧
    ∀ (later : Counters) (redisTime : Rat), (∀ counter, later (redisKey "tenantforge:rate-limit" "user:1"
        (window (31 + (29 : Int)) 60)) = some counter →
          redisTime < counter.expiresAt → (counter.count : Int) < 2) →
      passed (check "tenantforge:rate-limit" ⟨"user:1", 2, 60, 31 + (29 : Int), redisTime⟩ later).1 =
        true :=
  retryAfter_tight "tenantforge:rate-limit" ⟨"user:1", 2, 60, 31, 31⟩
    (execute "tenantforge:rate-limit" (fun _ => none) threeChecks) ⟨false, 2, 0, 29⟩ (by decide +kernel)

end TenantForge.FixedWindowRateLimiter
