import TenantForge.BillingPeriods
import TenantForge.Workers.Jobs
/-!
# Usage rollups

`write_usage_rollup` adds up the events of a half-open period, as `_usage_total` does, so rollups over
consecutive periods add up to the rollup over the whole span (`run_usageRollups`). Without a
`period_start` the job takes the first instant of the month of `period_end`. That is the month to date
while the end lies inside a month; the end of a calendar period is itself the first instant of a month,
the period is then empty and the job raises (`rollup_never_matches`).
-/

namespace TenantForge

open Gregorian ReadCommitted

/-! ### The first instant of a month -/

theorem startOfMonth_eq_self_iff {t : DateTime} : t.startOfMonth = t ↔ t.day = 1 ∧ t.micro = 0 := by
  constructor
  · intro h
    rw [← h]
    exact ⟨rfl, rfl⟩
  · obtain ⟨year, month, day, micro, hvalid⟩ := t
    rintro ⟨hday, hmicro⟩
    dsimp only at hday hmicro
    subst hday hmicro
    rfl

/-- A calendar period ends with the first instant of a month. -/
theorem calendarPeriod_stop {t start stop : DateTime} (h : calendarPeriod t = some (start, stop)) :
    stop.startOfMonth = stop := by
  unfold calendarPeriod at h
  obtain ⟨next, hnext, hperiod⟩ := Option.map_eq_some_iff.mp h
  obtain ⟨-, rfl⟩ := Prod.mk.inj hperiod
  obtain ⟨-, hday, hmicro⟩ := DateTime.addMonth_fields hnext
  rw [startOfMonth_eq_self_iff]
  refine ⟨?_, hmicro⟩
  rw [hday]
  exact Nat.min_eq_left (daysInMonth_pos _ _)

/-! ### Payloads -/

/-- An ISO-8601 text with an offset, or with `Z`, that names this instant. -/
def Spells (rt : Runtime) (text : String) (t : DateTime) : Prop :=
  ∃ civil offset, rt.fromIsoFormat (replaceZulu text) = .ok (.aware civil offset) ∧
    toUtc civil offset = .ok t

/-- The payload of a rollup, with or without a `period_start`. -/
def rollupPayload (rt : Runtime) (organizationId : Uuid) (metric : String) (periodStart : Option String)
    (periodEnd : String) : List (String × Value) :=
  [("organization_id", .str (rt.uuidText organizationId)), ("metric", .str metric)] ++
    periodStart.toList.map (fun text => ("period_start", .str text)) ++ [("period_end", .str periodEnd)]

variable {rt : Runtime}

theorem Spells.parseTime {text : String} {t : DateTime} (h : Spells rt text t) (fallback : DateTime) :
    parseTime rt (.str text) fallback = .ok t := by
  obtain ⟨civil, offset, hparsed, hutc⟩ := h
  simp only [TenantForge.parseTime, hparsed, hutc]

section Payload

variable (organizationId : Uuid) (metric : String) (periodStart : Option String) (periodEnd : String)

theorem get?_rollupPayload_organization :
    Value.get? (rollupPayload rt organizationId metric periodStart periodEnd) "organization_id" =
      some (.str (rt.uuidText organizationId)) := rfl

theorem get?_rollupPayload_metric :
    Value.get? (rollupPayload rt organizationId metric periodStart periodEnd) "metric" =
      some (.str metric) := rfl

theorem get?_rollupPayload_start :
    Value.get? (rollupPayload rt organizationId metric periodStart periodEnd) "period_start" =
      periodStart.map .str := by
  cases periodStart <;> rfl

theorem get?_rollupPayload_end :
    Value.get? (rollupPayload rt organizationId metric periodStart periodEnd) "period_end" =
      some (.str periodEnd) := by
  cases periodStart <;> rfl

end Payload

/-! ### One rollup -/

section Run

variable {T : Type} (tag : T) (s : Shared schema Env T) (organizationId : Uuid) (metric : String)

/-- The state after the clock was read. -/
def ticked (s : Shared schema Env T) : Shared schema Env T :=
  { s with env := { s.env with ticks := s.env.ticks + 1 } }

/-- What the job does with the period that it was given or made up. -/
def rollupOf (organizationId : Uuid) (metric : String) (start stop : DateTime) (db : Db) : Except Exn Int :=
  if stop ≤ start then .error (.valueError "period_end must be after period_start")
  else .ok (usageIn organizationId metric start stop db)

theorem run_sessionScope_usageTotal (start stop : DateTime) :
    (sessionScope (usageTotal organizationId metric start stop)).run tag .empty s =
      (.ok (usageIn organizationId metric start stop s.db), .empty, s) := by
  have htotal : (usageTotal organizationId metric start stop).run tag .empty s =
      (.ok (usageIn organizationId metric start stop s.db), .empty, s) := by
    rw [usageTotal, run_query, Session.view_empty]
  rw [sessionScope, Prog.tryCatch_eq, Prog.run_handle, Prog.bind_eq, Prog.run_bind_ok htotal]
  rfl

theorem run_required_str {payload : List (String × Value)} {key text : String}
    (hget : Value.get? payload key = some (.str text)) (htext : text ≠ "") :
    (required payload key).run tag .empty s = (.ok (.str text), .empty, s) := by
  rw [required, hget]
  split
  · rename_i heq
    cases heq
  · rename_i heq
    cases heq
  · rename_i heq
    exact absurd (Value.str.inj (Option.some.inj heq)) htext
  · rename_i heq
    obtain rfl := Option.some.inj heq
    rfl

variable (horganization : rt.uuidText organizationId ≠ "")

include horganization

/-- A rollup whose timestamps can be read. The job takes the given start, or the first instant of the
month of its end. -/
theorem run_usageRollup (periodStart : Option String) (start : DateTime) {stop : DateTime}
    {periodEnd : String} (hstart : match periodStart with
      | some text => Spells rt text start
      | none => start = stop.startOfMonth)
    (hstop : Spells rt periodEnd stop) :
    (usageRollup rt (rollupPayload rt organizationId metric periodStart periodEnd)).run tag .empty s =
      (rollupOf organizationId metric start stop s.db, .empty, ticked s) := by
  have hrequired : (required (rollupPayload rt organizationId metric periodStart periodEnd)
      "organization_id").run tag .empty s = (.ok (.str (rt.uuidText organizationId)), .empty, s) :=
    run_required_str tag s (get?_rollupPayload_organization organizationId metric periodStart periodEnd)
      horganization
  have hfallback : parseTime rt (getOrNull (rollupPayload rt organizationId metric periodStart periodEnd)
      "period_start") stop.startOfMonth = .ok start := by
    rw [getOrNull, get?_rollupPayload_start]
    cases periodStart with
    | none => rw [show start = stop.startOfMonth from hstart]; rfl
    | some text => exact Spells.parseTime hstart _
  have hend : parseTime rt (getOrNull (rollupPayload rt organizationId metric periodStart periodEnd)
      "period_end") (s.env.clock s.env.ticks) = .ok stop := by
    rw [getOrNull, get?_rollupPayload_end]
    exact hstop.parseTime _
  have hstopped : (ofExcept (parseTime rt (getOrNull (rollupPayload rt organizationId metric periodStart
      periodEnd) "period_end") (s.env.clock s.env.ticks)) : App DateTime).run tag .empty (ticked s) =
        (.ok stop, .empty, ticked s) := by
    rw [hend]
    rfl
  have hstarted : (ofExcept (parseTime rt (getOrNull (rollupPayload rt organizationId metric periodStart
      periodEnd) "period_start") stop.startOfMonth) : App DateTime).run tag .empty (ticked s) =
        (.ok start, .empty, ticked s) := by
    rw [hfallback]
    rfl
  rw [usageRollup, Prog.bind_eq, Prog.run_bind_ok hrequired, Interpreter.str, rt.parseUuid_uuidText,
    Prog.bind_eq, Prog.run_bind_ok (run_orRaise_some tag .empty s organizationId _), Prog.bind_eq,
    Prog.run_bind_ok (run_now tag .empty s), Prog.bind_eq]
  refine (Prog.run_bind_ok hstopped _).trans ?_
  rw [Prog.bind_eq, Prog.run_bind_ok hstarted, Prog.bind_eq, rollupOf, get?_rollupPayload_metric]
  by_cases hle : stop ≤ start
  · rw [if_pos hle, Prog.run_bind_error (run_raiseIf tag .empty (ticked s) hle _)]
  · rw [if_neg hle, Prog.run_bind_ok (run_raiseIf_not tag .empty (ticked s) hle _)]
    exact run_sessionScope_usageTotal tag (ticked s) organizationId metric start stop

end Run

/-! ### Consecutive rollups -/

/-- The events of adjacent periods are the events of both together. -/
theorem usageIn_add (organizationId : Uuid) (metric : String) {a b c : DateTime} (hab : a ≤ b) (hbc : b ≤ c)
    (db : Db) : usageIn organizationId metric a b db + usageIn organizationId metric b c db =
      usageIn organizationId metric a c db := by
  unfold usageIn
  induction db .usageEvents with
  | nil => rfl
  | cons event events ih =>
    simp only [List.filter_cons, decide_eq_true_eq]
    -- the middle boundary belongs to the second period only
    by_cases hb : b ≤ UsageEvent.createdAt event
    · have hfirst : ¬UsageEvent.createdAt event < b := not_lt.mpr hb
      have ha : a ≤ UsageEvent.createdAt event := hab.trans hb
      simp only [hb, hfirst, ha, and_false, true_and, if_false]
      split
      · simp only [List.map_cons, List.sum_cons]
        omega
      · exact ih
    · have hfirst : UsageEvent.createdAt event < b := not_le.mp hb
      have hc : UsageEvent.createdAt event < c := hfirst.trans_le hbc
      simp only [hb, hfirst, hc, and_true, and_false, if_false]
      split
      · simp only [List.map_cons, List.sum_cons]
        omega
      · exact ih

/-- The rollups over the periods between these boundaries, one job after another. -/
def usageRollups (rt : Runtime) (organizationId : Uuid) (metric : String) :
    String → List String → App (List Int)
  | _, [] => pure []
  | start, stop :: stops => do
    let quantity ← usageRollup rt (rollupPayload rt organizationId metric (some start) stop)
    let quantities ← usageRollups rt organizationId metric stop stops
    pure (quantity :: quantities)

/-- The quantities in the periods between these boundaries. -/
def usageBetween (organizationId : Uuid) (metric : String) (db : Db) : DateTime → List DateTime → List Int
  | _, [] => []
  | start, stop :: stops =>
    usageIn organizationId metric start stop db :: usageBetween organizationId metric db stop stops

theorem sum_usageBetween (organizationId : Uuid) (metric : String) (db : Db) (start : DateTime)
    (stops : List DateTime) (hincreasing : (start :: stops).Pairwise (· < ·)) (hne : stops ≠ []) :
    (usageBetween organizationId metric db start stops).sum =
      usageIn organizationId metric start (stops.getLast hne) db := by
  induction stops generalizing start with
  | nil => exact absurd rfl hne
  | cons stop stops ih =>
    obtain ⟨hstart, hrest⟩ := List.pairwise_cons.mp hincreasing
    rw [usageBetween, List.sum_cons]
    by_cases hlast : stops = []
    · subst hlast
      simp [usageBetween]
    · have hstop : stop ≤ stops.getLast hlast :=
        ((List.pairwise_cons.mp hrest).1 _ (List.getLast_mem hlast)).le
      rw [ih stop hrest hlast, List.getLast_cons hlast]
      exact usageIn_add organizationId metric (hstart stop List.mem_cons_self).le hstop db

/-- **Consecutive rollups** report the quantities of their periods. -/
theorem run_usageRollups {T : Type} (tag : T) (s : Shared schema Env T) (organizationId : Uuid)
    (metric : String) (horganization : rt.uuidText organizationId ≠ "") (first : String × DateTime)
    (rest : List (String × DateTime)) (hspells : ∀ boundary ∈ first :: rest, Spells rt boundary.1 boundary.2)
    (hincreasing : ((first :: rest).map Prod.snd).Pairwise (· < ·)) :
    ((usageRollups rt organizationId metric first.1 (rest.map Prod.fst)).run tag .empty s).1 =
      .ok (usageBetween organizationId metric s.db first.2 (rest.map Prod.snd)) := by
  induction rest generalizing first s with
  | nil => rfl
  | cons next rest ih =>
    obtain ⟨hfirst, hnext⟩ := List.forall_mem_cons.mp hspells
    obtain ⟨hlt, hrest⟩ := List.pairwise_cons.mp hincreasing
    have hrun := run_usageRollup tag s organizationId metric horganization (some first.1) first.2
      hfirst (hnext next List.mem_cons_self)
    rw [rollupOf, if_neg (not_le.mpr (hlt _ List.mem_cons_self))] at hrun
    have htail := ih (ticked s) next hnext hrest
    simp only [List.map_cons, usageRollups, usageBetween, Prog.bind_eq, Prog.pure_eq] at htail ⊢
    rw [Prog.run_bind_ok hrun, Prog.run_bind]
    generalize (usageRollups rt organizationId metric next.1 (rest.map Prod.fst)).run tag .empty
      (ticked s) = result at htail
    obtain ⟨outcome, σ, s'⟩ := result
    obtain rfl : outcome = .ok _ := htail
    rfl

/-! ### Agreement with the accounting -/

/-- The rollup completes and reports what `_usage_total` counts. -/
def RollupMatches {T : Type} (rt : Runtime) (tag : T) (s : Shared schema Env T) (organizationId : Uuid)
    (metric : String) (payload : List (String × Value)) (start stop : DateTime) : Prop :=
  ∃ quantity, ((usageRollup rt payload).run tag .empty s).1 = .ok quantity ∧
    ((usageTotal organizationId metric start stop).run tag .empty s).1 = .ok quantity

/-- A rollup up to a time, without a start, counts the month to date if and only if the time is not the
first instant of its month. -/
theorem rollupMatches_iff {T : Type} (tag : T) (s : Shared schema Env T) (organizationId : Uuid)
    (metric : String) (horganization : rt.uuidText organizationId ≠ "") {stop : DateTime} {text : String}
    (htext : Spells rt text stop) :
    RollupMatches rt tag s organizationId metric (rollupPayload rt organizationId metric none text)
      stop.startOfMonth stop ↔ stop.startOfMonth ≠ stop := by
  have hrun := run_usageRollup tag s organizationId metric horganization none stop.startOfMonth
    rfl htext
  unfold RollupMatches
  rw [hrun, rollupOf]
  by_cases hfirst : stop.startOfMonth = stop
  · rw [if_pos hfirst.ge]
    simp [hfirst]
  · have hlt : ¬stop ≤ stop.startOfMonth :=
      not_le.mpr (lt_of_le_of_ne stop.startOfMonth_le hfirst)
    rw [if_neg hlt, usageTotal, run_query, Session.view_empty]
    simp [hfirst]

/-- **No calendar period is rolled up from its end**: the job whose `period_end` is the end of a calendar
period takes that end for the start as well, and raises. Rollups over given consecutive periods do add up
to the rollup over the whole span. -/
theorem rollup_never_matches {T : Type} (rt : Runtime) (tag : T) (s : Shared schema Env T)
    (organizationId : Uuid) (metric : String) (horganization : rt.uuidText organizationId ≠ "") :
    (∀ t start stop text, calendarPeriod t = some (start, stop) → Spells rt text stop →
      ¬RollupMatches rt tag s organizationId metric (rollupPayload rt organizationId metric none text)
        start stop) ∧
    ∀ (first : String × DateTime) (rest : List (String × DateTime)) (hne : rest ≠ []),
      (∀ boundary ∈ first :: rest, Spells rt boundary.1 boundary.2) →
      ((first :: rest).map Prod.snd).Pairwise (· < ·) →
      ∃ quantities,
        ((usageRollups rt organizationId metric first.1 (rest.map Prod.fst)).run tag .empty s).1 =
          .ok quantities ∧
        ((usageRollup rt (rollupPayload rt organizationId metric (some first.1) (rest.getLast hne).1)).run
          tag .empty s).1 = .ok quantities.sum := by
  constructor
  · intro t start stop text hperiod htext
    have hfirst := calendarPeriod_stop hperiod
    have hrun := run_usageRollup tag s organizationId metric horganization none stop.startOfMonth
      rfl htext
    rw [rollupOf, if_pos hfirst.ge] at hrun
    rintro ⟨quantity, hcompleted, -⟩
    rw [hrun] at hcompleted
    cases hcompleted
  · intro first rest hne hspells hincreasing
    have hlast : rest.getLast hne ∈ rest := List.getLast_mem hne
    have hlt : first.2 < (rest.getLast hne).2 :=
      (List.pairwise_cons.mp hincreasing).1 _ (List.mem_map_of_mem hlast)
    have hrun := run_usageRollup tag s organizationId metric horganization (some first.1) first.2
      (hspells _ List.mem_cons_self) (hspells _ (List.mem_cons_of_mem _ hlast))
    refine ⟨_, run_usageRollups tag s organizationId metric horganization first rest hspells hincreasing, ?_⟩
    rw [hrun, rollupOf, if_neg (not_le.mpr hlt)]
    rw [sum_usageBetween _ _ _ _ _ hincreasing (by simpa using hne), List.getLast_map]

namespace Reference

def february : DateTime := ⟨2026, 2, 1, 0, by decide⟩

def march : DateTime := ⟨2026, 3, 1, 0, by decide⟩

/-- Seven requests in February. -/
def sevenRequests : Shared schema Env Unit :=
  shared Unit (fun _ => noon 20)
    { organizations := [organization 5], usageEvents := [usageEvent 20 5 3 1, usageEvent 21 5 4 9] }

/-- Three of the requests are before it, four are after it. -/
def fifth : DateTime := ⟨2026, 2, 5, 0, by decide⟩

theorem spells_march : Spells runtime "2026-03-01T00:00:00Z" march := ⟨march, 0, rfl, rfl⟩

theorem spells_march_offset : Spells runtime "2026-03-01T05:30:00+05:30" march := by
  have hfields : isoFields (replaceZulu "2026-03-01T05:30:00+05:30").toList =
      some (⟨2026, 3, 1, 19800000000, by decide⟩, some 330) := by
    decide +kernel
  refine ⟨⟨2026, 3, 1, 19800000000, by decide⟩, 330 * 60000000, ?_, by decide +kernel⟩
  show fromIsoFormat (replaceZulu "2026-03-01T05:30:00+05:30") = _
  rw [fromIsoFormat, hfields]

theorem spells_february : Spells runtime "2026-02-01T00:00:00+00:00" february := ⟨february, 0, rfl, rfl⟩

theorem spells_fifth : Spells runtime "2026-02-05T00:00:00Z" fifth := ⟨fifth, 0, rfl, rfl⟩

/-- The accounting counts seven requests in February; the rollup that ends with February raises. -/
theorem february_unmatched :
    calendarPeriod (noon 9) = some (february, march) ∧
      ((usageTotal 5 apiRequestsMetric february march).run () .empty sevenRequests).1 = .ok 7 ∧
      Spells runtime "2026-03-01T00:00:00Z" march ∧
      ¬RollupMatches runtime () sevenRequests 5 apiRequestsMetric
        (rollupPayload runtime 5 apiRequestsMetric none "2026-03-01T00:00:00Z") february march := by
  refine ⟨by decide, by decide +kernel, spells_march, ?_⟩
  have hrun := run_usageRollup () sevenRequests 5 apiRequestsMetric (by decide +kernel)
    none march rfl spells_march
  rintro ⟨quantity, hcompleted, -⟩
  rw [hrun, rollupOf, if_pos (le_refl march)] at hcompleted
  cases hcompleted

/-- With its start given, the rollup over February adds up the rollups over its two parts. -/
theorem february_parts :
    ¬RollupMatches runtime () sevenRequests 5 apiRequestsMetric
        (rollupPayload runtime 5 apiRequestsMetric none "2026-03-01T05:30:00+05:30") february march ∧
    ∃ quantities,
      ((usageRollups runtime 5 apiRequestsMetric "2026-02-01T00:00:00+00:00"
        ["2026-02-05T00:00:00Z", "2026-03-01T00:00:00Z"]).run () .empty sevenRequests).1 = .ok quantities ∧
      ((usageRollup runtime (rollupPayload runtime 5 apiRequestsMetric (some "2026-02-01T00:00:00+00:00")
        "2026-03-01T00:00:00Z")).run () .empty sevenRequests).1 = .ok quantities.sum := by
  obtain ⟨hnever, hsums⟩ := rollup_never_matches runtime () sevenRequests 5 apiRequestsMetric
    (by decide +kernel)
  refine ⟨hnever (noon 9) february march _ (by decide) spells_march_offset, ?_⟩
  refine hsums ("2026-02-01T00:00:00+00:00", february)
    [("2026-02-05T00:00:00Z", fifth), ("2026-03-01T00:00:00Z", march)] (by simp) ?_ (by decide)
  intro boundary hboundary
  obtain rfl | rfl | rfl : boundary = _ ∨ boundary = _ ∨ boundary = _ := by simpa using hboundary
  · exact spells_february
  · exact spells_fifth
  · exact spells_march

end Reference

end TenantForge
