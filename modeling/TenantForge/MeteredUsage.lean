import TenantForge.AuditTrail
import TenantForge.BillingPeriods
import TenantForge.Exchanges
/-!
# Metering without interference

What `get_usage_summary` and `record_usage` return at a given time when nobody else is at work. Both
pick the plan, the period and the total in the same way (`usageSnapshot`), so a quantity is accepted if
and only if the summary says that it remains (`recordUsage_succeeds_iff`). The event is stamped with the
time at which the period was picked; it lies in the period unless the stored one has not begun
(`recordUsage_metered_iff`).
-/

namespace TenantForge

open Gregorian ReadCommitted

variable {T : Type} {tag : T} {s : Shared schema Env T} {organizationId : Uuid} {metric : String}
  {quantity : Int} {t : DateTime}

/-! ### The summary -/

/-- What a database tells `get_usage_summary`. -/
def usageSnapshot (organizationId : Uuid) (metric : String) (t : DateTime) (db : Db) :
    Except Exn UsageSnapshot :=
  if organizationExists organizationId db = false then .error organizationNotFound
  else match subscriptionPeriod (subscriptionOf organizationId db) t with
    | none => .error yearOutOfRange
    | some (start, stop) =>
      let plan := planOf (subscriptionOf organizationId db)
      let used := usageIn organizationId metric start stop db
      .ok ⟨plan, used, planQuotas plan, max 0 (planQuotas plan - used), start, stop⟩

/-- A snapshot by its parts. -/
theorem usageSnapshot_eq_ok {db : Db} {snapshot : UsageSnapshot}
    (h : usageSnapshot organizationId metric t db = .ok snapshot) :
    organizationExists organizationId db = true ∧
      subscriptionPeriod (subscriptionOf organizationId db) t =
        some (snapshot.periodStart, snapshot.periodEnd) ∧
      snapshot.used = usageIn organizationId metric snapshot.periodStart snapshot.periodEnd db ∧
      snapshot.limit = planQuotas (planOf (subscriptionOf organizationId db)) ∧
      snapshot.remaining = max 0 (snapshot.limit - snapshot.used) := by
  unfold usageSnapshot at h
  split at h
  · cases h
  · rename_i hexists
    split at h
    · cases h
    · rename_i start stop hperiod
      cases h
      exact ⟨by simpa using hexists, hperiod, rfl, rfl, rfl⟩

theorem matching_subscriptions (db : Db) :
    (Prog.matching (S := schema) .subscriptions (isSubscriptionOf organizationId) db).head? =
      subscriptionOf organizationId db := by
  rw [subscriptionOf, ofTenant, Prog.matching]
  congr 2
  funext row
  simp [isSubscriptionOf, tenantOf]

theorem run_subscription (organizationId : Uuid) (tag : T) {σ : Session schema} (hσ : σ.Sound s.db)
    (hclean : σ.writes = .empty) (hloaded : σ.loaded .subscriptions = []) :
    ∃ σ', σ'.Sound s.db ∧ σ'.writes = .empty ∧
      (Prog.scalar (E := Env) (X := Exn) (S := schema) .subscriptions
        (isSubscriptionOf organizationId)).run tag σ s = (.ok (subscriptionOf organizationId s.db), σ', s) := by
  obtain ⟨σ', hσ', hw, _, hrun⟩ := Prog.run_scalar (E := Env) (X := Exn) (S := schema)
    (t := .subscriptions) tag (isSubscriptionOf organizationId) σ s hσ
  refine ⟨σ', hσ', hw.trans hclean, hrun.trans ?_⟩
  have hcopy : (fun row : Subscription => σ.copyOf (t := .subscriptions) row) = id := by
    funext row
    rw [Session.copyOf, hloaded]
    rfl
  have hview : σ.view s.db = s.db := by rw [Session.view, hclean, Overlay.apply_empty]
  rw [hview, matching_subscriptions]
  change (Except.ok ((subscriptionOf organizationId s.db).map
    fun row : Subscription => σ.copyOf (t := .subscriptions) row), σ', s) = _
  rw [hcopy, Option.map_id]
  rfl

theorem run_getUsageSummary (organizationId : Uuid) (metric : String) (t : DateTime) (tag : T)
    (hdb : s.db.Integral) :
    ∃ σ, (getUsageSummary organizationId metric (some t)).run tag .empty s =
      (usageSnapshot organizationId metric t s.db, σ, s) := by
  obtain ⟨σ, _, hw, hrun⟩ := run_subscription organizationId tag
    (.of_writes_empty hdb rfl : (Session.empty : Session schema).Sound s.db) rfl rfl
  have hfound := run_query tag .empty s (organizationExists organizationId)
  rw [Session.view_empty] at hfound
  rw [getUsageSummary, usageSnapshot, Prog.bind_eq, Prog.run_bind_ok hfound, Prog.bind_eq]
  by_cases hexists : organizationExists organizationId s.db = false
  · rw [if_pos hexists, Prog.run_bind_error (run_raiseIf tag _ s hexists _)]
    exact ⟨_, rfl⟩
  · rw [if_neg hexists, Prog.run_bind_ok (run_raiseIf_not tag _ s hexists _), Prog.bind_eq,
      Prog.run_bind_ok hrun, Prog.bind_eq, Prog.run_bind_ok (run_nowOr_some tag σ s t), Prog.bind_eq]
    refine ⟨σ, ?_⟩
    cases hperiod : subscriptionPeriod (subscriptionOf organizationId s.db) t with
    | none => rw [Prog.run_bind_error (run_orRaise_none tag σ s _)]
    | some period =>
      obtain ⟨start, stop⟩ := period
      rw [Prog.run_bind_ok (run_orRaise_some tag σ s _ _)]
      have hused : (usageTotal organizationId metric start stop).run tag σ s =
          (.ok (usageIn organizationId metric start stop s.db), σ, s) := by
        rw [usageTotal, run_query, Session.view, hw, Overlay.apply_empty]
      exact (Prog.run_bind_ok hused _).trans rfl

/-! ### Recording -/

theorem matching_organizations_eq_nil (db : Db) :
    Prog.matching (S := schema) .organizations (isOrganization organizationId) db = [] ↔
      organizationExists organizationId db = false := by
  rw [Prog.matching, List.filter_eq_nil_iff, organizationExists, List.any_eq_false]
  rfl

/-- `record_usage` sees what the summary tells. -/
theorem run_recordUsage (organizationId : Uuid) (metric : String) (t : DateTime) (tag : T)
    (hdb : s.db.Integral) (hquantity : 1 ≤ quantity) :
    ∃ σ, σ.Sound s.db ∧ σ.writes = .empty ∧
      (recordUsage organizationId metric quantity (some t)).run tag .empty s =
        match usageSnapshot organizationId metric t s.db with
        | .error error => (.error error, σ, s)
        | .ok snapshot =>
          (chargeUsage organizationId metric quantity (some t) snapshot.used snapshot.limit
            snapshot.periodEnd).run tag σ s := by
  obtain ⟨σ₁, hσ₁, hw₁, hloaded₁, hrun₁⟩ := Prog.run_scalarForUpdate (E := Env) (X := Exn)
    (S := schema) (t := .organizations) tag (isOrganization organizationId) .empty s hdb
    (.of_writes_empty hdb rfl)
  obtain ⟨σ₂, hσ₂, hw₂, hrun₂⟩ := run_subscription organizationId tag hσ₁ hw₁
    (hloaded₁ .subscriptions (by decide))
  rw [Session.view_empty] at hrun₁
  rw [recordUsage, usageSnapshot, Prog.bind_eq,
    Prog.run_bind_ok (run_raiseIf_not tag _ s (by omega) _), Prog.bind_eq, Prog.run_bind_ok hrun₁,
    Prog.bind_eq]
  cases hrows : Prog.matching (S := schema) .organizations (isOrganization organizationId) s.db with
  | nil =>
    rw [if_pos ((matching_organizations_eq_nil s.db).mp hrows)]
    exact ⟨σ₁, hσ₁, hw₁, Prog.run_bind_error (run_orRaise_none tag σ₁ s _) _⟩
  | cons row rows =>
    have hexists : ¬organizationExists organizationId s.db = false := fun hnone =>
      List.cons_ne_nil row rows (hrows.symm.trans ((matching_organizations_eq_nil s.db).mpr hnone))
    rw [if_neg hexists]
    refine ⟨σ₂, hσ₂, hw₂, (Prog.run_bind_ok (run_orRaise_some tag σ₁ s _ _) _).trans ?_⟩
    rw [Prog.bind_eq, Prog.run_bind_ok hrun₂, Prog.bind_eq, Prog.run_bind_ok (run_nowOr_some tag σ₂ s t),
      Prog.bind_eq]
    cases hperiod : subscriptionPeriod (subscriptionOf organizationId s.db) t with
    | none => exact Prog.run_bind_error (run_orRaise_none tag σ₂ s _) _
    | some period =>
      obtain ⟨start, stop⟩ := period
      have hused : (usageTotal organizationId metric start stop).run tag σ₂ s =
          (.ok (usageIn organizationId metric start stop s.db), σ₂, s) := by
        rw [usageTotal, run_query, Session.view, hw₂, Overlay.apply_empty]
      exact (Prog.run_bind_ok (run_orRaise_some tag σ₂ s _ _) _).trans (Prog.run_bind_ok hused _)

theorem run_chargeUsage_over (tag : T) (σ : Session schema) (snapshot : UsageSnapshot)
    (h : snapshot.limit < snapshot.used + quantity) :
    (chargeUsage organizationId metric quantity (some t) snapshot.used snapshot.limit
        snapshot.periodEnd).run tag σ s =
      (.error (quotaRejection metric t snapshot.periodEnd), σ, s) := by
  refine Prog.run_bind_error ((run_runIf tag σ s (gt_iff_lt.mpr h) _).trans ?_) _
  rw [quotaExceeded, Prog.bind_eq, Prog.run_bind_ok (run_nowOr_some tag σ s t)]
  rfl

/-- A metered quantity is one new row. -/
theorem run_chargeUsage_room (metric : String) (quantity : Int) (t : DateTime) (tag : T)
    {σ : Session schema} (hdb : s.db.Integral)
    (hclean : σ.writes = .empty) (snapshot : UsageSnapshot) (h : snapshot.used + quantity ≤ snapshot.limit)
    (hexists : organizationExists organizationId s.db = true)
    (hfresh : s.db.lookup .usageEvents s.ids.head = none) :
    ∃ σ', (chargeUsage organizationId metric quantity (some t) snapshot.used snapshot.limit
          snapshot.periodEnd).run tag σ s =
        (.ok ⟨s.ids.head, organizationId, metric, quantity, t⟩, σ', s.draw) ∧
      (σ'.view s.db).Integral ∧ σ'.view s.db .usageEvents =
        s.db .usageEvents ++ [⟨s.ids.head, organizationId, metric, quantity, t⟩] ∧
      ∀ t' ≠ .usageEvents, σ'.view s.db t' = s.db t' := by
  let event : UsageEvent := ⟨s.ids.head, organizationId, metric, quantity, t⟩
  let named : Session schema := σ.hold [(.name s.ids.head, .forUpdate)] s.db
  let written := named.write (Session.insertNeeds (S := schema) (t := .usageEvents) event) s.db
    .usageEvents event.id (some event)
  have hview : named.view s.draw.db = s.db := by
    rw [Session.view_hold, Session.view, hclean, Overlay.apply_empty]
    rfl
  have haccepts : named.Accepts s.draw.db (S := schema) (t := .usageEvents) event := by
    rw [Session.Accepts, hview]
    refine ⟨hfresh, fun u hu => absurd hu List.not_mem_nil, fun parent hparent => ?_⟩
    obtain rfl := List.mem_singleton.mp hparent
    obtain ⟨row, hrow, hid⟩ := List.any_eq_true.mp hexists
    have hid : Organization.id row = organizationId := by simpa using hid
    rw [← Option.ne_none_iff_isSome]
    exact fun hnone => Store.lookup_eq_none.mp hnone row hrow hid
  have hwrites : written.writes = (Overlay.empty (S := schema)).put .usageEvents event.id (some event) :=
    congrArg (fun writes : Overlay schema => writes.put .usageEvents event.id (some event)) hclean
  have hsound : written.Sound s.draw.db := by
    have hinsert := (Session.Sound.of_writes_empty hdb hclean : named.Sound s.draw.db).insert
      (t := .usageEvents) event
    rwa [Session.insert, if_pos haccepts] at hinsert
  refine ⟨written, ?_, hsound.integral hdb, ?_, fun t' ht => ?_⟩
  · refine (Prog.run_bind_ok (run_runIf_not tag σ s (not_lt.mpr h) _) _).trans ?_
    refine (Prog.run_bind_ok (run_nowOr_some tag σ s t) _).trans ?_
    refine (Prog.run_bind_ok (run_uuid4 tag σ s) _).trans ?_
    exact (Prog.run_bind_ok (run_addRow_of_accepts tag named s.draw haccepts) _).trans rfl
  · refine Session.view_of_insert (S := schema) (t := .usageEvents) ?_ hfresh
    rw [hwrites, Overlay.put_table_self]
    rfl
  · rw [Session.view, hwrites, Overlay.apply_table_ne _ _ ht, Overlay.apply_empty]

/-! ### Transactions -/

theorem getUsageSummary_outcome (tag : T) (hdb : s.db.Integral) :
    ((getSession (getUsageSummary organizationId metric (some t))).run tag .empty s).1 =
      usageSnapshot organizationId metric t s.db := by
  obtain ⟨σ, hrun⟩ := run_getUsageSummary organizationId metric t tag hdb
  have hcommits := commitsBody_getSession (getUsageSummary organizationId metric (some t)) T tag .empty s
  rw [hrun] at hcommits
  cases hsnapshot : usageSnapshot organizationId metric t s.db with
  | ok snapshot =>
    simp only [hsnapshot] at hcommits
    exact hcommits.1
  | error error =>
    simp only [hsnapshot] at hcommits
    exact hcommits.1

/-- How a transaction around `record_usage` ends. -/
inductive Recording (organizationId : Uuid) (metric : String) (quantity : Int) (t : DateTime)
    (s : Shared schema Env T) : Except Exn UsageEvent → Shared schema Env T → Prop
  | failed (error : Exn) (h : usageSnapshot organizationId metric t s.db = .error error) :
    Recording organizationId metric quantity t s (.error error) s
  | rejected (snapshot : UsageSnapshot)
    (h : usageSnapshot organizationId metric t s.db = .ok snapshot)
    (hover : snapshot.limit < snapshot.used + quantity) :
    Recording organizationId metric quantity t s (.error (quotaRejection metric t snapshot.periodEnd)) s
  | recorded (snapshot : UsageSnapshot) (event : UsageEvent) (after : Shared schema Env T)
    (h : usageSnapshot organizationId metric t s.db = .ok snapshot)
    (hroom : snapshot.used + quantity ≤ snapshot.limit)
    (hevent : event = ⟨event.id, organizationId, metric, quantity, t⟩)
    (hevents : after.db .usageEvents = s.db .usageEvents ++ [event])
    (hothers : ∀ t' ≠ .usageEvents, after.db t' = s.db t') (hintegral : after.db.Integral) :
    Recording organizationId metric quantity t s (.ok event) after

theorem recordUsage_recording (organizationId : Uuid) (metric : String) (t : DateTime) (tag : T)
    (hdb : s.db.Integral) (hquantity : 1 ≤ quantity)
    (hfresh : s.db.lookup .usageEvents s.ids.head = none) :
    Recording organizationId metric quantity t s
      ((getSession (recordUsage organizationId metric quantity (some t))).run tag .empty s).1
      ((getSession (recordUsage organizationId metric quantity (some t))).run tag .empty s).2.2 := by
  obtain ⟨σ, _, hw, hrun⟩ := run_recordUsage organizationId metric t tag hdb hquantity
  have hcommits := commitsBody_getSession
    (recordUsage organizationId metric quantity (some t)) T tag .empty s
  cases hsnapshot : usageSnapshot organizationId metric t s.db with
  | error error =>
    rw [hrun, hsnapshot] at hcommits
    rw [hcommits.1, hcommits.2]
    exact .failed error hsnapshot
  | ok snapshot =>
    simp only [hsnapshot] at hrun
    by_cases hover : snapshot.limit < snapshot.used + quantity
    · rw [hrun, run_chargeUsage_over tag σ snapshot hover] at hcommits
      rw [hcommits.1, hcommits.2]
      exact .rejected snapshot hsnapshot hover
    · obtain ⟨σ', hcharge, hintegral, hevents, hothers⟩ := run_chargeUsage_room metric quantity
        t tag hdb hw snapshot (not_lt.mp hover) (usageSnapshot_eq_ok hsnapshot).1 hfresh
      rw [hrun, hcharge] at hcommits
      rw [hcommits.1, hcommits.2]
      exact .recorded snapshot _ _ hsnapshot (not_lt.mp hover) rfl hevents hothers hintegral

theorem Recording.ok_iff {outcome : Except Exn UsageEvent} {after : Shared schema Env T}
    (h : Recording organizationId metric quantity t s outcome after) :
    (∃ event, outcome = .ok event) ↔ ∃ snapshot,
      usageSnapshot organizationId metric t s.db = .ok snapshot ∧
        snapshot.used + quantity ≤ snapshot.limit := by
  cases h with
  | failed error h => simp [h]
  | rejected snapshot h hover => simp [h, hover]
  | recorded snapshot event after h hroom => simp [h, hroom]

/-- **The summary and the metering agree**: a quantity is recorded exactly if it remains, and a
recording that fails changes nothing. -/
theorem recordUsage_succeeds_iff (tag : T) (hdb : s.db.Integral) (hquantity : 1 ≤ quantity)
    (hfresh : s.db.lookup .usageEvents s.ids.head = none) :
    let recording := (getSession (recordUsage organizationId metric quantity (some t))).run tag .empty s
    let summary := ((getSession (getUsageSummary organizationId metric (some t))).run tag .empty s).1
    ((∃ event, recording.1 = .ok event) ↔
        ∃ snapshot, summary = .ok snapshot ∧ quantity ≤ snapshot.remaining) ∧
      ∀ error, recording.1 = .error error → recording.2.2.db = s.db := by
  intro recording summary
  have hsummary : summary = usageSnapshot organizationId metric t s.db := getUsageSummary_outcome tag hdb
  have hrecording := recordUsage_recording organizationId metric t tag hdb hquantity hfresh
  change Recording organizationId metric quantity t s recording.1 recording.2.2 at hrecording
  rw [hsummary]
  refine ⟨hrecording.ok_iff.trans (exists_congr fun snapshot => and_congr_right fun h => ?_), ?_⟩
  · have hremaining := (usageSnapshot_eq_ok h).2.2.2.2
    omega
  · intro error herror
    rw [herror] at hrecording
    generalize recording.2.2 = after at hrecording ⊢
    cases hrecording <;> rfl

/-- An organization with a subscription for most of a month, which has almost spent its quota. -/
def Reference.almostSpent : Shared schema Env Unit :=
  shared Unit (fun _ => noon 1) {
    organizations := [organization 5]
    subscriptions := [subscription 15 5 .free 0 20]
    usageEvents := [usageEvent 16 5 999 1] }

theorem Reference.integral_almostSpent : almostSpent.db.Integral := ValidDb.integral (by decide +kernel)

theorem Reference.almostSpent_succeeds_iff :
    let recording :=
      (getSession (recordUsage 5 apiRequestsMetric 1 (some (noon 2)))).run () .empty almostSpent
    let summary :=
      ((getSession (getUsageSummary 5 apiRequestsMetric (some (noon 2)))).run () .empty almostSpent).1
    ((∃ event, recording.1 = .ok event) ↔ ∃ snapshot, summary = .ok snapshot ∧ 1 ≤ snapshot.remaining) ∧
      ∀ error, recording.1 = .error error → recording.2.2.db = almostSpent.db :=
  recordUsage_succeeds_iff () integral_almostSpent (by decide) (by decide +kernel)

/-- A table that was not written tells the same. -/
theorem subscriptionOf_congr (organizationId : Uuid) {db db' : Db} (h : db' .subscriptions = db .subscriptions) :
    subscriptionOf organizationId db' = subscriptionOf organizationId db := by
  rw [subscriptionOf, ofTenant, h, subscriptionOf, ofTenant]

/-- One more event counts in the periods that contain its time. -/
theorem usageIn_recorded {db db' : Db} {event : UsageEvent} {start stop : DateTime}
    (hof : event = ⟨event.id, organizationId, metric, quantity, t⟩)
    (h : db' .usageEvents = db .usageEvents ++ [event]) :
    usageIn organizationId metric start stop db' = usageIn organizationId metric start stop db +
      if start ≤ t ∧ t < stop then quantity else 0 := by
  rw [usageIn, h, List.filter_append, List.map_append, List.sum_append, ← usageIn, hof]
  by_cases hin : start ≤ t ∧ t < stop
  · simp [hin.1, hin.2]
  · simp [hin]

/-- The summary after a recording. -/
theorem usageSnapshot_recorded {db db' : Db} {event : UsageEvent} {snapshot : UsageSnapshot}
    (h : usageSnapshot organizationId metric t db = .ok snapshot)
    (hof : event = ⟨event.id, organizationId, metric, quantity, t⟩)
    (hevents : db' .usageEvents = db .usageEvents ++ [event])
    (hothers : ∀ t' ≠ .usageEvents, db' t' = db t') :
    ∃ snapshot', usageSnapshot organizationId metric t db' = .ok snapshot' ∧ snapshot'.used =
      snapshot.used + if snapshot.periodStart ≤ t ∧ t < snapshot.periodEnd then quantity else 0 := by
  obtain ⟨hexists, hperiod, hused, _, _⟩ := usageSnapshot_eq_ok h
  have hsubscription := subscriptionOf_congr organizationId (hothers .subscriptions (by decide))
  have hexists' : ¬organizationExists organizationId db' = false := by
    rw [organizationExists, hothers .organizations (by decide), ← organizationExists, hexists]
    decide
  rw [usageSnapshot, if_neg hexists', hsubscription, hperiod]
  exact ⟨_, rfl, by rw [hused]; exact usageIn_recorded hof hevents⟩

/-- **A recording counts** in the summary of the same time if and only if the stored period has begun. -/
theorem recordUsage_metered_iff (tag : T) (hdb : s.db.Integral) (hquantity : 1 ≤ quantity)
    (hfresh : s.db.lookup .usageEvents s.ids.head = none) :
    let recording := (getSession (recordUsage organizationId metric quantity (some t))).run tag .empty s
    let summary := fun state : Shared schema Env T =>
      ((getSession (getUsageSummary organizationId metric (some t))).run tag .empty state).1
    ∀ event, recording.1 = .ok event →
      ((∃ before after, summary s = .ok before ∧ summary recording.2.2 = .ok after ∧
          after.used = before.used + quantity) ↔
        ¬NotBegun (subscriptionOf organizationId s.db) t) := by
  intro recording summary event hevent
  have hrecording := recordUsage_recording organizationId metric t tag hdb hquantity hfresh
  change Recording organizationId metric quantity t s recording.1 recording.2.2 at hrecording
  rw [hevent] at hrecording
  generalize recording.2.2 = after at hrecording ⊢
  cases hrecording with
  | recorded snapshot _ _ h hroom hof hevents hothers hintegral =>
    obtain ⟨snapshot', h', hused⟩ := usageSnapshot_recorded h hof hevents hothers
    have hbefore : summary s = .ok snapshot := (getUsageSummary_outcome tag hdb).trans h
    have hafter : summary after = .ok snapshot' := (getUsageSummary_outcome tag hintegral).trans h'
    rw [hbefore, hafter, ← subscriptionPeriod_contains_iff (usageSnapshot_eq_ok h).2.1]
    by_cases hin : snapshot.periodStart ≤ t ∧ t < snapshot.periodEnd
    · rw [if_pos hin] at hused
      exact iff_of_true ⟨snapshot, snapshot', rfl, rfl, hused⟩ hin
    · rw [if_neg hin] at hused
      refine iff_of_false ?_ hin
      rintro ⟨_, _, hsnapshot, hsnapshot', hcounted⟩
      cases hsnapshot
      cases hsnapshot'
      omega

/-! ### Waiting -/

theorem usageSnapshot_of_period (metric : String) {db : Db} {subscription : Subscription}
    {start stop : DateTime} (hexists : organizationExists organizationId db = true)
    (hsubscription : subscriptionOf organizationId db = some subscription)
    (hperiod : subscriptionPeriod (some subscription) t = some (start, stop)) :
    ∃ snapshot, usageSnapshot organizationId metric t db = .ok snapshot ∧
      snapshot.used = usageIn organizationId metric start stop db ∧
      snapshot.limit = planQuotas subscription.plan ∧ snapshot.periodEnd = stop := by
  rw [usageSnapshot, if_neg (by simp [hexists]), hsubscription, hperiod]
  exact ⟨_, rfl, rfl, rfl, rfl⟩

/-- So many microseconds are so long, and end so shortly before a whole number of seconds, that
`total_seconds()` is that number: no more than half a unit in the last place is missing. -/
def RoundsUp (micros : Int) : Prop :=
  (1000000 - micros % 1000000) * 2 ^ 53 ≤ 1000000 * 2 ^ (micros / 1000000).toNat.log2

instance (micros : Int) : Decidable (RoundsUp micros) := inferInstanceAs (Decidable (_ ≤ _))

theorem floor_seconds (micros : Int) : ⌊(micros / 1000000 : Rat)⌋ = micros / 1000000 :=
  Rat.floor_intCast_div_natCast micros 1000000

/-- The condition on the quotient, as one on the microseconds. -/
theorem roundsUp_iff (micros : Int) :
    (⌊(micros / 1000000 : Rat)⌋ + 1 - (micros / 1000000 : Rat)) * 2 ^ 53 ≤
      2 ^ ⌊(micros / 1000000 : Rat)⌋.toNat.log2 ↔ RoundsUp micros := by
  have hmicros : (micros : Rat) = 1000000 * (micros / 1000000 : Int) + (micros % 1000000 : Int) := by
    exact_mod_cast (Int.mul_ediv_add_emod micros 1000000).symm
  have hgap : ((micros / 1000000 : Int) : Rat) + 1 - micros / 1000000 =
      (1000000 - micros % 1000000 : Int) / 1000000 := by
    rw [hmicros]
    push_cast
    ring
  rw [floor_seconds, RoundsUp, hgap, div_mul_eq_mul_div, div_le_iff₀ (by norm_num), mul_comm (2 ^ _)]
  exact_mod_cast Iff.rfl

theorem retryAfter_eq {stop : DateTime} (hin : t < stop) :
    retryAfter t stop = if RoundsUp (t.microsUntil stop) then t.microsUntil stop / 1000000 + 1
      else max 1 (t.microsUntil stop / 1000000) := by
  have hpos := DateTime.lt_iff_microsUntil.mp hin
  have hbound := DateTime.microsUntil_lt t stop
  simp only [microsPerDay] at hbound
  generalize hmicros : t.microsUntil stop = micros at *
  rw [retryAfter, totalSeconds, hmicros]
  by_cases hone : micros < 1000000
  · have hsmall : (micros / 1000000 : Rat) < 1 := by
      rw [div_lt_one (by norm_num)]
      exact_mod_cast hone
    have htrunc := PyFloat.trunc_rounded_of_lt_one (by positivity) hsmall
    have hzero : micros / 1000000 = 0 := by omega
    have hround : ¬RoundsUp micros := by
      rw [RoundsUp, hzero]
      simp only [Int.toNat_zero, Nat.log2_zero]
      omega
    rw [if_neg hround, hzero]
    omega
  · have hlarge : (1 : Rat) ≤ micros / 1000000 := by
      rw [one_le_div₀ (by norm_num)]
      exact_mod_cast not_lt.mp hone
    have hsmall : (micros / 1000000 : Rat) < 2 ^ 52 := by
      rw [div_lt_iff₀ (by norm_num)]
      exact_mod_cast hbound.trans (by norm_num)
    rw [PyFloat.trunc_rounded hlarge hsmall]
    simp only [roundsUp_iff]
    rw [floor_seconds]
    by_cases hround : RoundsUp micros
    · rw [if_pos hround, if_pos hround]
      omega
    · rw [if_neg hround, if_neg hround]

/-- What the period is when the wait is over: the seconds are cut off, so the current period lasts on
unless the distance to its end is a whole number of seconds, or less than one, or is rounded up to one. -/
theorem rollPeriod_retryAfter {start stop t' : DateTime} (hin : t < stop)
    (hwait : t.microsUntil t' = retryAfter t stop * 1000000) :
    rollPeriod t' start stop =
      if t.microsUntil stop % 1000000 = 0 ∨ t.microsUntil stop < 1000000 ∨ RoundsUp (t.microsUntil stop)
      then stop.addMonth.map fun next => (stop, next) else some (start, stop) := by
  have hpos := DateTime.lt_iff_microsUntil.mp hin
  have hsum := DateTime.microsUntil_trans t t' stop
  rw [retryAfter_eq hin] at hwait
  by_cases hover : t.microsUntil stop % 1000000 = 0 ∨ t.microsUntil stop < 1000000 ∨
      RoundsUp (t.microsUntil stop)
  · have hle : stop ≤ t' := by
      rw [← not_lt, DateTime.lt_iff_microsUntil]
      split_ifs at hwait with hround
      · omega
      · rcases hover with hwhole | hshort | hround'
        · omega
        · omega
        · exact absurd hround' hround
    rw [if_pos hover, rollPeriod_eq, if_pos hle]
    cases hnext : stop.addMonth with
    | none => rfl
    | some next =>
      have hfar := DateTime.day_le_addMonth hnext
      have hsum' := DateTime.microsUntil_trans t' stop next
      simp only [microsPerDay] at hfar
      rw [Option.bind_some, Option.map_some, rollPeriod_of_lt]
      rw [DateTime.lt_iff_microsUntil]
      split_ifs at hwait <;> omega
  · rw [if_neg hover, rollPeriod_of_lt]
    rw [DateTime.lt_iff_microsUntil]
    rw [if_neg fun hround => hover (Or.inr (Or.inr hround))] at hwait
    omega

/-- **The wait that a rejection asks for** is long enough if and only if the distance to the end of the
period is a whole number of seconds, or less than one, or is rounded up to such a number, and there is a next
period with room left. -/
theorem retry_succeeds_iff (tag : T) {subscription : Subscription} {start stop t' : DateTime}
    (hdb : s.db.Integral) (hquantity : 1 ≤ quantity)
    (hfresh : s.db.lookup .usageEvents s.ids.head = none)
    (hsubscription : subscriptionOf organizationId s.db = some subscription)
    (hlt : subscription.currentPeriodStart < subscription.currentPeriodEnd)
    (hstart : subscription.currentPeriodStart ≤ t)
    (hperiod : subscriptionPeriod (some subscription) t = some (start, stop))
    (hwait : t.microsUntil t' = retryAfter t stop * 1000000) :
    let recording := fun (t : DateTime) (state : Shared schema Env T) =>
      (getSession (recordUsage organizationId metric quantity (some t))).run tag .empty state
    (recording t s).1 = .error (quotaRejection metric t stop) →
      ((∃ event, (recording t' (recording t s).2.2).1 = .ok event) ↔
        (t.microsUntil stop % 1000000 = 0 ∨ t.microsUntil stop < 1000000 ∨ RoundsUp (t.microsUntil stop)) ∧
          ∃ next, stop.addMonth = some next ∧ usageIn organizationId metric stop next s.db + quantity ≤
            planQuotas subscription.plan) := by
  intro recording hrejected
  have hrecording := recordUsage_recording organizationId metric t tag hdb hquantity hfresh
  change Recording organizationId metric quantity t s (recording t s).1 (recording t s).2.2 at hrecording
  generalize (recording t s).1 = outcome at hrecording hrejected
  generalize (recording t s).2.2 = after at hrecording ⊢
  have hroll := hperiod
  rw [subscriptionPeriod_of_started hlt hstart] at hroll
  obtain ⟨hbegun, hin⟩ := rollPeriod_contains hstart hroll
  obtain ⟨hexists, snapshot, hsnapshot, hover, rfl⟩ :
      organizationExists organizationId s.db = true ∧ ∃ snapshot,
        usageSnapshot organizationId metric t s.db = .ok snapshot ∧
          snapshot.limit < snapshot.used + quantity ∧ after = s := by
    cases hrecording with
    | failed error h =>
      rw [usageSnapshot, hsubscription, hperiod, Except.error.inj hrejected] at h
      split at h
      · simp [organizationNotFound, notFoundError, appError, quotaRejection] at h
      · cases h
    | rejected snapshot h hover => exact ⟨(usageSnapshot_eq_ok h).1, snapshot, h, hover, rfl⟩
    | recorded => cases hrejected
  obtain ⟨_, hsnapshot', hused, hlimit, _⟩ := usageSnapshot_of_period metric hexists hsubscription hperiod
  obtain rfl := Except.ok.inj (hsnapshot.symm.trans hsnapshot')
  rw [hused, hlimit] at hover
  -- the later recording sees the same rows and the period that is current then
  have hle : t ≤ t' := by
    rw [DateTime.le_iff_microsUntil, hwait, retryAfter]
    omega
  have hlater : subscriptionPeriod (some subscription) t' = rollPeriod t' start stop := by
    rw [subscriptionPeriod_of_started hlt (hstart.trans hle), rollPeriod_rolled hle hroll]
  rw [rollPeriod_retryAfter hin hwait] at hlater
  rw [(recordUsage_recording organizationId metric t' tag hdb hquantity hfresh).ok_iff]
  by_cases hwhole : t.microsUntil stop % 1000000 = 0 ∨ t.microsUntil stop < 1000000 ∨
      RoundsUp (t.microsUntil stop)
  · rw [if_pos hwhole] at hlater
    refine Iff.trans ?_ (and_iff_right hwhole).symm
    cases hnext : stop.addMonth with
    | none =>
      rw [hnext] at hlater
      simp [usageSnapshot, hexists, hsubscription, hlater]
    | some next =>
      rw [hnext] at hlater
      obtain ⟨_, h, hused', hlimit', _⟩ := usageSnapshot_of_period metric hexists hsubscription hlater
      simp [h, hused', hlimit']
  · rw [if_neg hwhole] at hlater
    obtain ⟨_, h, hused', hlimit', _⟩ := usageSnapshot_of_period metric hexists hsubscription hlater
    refine iff_of_false ?_ fun hfits => hwhole hfits.1
    rintro ⟨_, hagain, hroom⟩
    obtain rfl := Except.ok.inj (h.symm.trans hagain)
    omega

/-! ### Plan changes -/

section PlanChanges

variable (rt : Runtime)

/-- The arguments of a `change_plan` call for a given organization. -/
structure PlanChange where
  plan : Plan
  actorUserId : Uuid
  ipAddress : Option String
  now : DateTime

/-- The state after some plan changes of an organization, each committed before the next one begins. -/
def afterPlanChanges (tag : T) (organizationId : Uuid) (s : Shared schema Env T)
    (changes : List PlanChange) : Shared schema Env T :=
  changes.foldl (fun s change => ((getSession (changePlan rt organizationId change.plan change.actorUserId
    change.ipAddress (some change.now))).run tag .empty s).2.2) s

/-- The states agree on what is billed at a time, whatever the plan is. -/
structure BilledAlike (organizationId : Uuid) (t : DateTime) (subscription : Subscription) (db db' : Db) :
    Prop where
  integral : db'.Integral
  organizations : db' .organizations = db .organizations
  usageEvents : db' .usageEvents = db .usageEvents
  billed : ∃ subscription', subscriptionOf organizationId db' = some subscription' ∧
    subscription'.currentPeriodStart < subscription'.currentPeriodEnd ∧
    subscriptionPeriod (some subscription') t = subscriptionPeriod (some subscription) t

variable {rt}

/-- One plan change, at that time or before. -/
theorem BilledAlike.changePlan (tag : T) {db : Db} {subscription : Subscription}
    (h : BilledAlike organizationId t subscription db s.db) (change : PlanChange) (hle : change.now ≤ t) :
    BilledAlike organizationId t subscription db
      ((getSession (changePlan rt organizationId change.plan change.actorUserId change.ipAddress
        (some change.now))).run tag .empty s).2.2.db := by
  have hwp : wp (Protocol.still s) tag (fun _ σ' s' => ∃ before after, σ'.Sound s'.db ∧
      PlanChanged rt organizationId change.plan change.actorUserId change.ipAddress (some change.now)
        .empty σ' s'.db before after) (fun _ _ _ => True)
      (TenantForge.changePlan rt organizationId change.plan change.actorUserId change.ipAddress
        (some change.now)) .empty s :=
    wp_changePlan still_metering.subscriptions still_tolerates_drawn (fun _ _ _ _ _ => trivial) rfl rfl rfl
      fun before after _ σ' s' hnow hchanged => ⟨before, after, hnow.sound, hchanged⟩
  obtain ⟨hok, herror⟩ := (commitsBody_getSession _).of_wp h.integral rfl hwp
  generalize (getSession (TenantForge.changePlan rt organizationId change.plan change.actorUserId
    change.ipAddress (some change.now))).run tag .empty s = result at hok herror ⊢
  obtain ⟨outcome, σ, s'⟩ := result
  cases outcome with
  | error error =>
    rw [(herror error rfl).db]
    exact h
  | ok value =>
    obtain ⟨σ', s₁, ⟨before, after, hsound, hchanged⟩, hstill, rfl⟩ := hok value rfl
    rw [hstill.db] at hsound hchanged
    have hview : ∀ t', t' ≠ .subscriptions → t' ≠ .auditLogs → σ'.view s.db t' = s.db t' :=
      fun t' ht ht' => Session.view_of_nil (hchanged.writes t' ht ht') s.db
    obtain ⟨stored, hstored, hlt, hbilled⟩ := h.billed
    obtain rfl : before = stored := by
      rcases hchanged.origin with hbefore | ⟨hnone, _⟩
      · exact Option.some.inj (hbefore.symm.trans hstored)
      · cases hnone.symm.trans hstored
    obtain ⟨current, period, hcurrent, hperiod, hflushed⟩ := hchanged.flushed
    obtain rfl := hcurrent change.now rfl
    -- with or without a flush the period that was picked is stored
    have hrolled : period = (after.currentPeriodStart, after.currentPeriodEnd) := by
      rcases hflushed with ⟨hsame, rfl⟩ | ⟨_, updatedAt, rfl⟩
      · have hstart := congrArg Subscription.currentPeriodStart hsame
        have hstop := congrArg Subscription.currentPeriodEnd hsame
        exact Prod.ext hstart hstop
      · rfl
    rw [hrolled] at hperiod
    obtain ⟨hlt', hsame⟩ := subscriptionPeriod_rolled hlt hle hperiod
    rw [Shared.commit_db, hstill.db]
    exact ⟨hsound.integral h.integral, (hview _ (by decide) (by decide)).trans h.organizations,
      (hview _ (by decide) (by decide)).trans h.usageEvents,
      after, hchanged.sees.subscriptionOf_view h.integral hsound, hlt', hsame.trans hbilled⟩

theorem BilledAlike.planChanges (tag : T) {db : Db} {subscription : Subscription}
    (h : BilledAlike organizationId t subscription db s.db) (changes : List PlanChange)
    (hle : ∀ change ∈ changes, change.now ≤ t) :
    BilledAlike organizationId t subscription db
      (afterPlanChanges rt tag organizationId s changes).db := by
  induction changes generalizing s with
  | nil => exact h
  | cons change changes ih =>
    obtain ⟨hhead, htail⟩ := List.forall_mem_cons.mp hle
    exact ih (h.changePlan tag change hhead) htail

/-- What the summary says to have been used depends on the period, not on the plan. -/
theorem BilledAlike.used {db db' : Db} {subscription : Subscription} (metric : String)
    (hsubscription : subscriptionOf organizationId db = some subscription)
    (h : BilledAlike organizationId t subscription db db') :
    (usageSnapshot organizationId metric t db').map UsageSnapshot.used =
      (usageSnapshot organizationId metric t db).map UsageSnapshot.used := by
  obtain ⟨subscription', hsubscription', _, hperiod⟩ := h.billed
  rw [usageSnapshot, usageSnapshot, hsubscription, hsubscription', hperiod, organizationExists,
    h.organizations, ← organizationExists]
  split
  · rfl
  · cases subscriptionPeriod (some subscription) t with
    | none => rfl
    | some period =>
      simp only [Except.map, usageIn, h.usageEvents]

/-- **Plan changes move neither periods nor usage**: after any sequence of them, the period and the used
quantity at a time that none of them lies behind are what they would have been. -/
theorem subscriptionPeriod_of_planChanges (rt : Runtime) (tag : T) {subscription : Subscription}
    (hdb : s.db.Integral) (hsubscription : subscriptionOf organizationId s.db = some subscription)
    (hlt : subscription.currentPeriodStart < subscription.currentPeriodEnd) (changes : List PlanChange)
    (hle : ∀ change ∈ changes, change.now ≤ t) :
    let after := afterPlanChanges rt tag organizationId s changes
    let used := fun (metric : String) (state : Shared schema Env T) =>
      ((getSession (getUsageSummary organizationId metric (some t))).run tag .empty state).1.map
        UsageSnapshot.used
    (∃ subscription', subscriptionOf organizationId after.db = some subscription' ∧
      subscription'.currentPeriodStart < subscription'.currentPeriodEnd ∧
      subscriptionPeriod (some subscription') t = subscriptionPeriod (some subscription) t) ∧
    ∀ metric, used metric after = used metric s := by
  intro after used
  have hstart : BilledAlike organizationId t subscription s.db s.db :=
    ⟨hdb, rfl, rfl, subscription, hsubscription, hlt, rfl⟩
  have hafter : BilledAlike organizationId t subscription s.db after.db :=
    hstart.planChanges tag changes hle
  refine ⟨hafter.billed, fun metric => ?_⟩
  have hused := hafter.used metric hsubscription
  rw [← getUsageSummary_outcome tag hafter.integral, ← getUsageSummary_outcome tag hdb] at hused
  exact hused

end PlanChanges

namespace Reference

theorem almostSpent_metered_iff :
    let recording :=
      (getSession (recordUsage 5 apiRequestsMetric 1 (some (noon 2)))).run () .empty almostSpent
    let summary := fun state : Shared schema Env Unit =>
      ((getSession (getUsageSummary 5 apiRequestsMetric (some (noon 2)))).run () .empty state).1
    ∀ event, recording.1 = .ok event →
      ((∃ before after, summary almostSpent = .ok before ∧ summary recording.2.2 = .ok after ∧
          after.used = before.used + 1) ↔
        ¬NotBegun (subscriptionOf 5 almostSpent.db) (noon 2)) :=
  recordUsage_metered_iff () integral_almostSpent (by decide) (by decide +kernel)

theorem almostSpent_rejected : ((getSession (recordUsage 5 apiRequestsMetric 2 (some (noon 2)))).run ()
    .empty almostSpent).1 = .error (quotaRejection apiRequestsMetric (noon 2) (noon 20)) := by
  decide +kernel

theorem almostSpent_retry_succeeds :
    let recording := fun (t : DateTime) (state : Shared schema Env Unit) =>
      (getSession (recordUsage 5 apiRequestsMetric 2 (some t))).run () .empty state
    ∃ event, (recording (noon 20) (recording (noon 2) almostSpent).2.2).1 = .ok event :=
  (retry_succeeds_iff () integral_almostSpent (by decide) (by decide +kernel)
    (by decide +kernel : subscriptionOf 5 almostSpent.db = some (subscription 15 5 .free 0 20))
    (by decide) (by decide)
    (by decide +kernel : _ = some (noon 0, noon 20)) (by decide +kernel) almostSpent_rejected).mpr
    ⟨by decide +kernel, ⟨2026, 3, 21, 43200000000, by decide⟩, by decide +kernel, by decide +kernel⟩

/-- Two seconds and a half before the end of the period. -/
def lateAttempt : DateTime := ⟨2026, 2, 21, 43197500000, by decide⟩

/-- The two whole seconds later. -/
def obedientRetry : DateTime := ⟨2026, 2, 21, 43199500000, by decide⟩

theorem almostSpent_refused_again :
    let recording := fun (t : DateTime) (state : Shared schema Env Unit) =>
      (getSession (recordUsage 5 apiRequestsMetric 2 (some t))).run () .empty state
    subscriptionOf 5 almostSpent.db = some (subscription 15 5 .free 0 20) ∧
      noon 0 < noon 20 ∧ noon 0 ≤ lateAttempt ∧ 2 ≤ planQuotas .free ∧
      (recording lateAttempt almostSpent).1 =
        .error (quotaRejection apiRequestsMetric lateAttempt (noon 20)) ∧
      retryAfter lateAttempt (noon 20) = 2 ∧ lateAttempt.microsUntil obedientRetry = 2 * 1000000 ∧
      ¬∃ event, (recording obedientRetry (recording lateAttempt almostSpent).2.2).1 = .ok event := by
  intro recording
  have hagain : (recording obedientRetry (recording lateAttempt almostSpent).2.2).1 =
      .error (quotaRejection apiRequestsMetric obedientRetry (noon 20)) := by decide +kernel
  refine ⟨by decide +kernel, by decide, by decide, by decide, by decide +kernel, by decide +kernel,
    by decide +kernel, ?_⟩
  rintro ⟨event, hevent⟩
  cases hagain.symm.trans hevent

/-- An upgrade before the end of the stored period, and a downgrade after it. -/
def upAndDown : List PlanChange :=
  [⟨.pro, 1, none, noon 5⟩, ⟨.free, 1, none, ⟨2026, 3, 22, 0, by decide⟩⟩]

theorem almostSpent_upAndDown :
    let after := afterPlanChanges runtime () 5 almostSpent upAndDown
    let april : DateTime := ⟨2026, 4, 20, 0, by decide⟩
    let used := fun (metric : String) (state : Shared schema Env Unit) =>
      ((getSession (getUsageSummary 5 metric (some april))).run () .empty state).1.map
        UsageSnapshot.used
    (∃ subscription', subscriptionOf 5 after.db = some subscription' ∧
      subscription'.currentPeriodStart < subscription'.currentPeriodEnd ∧
      subscriptionPeriod (some subscription') april =
        subscriptionPeriod (some (subscription 15 5 .free 0 20)) april) ∧
    ∀ metric, used metric after = used metric almostSpent :=
  subscriptionPeriod_of_planChanges runtime () integral_almostSpent (by decide +kernel) (by decide)
    upAndDown (by decide)

/-- A new organization, which gets the id 1000, and an event that gives it a period of the future. -/
def prepayment : List Transaction :=
  [.createOrganization (user 1) ⟨"Organization", "organization"⟩,
    .storeWebhookEvent (subscriptionUpdated "evt-1" 1000 "pro" "active" (some (noon 10, noon 20))),
    .processWebhookEvent (uuidText 1004) none]

def earlyRecording : Transaction := .recordUsage 1000 apiRequestsMetric 7 (some (noon 1))

/-- The quantity that is recorded before the period begins is missing in the summary. -/
theorem prepayment_unmetered :
    let prepaid := (inTurn prepayment).shared
    let recording := (getSession (recordUsage 1000 apiRequestsMetric 7 (some (noon 1)))).run
      earlyRecording .empty prepaid
    let summary := fun state : Shared schema Env Transaction =>
      ((getSession (getUsageSummary 1000 apiRequestsMetric (some (noon 1)))).run
        earlyRecording .empty state).1
    (startTransactions runtime (shared Transaction (fun _ => noon 1) newcomer) prepayment).Reach
        (inTurn prepayment) ∧
      (∃ event, recording.1 = .ok event) ∧
      ¬∃ before after, summary prepaid = .ok before ∧ summary recording.2.2 = .ok after ∧
        after.used = before.used + 7 := by
  intro prepaid recording summary
  have hrecorded : recording.1.toOption.isSome = true := by decide +kernel
  have hbefore : (summary prepaid).toOption.map UsageSnapshot.used = some 0 := by decide +kernel
  have hafter : (summary recording.2.2).toOption.map UsageSnapshot.used = some 0 := by decide +kernel
  refine ⟨World.reach_playAll _ _, ?_, ?_⟩
  · generalize recording.1 = outcome at hrecorded
    cases outcome with
    | ok event => exact ⟨event, rfl⟩
    | error error => cases hrecorded
  · rintro ⟨before, after, hsummary, hsummary', hused⟩
    rw [hsummary] at hbefore
    rw [hsummary'] at hafter
    have hzero : before.used = 0 := Option.some.inj hbefore
    have hzero' : after.used = 0 := Option.some.inj hafter
    omega

end Reference

end TenantForge
