import TenantForge.BillingPeriods
import TenantForge.Exchanges
import TenantForge.MeteredUsage
import TenantForge.Subscriptions
/-!
# Accepted webhooks

The receipt of a webhook and its processing validate the same object, at different times. A boundary
that is null stands for the time of the validation, and for a boundary of the calendar month when the
subscription is written. An accepted event is therefore processed later on, unless its start is null:
then its end may have passed, or the clock may read the same time twice (`processes_iff`).
-/

namespace TenantForge

open Gregorian ReadCommitted

/-! ### Boundaries -/

section Boundaries

variable {rt : Runtime} {object : List (String × Value)}

/-- The period of the object begins before it ends, with these times for null boundaries. -/
def PeriodFor (rt : Runtime) (object : List (String × Value)) (startDefault endDefault : DateTime) : Prop :=
  ∃ start stop, parseDatetime rt (startValue object) startDefault = .ok start ∧
    parseDatetime rt (endValue object) endDefault = .ok stop ∧ start < stop

theorem parseDatetime_null (fallback : DateTime) : parseDatetime rt .null fallback = .ok fallback := rfl

/-- A boundary that is not null does not depend on the time. -/
theorem parseDatetime_congr {value : Value} (h : value ≠ .null) (fallback fallback' : DateTime) :
    parseDatetime rt value fallback = parseDatetime rt value fallback' := by
  cases value with
  | null => exact absurd rfl h
  | _ => rfl

theorem getOrNull_of_has {key : String} (h : Value.has object key = false) : getOrNull object key = .null := by
  rw [Value.has, Option.isSome_eq_false_iff, Option.isNone_iff_eq_none] at h
  rw [getOrNull, h]
  rfl

/-- A period that was accepted at the times `a` and `b`, at later times. -/
theorem periodFor_iff {a b a' b' : DateTime} (h : PeriodFor rt object a b) (hb : b ≤ b') :
    PeriodFor rt object a' b' ↔ (startValue object = .null →
      (endValue object = .null → a' < b') ∧
        ∀ stop, endValue object ≠ .null → parseDatetime rt (endValue object) b' = .ok stop → a' < stop) := by
  obtain ⟨start, stop, hstart, hstop, hlt⟩ := h
  constructor
  · rintro ⟨start', stop', hstart', hstop', hlt'⟩ hnull
    rw [hnull, parseDatetime_null] at hstart'
    obtain rfl := Except.ok.inj hstart'
    refine ⟨fun hend => ?_, fun later _ hlater => ?_⟩
    · rw [hend, parseDatetime_null] at hstop'
      exact Except.ok.inj hstop' ▸ hlt'
    · rw [hstop'] at hlater
      exact Except.ok.inj hlater ▸ hlt'
  · intro h
    by_cases hnull : startValue object = .null
    · obtain ⟨hboth, hone⟩ := h hnull
      by_cases hend : endValue object = .null
      · exact ⟨a', b', by rw [hnull, parseDatetime_null], by rw [hend, parseDatetime_null], hboth hend⟩
      · have hstop' : parseDatetime rt (endValue object) b' = .ok stop := by
          rw [parseDatetime_congr hend b' b, hstop]
        exact ⟨a', stop, by rw [hnull, parseDatetime_null], hstop', hone stop hend hstop'⟩
    · have hstart' : parseDatetime rt (startValue object) a' = .ok start := by
        rw [parseDatetime_congr hnull a' a, hstart]
      by_cases hend : endValue object = .null
      · -- an open end moves on with the clock
        rw [hend, parseDatetime_null] at hstop
        obtain rfl := Except.ok.inj hstop
        exact ⟨start, b', hstart', by rw [hend, parseDatetime_null], hlt.trans_le hb⟩
      · exact ⟨start, stop, hstart', by rw [parseDatetime_congr hend b' b, hstop], hlt⟩

end Boundaries

/-! ### Validation -/

/-- What a created or updated subscription is checked for, at these times. -/
structure Checked (rt : Runtime) (object : List (String × Value)) (startNow endNow : DateTime) : Prop where
  plan : (planField rt object).isSome = true
  status : Value.has object "status" = true → (statusField rt object).isSome = true
  together : hasStart object = hasEnd object
  period : hasStart object = true → PeriodFor rt object startNow endNow
  customer : validIdentifier (getOrNull object "customer_id") = true
  subscription : validIdentifier (getOrNull object "subscription_id") = true

section Validation

variable {T : Type} {rt : Runtime} {object : List (String × Value)} {tag : T} {σ : Session schema}
  {s : Shared schema Env T}

/-- The state after the clock was read some times. -/
def readClock (reads : Nat) (s : Shared schema Env T) : Shared schema Env T :=
  { s with env := { s.env with ticks := s.env.ticks + reads } }

/-- How often the validation of a subscription reads the clock. -/
def periodReads (object : List (String × Value)) : Nat := if hasStart object then 2 else 0

/-- The time of a reading of the clock, counted from now. -/
def timeAt (s : Shared schema Env T) (reading : Nat) : DateTime := s.env.clock (s.env.ticks + reading)

theorem run_now_readClock (reads : Nat) : (now : App DateTime).run tag σ (readClock reads s) =
    (.ok (timeAt s reads), σ, readClock (reads + 1) s) := rfl

theorem not_isNone_iff {α : Type} {value : Option α} : ¬value.isNone = true ↔ value.isSome = true := by
  cases value <;> simp

theorem not_isSome_iff {α : Type} {value : Option α} : ¬value.isSome = true ↔ value = none := by
  cases value <;> simp

theorem toOption_eq_some {result : Except Exn DateTime} {value : DateTime} :
    result.toOption = some value ↔ result = .ok value := by
  cases result <;> simp [Except.toOption]

theorem run_validatePeriod (h : PeriodFor rt object (timeAt s 0) (timeAt s 1)) :
    (validatePeriod rt object).run tag σ s = (.ok (), σ, readClock 2 s) := by
  obtain ⟨start, stop, hstart, hstop, hlt⟩ := h
  have hfirst : (now : App DateTime).run tag σ s = (.ok (timeAt s 0), σ, readClock 1 s) := run_now_readClock 0
  rw [validatePeriod, Prog.bind_eq, Prog.run_bind_ok hfirst, hstart, Prog.bind_eq]
  refine (Prog.run_bind_ok (run_orRaise_some tag σ _ start _) _).trans ?_
  rw [Prog.bind_eq, Prog.run_bind_ok (run_now_readClock 1), hstop, Prog.bind_eq]
  refine (Prog.run_bind_ok (run_orRaise_some tag σ _ stop _) _).trans ?_
  exact run_raiseIf_not tag σ _ (not_le.mpr hlt) _

theorem periodFor_of_run {σ' : Session schema} {s' : Shared schema Env T}
    (h : (validatePeriod rt object).run tag σ s = (.ok (), σ', s')) :
    PeriodFor rt object (timeAt s 0) (timeAt s 1) := by
  obtain ⟨_, _, _, hfirst, h⟩ := Prog.exists_run_of_bind h
  cases hfirst
  obtain ⟨start, hstart, h⟩ := run_orRaise_bind h
  obtain ⟨_, _, _, hsecond, h⟩ := Prog.exists_run_of_bind h
  cases hsecond
  obtain ⟨stop, hstop, h⟩ := run_orRaise_bind h
  exact ⟨start, stop, toOption_eq_some.mp hstart, toOption_eq_some.mp hstop, not_le.mp (run_raiseIf_ok h)⟩

theorem run_runIf_validatePeriod
    (h : hasStart object = true → PeriodFor rt object (timeAt s 0) (timeAt s 1)) :
    (runIf (hasStart object = true) (validatePeriod rt object)).run tag σ s =
      (.ok (), σ, readClock (periodReads object) s) := by
  by_cases hstart : hasStart object = true
  · rw [run_runIf tag σ s hstart, run_validatePeriod (h hstart), periodReads, if_pos hstart]
  · rw [run_runIf_not tag σ s hstart, periodReads, if_neg hstart]
    rfl

theorem run_validateSubscription (h : Checked rt object (timeAt s 0) (timeAt s 1)) :
    (validateSubscription rt object).run tag σ s = (.ok (), σ, readClock (periodReads object) s) := by
  have hplan : ¬(planField rt object).isNone = true := not_isNone_iff.mpr h.plan
  have hstatus : ¬(Value.has object "status" = true ∧ (statusField rt object).isNone = true) := by
    rintro ⟨hhas, hnone⟩
    exact not_isNone_iff.mpr (h.status hhas) hnone
  rw [validateSubscription, Prog.bind_eq, Prog.run_bind_ok (run_raiseIf_not tag σ s hplan _), Prog.bind_eq,
    Prog.run_bind_ok (run_raiseIf_not tag σ s hstatus _), Prog.bind_eq,
    Prog.run_bind_ok (run_raiseIf_not tag σ s (not_not.mpr h.together) _), Prog.bind_eq,
    Prog.run_bind_ok (run_runIf_validatePeriod h.period), Prog.bind_eq,
    Prog.run_bind_ok (run_raiseIf_not tag σ _ (by simp [h.customer]) _)]
  exact run_raiseIf_not tag σ _ (by simp [h.subscription]) _

theorem checked_of_run {σ' : Session schema} {s' : Shared schema Env T}
    (h : (validateSubscription rt object).run tag σ s = (.ok (), σ', s')) :
    Checked rt object (timeAt s 0) (timeAt s 1) := by
  rw [validateSubscription] at h
  obtain ⟨hplan, h⟩ := run_raiseIf_bind h
  obtain ⟨hstatus, h⟩ := run_raiseIf_bind h
  obtain ⟨htogether, h⟩ := run_raiseIf_bind h
  obtain ⟨_, _, _, hperiod, h⟩ := Prog.exists_run_of_bind h
  obtain ⟨hcustomer, h⟩ := run_raiseIf_bind h
  refine ⟨not_isNone_iff.mp hplan, fun hhas => not_isNone_iff.mp fun hnone => hstatus ⟨hhas, hnone⟩,
    not_not.mp htogether, fun hstart => ?_, ?_, ?_⟩
  · rw [run_runIf _ _ _ hstart] at hperiod
    exact periodFor_of_run hperiod
  · simpa using hcustomer
  · simpa using run_raiseIf_ok h

/-- An event that is accepted, at these times. -/
structure Accepted (rt : Runtime) (event : BillingWebhook) (object : List (String × Value))
    (startNow endNow : DateTime) : Prop where
  supported : event.type ∈ supportedEvents
  found : objectField event = some object
  organization : (organizationField rt object).isSome = true
  checked : changesSubscription event.type = true → Checked rt object startNow endNow

/-- How often the validation of an event reads the clock. -/
def validationReads (event : BillingWebhook) (object : List (String × Value)) : Nat :=
  if changesSubscription event.type then periodReads object else 0

variable (tag) in
theorem run_validateWebhook {event : BillingWebhook} (h : Accepted rt event object (timeAt s 0) (timeAt s 1)) :
    (validateWebhook rt event).run tag σ s = (.ok object, σ, readClock (validationReads event object) s) := by
  have horganization : ¬(organizationField rt object).isNone = true := not_isNone_iff.mpr h.organization
  have hchecked : (runIf (changesSubscription event.type = true) (validateSubscription rt object)).run tag σ s =
      (.ok (), σ, readClock (validationReads event object) s) := by
    by_cases hchanges : changesSubscription event.type = true
    · rw [run_runIf tag σ s hchanges, run_validateSubscription (h.checked hchanges), validationReads,
        if_pos hchanges]
    · rw [run_runIf_not tag σ s hchanges, validationReads, if_neg hchanges]
      rfl
  rw [validateWebhook, Prog.bind_eq, Prog.run_bind_ok (run_raiseIf_not tag σ s (not_not.mpr h.supported) _),
    h.found, Prog.bind_eq]
  refine (Prog.run_bind_ok (run_orRaise_some tag σ s object _) _).trans ?_
  rw [Prog.bind_eq, Prog.run_bind_ok (run_raiseIf_not tag σ s horganization _), Prog.bind_eq,
    Prog.run_bind_ok hchecked]
  rfl

/-- **The validation accepts** an event if and only if its object passes the checks. -/
theorem accepted_iff {event : BillingWebhook} :
    (∃ σ' s', (validateWebhook rt event).run tag σ s = (.ok object, σ', s')) ↔
      Accepted rt event object (timeAt s 0) (timeAt s 1) := by
  refine ⟨?_, fun h => ⟨_, _, run_validateWebhook _ h⟩⟩
  rintro ⟨σ', s', h⟩
  rw [validateWebhook] at h
  obtain ⟨hsupported, h⟩ := run_raiseIf_bind h
  obtain ⟨found, hobject, h⟩ := run_orRaise_bind h
  obtain ⟨horganization, h⟩ := run_raiseIf_bind h
  obtain ⟨_, _, _, hchecked, h⟩ := Prog.exists_run_of_bind h
  cases h
  refine ⟨not_not.mp hsupported, hobject, not_isNone_iff.mp horganization, fun hchanges => ?_⟩
  rw [run_runIf _ _ _ hchanges] at hchecked
  exact checked_of_run hchecked

end Validation

/-! ### The subscription after an event -/

section Applying

variable {rt : Runtime} {event : BillingWebhook} {object : List (String × Value)} {a b start stop : DateTime}
  {subscription changed : Subscription}

theorem identifierColumn_ok {key : String} (h : validIdentifier (getOrNull object key) = true)
    (current : Option String) : ∃ id, identifierColumn object key current = .ok id ∧
      (id = current ∨ ∀ text ∈ id, Value.get? object key = some (.str text)) := by
  unfold identifierColumn
  unfold getOrNull at h
  cases hvalue : Value.get? object key with
  | none => exact ⟨current, rfl, Or.inl rfl⟩
  | some value =>
    rw [hvalue] at h
    cases value with
    | null => exact ⟨none, rfl, Or.inr fun _ htext => nomatch htext⟩
    | str text => exact ⟨some text, rfl, Or.inr fun _ htext => by rw [Option.mem_some_iff.mp htext]⟩
    | bool | int | float | list | dict => cases h

/-- A status that is not given is the active one. -/
theorem statusField_isSome (h : Value.has object "status" = true → (statusField rt object).isSome = true) :
    (statusField rt object).isSome = true := by
  by_cases hhas : Value.has object "status" = true
  · exact h hhas
  · rw [Value.has, not_isSome_iff] at hhas
    have hascii : "ACTIVE".toList.all (fun c => c.toNat < 128) = true := rfl
    have hactive : rt.upper "ACTIVE" = "ACTIVE" := by
      rw [rt.upper_ascii _ fun c hc => of_decide_eq_true (List.all_eq_true.mp hascii c hc)]
      rfl
    rw [statusField, hhas, Option.getD_none, SubscriptionStatus.value, Interpreter.str, hactive]
    rfl

/-- The identifier of a subscription after an event is the old one, or the one in the object. -/
def KeepsIdentifier (object : List (String × Value)) (subscription changed : Subscription) : Prop :=
  changed.externalSubscriptionId = subscription.externalSubscriptionId ∨
    ∀ text ∈ changed.externalSubscriptionId, Value.get? object "subscription_id" = some (.str text)

/-- A created or updated event is applied if and only if the period that it leaves is ordered. -/
theorem applyObject_cases (hchecked : Checked rt object a b) (subscription : Subscription) :
    (PeriodFor rt object start stop ∧ ∃ changed, applyObject rt object start stop subscription = .ok changed ∧
      KeepsIdentifier object subscription changed ∧ changed.Ordered) ∨
    (¬PeriodFor rt object start stop ∧ ∃ error, applyObject rt object start stop subscription = .error error) := by
  obtain ⟨plan, hplan⟩ := Option.isSome_iff_exists.mp hchecked.plan
  obtain ⟨status, hstatus⟩ := Option.isSome_iff_exists.mp (statusField_isSome hchecked.status)
  obtain ⟨customerId, hcustomer, -⟩ := identifierColumn_ok hchecked.customer subscription.externalCustomerId
  obtain ⟨subscriptionId, hsubscription, hexternal⟩ :=
    identifierColumn_ok hchecked.subscription subscription.externalSubscriptionId
  simp only [applyObject, hplan, hstatus, hcustomer, hsubscription, bind, Except.bind]
  cases hstart : parseDatetime rt (startValue object) start with
  | error error =>
    refine Or.inr ⟨?_, error, rfl⟩
    rintro ⟨_, _, hparsed, -, -⟩
    rw [hstart] at hparsed
    cases hparsed
  | ok first =>
    cases hstop : parseDatetime rt (endValue object) stop with
    | error error =>
      refine Or.inr ⟨?_, error, rfl⟩
      rintro ⟨_, _, -, hparsed, -⟩
      rw [hstop] at hparsed
      cases hparsed
    | ok last =>
      have hperiod : PeriodFor rt object start stop ↔ first < last := by
        refine ⟨?_, fun hlt => ⟨first, last, hstart, hstop, hlt⟩⟩
        rintro ⟨first', last', hfirst, hlast, hlt⟩
        rw [Except.ok.inj (hstart.symm.trans hfirst), Except.ok.inj (hstop.symm.trans hlast)]
        exact hlt
      rw [hperiod]
      dsimp only
      by_cases hlt : first < last
      · rw [if_neg (not_le.mpr hlt)]
        exact Or.inl ⟨hlt, _, rfl, hexternal, hlt⟩
      · rw [if_pos (not_lt.mp hlt)]
        exact Or.inr ⟨hlt, _, rfl⟩

/-- The period that is written begins and ends in the calendar month where the object leaves it open. -/
theorem periodFor_month_iff (hchecked : Checked rt object a b) (hmonth : start < stop)
    (hb : hasStart object = true → b ≤ stop) :
    PeriodFor rt object start stop ↔ (hasStart object = true → startValue object = .null →
      ∀ last, endValue object ≠ .null → parseDatetime rt (endValue object) stop = .ok last → start < last) := by
  by_cases hhas : hasStart object = true
  · rw [periodFor_iff (hchecked.period hhas) (hb hhas)]
    exact ⟨fun h _ hnull => (h hnull).2, fun h hnull => ⟨fun _ => hmonth, h hhas hnull⟩⟩
  · have hnoStart : hasStart object = false := by simpa using hhas
    have hstart : startValue object = .null := getOrNull_of_has hnoStart
    have hend : endValue object = .null := getOrNull_of_has (hchecked.together.symm.trans hnoStart)
    refine iff_of_true ⟨start, stop, ?_, ?_, hmonth⟩ fun h => absurd h hhas
    · rw [hstart, parseDatetime_null]
    · rw [hend, parseDatetime_null]

/-- The checks again, at later times. -/
theorem checked_later_iff {a' b' : DateTime} (hchecked : Checked rt object a b)
    (hb : hasStart object = true → b ≤ b') :
    Checked rt object a' b' ↔ (hasStart object = true → startValue object = .null →
      (endValue object = .null → a' < b') ∧
        ∀ last, endValue object ≠ .null → parseDatetime rt (endValue object) b' = .ok last → a' < last) := by
  refine ⟨fun h hhas => (periodFor_iff (hchecked.period hhas) (hb hhas)).mp (h.period hhas), fun h => ?_⟩
  exact { hchecked with period := fun hhas => (periodFor_iff (hchecked.period hhas) (hb hhas)).mpr (h hhas) }

/-- The event leaves an ordered period: a created or updated subscription gets one, and any other event
keeps the one that is there. -/
def LeavesOrdered (rt : Runtime) (event : BillingWebhook) (object : List (String × Value))
    (start stop : DateTime) (subscription : Subscription) : Prop :=
  if changesSubscription event.type then PeriodFor rt object start stop else subscription.Ordered

variable (start stop) in
theorem applyEvent_cases (haccepted : Accepted rt event object a b) (subscription : Subscription) :
    (∃ changed, applyEvent rt event.type object start stop subscription = .ok changed ∧
      KeepsIdentifier object subscription changed ∧
      (changed.Ordered ↔ LeavesOrdered rt event object start stop subscription)) ∨
    (∃ error, applyEvent rt event.type object start stop subscription = .error error ∧
      ¬LeavesOrdered rt event object start stop subscription) := by
  unfold applyEvent LeavesOrdered
  by_cases hchanges : changesSubscription event.type = true
  · simp only [hchanges, if_true]
    rcases applyObject_cases (haccepted.checked hchanges) subscription with
      ⟨hperiod, changed, happly, hkeeps, hordered⟩ | ⟨hperiod, error, happly⟩
    · exact Or.inl ⟨changed, happly, hkeeps, iff_of_true hordered hperiod⟩
    · exact Or.inr ⟨error, happly, hperiod⟩
  · simp only [hchanges, if_false, Bool.false_eq_true]
    refine Or.inl ?_
    split
    · exact ⟨_, rfl, Or.inl rfl, Iff.rfl⟩
    · split
      · exact ⟨_, rfl, Or.inl rfl, Iff.rfl⟩
      · exact ⟨_, rfl, Or.inl rfl, Iff.rfl⟩

end Applying

/-! ### The subscription in a session -/

section AtHand

variable {T : Type} {rt : Runtime} (tag : T) {σ : Session schema} {s : Shared schema Env T}
  {organizationId : Uuid} {subscription changed : Subscription}

/-- The session sees this subscription of an organization, and can write audit entries for it. -/
structure AtHand (organizationId : Uuid) (σ : Session schema) (s : Shared schema Env T)
    (subscription : Subscription) : Prop where
  sound : σ.Sound s.db
  integral : s.db.Integral
  current : (σ.view s.db).lookup .subscriptions subscription.id = some subscription
  of : subscription.organizationId = organizationId
  organization : ((σ.view s.db).lookup .organizations organizationId).isSome = true
  fresh : ∀ id, s.ids.Holds id → (σ.view s.db).lookup .auditLogs id = none
  events : σ.writes .webhookEvents = []

theorem lookup_view_put_ne {σ' : Session schema} {t t' : Table} (ht : t' ≠ t) {id : Uuid}
    {version : Option (Row t)} (hw : σ'.writes = σ.writes.put t id version) (db : Db) (id' : Uuid) :
    (σ'.view db).lookup t' id' = (σ.view db).lookup t' id' := by
  rw [Store.lookup, Session.view_put_table_ne (S := schema) db ht hw, Store.lookup]

/-- The identifier that the event brings belongs to no other subscription. -/
def Unclaimed (σ : Session schema) (db : Db) (subscription changed : Subscription) : Prop :=
  ∀ text ∈ changed.externalSubscriptionId, subscription.externalSubscriptionId ≠ some text →
    ¬(σ.view db).HasIndex .subscriptions (.externalSubscription text)

theorem run_flushSubscription (h : AtHand organizationId σ s subscription)
    (hid : changed.id = subscription.id) (hof : changed.organizationId = subscription.organizationId)
    (hcreated : changed.createdAt = subscription.createdAt) (hfree : Unclaimed σ s.db subscription changed) :
    ∃ after σ' s', (flushSubscription subscription changed).run tag σ s = (.ok (), σ', s') ∧
      Flushed subscription changed after ∧ AtHand organizationId σ' s' after ∧ s'.db = s.db ∧
      s'.ids = s.ids := by
  by_cases hchanged : changed ≠ subscription
  · let updatedAt := s.env.databaseClock s.env.stamps
    let after : Subscription := { changed with updatedAt }
    have hset : subscription.merge changed subscription updatedAt = after :=
      Subscription.merge_self subscription changed updatedAt hid hof hcreated
    have hadmits : σ.Admits s.db (S := schema) (t := .subscriptions) subscription after := by
      refine ⟨hid, fun u hu hold => ?_⟩
      rcases List.mem_cons.mp hu with rfl | hu
      · exact absurd (List.mem_cons.mpr (Or.inl (congrArg UniqueValue.subscriber hof))) hold
      · obtain ⟨text, htext, rfl⟩ := List.mem_map.mp hu
        refine hfree text (Option.mem_toList.mp htext) fun hsame => hold ?_
        exact List.mem_cons_of_mem _ (List.mem_map_of_mem (Option.mem_toList.mpr hsame))
    rw [← hset] at hadmits
    let stamped : Shared schema Env T := { s with env := { s.env with stamps := s.env.stamps + 1 } }
    let flushed : Session schema := σ.write (Session.updateNeeds (S := schema) (t := .subscriptions) subscription
      after) s.db .subscriptions subscription.id (some after)
    have hdatabaseNow : databaseNow.run tag σ s = (.ok updatedAt, σ, stamped) := rfl
    have hflush : (flushUpdate .subscriptions subscription.id fun row : Subscription =>
        subscription.merge changed row updatedAt).run tag σ stamped = (.ok (), flushed, stamped) := by
      rw [run_flushUpdate_of_admits (t := .subscriptions) tag σ stamped h.current hadmits, hset]
    have hsound : flushed.Sound s.db := by
      have hupdate := h.sound.update .subscriptions subscription.id fun row : Subscription =>
        subscription.merge changed row updatedAt
      simp only [Session.update, h.current, if_pos hadmits] at hupdate
      rwa [hset] at hupdate
    refine ⟨after, flushed, stamped, ?_, Or.inr ⟨hchanged, updatedAt, rfl⟩, ?_, rfl, rfl⟩
    · rw [flushSubscription, run_runIf tag σ s hchanged, Prog.bind_eq, Prog.run_bind_ok hdatabaseNow]
      exact hflush
    · refine ⟨hsound, h.integral, ?_, hof.trans h.of, ?_, fun id hid => ?_, ?_⟩
      · rw [show after.id = subscription.id from hid]
        exact hsound.lookup_put rfl
      · rw [lookup_view_put_ne (by decide) rfl]
        exact h.organization
      · rw [lookup_view_put_ne (by decide) rfl]
        exact h.fresh id hid
      · rw [Session.writes_write, Overlay.put_table_ne _ (by decide), h.events]
  · refine ⟨subscription, σ, s, ?_, Or.inl ⟨not_not.mp hchanged, rfl⟩, h, rfl, rfl⟩
    rw [flushSubscription, run_runIf_not tag σ s hchanged]

/-- The session after an id was drawn, and the shared state after the database stamped a row as well. -/
def drawn (σ : Session schema) (s : Shared schema Env T) : Session schema :=
  σ.hold [(.name s.ids.head, .forUpdate)] s.db

def stamped (s : Shared schema Env T) : Shared schema Env T :=
  { s.draw with env := { s.env with stamps := s.env.stamps + 1 } }

/-- A row is inserted under an id that was drawn for it. -/
theorem run_addRow_drawn {t : Table} {row : Row t} (hid : rowId row = s.ids.head) (hσ : σ.Sound s.db)
    (hfresh : (σ.view s.db).lookup t s.ids.head = none)
    (hunique : ∀ u ∈ uniqueValues row, ¬(σ.view s.db).HasIndex t u)
    (hparents : ∀ parent ∈ foreignKeys row, ((σ.view s.db).lookup parent.1 parent.2).isSome) :
    ∃ σ', (addRow t row).run tag (drawn σ s) (stamped s) = (.ok (), σ', stamped s) ∧ σ'.Sound s.db ∧
      σ'.writes = σ.writes.put t s.ids.head (some row) := by
  rw [← hid] at hfresh ⊢
  have haccepts : (drawn σ s).Accepts s.db (S := schema) (t := t) row := ⟨hfresh, hunique, hparents⟩
  have hinsert := (hσ.hold [(.name s.ids.head, .forUpdate)] s.db).insert (t := t) row
  rw [Session.insert, ← drawn, if_pos haccepts] at hinsert
  exact ⟨_, run_addRow_of_accepts tag (drawn σ s) (stamped s) haccepts, hinsert, rfl⟩

theorem run_writeAudit (h : AtHand organizationId σ s subscription) (action resourceType resourceId : String)
    (metadata : List (String × Value)) :
    ∃ entry σ' s', (writeAudit organizationId none action resourceType resourceId metadata).run tag σ s =
        (.ok entry, σ', s') ∧ AtHand organizationId σ' s' subscription ∧ s'.db = s.db := by
  let entry : AuditLog := ⟨s.ids.head, organizationId, none, action, resourceType, resourceId, metadata, none,
    s.env.databaseClock s.env.stamps⟩
  obtain ⟨σ', hadd, hsound, hw⟩ := run_addRow_drawn tag (t := .auditLogs)
    (show rowId (t := .auditLogs) entry = s.ids.head from rfl) h.sound (h.fresh _ s.ids.holds_head)
    (fun u hu => absurd hu List.not_mem_nil) fun parent hparent => by
      obtain rfl := List.mem_singleton.mp hparent
      exact h.organization
  refine ⟨entry, σ', stamped s, Prog.run_bind_ok hadd _,
    ⟨hsound, h.integral, ?_, h.of, ?_, fun id hid => ?_, ?_⟩, rfl⟩
  · exact (lookup_view_put_ne (by decide) hw s.db _).trans h.current
  · exact (congrArg Option.isSome (lookup_view_put_ne (by decide) hw s.db _)).trans h.organization
  · have hne : id ≠ s.ids.head := by
      rintro rfl
      exact (Supply.Leads.refl s.ids.tail).not_holds_head hid
    change (σ'.view s.db).lookup .auditLogs id = none
    rw [Session.view, hsound.coherent.lookup_apply, hw, Overlay.find_put_id_ne _ _ hne,
      ← h.sound.coherent.lookup_apply]
    exact h.fresh id (s.ids.leads_tail.holds hid)
  · rw [hw, Overlay.put_table_ne _ (by decide), h.events]

theorem run_nowOr (at? : Option DateTime) (σ : Session schema) (s : Shared schema Env T) :
    ∃ reads, (nowOr at?).run tag σ s = (.ok (at?.getD (timeAt s 0)), σ, readClock reads s) := by
  cases at? with
  | none => exact ⟨1, rfl⟩
  | some t => exact ⟨0, rfl⟩

/-- An event whose subscription has changed is marked. -/
theorem run_settleEvent (rt : Runtime) (at? : Option DateTime) {event : WebhookEvent}
    (h : AtHand organizationId σ s subscription) (hevent : s.db.lookup .webhookEvents event.id = some event)
    (hid : changed.id = subscription.id) (hof : changed.organizationId = subscription.organizationId)
    (hcreated : changed.createdAt = subscription.createdAt) (hfree : Unclaimed σ s.db subscription changed) :
    ∃ result after processedAt σ' s',
      (settleEvent rt at? event organizationId subscription changed).run tag σ s = (.ok result, σ', s') ∧
        s'.db.Integral ∧ σ'.Sound s'.db ∧
        (σ'.view s'.db).lookup .webhookEvents event.id = some (event.processed processedAt) ∧
        (σ'.view s'.db).lookup .subscriptions after.id = some after ∧ after.organizationId = organizationId ∧
        Flushed subscription changed after := by
  obtain ⟨after, σ₁, s₁, hflush, hflushed, h₁, hdb₁, -⟩ :=
    run_flushSubscription tag h hid hof hcreated hfree
  obtain ⟨entry, σ₂, s₂, haudit, h₂, hdb₂⟩ := run_writeAudit tag h₁ "subscription.changed" "subscription"
    (rt.uuidText subscription.id) (webhookDetails event subscription changed)
  obtain ⟨reads, hnow⟩ := run_nowOr tag at? σ₂ s₂
  let processedAt := at?.getD (timeAt s₂ 0)
  let read := readClock reads s₂
  have hstored : (σ₂.view read.db).lookup .webhookEvents event.id = some event := by
    rw [Session.lookup_view_of_nil h₂.events]
    change s₂.db.lookup .webhookEvents event.id = some event
    rw [hdb₂, hdb₁, hevent]
  have hadmits : σ₂.Admits read.db (S := schema) (t := .webhookEvents) event (event.processed processedAt) :=
    ⟨rfl, fun u hu hold => absurd hu hold⟩
  let marked : Session schema := σ₂.write (Session.updateNeeds (S := schema) (t := .webhookEvents) event
    (event.processed processedAt)) read.db .webhookEvents event.id (some (event.processed processedAt))
  have hmark : (flushUpdate .webhookEvents event.id fun (row : WebhookEvent) =>
      { row with status := .processed, processedAt := some processedAt }).run tag σ₂ read =
        (.ok (), marked, read) :=
    run_flushUpdate_of_admits (t := .webhookEvents) tag σ₂ read hstored hadmits
  have hsound : marked.Sound read.db := by
    have hupdate := h₂.sound.update .webhookEvents event.id fun row : WebhookEvent => row.processed processedAt
    change (σ₂.update read.db .webhookEvents event.id _).2.Sound read.db at hupdate
    simp only [Session.update, hstored, if_pos hadmits] at hupdate
    exact hupdate
  refine ⟨(event.processed processedAt, true), after, processedAt, marked, read, ?_, h₂.integral, hsound,
    hsound.lookup_put rfl, ?_, h₂.of, hflushed⟩
  · rw [settleEvent, Prog.bind_eq, Prog.run_bind_ok hflush, Prog.bind_eq, Prog.run_bind_ok haudit, Prog.bind_eq,
      Prog.run_bind_ok hnow, Prog.bind_eq, Prog.run_bind_ok hmark]
    rfl
  · rw [lookup_view_put_ne (by decide) rfl]
    exact h₂.current

/-! ### Finding the subscription -/

/-- How often the clock is read for a subscription that is made. -/
def creationReads (organizationId : Uuid) (db : Db) : Nat :=
  if (subscriptionOf organizationId db).isNone then 1 else 0

/-- The subscription that was found or made in `s`. -/
structure Located (organizationId : Uuid) (s : Shared schema Env T) (σ' : Session schema)
    (s' : Shared schema Env T) (subscription : Subscription) : Prop where
  db : s'.db = s.db
  time : ∀ n, timeAt s' n = timeAt s (creationReads organizationId s.db + n)
  others : ∀ row ∈ σ'.view s'.db .subscriptions,
    row = subscription ∨ row ∈ s.db .subscriptions ∧ Subscription.organizationId row ≠ organizationId
  stored : ∀ stored, subscriptionOf organizationId s.db = some stored → subscription = stored
  made : subscriptionOf organizationId s.db = none →
    subscription.Ordered ∧ (calendarPeriod (timeAt s 0)).isSome = true

theorem lookup_organizations {db : Db} (h : organizationExists organizationId db = true) :
    (db.lookup .organizations organizationId).isSome = true := by
  obtain ⟨row, hrow, hid⟩ := List.any_eq_true.mp h
  have hid : Organization.id row = organizationId := by simpa using hid
  rw [← Option.ne_none_iff_isSome]
  exact fun hmissing => Store.lookup_eq_none.mp hmissing row hrow hid

/-- A default subscription is made unless the month has no end. -/
theorem run_createDefaultSubscription (hdb : s.db.Integral) (hσ : σ.Sound s.db) (hclean : σ.writes = .empty)
    (hexists : organizationExists organizationId s.db = true)
    (hfresh : ∀ t id, s.ids.Holds id → s.db.lookup t id = none)
    (hnone : subscriptionOf organizationId s.db = none) :
    (∃ subscription σ' s', (createDefaultSubscription organizationId).run tag σ s = (.ok subscription, σ', s') ∧
      AtHand organizationId σ' s' subscription ∧ Located organizationId s σ' s' subscription) ∨
    (calendarPeriod (timeAt s 0) = none ∧ ∃ error σ' s',
      (createDefaultSubscription organizationId).run tag σ s = (.error error, σ', s')) := by
  have hview : σ.view s.db = s.db := by rw [Session.view, hclean, Overlay.apply_empty]
  have horganization := lookup_organizations hexists
  have hnow : (nowOr none).run tag σ s = (.ok (timeAt s 0), σ, readClock 1 s) := rfl
  rw [createDefaultSubscription, Prog.bind_eq, Prog.run_bind_ok hnow, Prog.bind_eq]
  cases hperiod : calendarPeriod (timeAt s 0) with
  | none => exact Or.inr ⟨rfl, _, _, _, Prog.run_bind_error (run_orRaise_none tag σ _ _) _⟩
  | some period =>
    obtain ⟨start, stop⟩ := period
    have hlt : start < stop := by simpa only using calendarPeriod_lt hperiod
    let row : Subscription := ⟨s.ids.head, organizationId, .free, .active, none, none, start, stop,
      s.env.databaseClock s.env.stamps, s.env.databaseClock s.env.stamps⟩
    have hunique : ∀ u ∈ uniqueValues (t := .subscriptions) row, ¬(σ.view s.db).HasIndex .subscriptions u := by
      rw [hview]
      rintro u hu ⟨other, hother, hvalue⟩
      obtain rfl := List.mem_singleton.mp hu
      have hsame : row.organizationId = Subscription.organizationId other := by simpa [uniqueValues] using hvalue
      exact organizationId_ne_of_subscriptionOf hnone hother hsame.symm
    have hvacant : (σ.view s.db).lookup .subscriptions s.ids.head = none := by
      rw [hview, hfresh _ _ s.ids.holds_head]
    obtain ⟨σ', hadd, hsound, hw⟩ := run_addRow_drawn tag (t := .subscriptions)
      (s := readClock 1 s) (show rowId (t := .subscriptions) row = s.ids.head from rfl) hσ hvacant hunique
      fun parent hparent => by
        obtain rfl := List.mem_singleton.mp hparent
        change ((σ.view s.db).lookup .organizations organizationId).isSome = true
        rw [hview, horganization]
    have hrows : σ'.view s.db .subscriptions = s.db .subscriptions ++ [row] := by
      refine Session.view_of_insert (S := schema) (t := .subscriptions) ?_ (hfresh .subscriptions _ s.ids.holds_head)
      rw [hw, hclean]
      exact Overlay.put_table_of_nil rfl _ _
    have hother : ∀ t ≠ .subscriptions, ∀ id, (σ'.view s.db).lookup t id = s.db.lookup t id := fun t ht id => by
      rw [lookup_view_put_ne ht hw, hview]
    refine Or.inl ⟨row, σ', stamped (readClock 1 s), (Prog.run_bind_ok (run_orRaise_some tag σ _ _ _) _).trans
      (Prog.run_bind_ok hadd _), ⟨hsound, hdb, hsound.lookup_put hw, rfl, ?_, fun id hid => ?_, ?_⟩,
      ⟨rfl, fun n => ?_, fun other hmem => ?_, fun stored hstored => ?_, fun _ => ⟨?_, ?_⟩⟩⟩
    · exact (congrArg Option.isSome (hother .organizations (by decide) _)).trans horganization
    · exact (hother .auditLogs (by decide) id).trans (hfresh _ id (s.ids.leads_tail.holds hid))
    · rw [hw, Overlay.put_table_ne _ (by decide), hclean]
      rfl
    · rw [creationReads, hnone]
      change s.env.clock (s.env.ticks + 1 + n) = s.env.clock (s.env.ticks + (1 + n))
      rw [Nat.add_assoc]
    · change other ∈ σ'.view s.db .subscriptions at hmem
      rw [hrows] at hmem
      rcases List.mem_append.mp hmem with hmem | hmem
      · exact Or.inr ⟨hmem, organizationId_ne_of_subscriptionOf hnone hmem⟩
      · exact Or.inl (List.mem_singleton.mp hmem)
    · rw [hnone] at hstored
      cases hstored
    · exact hlt
    · rw [hperiod]
      rfl

theorem run_lockedSubscription (hdb : s.db.Integral) (hσ : σ.Sound s.db) (hclean : σ.writes = .empty)
    (hloaded : σ.loaded .subscriptions = []) (hexists : organizationExists organizationId s.db = true)
    (hfresh : ∀ t id, s.ids.Holds id → s.db.lookup t id = none) :
    (∃ subscription σ' s', (lockedSubscription organizationId).run tag σ s = (.ok subscription, σ', s') ∧
      AtHand organizationId σ' s' subscription ∧ Located organizationId s σ' s' subscription) ∨
    (subscriptionOf organizationId s.db = none ∧ calendarPeriod (timeAt s 0) = none ∧ ∃ error σ' s',
      (lockedSubscription organizationId).run tag σ s = (.error error, σ', s')) := by
  have hview : ∀ {σ' : Session schema}, σ'.writes = .empty → σ'.view s.db = s.db := fun hw => by
    rw [Session.view, hw, Overlay.apply_empty]
  obtain ⟨σ₁, hσ₁, hw₁, hloaded₁, hrun₁⟩ := Prog.run_scalarForUpdate (E := Env) (X := Exn) (S := schema)
    (t := .organizations) tag (isOrganization organizationId) σ s hdb hσ
  obtain ⟨σ₂, hσ₂, hw₂, -, hrun₂⟩ := Prog.run_scalarForUpdate (E := Env) (X := Exn) (S := schema)
    (t := .subscriptions) tag (isSubscriptionOf organizationId) σ₁ s hdb hσ₁
  have hcopy : (fun row : Subscription => σ₁.copyOf (t := .subscriptions) row) = id := by
    funext row
    rw [Session.copyOf, hloaded₁ .subscriptions (by decide), hloaded]
    rfl
  rw [hview hclean] at hrun₁
  rw [hview (hw₁.trans hclean), matching_subscriptions] at hrun₂
  have hfound : (subscriptionOf organizationId s.db).map (fun row : Subscription =>
      σ₁.copyOf (t := .subscriptions) row) = subscriptionOf organizationId s.db := by rw [hcopy, Option.map_id]; rfl
  cases hrows : Prog.matching (S := schema) .organizations (isOrganization organizationId) s.db with
  | nil =>
    rw [(matching_organizations_eq_nil s.db).mp hrows] at hexists
    cases hexists
  | cons row rows =>
    rw [hrows] at hrun₁
    have horganization := run_orRaise_some tag σ₁ s (σ.copyOf (t := .organizations) row)
      (.valueError "webhook organization does not exist")
    have hlocate : ∀ rest : Option Subscription → App Subscription,
        ((Prog.scalarForUpdate (S := schema) .subscriptions (isSubscriptionOf organizationId)).bind rest).run
          tag σ₁ s = (rest (subscriptionOf organizationId s.db)).run tag σ₂ s := fun rest =>
      Prog.run_bind_ok (hrun₂.trans (congrArg (fun found => (Except.ok found, σ₂, s)) hfound)) rest
    have hw := hw₂.trans (hw₁.trans hclean)
    cases hstored : subscriptionOf organizationId s.db with
    | none =>
      have hmake : (lockedSubscription organizationId).run tag σ s =
          (createDefaultSubscription organizationId).run tag σ₂ s := by
        rw [lockedSubscription, Prog.bind_eq, Prog.run_bind_ok hrun₁, Prog.bind_eq]
        refine (Prog.run_bind_ok horganization _).trans ?_
        rw [Prog.bind_eq, hlocate, hstored]
      rw [hmake]
      rcases run_createDefaultSubscription tag hdb hσ₂ hw hexists hfresh hstored with hmade | ⟨hperiod, hfailed⟩
      · exact Or.inl hmade
      · exact Or.inr ⟨rfl, hperiod, hfailed⟩
    | some stored =>
      obtain ⟨hmem, hof⟩ := mem_of_subscriptionOf hstored
      refine Or.inl ⟨stored, σ₂, s, ?_, ⟨hσ₂, hdb, ?_, hof, ?_, fun id hid => ?_, ?_⟩,
        ⟨rfl, fun n => ?_, fun other hother => ?_, fun found hfound => ?_, fun hnone => ?_⟩⟩
      · rw [lockedSubscription, Prog.bind_eq, Prog.run_bind_ok hrun₁, Prog.bind_eq]
        refine (Prog.run_bind_ok horganization _).trans ?_
        rw [Prog.bind_eq, hlocate, hstored]
        rfl
      · rw [hview hw]
        exact hdb.lookup_of_mem (t := .subscriptions) hmem
      · rw [hview hw, lookup_organizations hexists]
      · rw [hview hw, hfresh _ id hid]
      · rw [hw]
        rfl
      · rw [creationReads, hstored]
        change s.env.clock (s.env.ticks + n) = s.env.clock (s.env.ticks + (0 + n))
        rw [Nat.zero_add]
      · rw [hview hw] at hother
        by_cases hsame : Subscription.organizationId other = organizationId
        · exact Or.inl (eq_of_subscriptionOf hdb hstored hother hsame)
        · exact Or.inr ⟨hother, hsame⟩
      · exact Option.some.inj (hstored.symm.trans hfound)
      · rw [hstored] at hnone
        cases hnone

/-- No other organization has the identifier that the event brings. -/
theorem unclaimed_of_located {object : List (String × Value)} {σ' : Session schema} {s' : Shared schema Env T}
    (h : Located organizationId s σ' s' subscription) (hkeeps : KeepsIdentifier object subscription changed)
    (hclaim : ∀ text, Value.get? object "subscription_id" = some (.str text) →
      ∀ row : Subscription, row ∈ s.db .subscriptions → row.externalSubscriptionId = some text →
        row.organizationId = organizationId) :
    Unclaimed σ' s'.db subscription changed := by
  rintro text htext hne ⟨row, hrow, hindex⟩
  have hrowText : Subscription.externalSubscriptionId row = some text := by
    simpa [uniqueValues] using hindex
  rcases hkeeps with hsame | hgiven
  · exact hne (hsame.symm.trans htext)
  · rcases h.others row hrow with rfl | ⟨hmem, hother⟩
    · exact hne hrowText
    · exact hother (hclaim text (hgiven text htext) row hmem hrowText)

end AtHand

/-! ### Processing -/

section Processing

variable {T : Type} {rt : Runtime} (tag : T) {webhookEventId : String} {at? : Option DateTime}
  {event : BillingWebhook} {object : List (String × Value)} {row : WebhookEvent} {organizationId : Uuid}
  {s : Shared schema Env T}

/-- The event that was received is stored in this row, and waits for its processing. -/
structure Awaiting (rt : Runtime) (webhookEventId : String) (event : BillingWebhook) (row : WebhookEvent)
    (db : Db) : Prop where
  bounded : event.Bounded
  stored : row ∈ db .webhookEvents
  named : rt.parseUuid webhookEventId = some row.id
  payload : row.payload = event.modelDump
  eventType : row.eventType = event.type
  waits : row.status ≠ .processed

variable (at?) in
theorem run_processWebhookEvent (h : Awaiting rt webhookEventId event row s.db) (hdb : s.db.Integral) :
    ∃ σ, σ.Sound s.db ∧ σ.writes = .empty ∧ σ.loaded .subscriptions = [] ∧
      (processWebhookEvent rt webhookEventId at?).run tag .empty s =
        (processRow rt at? row event).run tag σ s := by
  obtain ⟨σ, hσ, hw, hloaded, hrun⟩ := Prog.run_scalarForUpdate (E := Env) (X := Exn) (S := schema)
    (t := .webhookEvents) tag (hasEventId row.id) .empty s hdb (.of_writes_empty hdb rfl)
  have hfound : (Prog.matching (S := schema) .webhookEvents (hasEventId row.id) s.db).head? = some row :=
    List.head?_filter.trans (hdb.lookup_of_mem (t := .webhookEvents) h.stored)
  rw [Session.view_empty, hfound] at hrun
  refine ⟨σ, hσ, hw, hloaded .subscriptions (by decide), ?_⟩
  have hmodel : BillingWebhook.modelValidate row.payload = some event := by
    rw [h.payload, BillingWebhook.modelValidate_modelDump h.bounded]
  have hnamed := run_orRaise_some tag .empty s row.id (.valueError "badly formed UUID string")
  rw [← h.named] at hnamed
  rw [processWebhookEvent, Prog.bind_eq, Prog.run_bind_ok hnamed, Prog.bind_eq, Prog.run_bind_ok hrun,
    Prog.bind_eq]
  refine (Prog.run_bind_ok (run_orRaise_some tag σ s row webhookEventNotFound) _).trans ?_
  rw [if_neg h.waits, hmodel]
  rfl

/-- Without an error, the program marks the event and leaves the organization a subscription whose period
begins before it ends. -/
def Completes (row : WebhookEvent) (organizationId : Uuid) (program : App (WebhookEvent × Bool))
    (σ : Session schema) (s : Shared schema Env T) : Prop :=
  ∃ result σ' s', program.run tag σ s = (.ok result, σ', s') ∧
    (∃ processedAt, (σ'.view s'.db).lookup .webhookEvents row.id = some (row.processed processedAt)) ∧
    ∃ subscription, subscriptionOf organizationId (σ'.view s'.db) = some subscription ∧ subscription.Ordered

variable {tag} {α : Type} {first : App α} {value : α} {rest : α → App (WebhookEvent × Bool)}
  {σ σ' : Session schema} {s' : Shared schema Env T}

theorem completes_congr {program program' : App (WebhookEvent × Bool)}
    (h : program.run tag σ s = program'.run tag σ' s') :
    Completes tag row organizationId program σ s ↔ Completes tag row organizationId program' σ' s' := by
  rw [Completes, h, Completes]

theorem completes_bind_ok (h : first.run tag σ s = (.ok value, σ', s')) :
    Completes tag row organizationId (first >>= rest) σ s ↔
      Completes tag row organizationId (rest value) σ' s' :=
  completes_congr (Prog.run_bind_ok h rest)

theorem not_completes_bind {error : Exn} (h : first.run tag σ s = (.error error, σ', s')) :
    ¬Completes tag row organizationId (first >>= rest) σ s := by
  rintro ⟨_, _, _, hok, -⟩
  rw [Prog.bind_eq, Prog.run_bind_error h] at hok
  cases hok

/-- The time that the month of the processing is taken from. -/
def processingTime (at? : Option DateTime) (event : BillingWebhook) (object : List (String × Value))
    (organizationId : Uuid) (s : Shared schema Env T) : DateTime :=
  at?.getD (timeAt s (validationReads event object + creationReads organizationId s.db))

/-- When an event that was accepted is processed: the months that are needed exist, a subscription that
keeps its period has an ordered one, and a start that is null precedes the end. -/
structure Processable (rt : Runtime) (event : BillingWebhook) (object : List (String × Value))
    (organizationId : Uuid) (at? : Option DateTime) (s : Shared schema Env T) : Prop where
  month : (calendarPeriod (processingTime at? event object organizationId s)).isSome = true
  made : subscriptionOf organizationId s.db = none →
    (calendarPeriod (timeAt s (validationReads event object))).isSome = true
  kept : changesSubscription event.type = false →
    ∀ stored, subscriptionOf organizationId s.db = some stored → stored.Ordered
  validated : changesSubscription event.type = true → hasStart object = true → startValue object = .null →
    (endValue object = .null → timeAt s 0 < timeAt s 1) ∧
      ∀ last, endValue object ≠ .null → parseDatetime rt (endValue object) (timeAt s 1) = .ok last →
        timeAt s 0 < last
  applied : changesSubscription event.type = true → hasStart object = true → startValue object = .null →
    ∀ start stop, calendarPeriod (processingTime at? event object organizationId s) = some (start, stop) →
      ∀ last, endValue object ≠ .null → parseDatetime rt (endValue object) stop = .ok last → start < last

/-- The validation at the time of the processing passes again. -/
theorem accepted_again_iff {a b b' : DateTime} (a' : DateTime) (haccepted : Accepted rt event object a b)
    (hb : changesSubscription event.type = true → hasStart object = true → b ≤ b') :
    Accepted rt event object a' b' ↔
      (changesSubscription event.type = true → hasStart object = true → startValue object = .null →
        (endValue object = .null → a' < b') ∧
          ∀ last, endValue object ≠ .null → parseDatetime rt (endValue object) b' = .ok last → a' < last) := by
  refine ⟨fun h hchanges => (checked_later_iff (haccepted.checked hchanges) (hb hchanges)).mp
    (h.checked hchanges), fun h => { haccepted with checked := fun hchanges => ?_ }⟩
  exact (checked_later_iff (haccepted.checked hchanges) (hb hchanges)).mpr (h hchanges)

/-- What the month of the processing has to fit. -/
theorem leavesOrdered_iff {a b start stop : DateTime} {subscription : Subscription}
    (haccepted : Accepted rt event object a b) (hmonth : start < stop)
    (hb : changesSubscription event.type = true → hasStart object = true → b ≤ stop) :
    LeavesOrdered rt event object start stop subscription ↔
      (changesSubscription event.type = false → subscription.Ordered) ∧
      (changesSubscription event.type = true → hasStart object = true → startValue object = .null →
        ∀ last, endValue object ≠ .null → parseDatetime rt (endValue object) stop = .ok last →
          start < last) := by
  unfold LeavesOrdered
  by_cases hchanges : changesSubscription event.type = true
  · rw [if_pos hchanges, periodFor_month_iff (haccepted.checked hchanges) hmonth (hb hchanges)]
    exact ⟨fun h => ⟨fun hnot => absurd hchanges (by simp [hnot]), fun _ => h⟩, fun h => h.2 hchanges⟩
  · rw [if_neg hchanges]
    exact ⟨fun h => ⟨fun _ => h, fun hnot => absurd hnot hchanges⟩, fun h => h.1 (by simpa using hchanges)⟩

variable (tag σ) in
theorem run_validateWebhook_error (hfound : objectField event = some object)
    (h : ¬Accepted rt event object (timeAt s 0) (timeAt s 1)) :
    ∃ error σ' s', (validateWebhook rt event).run tag σ s = (.error error, σ', s') := by
  rcases hrun : (validateWebhook rt event).run tag σ s with ⟨outcome, σ', s'⟩
  cases outcome with
  | error error => exact ⟨error, σ', s', rfl⟩
  | ok other =>
    have haccepted : Accepted rt event other (timeAt s 0) (timeAt s 1) := accepted_iff.mp ⟨σ', s', hrun⟩
    obtain rfl := Option.some.inj (haccepted.found.symm.trans hfound)
    exact absurd haccepted h

theorem Flushed.ordered_iff {before changed after : Subscription} (h : Flushed before changed after) :
    after.Ordered ↔ changed.Ordered := by
  rcases h with ⟨rfl, rfl⟩ | ⟨_, updatedAt, rfl⟩ <;> exact Iff.rfl

/-- The end of the processing. -/
theorem completes_settleEvent_iff {subscription changed : Subscription}
    (h : AtHand organizationId σ s subscription) (hevent : s.db.lookup .webhookEvents row.id = some row)
    (hid : changed.id = subscription.id) (hof : changed.organizationId = subscription.organizationId)
    (hcreated : changed.createdAt = subscription.createdAt) (hfree : Unclaimed σ s.db subscription changed) :
    Completes tag row organizationId (settleEvent rt at? row organizationId subscription changed) σ s ↔
      changed.Ordered := by
  obtain ⟨result, after, processedAt, σ', s', hrun, hdb, hσ, hmarked, hafter, hafterOf, hflushed⟩ :=
    run_settleEvent tag rt at? h hevent hid hof hcreated hfree
  have hstored : subscriptionOf organizationId (σ'.view s'.db) = some after :=
    subscriptionOf_of_mem (hσ.integral hdb) (Store.lookup_mem hafter) (by simp [isSubscriptionOf, hafterOf])
  rw [Completes, hrun, ← hflushed.ordered_iff]
  constructor
  · rintro ⟨_, _, _, hrun', -, subscription, hfound, hordered⟩
    cases hrun'
    rwa [Option.some.inj (hstored.symm.trans hfound)]
  · exact fun hordered => ⟨_, _, _, rfl, ⟨processedAt, hmarked⟩, after, hstored, hordered⟩

/-- The processing of a located subscription. -/
theorem completes_applyRow_iff {a b : DateTime} {s₃ : Shared schema Env T} {σ₃ : Session schema}
    {subscription : Subscription} (haccepted : Accepted rt event object a b) (htype : row.eventType = event.type)
    (hevent : s.db.lookup .webhookEvents row.id = some row)
    (h : AtHand organizationId σ₃ s₃ subscription) (hlocated : Located organizationId s σ₃ s₃ subscription)
    (hclaim : ∀ text, Value.get? object "subscription_id" = some (.str text) →
      ∀ row : Subscription, row ∈ s.db .subscriptions → row.externalSubscriptionId = some text →
        row.organizationId = organizationId) :
    Completes tag row organizationId (applyRow rt at? row object organizationId subscription) σ₃ s₃ ↔
      ∃ start stop, calendarPeriod (at?.getD (timeAt s₃ 0)) = some (start, stop) ∧
        LeavesOrdered rt event object start stop subscription := by
  obtain ⟨reads, hnow⟩ := run_nowOr tag at? σ₃ s₃
  rw [applyRow, completes_bind_ok hnow]
  cases hperiod : calendarPeriod (at?.getD (timeAt s₃ 0)) with
  | none =>
    refine iff_of_false (not_completes_bind (run_orRaise_none tag σ₃ _ yearOutOfRange)) ?_
    rintro ⟨_, _, hsome, -⟩
    cases hsome
  | some period =>
    obtain ⟨start, stop⟩ := period
    have hunique : (∃ start' stop', some (start, stop) = some (start', stop') ∧
        LeavesOrdered rt event object start' stop' subscription) ↔
        LeavesOrdered rt event object start stop subscription :=
      ⟨by rintro ⟨_, _, hsame, hleaves⟩; cases hsame; exact hleaves,
        fun hleaves => ⟨start, stop, rfl, hleaves⟩⟩
    rw [completes_bind_ok (run_orRaise_some tag σ₃ _ (start, stop) yearOutOfRange), hunique, htype]
    show Completes tag row organizationId (do
      let changed ← ofExcept (applyEvent rt event.type object start stop subscription)
      settleEvent rt at? row organizationId subscription changed) σ₃ (readClock reads s₃) ↔ _
    rcases applyEvent_cases start stop haccepted subscription with
      ⟨changed, happly, hkeeps, hordered⟩ | ⟨error, happly, hnot⟩
    · obtain ⟨hid, hof, hcreated⟩ := applyEvent_keys happly
      have hfree := unclaimed_of_located hlocated hkeeps hclaim
      rw [happly, ← hordered, completes_bind_ok (show (ofExcept (.ok changed)).run tag σ₃
        (readClock reads s₃) = (.ok changed, σ₃, readClock reads s₃) from rfl)]
      have hread : AtHand organizationId σ₃ (readClock reads s₃) subscription :=
        ⟨h.sound, h.integral, h.current, h.of, h.organization, h.fresh, h.events⟩
      have hdb : (readClock reads s₃).db = s.db := hlocated.db
      exact completes_settleEvent_iff hread (by rw [hdb, hevent]) hid hof hcreated hfree
    · rw [happly]
      exact iff_of_false (not_completes_bind (show (ofExcept (.error error)).run tag σ₃
        (readClock reads s₃) = (.error error, σ₃, readClock reads s₃) from rfl)) hnot

/-- **An accepted event is processed** later on if and only if it is processable then. -/
theorem processes_iff {T₁ : Type} {tag₁ : T₁} {σ₁ σ₁' : Session schema}
    {s₁ s₁' : Shared schema Env T₁}
    (hreceived : (validateWebhook rt event).run tag₁ σ₁ s₁ = (.ok object, σ₁', s₁'))
    (hlater : s₁'.env.Onward s.env) (hmono : Monotone s.env.clock)
    (hat : ∀ t ∈ at?, ∀ reading < validationReads event object, timeAt s₁ reading ≤ t)
    (hdb : s.db.Integral) (hfresh : ∀ t id, s.ids.Holds id → s.db.lookup t id = none)
    (hrow : Awaiting rt webhookEventId event row s.db)
    (horganization : organizationField rt object = some organizationId)
    (hexists : organizationExists organizationId s.db = true)
    (hclaim : ∀ text, Value.get? object "subscription_id" = some (.str text) →
      ∀ row : Subscription, row ∈ s.db .subscriptions → row.externalSubscriptionId = some text →
        row.organizationId = organizationId) :
    Completes tag row organizationId (processWebhookEvent rt webhookEventId at?) .empty s ↔
      Processable rt event object organizationId at? s := by
  have haccepted : Accepted rt event object (timeAt s₁ 0) (timeAt s₁ 1) := accepted_iff.mp ⟨_, _, hreceived⟩
  have hreads : s₁' = readClock (validationReads event object) s₁ := by
    rw [run_validateWebhook _ haccepted] at hreceived
    cases hreceived
    rfl
  -- a reading of the receipt is no later than one of the processing
  have hearlier : ∀ n, changesSubscription event.type = true → hasStart object = true →
      timeAt s₁ 1 ≤ timeAt s n := by
    intro n hchanges hhas
    have hticks := hlater.ticks
    have hclock : s₁.env.clock = s.env.clock := by rw [hlater.clock, hreads]; rfl
    rw [hreads, validationReads, if_pos hchanges, periodReads, if_pos hhas] at hticks
    change s₁.env.ticks + 2 ≤ s.env.ticks at hticks
    rw [timeAt, hclock]
    exact hmono (by omega)
  obtain ⟨σ, hσ, hw, hloaded, hrun⟩ := run_processWebhookEvent tag at? hrow hdb
  rw [completes_congr hrun, processRow]
  have hagain := accepted_again_iff (timeAt s 0) haccepted (hearlier 1)
  by_cases hvalid : Accepted rt event object (timeAt s 0) (timeAt s 1)
  · let s₂ := readClock (validationReads event object) s
    rw [completes_bind_ok (run_validateWebhook _ hvalid), horganization,
      completes_bind_ok (run_orRaise_some tag σ s₂ organizationId (.valueError "badly formed UUID string"))]
    rcases run_lockedSubscription tag (s := s₂) hdb hσ hw hloaded hexists hfresh with
      ⟨subscription, σ₃, s₃, hlock, hhand, hlocated⟩ | ⟨hnone, hmonth, error, σ₃, s₃, hlock⟩
    · have hevent : s₂.db.lookup .webhookEvents row.id = some row :=
        hdb.lookup_of_mem (t := .webhookEvents) hrow.stored
      have htime : at?.getD (timeAt s₃ 0) = processingTime at? event object organizationId s := by
        rw [hlocated.time 0, processingTime, timeAt, timeAt]
        change at?.getD (s.env.clock (s.env.ticks + validationReads event object + _)) = _
        rw [Nat.add_zero, Nat.add_assoc]
        rfl
      have hmonth : ∀ start stop, calendarPeriod (processingTime at? event object organizationId s) =
          some (start, stop) → start < stop ∧
            (changesSubscription event.type = true → hasStart object = true → timeAt s₁ 1 ≤ stop) := by
        intro start stop hperiod
        obtain ⟨hfirst, hlast⟩ := calendarPeriod_contains hperiod
        refine ⟨hfirst.trans_lt hlast, fun hchanges hhas => (le_of_lt hlast).trans' ?_⟩
        unfold processingTime
        cases hgiven : at? with
        | none => exact hearlier _ hchanges hhas
        | some t => exact hat t hgiven 1 (by rw [validationReads, if_pos hchanges, periodReads, if_pos hhas]; omega)
      rw [completes_bind_ok hlock, completes_applyRow_iff hvalid hrow.eventType hevent hhand hlocated hclaim, htime]
      constructor
      · rintro ⟨start, stop, hperiod, hleaves⟩
        obtain ⟨hlt, hb⟩ := hmonth start stop hperiod
        obtain ⟨hkept, happlied⟩ := (leavesOrdered_iff haccepted hlt hb).mp hleaves
        refine ⟨by rw [hperiod]; rfl, fun hnone => (hlocated.made hnone).2, fun hchanges stored hstored => ?_,
          hagain.mp hvalid, fun hchanges hhas hnull start' stop' hperiod' => ?_⟩
        · rw [← hlocated.stored stored hstored]
          exact hkept hchanges
        · obtain ⟨rfl, rfl⟩ := Prod.mk.inj (Option.some.inj (hperiod.symm.trans hperiod'))
          exact happlied hchanges hhas hnull
      · intro h
        obtain ⟨⟨start, stop⟩, hperiod⟩ := Option.isSome_iff_exists.mp h.month
        obtain ⟨hlt, hb⟩ := hmonth start stop hperiod
        refine ⟨start, stop, hperiod, (leavesOrdered_iff haccepted hlt hb).mpr ⟨fun hchanges => ?_,
          fun hchanges hhas hnull => h.applied hchanges hhas hnull start stop hperiod⟩⟩
        cases hstored : subscriptionOf organizationId s.db with
        | none => exact (hlocated.made hstored).1
        | some stored =>
          rw [hlocated.stored stored hstored]
          exact h.kept hchanges stored hstored
    · refine iff_of_false (not_completes_bind hlock) fun h => ?_
      have hmade : (calendarPeriod (timeAt s₂ 0)).isSome = true := h.made hnone
      rw [hmonth] at hmade
      cases hmade
  · obtain ⟨error, σ₂, s₂, hfailed⟩ := run_validateWebhook_error tag σ haccepted.found hvalid
    exact iff_of_false (not_completes_bind hfailed) fun h => hvalid (hagain.mpr h.validated)

end Processing

namespace Reference

/-- A subscription whose boundaries are both null. -/
def openEndedObject : List (String × Value) :=
  [("organization_id", .str (uuidText 15)), ("plan", .str "PRO"), ("current_period_start", .null),
    ("current_period_end", .null)]

def openEnded : BillingWebhook := ⟨"evt-1", "subscription.updated", [("object", .dict openEndedObject)]⟩

/-- A clock that goes forward by a day at each reading and then stops. -/
def stopping (last : Fin 28) (n : Nat) : DateTime := noon ⟨min n last, by omega⟩

theorem stopping_monotone (last : Fin 28) : Monotone (stopping last) := fun _ _ h => noon_le (by simp; omega)

def awaitingSubscriber : Tables :=
  { organizations := [organization 15], subscriptions := [subscription 5 15 .free 0 20],
    webhookEvents := [pendingEvent 21 openEnded] }

/-- The clock was read twice when the event was received. -/
def received (last : Fin 28) : Shared schema Env Unit := readClock 2 (shared Unit (stopping last) awaitingSubscriber)

theorem openEnded_completes_iff :
    (Completes () (pendingEvent 21 openEnded) 15 (processWebhookEvent runtime (uuidText 21)) .empty (received 2) ↔
      Processable runtime openEnded openEndedObject 15 none (received 2)) ∧
    ¬Processable runtime openEnded openEndedObject 15 none (received 2) := by
  have haccepted : Accepted runtime openEnded openEndedObject (stopping 2 0) (stopping 2 1) :=
    ⟨by decide, rfl, by decide +kernel, fun _ => ⟨by decide +kernel, by decide, by decide,
      fun _ => ⟨_, _, rfl, rfl, noon_lt (by decide)⟩, by decide, by decide⟩⟩
  have hdb : awaitingSubscriber.db.Integral := ValidDb.integral (by decide +kernel)
  have hfresh : ∀ t id, ids.Holds id → awaitingSubscriber.db.lookup t id = none := lookup_of_holds (by decide)
  refine ⟨processes_iff (run_validateWebhook (σ := .empty) (s := shared Unit (stopping 2) {}) () haccepted)
    ⟨rfl, by decide, rfl, le_rfl⟩ (stopping_monotone 2) nofun hdb hfresh
    ⟨by decide, List.mem_cons_self, parseUuid_uuidText 21, rfl, rfl, by decide⟩ (parseUuid_uuidText 15)
    (by decide) nofun, fun h => ?_⟩
  -- both boundaries are read when the clock has stopped
  exact absurd ((h.validated (by decide) (by decide) rfl).1 rfl) (lt_irrefl _)

end Reference

end TenantForge
