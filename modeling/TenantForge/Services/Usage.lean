import TenantForge.App
import TenantForge.Float
/-!
# Usage metering (`app/services/usage.py`)

Times are UTC already, so `_as_utc` changes nothing and is left out.
-/

namespace TenantForge

open Gregorian ReadCommitted

def planQuotas : Plan → Int
  | .free => 1000
  | .pro => 50000
  | .business => 500000

def apiRequestsMetric : String := "api_requests"

structure UsageSnapshot where
  plan : Plan
  used : Int
  limit : Int
  remaining : Int
  periodStart : DateTime
  periodEnd : DateTime

/-- What `value.replace(year=...)` raises past year 9999. -/
def yearOutOfRange : Exn := .valueError "year 10000 is out of range"

/-- `calendar_period(current)`; `none` when `add_month` raises. -/
def calendarPeriod (current : DateTime) : Option (DateTime × DateTime) :=
  current.startOfMonth.addMonth.map fun stop => (current.startOfMonth, stop)

/-- The `while current >= end` loop. The first argument bounds its iterations; `monthsLeft` of them
are never too few, as `rollPeriod_eq` shows. -/
def rollPeriodFor (current : DateTime) : Nat → DateTime → DateTime → Option (DateTime × DateTime)
  | 0, _, _ => none
  | n + 1, start, stop =>
    if stop ≤ current then stop.addMonth.bind fun next => rollPeriodFor current n stop next
    else some (start, stop)

def rollPeriod (current start stop : DateTime) : Option (DateTime × DateTime) :=
  rollPeriodFor current (stop.monthsLeft + 1) start stop

theorem rollPeriodFor_succ (current : DateTime) (n : Nat) (start stop : DateTime) :
    rollPeriodFor current (n + 1) start stop =
      if stop ≤ current then stop.addMonth.bind fun next => rollPeriodFor current n stop next
      else some (start, stop) := rfl

/-- One turn of the loop. -/
theorem rollPeriod_eq (current start stop : DateTime) :
    rollPeriod current start stop =
      if stop ≤ current then stop.addMonth.bind fun next => rollPeriod current stop next
      else some (start, stop) := by
  have hnext : ∀ next, stop.addMonth = some next →
      rollPeriodFor current stop.monthsLeft stop next = rollPeriod current stop next :=
    fun next h => congrArg (rollPeriodFor current · stop next) (DateTime.addMonth_spec h).2.symm
  refine (rollPeriodFor_succ current stop.monthsLeft start stop).trans ?_
  cases hadd : stop.addMonth with
  | none => simp only [Option.bind_none]
  | some next => rw [Option.bind_some, Option.bind_some, hnext next hadd]

/-- `subscription_period(subscription, current)`; `none` when `add_month` raises. -/
def subscriptionPeriod (subscription : Option Subscription) (current : DateTime) :
    Option (DateTime × DateTime) :=
  match subscription with
  | none => calendarPeriod current
  | some subscription =>
    let start := subscription.currentPeriodStart
    let stop := subscription.currentPeriodEnd
    if stop ≤ start then calendarPeriod current
    else if current < start then some (start, stop)
    else rollPeriod current start stop

/-- The quantities of an organization's events of one metric in a period, added up. -/
def usageIn (organizationId : Uuid) (metric : String) (periodStart periodEnd : DateTime) (db : Db) :
    Int :=
  (((db .usageEvents).filter fun (event : UsageEvent) =>
    event.organizationId = organizationId ∧ event.metric = metric ∧
      periodStart ≤ event.createdAt ∧ event.createdAt < periodEnd).map UsageEvent.quantity).sum

def usageTotal (organizationId : Uuid) (metric : String) (periodStart periodEnd : DateTime) :
    App Int :=
  Prog.query (usageIn organizationId metric periodStart periodEnd)

/-- `select(Organization.id).where(Organization.id == organization_id)`. -/
def organizationExists (organizationId : Uuid) (db : Db) : Bool :=
  (db .organizations).any fun (row : Organization) => row.id = organizationId

def isSubscriptionOf (organizationId : Uuid) (row : Subscription) : Bool :=
  row.organizationId = organizationId

def organizationNotFound : Exn := notFoundError "organization_not_found" "Organization not found"

/-- `subscription.plan if subscription is not None else Plan.FREE`. -/
def planOf (subscription : Option Subscription) : Plan :=
  match subscription with
  | some subscription => subscription.plan
  | none => .free

def getUsageSummary (organizationId : Uuid) (metric : String := apiRequestsMetric)
    (at? : Option DateTime := none) : App UsageSnapshot := do
  let found ← Prog.query (organizationExists organizationId)
  raiseIf (found = false) organizationNotFound
  let subscription ← Prog.scalar (S := schema) .subscriptions (isSubscriptionOf organizationId)
  let current ← nowOr at?
  let (periodStart, periodEnd) ← orRaise (subscriptionPeriod subscription current) yearOutOfRange
  let used ← usageTotal organizationId metric periodStart periodEnd
  let limit := planQuotas (planOf subscription)
  pure { plan := planOf subscription, used, limit, remaining := max 0 (limit - used),
         periodStart, periodEnd }

/-- `timedelta.total_seconds()`: the microseconds by a million, as a float. -/
def totalSeconds (micros : Int) : Rat := PyFloat.rounded (micros / 1000000)

/-- The seconds that a rejection tells the caller to wait. -/
def retryAfter (current periodEnd : DateTime) : Int :=
  max 1 (PyFloat.trunc (totalSeconds (current.microsUntil periodEnd)))

def quotaRejection (metric : String) (current periodEnd : DateTime) : Exn :=
  .app ⟨429, "quota_exceeded", "Monthly " ++ metric ++ " quota exceeded",
    [("Retry-After", toString (retryAfter current periodEnd))]⟩

/-- The rejection of a quantity that the plan has no room for. -/
def quotaExceeded (metric : String) (at? : Option DateTime) (periodEnd : DateTime) : App Unit := do
  let current ← nowOr at?
  throw (quotaRejection metric current periodEnd)

def isOrganization (organizationId : Uuid) (row : Organization) : Bool := row.id = organizationId

/-- What `record_usage` does once it has added up the usage of the period. -/
def chargeUsage (organizationId : Uuid) (metric : String) (quantity : Int) (at? : Option DateTime)
    (used limit : Int) (periodEnd : DateTime) : App UsageEvent := do
  runIf (used + quantity > limit) (quotaExceeded metric at? periodEnd)
  let createdAt ← nowOr at?
  let id ← uuid4
  let event : UsageEvent := { id, organizationId, metric, quantity, createdAt }
  addRow .usageEvents event
  pure event

def recordUsage (organizationId : Uuid) (metric : String := apiRequestsMetric)
    (quantity : Int := 1) (at? : Option DateTime := none) : App UsageEvent := do
  raiseIf (quantity < 1) (.valueError "quantity must be positive")
  let organization ← Prog.scalarForUpdate (S := schema) .organizations (isOrganization organizationId)
  let _ ← orRaise organization organizationNotFound
  let subscription ← Prog.scalar (S := schema) .subscriptions (isSubscriptionOf organizationId)
  let current ← nowOr at?
  let (periodStart, periodEnd) ← orRaise (subscriptionPeriod subscription current) yearOutOfRange
  let used ← usageTotal organizationId metric periodStart periodEnd
  chargeUsage organizationId metric quantity at? used (planQuotas (planOf subscription)) periodEnd

end TenantForge
