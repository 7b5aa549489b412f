import TenantForge.Services.Audit
import TenantForge.Services.Usage
/-!
# Subscriptions (`app/services/billing.py`)
-/

namespace TenantForge

open Gregorian ReadCommitted

variable (rt : Runtime)

def createDefaultSubscription (organizationId : Uuid) (at? : Option DateTime := none) :
    App Subscription := do
  let current ← nowOr at?
  let (periodStart, periodEnd) ← orRaise (calendarPeriod current) yearOutOfRange
  let id ← uuid4
  let createdAt ← databaseNow
  let subscription : Subscription := {
    id, organizationId, plan := .free, status := .active,
    externalCustomerId := none, externalSubscriptionId := none,
    currentPeriodStart := periodStart, currentPeriodEnd := periodEnd,
    createdAt, updatedAt := createdAt }
  addRow .subscriptions subscription
  pure subscription

def getSubscription (organizationId : Uuid) : App Subscription := do
  let subscription ← Prog.scalar (S := schema) .subscriptions (isSubscriptionOf organizationId)
  orRaise subscription (notFoundError "subscription_not_found" "Subscription not found")

def getOrCreateSubscription (organizationId : Uuid) (at? : Option DateTime := none) :
    App Subscription := do
  let organization ← Prog.scalarForUpdate (S := schema) .organizations (isOrganization organizationId)
  let _ ← orRaise organization organizationNotFound
  let subscription ← Prog.scalar (S := schema) .subscriptions (isSubscriptionOf organizationId)
  match subscription with
  | some subscription => pure subscription
  | none => createDefaultSubscription organizationId at?

/-- A row after the flush of a changed subscription object. -/
def Subscription.merge (loaded changed row : Subscription) (updatedAt : DateTime) : Subscription :=
  { row with
    plan := assign loaded.plan changed.plan row.plan
    status := assign loaded.status changed.status row.status
    externalCustomerId :=
      assign loaded.externalCustomerId changed.externalCustomerId row.externalCustomerId
    externalSubscriptionId :=
      assign loaded.externalSubscriptionId changed.externalSubscriptionId row.externalSubscriptionId
    currentPeriodStart :=
      assign loaded.currentPeriodStart changed.currentPeriodStart row.currentPeriodStart
    currentPeriodEnd := assign loaded.currentPeriodEnd changed.currentPeriodEnd row.currentPeriodEnd
    updatedAt }

/-- The flush of a subscription object; an object without net changes sends nothing. -/
def flushSubscription (loaded changed : Subscription) : App Unit :=
  runIf (changed ≠ loaded) do
    let updatedAt ← databaseNow
    flushUpdate .subscriptions loaded.id fun row => loaded.merge changed row updatedAt

def changePlan (organizationId : Uuid) (plan : Plan) (actorUserId : Uuid)
    (ipAddress : Option String := none) (at? : Option DateTime := none) : App Subscription := do
  let subscription ← getOrCreateSubscription organizationId at?
  let current ← nowOr at?
  let (periodStart, periodEnd) ← orRaise (subscriptionPeriod (some subscription) current)
    yearOutOfRange
  flushSubscription subscription { subscription with
    plan, status := .active, currentPeriodStart := periodStart, currentPeriodEnd := periodEnd }
  runIf (subscription.plan ≠ plan) do
    let _ ← writeAudit organizationId (some actorUserId) "subscription.changed" "subscription"
      (rt.uuidText subscription.id)
      [("from_plan", .str subscription.plan.value), ("to_plan", .str plan.value)] ipAddress
  refresh .subscriptions subscription.id

end TenantForge
