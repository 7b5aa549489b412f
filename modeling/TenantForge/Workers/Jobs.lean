import TenantForge.Infrastructure.Queue
import TenantForge.Services.Webhooks
/-!
# Background jobs (`app/workers/jobs.py`)
-/

namespace TenantForge

open Gregorian ReadCommitted

variable (rt : Runtime)

abbrev JobHandler := List (String × Value) → App Unit

def required (payload : List (String × Value)) (key : String) : App Value :=
  match Value.get? payload key with
  | none | some .null | some (.str "") => throw (.valueError ("job payload is missing " ++ key))
  | some value => pure value

def sendInvitationEmail : JobHandler := fun payload => do
  let _ ← required payload "email"
  let _ ← required payload "organization_id"
  let _ ← required payload "invitation_id"

/-- The second transaction marks the event after the first one was rolled back. -/
def processBillingWebhookJob : JobHandler := fun payload => do
  let value ← required payload "webhook_event_id"
  let eventId := rt.str value
  try
    sessionScope do
      let _ ← processWebhookEvent rt eventId
      Prog.commitTransaction
  catch exc =>
    sessionScope do
      markWebhookFailed rt eventId
      Prog.commitTransaction
    throw exc

def parseTime (value : Value) (fallback : DateTime) : Except Exn DateTime :=
  match value with
  | .null => .ok fallback
  | .str text =>
    match rt.fromIsoFormat (replaceZulu text) with
    | .error error => .error error.exn
    | .ok (.naive civil) => .ok civil
    | .ok (.aware civil offset) => toUtc civil offset
  | _ => .error (.valueError "period timestamp must be an ISO-8601 string")

/-- The quantity that the rollup reports in its log entry. -/
def usageRollup (payload : List (String × Value)) : App Int := do
  let value ← required payload "organization_id"
  let organizationId ← orRaise (rt.parseUuid (rt.str value))
    (.valueError "badly formed UUID string")
  let metric := rt.str ((Value.get? payload "metric").getD (.str apiRequestsMetric))
  let current ← now
  let periodEnd ← ofExcept (parseTime rt (getOrNull payload "period_end") current)
  let periodStart ← ofExcept
    (parseTime rt (getOrNull payload "period_start") periodEnd.startOfMonth)
  raiseIf (periodEnd ≤ periodStart) (.valueError "period_end must be after period_start")
  sessionScope (usageTotal organizationId metric periodStart periodEnd)

def writeUsageRollup : JobHandler := fun payload => do
  let _ ← usageRollup rt payload

def buildHandlers (type : String) : Option JobHandler :=
  if type = "send_invitation_email" then some sendInvitationEmail
  else if type = "process_billing_webhook" then some (processBillingWebhookJob rt)
  else if type = "write_usage_rollup" then some (writeUsageRollup rt)
  else none

end TenantForge
