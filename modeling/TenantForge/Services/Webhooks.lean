import TenantForge.Services.Billing
/-!
# Billing webhooks (`app/services/webhooks.py`, `app/schemas/billing.py`)
-/

namespace TenantForge

open Gregorian ReadCommitted

variable (rt : Runtime)

/-- The validated body of a delivery. -/
structure BillingWebhook where
  id : String
  type : String
  data : List (String × Value)

namespace BillingWebhook

/-- The length limits of the fields. -/
def Bounded (event : BillingWebhook) : Prop :=
  (1 ≤ event.id.length ∧ event.id.length ≤ 160) ∧ 1 ≤ event.type.length ∧ event.type.length ≤ 80

instance (event : BillingWebhook) : Decidable event.Bounded :=
  inferInstanceAs (Decidable (_ ∧ _ ∧ _))

/-- `event.model_dump(mode="json")` -/
def modelDump (event : BillingWebhook) : List (String × Value) :=
  [("id", .str event.id), ("type", .str event.type), ("data", .dict event.data)]

/-- `BillingWebhook.model_validate(payload)`; `none` is a `ValidationError`. Other fields are
forbidden. -/
def modelValidate (payload : List (String × Value)) : Option BillingWebhook :=
  match Value.get? payload "id", Value.get? payload "type", Value.get? payload "data" with
  | some (.str id), some (.str type), some (.dict data) =>
    if (payload.all fun item => item.1 ∈ ["id", "type", "data"]) ∧ (mk id type data).Bounded then
      some ⟨id, type, data⟩
    else none
  | _, _, _ => none

theorem modelValidate_modelDump {event : BillingWebhook} (h : event.Bounded) :
    modelValidate event.modelDump = some event := by
  simp [modelValidate, modelDump, Value.get?, h]

end BillingWebhook

def supportedEvents : List String :=
  ["subscription.created", "subscription.updated", "subscription.cancelled", "invoice.payment_failed"]

/-- The events that carry a plan. -/
def changesSubscription (eventType : String) : Bool :=
  eventType = "subscription.created" || eventType = "subscription.updated"

def provider : String := "stripe-like"

def invalidWebhookEvent (message : String) : Exn := appError 400 "invalid_webhook_event" message

/-- `value.replace("Z", "+00:00")` -/
def replaceZulu (text : String) : String :=
  String.ofList (text.toList.flatMap fun c => if c = 'Z' then "+00:00".toList else [c])

/-- `parsed.astimezone(UTC)`; an offset is less than a day. -/
def toUtc (civil : DateTime) (offsetMicros : Int) : Except Exn DateTime :=
  let micros := (civil.micro : Int) - offsetMicros
  let shifted : Option DateTime :=
    if micros < 0 then civil.previousDay.bind fun day =>
      DateTime.of? day.year day.month day.day (micros + microsPerDay).toNat
    else if (microsPerDay : Int) ≤ micros then civil.nextDay.bind fun day =>
      DateTime.of? day.year day.month day.day (micros - microsPerDay).toNat
    else DateTime.of? civil.year civil.month civil.day micros.toNat
  match shifted with
  | some t => .ok t
  | none => .error .overflowError

def parseDatetime (value : Value) (fallback : DateTime) : Except Exn DateTime :=
  match value with
  | .null => .ok fallback
  -- a boolean is an integer
  | .bool _ | .int _ | .float _ => (rt.fromTimestamp value).mapError TimeError.exn
  | .str text =>
    match rt.fromIsoFormat (replaceZulu text) with
    | .error error => .error error.exn
    | .ok (.naive civil) => .ok civil
    | .ok (.aware civil offset) => toUtc civil offset
  | .list _ | .dict _ => .error (.valueError "invalid billing period timestamp")

/-- `event_object.get(key)`, where a missing key reads as `None`. -/
def getOrNull (object : List (String × Value)) (key : String) : Value :=
  (Value.get? object key).getD .null

/-- `Plan(str(event_object["plan"]).upper())` -/
def planField (object : List (String × Value)) : Option Plan :=
  (Value.get? object "plan").bind fun value => Plan.ofValue? (rt.upper (rt.str value))

/-- `SubscriptionStatus(str(event_object.get("status", "ACTIVE")).upper())` -/
def statusField (object : List (String × Value)) : Option SubscriptionStatus :=
  SubscriptionStatus.ofValue?
    (rt.upper (rt.str ((Value.get? object "status").getD (.str SubscriptionStatus.active.value))))

/-- A null or a text of 1 to 120 characters. -/
def validIdentifier : Value → Bool
  | .null => true
  | .str text => 1 ≤ text.length && text.length ≤ 120
  | _ => false

/-- `uuid.UUID(str(event_object["organization_id"]))` -/
def organizationField (object : List (String × Value)) : Option Uuid :=
  (Value.get? object "organization_id").bind fun value => rt.parseUuid (rt.str value)

def hasStart (object : List (String × Value)) : Bool := Value.has object "current_period_start"

def hasEnd (object : List (String × Value)) : Bool := Value.has object "current_period_end"

def startValue (object : List (String × Value)) : Value := getOrNull object "current_period_start"

def endValue (object : List (String × Value)) : Value := getOrNull object "current_period_end"

def invalidStatusOrPeriod : Exn :=
  invalidWebhookEvent "Webhook subscription status or period is invalid"

/-- The check of a given period. A null boundary stands for the current time, and the clock is read for each
boundary. -/
def validatePeriod (object : List (String × Value)) : App Unit := do
  let startNow ← now
  let periodStart ← orRaise (parseDatetime rt (startValue object) startNow).toOption invalidStatusOrPeriod
  let endNow ← now
  let periodEnd ← orRaise (parseDatetime rt (endValue object) endNow).toOption invalidStatusOrPeriod
  raiseIf (periodEnd ≤ periodStart) invalidStatusOrPeriod

/-- The checks of a created or updated subscription. -/
def validateSubscription (object : List (String × Value)) : App Unit := do
  raiseIf ((planField rt object).isNone = true) (invalidWebhookEvent "Webhook plan is invalid")
  raiseIf (Value.has object "status" = true ∧ (statusField rt object).isNone = true)
    invalidStatusOrPeriod
  raiseIf (hasStart object ≠ hasEnd object) invalidStatusOrPeriod
  runIf (hasStart object = true) (validatePeriod rt object)
  raiseIf (validIdentifier (getOrNull object "customer_id") = false)
    (invalidWebhookEvent "Webhook customer_id is invalid")
  raiseIf (validIdentifier (getOrNull object "subscription_id") = false)
    (invalidWebhookEvent "Webhook subscription_id is invalid")

def objectField (event : BillingWebhook) : Option (List (String × Value)) :=
  match Value.get? event.data "object" with
  | some (.dict object) => some object
  | _ => none

def validateWebhook (event : BillingWebhook) : App (List (String × Value)) := do
  raiseIf (event.type ∉ supportedEvents)
    (appError 400 "unsupported_webhook_event" "Unsupported webhook event")
  let object ← orRaise (objectField event)
    (invalidWebhookEvent "Webhook data.object must be an object")
  raiseIf ((organizationField rt object).isNone = true)
    (invalidWebhookEvent "Webhook organization_id is invalid")
  runIf (changesSubscription event.type = true) (validateSubscription rt object)
  pure object

/-! ### Storing -/

def isExternalEvent (externalEventId : String) (row : WebhookEvent) : Bool :=
  row.provider = provider && row.externalEventId = externalEventId

/-- The insert runs in a savepoint: a violated constraint undoes the insert alone. -/
def storeWebhookEvent (event : BillingWebhook) : App (WebhookEvent × Bool) := do
  let existing ← Prog.scalar (S := schema) .webhookEvents (isExternalEvent event.id)
  match existing with
  | some existing => pure (existing, false)
  | none => do
    let id ← uuid4
    let receivedAt ← databaseNow
    let webhook : WebhookEvent := {
      id, provider, externalEventId := event.id, eventType := event.type,
      payload := event.modelDump, status := .pending, receivedAt, processedAt := none }
    let inserted ← Prog.insertRow (S := schema) (t := .webhookEvents) webhook
    if inserted then pure (webhook, true)
    else do
      let existing ← Prog.scalar (S := schema) .webhookEvents (isExternalEvent event.id)
      let existing ← orRaise existing .integrityError
      pure (existing, false)

/-! ### Processing -/

def lockedSubscription (organizationId : Uuid) : App Subscription := do
  let organization ← Prog.scalarForUpdate (S := schema) .organizations (isOrganization organizationId)
  let _ ← orRaise organization (.valueError "webhook organization does not exist")
  let subscription ← Prog.scalarForUpdate (S := schema) .subscriptions
    (isSubscriptionOf organizationId)
  match subscription with
  | some subscription => pure subscription
  | none => createDefaultSubscription organizationId

/-- The column value of an identifier field; the database driver takes texts and nulls only. -/
def identifierColumn (object : List (String × Value)) (key : String) (current : Option String) :
    Except Exn (Option String) :=
  match Value.get? object key with
  | none => .ok current
  | some .null => .ok none
  | some (.str text) => .ok (some text)
  | some _ => .error .databaseError

/-- The subscription object after a created or updated event. -/
def applyObject (object : List (String × Value)) (periodStart periodEnd : DateTime)
    (subscription : Subscription) : Except Exn Subscription := do
  let some plan := planField rt object | .error (.valueError "not a valid Plan")
  let some status := statusField rt object | .error (.valueError "not a valid SubscriptionStatus")
  let customerId ← identifierColumn object "customer_id" subscription.externalCustomerId
  let subscriptionId ← identifierColumn object "subscription_id" subscription.externalSubscriptionId
  let start ← parseDatetime rt (startValue object) periodStart
  let stop ← parseDatetime rt (endValue object) periodEnd
  if stop ≤ start then .error (.valueError "billing period end must be after its start")
  else .ok { subscription with
    plan, status, externalCustomerId := customerId, externalSubscriptionId := subscriptionId,
    currentPeriodStart := start, currentPeriodEnd := stop }

/-- The subscription object after an event. -/
def applyEvent (eventType : String) (object : List (String × Value))
    (periodStart periodEnd : DateTime) (subscription : Subscription) : Except Exn Subscription :=
  if changesSubscription eventType then applyObject rt object periodStart periodEnd subscription
  else if eventType = "subscription.cancelled" then .ok { subscription with status := .canceled }
  else if eventType = "invoice.payment_failed" then .ok { subscription with status := .pastDue }
  else .ok subscription

/-- The entry that a processed event leaves in the audit log. -/
def webhookDetails (event : WebhookEvent) (before after : Subscription) : List (String × Value) :=
  [("event_id", .str event.externalEventId), ("event_type", .str event.eventType),
    ("from_plan", .str before.plan.value), ("to_plan", .str after.plan.value),
    ("from_status", .str before.status.value), ("to_status", .str after.status.value)]

def webhookEventNotFound : Exn := notFoundError "webhook_event_not_found" "Webhook event not found"

def hasEventId (id : Uuid) (row : WebhookEvent) : Bool := row.id = id

/-- The end of `process_webhook_event`, once the subscription object has changed. -/
def settleEvent (at? : Option DateTime) (event : WebhookEvent) (organizationId : Uuid)
    (subscription changed : Subscription) : App (WebhookEvent × Bool) := do
  flushSubscription subscription changed
  let _ ← writeAudit organizationId none "subscription.changed" "subscription"
    (rt.uuidText subscription.id) (webhookDetails event subscription changed)
  let processedAt ← nowOr at?
  flushUpdate .webhookEvents event.id fun (row : WebhookEvent) =>
    { row with status := .processed, processedAt := some processedAt }
  pure ({ event with status := .processed, processedAt := some processedAt }, true)

/-- `process_webhook_event` once the subscription is locked. -/
def applyRow (at? : Option DateTime) (event : WebhookEvent) (object : List (String × Value))
    (organizationId : Uuid) (subscription : Subscription) : App (WebhookEvent × Bool) := do
  let current ← nowOr at?
  let (periodStart, periodEnd) ← orRaise (calendarPeriod current) yearOutOfRange
  let changed ← ofExcept (applyEvent rt event.eventType object periodStart periodEnd subscription)
  settleEvent rt at? event organizationId subscription changed

/-- `process_webhook_event` once the stored event has been read. -/
def processRow (at? : Option DateTime) (event : WebhookEvent) (parsedEvent : BillingWebhook) :
    App (WebhookEvent × Bool) := do
  let object ← validateWebhook rt parsedEvent
  let organizationId ← orRaise (organizationField rt object) (.valueError "badly formed UUID string")
  let subscription ← lockedSubscription organizationId
  applyRow rt at? event object organizationId subscription

def processWebhookEvent (webhookEventId : String) (at? : Option DateTime := none) :
    App (WebhookEvent × Bool) := do
  let eventId ← orRaise (rt.parseUuid webhookEventId) (.valueError "badly formed UUID string")
  let event ← Prog.scalarForUpdate (S := schema) .webhookEvents (hasEventId eventId)
  let event ← orRaise event webhookEventNotFound
  if event.status = .processed then pure (event, false)
  else do
    let parsedEvent ← orRaise (BillingWebhook.modelValidate event.payload) .validationError
    processRow rt at? event parsedEvent

def markWebhookFailed (webhookEventId : String) : App Unit := do
  let eventId ← orRaise (rt.parseUuid webhookEventId) (.valueError "badly formed UUID string")
  let event ← Prog.scalarForUpdate (S := schema) .webhookEvents (hasEventId eventId)
  match event with
  | none => pure ()
  | some event =>
    runIf (event.status ≠ .processed ∧ event.status ≠ .failed)
      (flushUpdate .webhookEvents event.id fun (row : WebhookEvent) => { row with status := .failed })

end TenantForge
