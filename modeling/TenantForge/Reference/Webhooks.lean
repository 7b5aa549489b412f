import TenantForge.Reference.Runtime
import TenantForge.Services.Webhooks
/-!
# Reference webhook events
-/

namespace TenantForge.Reference

open Gregorian ReadCommitted

/-- A `subscription.updated` event for an organization; `period` is left out of the object if it is
`none`. -/
def subscriptionUpdated (id : String) (organizationId : Uuid) (plan status : String)
    (period : Option (DateTime × DateTime)) : BillingWebhook where
  id := id
  type := "subscription.updated"
  data := [("object", .dict ([("organization_id", .str (uuidText organizationId)),
    ("plan", .str plan), ("status", .str status)] ++ match period with
      | none => []
      | some (start, stop) => [("current_period_start", .str (isoFormat start)),
        ("current_period_end", .str (isoFormat stop))]))]

def subscriptionCancelled (id : String) (organizationId : Uuid) : BillingWebhook where
  id := id
  type := "subscription.cancelled"
  data := [("object", .dict [("organization_id", .str (uuidText organizationId))])]

/-- A stored event that waits for its processing. -/
def pendingEvent (id : Uuid) (event : BillingWebhook) : WebhookEvent :=
  ⟨id, provider, event.id, event.type, event.modelDump, .pending, noon 0, none⟩

end TenantForge.Reference
