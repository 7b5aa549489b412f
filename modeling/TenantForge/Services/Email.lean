import TenantForge.Infrastructure.Queue
/-!
# Invitation mails (`app/services/email.py`)
-/

namespace TenantForge

open ReadCommitted

variable (rt : Runtime)

/-- `DevelopmentEmailSender.send_invitation` -/
def sendInvitation (email : String) (organizationId invitationId : Uuid) (token : String) :
    App Unit := do
  raiseIf (token = "") (.valueError "invitation token is required")
  try
    let _ ← RedisJobQueue.enqueue rt "send_invitation_email"
      [("email", .str email), ("organization_id", .str (rt.uuidText organizationId)),
        ("invitation_id", .str (rt.uuidText invitationId))]
  catch exc =>
    if exc = .redisError then throw .invitationDeliveryError else throw exc

end TenantForge
