import TenantForge.Api.Deps
import TenantForge.Services.Email
import TenantForge.Services.Invitations
import TenantForge.Services.Projects
import TenantForge.Services.Webhooks
/-!
# Routes (`app/api/routes`)

A request is one session: its dependencies in order, the service call, and the commit of
`get_session`. Path and body parameters are validated already.
-/

namespace TenantForge

open Gregorian ReadCommitted

variable (rt : Runtime)

/-! ### Responses -/

structure ApiKeyRead where
  id : Uuid
  organizationId : Uuid
  name : String
  keyPrefix : String
  createdBy : Uuid
  lastUsedAt : Option DateTime
  createdAt : DateTime
  revokedAt : Option DateTime

def ApiKey.read (key : ApiKey) : ApiKeyRead :=
  ⟨key.id, key.organizationId, key.name, key.keyPrefix, key.createdBy, key.lastUsedAt, key.createdAt,
    key.revokedAt⟩

structure InvitationCreated where
  id : Uuid
  organizationId : Uuid
  email : String
  role : Role
  token : String
  expiresAt : DateTime
  createdAt : DateTime

structure UserRead where
  id : Uuid
  email : String
  isActive : Bool
  isVerified : Bool
  createdAt : DateTime
  updatedAt : DateTime

def User.read (user : User) : UserRead :=
  ⟨user.id, user.email, user.isActive, user.isVerified, user.createdAt, user.updatedAt⟩

structure WebhookReceipt where
  eventId : Uuid
  status : WebhookStatus
  duplicate : Bool
  deriving DecidableEq

inductive Response where
  | noContent
  | organization (row : Organization)
  | organizations (rows : List Organization)
  | membership (row : Membership)
  | members (rows : List (Membership × String))
  | invitation (created : InvitationCreated)
  | apiKeyCreated (key : ApiKeyRead) (raw : String)
  | apiKeys (rows : List ApiKeyRead)
  | project (row : Project)
  | projects (rows : List Project)
  | usageEvent (row : UsageEvent)
  | usageSummary (snapshot : UsageSnapshot)
  | subscription (row : Subscription)
  | auditLogs (rows : List AuditLog)
  | receipt (receipt : WebhookReceipt)
  | user (user : UserRead)
  | tokens (tokens : IssuedTokens)

/-! ### Requests of members -/

/-- The requests on a path `/organizations/{organization_id}/...` that a member sends. -/
inductive TenantCall where
  | getOrganization
  | updateOrganization (data : OrganizationUpdate)
  | deleteOrganization
  | listMembers
  | updateMember (membershipId : Uuid) (role : Role)
  | removeMember (membershipId : Uuid)
  | createInvitation (data : InvitationCreate)
  | createApiKey (name : String)
  | listApiKeys
  | revokeApiKey (keyId : Uuid)
  | createProject (data : ProjectCreate)
  | listProjects
  | getProject (projectId : Uuid)
  | updateProject (projectId : Uuid) (data : ProjectUpdate)
  | deleteProject (projectId : Uuid)
  | readUsage
  | readSubscription
  | changePlan (plan : Plan) (ipAddress : Option String)
  | readAuditLog (limit offset : Nat)

namespace TenantCall

/-- The roles that the route's dependency lets pass. -/
def allowed : TenantCall → Role → Bool
  | .updateOrganization _ | .updateMember _ _ | .removeMember _ | .createInvitation _
  | .readAuditLog _ _ => ownerOrAdmin
  | .deleteOrganization | .createApiKey _ | .listApiKeys | .revokeApiKey _ | .readSubscription
  | .changePlan _ _ => ownerOnly
  | _ => anyRole

end TenantCall

/-- `require_development_billing` -/
def requireDevelopmentBilling : App Unit :=
  raiseIf (rt.lower rt.settings.appEnv ∉ ["development", "test"])
    (notFoundError "billing_adapter_unavailable" "Development billing adapter is unavailable")

/-- The invitation is committed before its mail is handed over; a failed delivery is only logged. -/
def createInvitationRoute (organizationId : Uuid) (currentUser : User) (data : InvitationCreate) :
    App Response := do
  let (invitation, rawToken) ← createInvitation rt organizationId currentUser.id data
  Prog.commitTransaction
  try
    sendInvitation rt invitation.email invitation.organizationId invitation.id rawToken
  catch exc =>
    if exc = .invitationDeliveryError then pure () else throw exc
  pure (.invitation ⟨invitation.id, invitation.organizationId, invitation.email, invitation.role,
    rawToken, invitation.expiresAt, invitation.createdAt⟩)

/-- The path operation, after its dependencies. -/
def TenantCall.operation (organizationId : Uuid) (currentUser : User) (membership : Membership) :
    TenantCall → App Response
  | .getOrganization =>
    .organization <$> TenantForge.getOrganization organizationId currentUser.id
  | .updateOrganization data =>
    .organization <$> TenantForge.updateOrganization rt organizationId currentUser.id data
  | .deleteOrganization => do
    TenantForge.deleteOrganization rt organizationId currentUser.id
    pure .noContent
  | .listMembers => .members <$> TenantForge.listMembers organizationId
  | .updateMember membershipId role =>
    .membership <$> updateMembership rt organizationId membershipId currentUser.id role
  | .removeMember membershipId => do
    removeMembership rt organizationId membershipId currentUser.id
    pure .noContent
  | .createInvitation data => createInvitationRoute rt organizationId currentUser data
  | .createApiKey name => do
    let (key, raw) ← TenantForge.createApiKey rt organizationId currentUser.id name
    pure (.apiKeyCreated key.read raw)
  | .listApiKeys => do
    let keys ← TenantForge.listApiKeys organizationId currentUser.id
    pure (.apiKeys (keys.map ApiKey.read))
  | .revokeApiKey keyId => do
    TenantForge.revokeApiKey rt organizationId keyId currentUser.id
    pure .noContent
  | .createProject data =>
    .project <$> TenantForge.createProject rt organizationId currentUser.id data
  | .listProjects => .projects <$> TenantForge.listProjects organizationId currentUser.id
  | .getProject projectId =>
    .project <$> TenantForge.getProject organizationId projectId currentUser.id
  | .updateProject projectId data =>
    .project <$> TenantForge.updateProject rt organizationId projectId currentUser.id data
  | .deleteProject projectId => do
    TenantForge.deleteProject rt organizationId projectId currentUser.id
    pure .noContent
  | .readUsage => .usageSummary <$> getUsageSummary membership.organizationId
  | .readSubscription => .subscription <$> getSubscription membership.organizationId
  | .changePlan plan ipAddress => do
    requireDevelopmentBilling rt
    .subscription <$>
      TenantForge.changePlan rt membership.organizationId plan membership.userId ipAddress
  | .readAuditLog limit offset => .auditLogs <$> listAuditLogs membership.organizationId limit offset

/-- The dependencies of a tenant route, and its operation. -/
def TenantCall.handle (organizationId : Uuid) (credentials : Option Credentials)
    (call : TenantCall) : App Response := do
  let currentUser ← getCurrentUser rt credentials
  let membership ← getCurrentMembership organizationId currentUser
  requireRoles call.allowed membership
  call.operation rt organizationId currentUser membership

/-! ### All requests -/

/-- A delivery to the billing webhook: the outcome of `verify_webhook_signature` on its raw body, and
of parsing the body. -/
structure Delivery where
  signature : Except AppError Unit
  body : Option BillingWebhook

inductive Request where
  | tenant (organizationId : Uuid) (credentials : Option Credentials) (call : TenantCall)
  | createUsageEvent (organizationId : Uuid) (rawKey : Option String) (quantity : Int)
  | createOrganization (credentials : Option Credentials) (data : OrganizationCreate)
  | listOrganizations (credentials : Option Credentials)
  | acceptInvitation (credentials : Option Credentials) (token : String)
  | billingWebhook (delivery : Delivery)
  | register (email password : String)
  | login (email password : String)
  | refresh (refreshToken : String)
  | logout (refreshToken : String)
  | me (credentials : Option Credentials)

def createUsageEvent (organizationId : Uuid) (rawKey : Option String) (quantity : Int) :
    App Response := do
  let principal ← getApiKeyPrincipal rt rawKey
  raiseIf (principal.organizationId ≠ organizationId) organizationNotFound
  .usageEvent <$> recordUsage principal.organizationId apiRequestsMetric quantity

def billingWebhook (delivery : Delivery) : App Response := do
  ofExcept (delivery.signature.mapError .app)
  let event ← orRaise delivery.body (invalidWebhookEvent "Invalid webhook payload")
  let _ ← validateWebhook rt event
  let (storedEvent, created) ← storeWebhookEvent event
  Prog.commitTransaction
  runIf (created = true ∨ storedEvent.status ≠ .processed) do
    let _ ← RedisJobQueue.enqueue rt "process_billing_webhook"
      [("webhook_event_id", .str (rt.uuidText storedEvent.id))]
  pure (.receipt ⟨storedEvent.id, storedEvent.status, !created⟩)

/-- The endpoint of a request, inside its session. -/
def Request.endpoint : Request → App Response
  | .tenant organizationId credentials call => call.handle rt organizationId credentials
  | .createUsageEvent organizationId rawKey quantity =>
    TenantForge.createUsageEvent rt organizationId rawKey quantity
  | .createOrganization credentials data => do
    let currentUser ← getCurrentUser rt credentials
    .organization <$> TenantForge.createOrganization rt currentUser data
  | .listOrganizations credentials => do
    let currentUser ← getCurrentUser rt credentials
    .organizations <$> TenantForge.listOrganizations currentUser.id
  | .acceptInvitation credentials token => do
    let currentUser ← getCurrentUser rt credentials
    .membership <$> TenantForge.acceptInvitation rt token currentUser
  | .billingWebhook delivery => TenantForge.billingWebhook rt delivery
  | .register email password => do
    let user ← registerUser rt email password
    pure (.user user.read)
  | .login email password => do
    let user ← authenticateUser rt email password
    .tokens <$> issueTokens rt user
  | .refresh refreshToken => .tokens <$> rotateRefreshToken rt refreshToken
  | .logout refreshToken => do
    revokeRefreshToken rt refreshToken
    pure .noContent
  | .me credentials => do
    let currentUser ← getCurrentUser rt credentials
    pure (.user currentUser.read)

def Request.handle (request : Request) : App Response := getSession (request.endpoint rt)

end TenantForge
