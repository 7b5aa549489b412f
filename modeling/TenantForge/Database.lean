import TenantForge.Gregorian
import TenantForge.ReadCommitted.Store
import TenantForge.Value
/-!
# The database schema

The tables of `app/models` with their columns, primary keys, unique constraints and foreign keys.
-/

namespace TenantForge

open Gregorian ReadCommitted

/-- A UUID, by its number. -/
abbrev Uuid := Nat

inductive Role where
  | owner
  | admin
  | member
  deriving DecidableEq, Repr

inductive ProjectStatus where
  | active
  | archived
  deriving DecidableEq, Repr

inductive Plan where
  | free
  | pro
  | business
  deriving DecidableEq, Repr

inductive SubscriptionStatus where
  | active
  | pastDue
  | canceled
  deriving DecidableEq, Repr

inductive WebhookStatus where
  | pending
  | processed
  | failed
  deriving DecidableEq, Repr

def Role.value : Role → String
  | .owner => "OWNER"
  | .admin => "ADMIN"
  | .member => "MEMBER"

def Plan.value : Plan → String
  | .free => "FREE"
  | .pro => "PRO"
  | .business => "BUSINESS"

def SubscriptionStatus.value : SubscriptionStatus → String
  | .active => "ACTIVE"
  | .pastDue => "PAST_DUE"
  | .canceled => "CANCELED"

/-- `Plan(text)`; `none` is a `ValueError`. -/
def Plan.ofValue? (text : String) : Option Plan :=
  [Plan.free, .pro, .business].find? fun plan => plan.value = text

/-- `SubscriptionStatus(text)`; `none` is a `ValueError`. -/
def SubscriptionStatus.ofValue? (text : String) : Option SubscriptionStatus :=
  [SubscriptionStatus.active, .pastDue, .canceled].find? fun status => status.value = text

/-! ### Rows -/

structure User where
  id : Uuid
  email : String
  passwordHash : String
  isActive : Bool
  isVerified : Bool
  createdAt : DateTime
  updatedAt : DateTime

structure RefreshToken where
  id : Uuid
  userId : Uuid
  tokenHash : String
  expiresAt : DateTime
  revokedAt : Option DateTime
  createdAt : DateTime

structure Organization where
  id : Uuid
  name : String
  slug : String
  createdAt : DateTime
  updatedAt : DateTime
  deriving DecidableEq

structure Membership where
  id : Uuid
  userId : Uuid
  organizationId : Uuid
  role : Role
  joinedAt : DateTime
  deriving DecidableEq

structure Invitation where
  id : Uuid
  organizationId : Uuid
  email : String
  role : Role
  tokenHash : String
  expiresAt : DateTime
  acceptedAt : Option DateTime
  createdBy : Uuid
  createdAt : DateTime

structure ApiKey where
  id : Uuid
  organizationId : Uuid
  name : String
  keyHash : String
  keyPrefix : String
  createdBy : Uuid
  lastUsedAt : Option DateTime
  createdAt : DateTime
  revokedAt : Option DateTime

structure Project where
  id : Uuid
  organizationId : Uuid
  name : String
  description : Option String
  status : ProjectStatus
  createdBy : Uuid
  createdAt : DateTime
  updatedAt : DateTime
  deriving DecidableEq

structure Subscription where
  id : Uuid
  organizationId : Uuid
  plan : Plan
  status : SubscriptionStatus
  externalCustomerId : Option String
  externalSubscriptionId : Option String
  currentPeriodStart : DateTime
  currentPeriodEnd : DateTime
  createdAt : DateTime
  updatedAt : DateTime
  deriving DecidableEq

structure UsageEvent where
  id : Uuid
  organizationId : Uuid
  metric : String
  quantity : Int
  createdAt : DateTime
  deriving DecidableEq

structure WebhookEvent where
  id : Uuid
  provider : String
  externalEventId : String
  eventType : String
  payload : List (String × Value)
  status : WebhookStatus
  receivedAt : DateTime
  processedAt : Option DateTime

structure AuditLog where
  id : Uuid
  organizationId : Uuid
  actorUserId : Option Uuid
  action : String
  resourceType : String
  resourceId : String
  details : List (String × Value)
  ipAddress : Option String
  createdAt : DateTime

/-! ### Tables -/

inductive Table where
  | users
  | refreshTokens
  | organizations
  | memberships
  | invitations
  | apiKeys
  | projects
  | subscriptions
  | usageEvents
  | webhookEvents
  | auditLogs
  deriving DecidableEq, Repr

/-- The values that unique constraints compare. -/
inductive UniqueValue where
  | email (email : String)
  | refreshToken (hash : String)
  | slug (slug : String)
  | member (user organization : Uuid)
  | invitationToken (hash : String)
  | apiKey (hash : String)
  | subscriber (organization : Uuid)
  | externalSubscription (id : String)
  | webhook (provider externalEventId : String)
  deriving DecidableEq

@[reducible] def Row : Table → Type
  | .users => User
  | .refreshTokens => RefreshToken
  | .organizations => Organization
  | .memberships => Membership
  | .invitations => Invitation
  | .apiKeys => ApiKey
  | .projects => Project
  | .subscriptions => Subscription
  | .usageEvents => UsageEvent
  | .webhookEvents => WebhookEvent
  | .auditLogs => AuditLog

def rowId : {t : Table} → Row t → Uuid
  | .users, row => User.id row
  | .refreshTokens, row => RefreshToken.id row
  | .organizations, row => Organization.id row
  | .memberships, row => Membership.id row
  | .invitations, row => Invitation.id row
  | .apiKeys, row => ApiKey.id row
  | .projects, row => Project.id row
  | .subscriptions, row => Subscription.id row
  | .usageEvents, row => UsageEvent.id row
  | .webhookEvents, row => WebhookEvent.id row
  | .auditLogs, row => AuditLog.id row

/-- A `NULL` is in no unique index. -/
def uniqueValues : {t : Table} → Row t → List UniqueValue
  | .users, row => [.email (User.email row)]
  | .refreshTokens, row => [.refreshToken (RefreshToken.tokenHash row)]
  | .organizations, row => [.slug (Organization.slug row)]
  | .memberships, row => [.member (Membership.userId row) (Membership.organizationId row)]
  | .invitations, row => [.invitationToken (Invitation.tokenHash row)]
  | .apiKeys, row => [.apiKey (ApiKey.keyHash row)]
  | .projects, _ => []
  | .subscriptions, row => .subscriber (Subscription.organizationId row) ::
      (Subscription.externalSubscriptionId row).toList.map .externalSubscription
  | .usageEvents, _ => []
  | .webhookEvents, row => [.webhook (WebhookEvent.provider row) (WebhookEvent.externalEventId row)]
  | .auditLogs, _ => []

def foreignKeys : {t : Table} → Row t → List (Table × Uuid)
  | .users, _ => []
  | .refreshTokens, row => [(.users, RefreshToken.userId row)]
  | .organizations, _ => []
  | .memberships, row =>
    [(.users, Membership.userId row), (.organizations, Membership.organizationId row)]
  | .invitations, row =>
    [(.organizations, Invitation.organizationId row), (.users, Invitation.createdBy row)]
  | .apiKeys, row => [(.organizations, ApiKey.organizationId row), (.users, ApiKey.createdBy row)]
  | .projects, row => [(.organizations, Project.organizationId row), (.users, Project.createdBy row)]
  | .subscriptions, row => [(.organizations, Subscription.organizationId row)]
  | .usageEvents, row => [(.organizations, UsageEvent.organizationId row)]
  | .webhookEvents, _ => []
  | .auditLogs, row => (.organizations, AuditLog.organizationId row) ::
      (AuditLog.actorUserId row).toList.map fun user => (.users, user)

@[reducible] def schema : Schema where
  Table := Table
  Row := Row
  Id := Uuid
  Index := UniqueValue
  id := rowId
  index := uniqueValues
  parents := foreignKeys

/-- The organization that a tenant-owned row belongs to. Users, their refresh tokens and webhook
events belong to no tenant. -/
def tenantOf : {t : Table} → Row t → Option Uuid
  | .users, _ => none
  | .refreshTokens, _ => none
  | .organizations, row => some (Organization.id row)
  | .memberships, row => some (Membership.organizationId row)
  | .invitations, row => some (Invitation.organizationId row)
  | .apiKeys, row => some (ApiKey.organizationId row)
  | .projects, row => some (Project.organizationId row)
  | .subscriptions, row => some (Subscription.organizationId row)
  | .usageEvents, row => some (UsageEvent.organizationId row)
  | .webhookEvents, _ => none
  | .auditLogs, row => some (AuditLog.organizationId row)

abbrev Db := Store schema

/-- The child tables that a deleted organization cascades to. -/
def childTables : List Table :=
  [.memberships, .invitations, .apiKeys, .projects, .subscriptions, .usageEvents, .auditLogs]

end TenantForge
