import TenantForge.Contracts.Memberships
import TenantForge.Contracts.Projects
import TenantForge.Contracts.Requests
import TenantForge.Contracts.WorkerLoop
import TenantForge.JobSettlement
import TenantForge.ReadCommitted.Revisions
import TenantForge.Reference.Runtime
import TenantForge.Workers.Worker
/-!
# What can happen to a row

Any number of requests and workers, in any interleaving: an update changes the columns that are meant to
change and no others (`NextVersion`), a revoked key or token stays revoked and an accepted invitation stays
accepted, and rows disappear only in `delete_organization` (rows of this organization), `remove_membership`
and `delete_project` (the row that the request names). In particular usage events and audit logs are never
changed, and go only with their organization.
-/

namespace TenantForge

open Gregorian ReadCommitted Prog

/-! ### Versions -/

/-- The second row is the first one at a later time. -/
def NextVersion : (t : Table) → Row t → Row t → Prop
  | .users => fun old new => new = old
  | .refreshTokens => fun (old new : RefreshToken) =>
    new = { old with revokedAt := new.revokedAt } ∧ (old.revokedAt.isSome → new.revokedAt.isSome)
  | .organizations => fun (old new : Organization) =>
    new = { old with name := new.name, slug := new.slug, updatedAt := new.updatedAt }
  | .memberships => fun (old new : Membership) => new = { old with role := new.role }
  | .invitations => fun (old new : Invitation) =>
    new = { old with acceptedAt := new.acceptedAt } ∧ (old.acceptedAt.isSome → new.acceptedAt.isSome)
  | .apiKeys => fun (old new : ApiKey) =>
    new = { old with lastUsedAt := new.lastUsedAt, revokedAt := new.revokedAt } ∧
      (old.revokedAt.isSome → new.revokedAt.isSome)
  | .projects => fun (old new : Project) =>
    new = { old with
      name := new.name, description := new.description, status := new.status, updatedAt := new.updatedAt }
  | .subscriptions => fun (old new : Subscription) =>
    new = { old with
      plan := new.plan, status := new.status, externalCustomerId := new.externalCustomerId,
      externalSubscriptionId := new.externalSubscriptionId, currentPeriodStart := new.currentPeriodStart,
      currentPeriodEnd := new.currentPeriodEnd, updatedAt := new.updatedAt }
  | .usageEvents => fun old new => new = old
  | .webhookEvents => fun (old new : WebhookEvent) =>
    new = { old with status := new.status, processedAt := new.processedAt }
  | .auditLogs => fun old new => new = old

theorem NextVersion.refl (t : Table) (row : Row t) : NextVersion t row row := by
  cases t with
  | refreshTokens | invitations | apiKeys => exact ⟨rfl, id⟩
  | _ => rfl

theorem NextVersion.trans (t : Table) (a b c : Row t) (h : NextVersion t a b) (h' : NextVersion t b c) :
    NextVersion t a c := by
  cases t with
  | refreshTokens | invitations | apiKeys =>
    obtain ⟨hb, hset⟩ := h
    obtain ⟨hc, hset'⟩ := h'
    refine ⟨hc.trans ?_, fun ha => hset' (hset ha)⟩
    rw [hb]
  | _ =>
    refine Eq.trans h' ?_
    rw [show b = _ from h]

def versions : Revision schema := ⟨NextVersion, .refl, .trans⟩

theorem NextVersion.rowId {t : Table} {old new : Row t} (h : NextVersion t old new) :
    TenantForge.rowId new = TenantForge.rowId old := by
  cases t with
  | refreshTokens | invitations | apiKeys =>
    obtain ⟨hnew, -⟩ := h
    rw [hnew]
    rfl
  | users | usageEvents | auditLogs => rw [show new = old from h]
  | _ =>
    rw [show new = _ from h]
    rfl

theorem NextVersion.tenantOf {t : Table} {old new : Row t} (h : NextVersion t old new) :
    TenantForge.tenantOf new = TenantForge.tenantOf old := by
  cases t with
  | refreshTokens | invitations | apiKeys =>
    obtain ⟨hnew, -⟩ := h
    rw [hnew]
    rfl
  | users | usageEvents | auditLogs => rw [show new = old from h]
  | _ =>
    rw [show new = _ from h]
    rfl

/-- The rows that a request may delete. -/
def Request.deletes : Request → (t : Table) → Row t → Prop
  | .tenant organizationId _ .deleteOrganization => fun _ row => tenantOf row = some organizationId
  | .tenant organizationId _ (.removeMember membershipId) => fun t row =>
    t = .memberships ∧ rowId row = membershipId ∧ tenantOf row = some organizationId
  | .tenant organizationId _ (.deleteProject projectId) => fun t row =>
    t = .projects ∧ rowId row = projectId ∧ tenantOf row = some organizationId
  | _ => fun _ _ => False

theorem Request.deletes_earlier (request : Request) (t : Table) (old new : Row t)
    (h : NextVersion t old new) (hnew : request.deletes t new) : request.deletes t old := by
  unfold Request.deletes at hnew ⊢
  split at hnew
  · exact h.tenantOf.symm.trans hnew
  · exact ⟨hnew.1, h.rowId.symm.trans hnew.2.1, h.tenantOf.symm.trans hnew.2.2⟩
  · exact ⟨hnew.1, h.rowId.symm.trans hnew.2.1, h.tenantOf.symm.trans hnew.2.2⟩
  · exact hnew

def Request.deletions (request : Request) : versions.Deletions :=
  ⟨request.deletes, request.deletes_earlier⟩

/-! ### Statements -/

section Revises

variable {rt : Runtime} {α : Type}

/-- What writes nothing changes no row. -/
theorem revises_of_within {p : App α} (hp : p.Within (fun _ => False) (fun _ _ => True) True) :
    p.Revises versions :=
  hp.revises fun _ h => h

theorem revises_raiseIf {condition : Prop} [Decidable condition] {error : Exn} :
    (raiseIf condition error).Revises versions := revises_of_within within_raiseIf

theorem revises_orRaise {result : Option α} {error : Exn} : (orRaise result error).Revises versions :=
  revises_of_within within_orRaise

theorem revises_now : now.Revises versions := fun _ => trivial

theorem revises_databaseNow : databaseNow.Revises versions := fun _ => trivial

theorem revises_nowOr {at? : Option DateTime} : (nowOr at?).Revises versions :=
  revises_of_within (within_nowOr fun _ _ _ => trivial)

theorem revises_uuid4 : uuid4.Revises versions := fun _ => trivial

theorem revises_tokenUrlsafe : tokenUrlsafe.Revises versions := fun _ => trivial

theorem revises_refresh {t : Table} {id : Uuid} : (refresh t id).Revises versions :=
  revises_of_within within_refresh

theorem revises_scalar {t : Table} {cond : Row t → Bool} :
    (Prog.scalar (S := schema) t cond : App (Option (Row t))).Revises versions :=
  revises_of_within within_scalar

theorem revises_scalarForUpdate {t : Table} {cond : Row t → Bool} :
    (Prog.scalarForUpdate (S := schema) t cond : App (Option (Row t))).Revises versions :=
  revises_of_within within_scalarForUpdate

theorem revises_runIf {condition : Prop} [Decidable condition] {body : App Unit}
    (h : body.Revises versions) : (runIf condition body).Revises versions := by
  rw [runIf]
  split
  · exact h
  · trivial

theorem revises_addRow {t : Table} {row : Row t} : (addRow t row).Revises versions :=
  (revises_insertRow (S := schema) (t := t) row).bind fun ok => by cases ok <;> trivial

theorem revises_flushUpdate {t : Table} {id : Uuid} {set : Row t → Row t}
    (hset : ∀ row, NextVersion t row (set row)) : (flushUpdate t id set).Revises versions :=
  (revises_updateRow (S := schema) (t := t) (R := versions) hset).bind fun result => by cases result <;> trivial

theorem revises_exceptIntegrityError {error : Exn} {body : App α} (h : body.Revises versions) :
    (exceptIntegrityError error body).Revises versions := by
  refine h.handle fun exc => ?_
  split <;> trivial

theorem revises_getSession {body : App α} (h : body.Revises versions) : (getSession body).Revises versions :=
  Revises.handle (Revises.bind h fun _ => ⟨trivial, trivial⟩) fun _ => trivial

theorem revises_sessionScope {body : App α} (h : body.Revises versions) :
    (sessionScope body).Revises versions :=
  Revises.handle (Revises.bind h fun _ => trivial) fun _ => trivial

theorem revises_writeAudit {organizationId : Uuid} {actorUserId : Option Uuid}
    {action resourceType resourceId : String} {metadata : List (String × Value)}
    {ipAddress : Option String} :
    (writeAudit organizationId actorUserId action resourceType resourceId metadata
      ipAddress).Revises versions :=
  revises_uuid4.bind fun _ => revises_databaseNow.bind fun _ => revises_addRow.bind fun _ => trivial

/-! ### Services -/

section Services

theorem revises_createDefaultSubscription {organizationId : Uuid} {at? : Option DateTime} :
    (createDefaultSubscription organizationId at?).Revises versions :=
  revises_nowOr.bind fun _ => revises_orRaise.bind fun _ => revises_uuid4.bind fun _ =>
    revises_databaseNow.bind fun _ => revises_addRow.bind fun _ => trivial

theorem revises_createOrganization {actor : User} {data : OrganizationCreate} :
    (createOrganization rt actor data).Revises versions := by
  refine Revises.bind (revises_of_within (within_query _)) fun _ => revises_raiseIf.bind fun _ =>
    revises_uuid4.bind fun _ => revises_databaseNow.bind fun _ => Revises.bind ?_ fun _ =>
      revises_refresh.bind fun _ => revises_writeAudit.bind fun _ => trivial
  exact revises_exceptIntegrityError (revises_addRow.bind fun _ => revises_uuid4.bind fun _ =>
    revises_databaseNow.bind fun _ => revises_addRow.bind fun _ =>
      revises_createDefaultSubscription.bind fun _ => by trivial)

theorem nextVersion_merge_organization (loaded changed row : Organization) (updatedAt : DateTime) :
    NextVersion .organizations row (loaded.merge changed row updatedAt) := rfl

theorem revises_updateOrganization {organizationId actorId : Uuid} {data : OrganizationUpdate} :
    (updateOrganization rt organizationId actorId data).Revises versions := by
  refine Revises.bind (revises_of_within within_joinForUpdate) fun _ => revises_orRaise.bind fun _ =>
    Revises.bind ?_ fun _ => revises_refresh.bind fun _ => revises_writeAudit.bind fun _ => trivial
  exact revises_exceptIntegrityError (revises_runIf (revises_databaseNow.bind fun _ =>
    revises_flushUpdate fun row => nextVersion_merge_organization _ _ row _))

theorem revises_lockActorMembership {organizationId userId : Uuid} :
    (lockActorMembership organizationId userId).Revises versions :=
  revises_scalarForUpdate.bind fun _ => revises_orRaise

theorem nextVersion_role (row : Membership) (newRole : Role) :
    NextVersion .memberships row { row with role := newRole } := rfl

theorem revises_updateMembership {organizationId membershipId actorId : Uuid} {newRole : Role} :
    (updateMembership rt organizationId membershipId actorId newRole).Revises versions :=
  revises_lockActorMembership.bind fun _ => (revises_of_within within_lockMembership).bind fun _ =>
    revises_raiseIf.bind fun _ => revises_raiseIf.bind fun _ =>
      (revises_runIf (revises_of_within within_ensureAnotherOwner)).bind fun _ =>
        (revises_runIf (revises_flushUpdate fun row => nextVersion_role row newRole)).bind fun _ =>
          revises_writeAudit.bind fun _ => trivial

theorem revises_createInvitation {organizationId actorId : Uuid} {data : InvitationCreate} :
    (createInvitation rt organizationId actorId data).Revises versions := by
  have hrole : ∀ actorRole : Role, (ensureInvitationRole actorRole data.role).Revises versions := by
    intro actorRole
    unfold ensureInvitationRole
    split
    · trivial
    · split <;> trivial
  refine Revises.bind (revises_of_within (within_selectForUpdate.bind fun _ => within_raiseIf)) fun _ =>
    (revises_scalarForUpdate.bind fun _ => revises_orRaise).bind fun _ => (hrole _).bind fun _ =>
      revises_now.bind fun _ => ?_
  refine Revises.bind (revises_of_within (within_query _)) fun _ => revises_raiseIf.bind fun _ =>
    Revises.bind (revises_of_within (within_query _)) fun _ => revises_raiseIf.bind fun _ => ?_
  exact revises_tokenUrlsafe.bind fun _ => revises_orRaise.bind fun _ => revises_uuid4.bind fun _ =>
    revises_addRow.bind fun _ => revises_refresh.bind fun _ => revises_writeAudit.bind fun _ => trivial

theorem nextVersion_acceptedAt (row : Invitation) (acceptedAt : DateTime) :
    NextVersion .invitations row { row with acceptedAt := some acceptedAt } := ⟨rfl, fun _ => rfl⟩

theorem revises_acceptInvitation {rawToken : String} {user : User} :
    (acceptInvitation rt rawToken user).Revises versions := by
  refine revises_now.bind fun _ => revises_scalarForUpdate.bind fun _ => revises_orRaise.bind fun _ =>
    revises_raiseIf.bind fun _ => revises_raiseIf.bind fun _ => revises_raiseIf.bind fun _ =>
      Revises.bind (revises_of_within (within_query _)) fun _ => revises_raiseIf.bind fun _ =>
        Revises.bind ?_ fun _ => revises_refresh.bind fun _ => revises_writeAudit.bind fun _ => trivial
  exact revises_exceptIntegrityError ((revises_flushUpdate fun row => nextVersion_acceptedAt row _).bind
    fun _ => revises_uuid4.bind fun _ => revises_databaseNow.bind fun _ => revises_addRow.bind fun _ => by trivial)

theorem revises_lockOwner {organizationId userId : Uuid} : (lockOwner organizationId userId).Revises versions :=
  revises_scalarForUpdate.bind fun _ => revises_orRaise

theorem revises_createApiKey {organizationId actorId : Uuid} {name : String} :
    (createApiKey rt organizationId actorId name).Revises versions :=
  revises_lockOwner.bind fun _ => (revises_tokenUrlsafe.bind fun _ => by trivial).bind fun _ =>
    revises_uuid4.bind fun _ => revises_databaseNow.bind fun _ => revises_addRow.bind fun _ =>
      revises_refresh.bind fun _ => revises_writeAudit.bind fun _ => trivial

theorem nextVersion_revokedKey (row : ApiKey) (revokedAt : DateTime) :
    NextVersion .apiKeys row { row with revokedAt := some revokedAt } := ⟨rfl, fun _ => rfl⟩

theorem revises_revokeApiKey {organizationId keyId actorId : Uuid} :
    (revokeApiKey rt organizationId keyId actorId).Revises versions :=
  revises_lockOwner.bind fun _ => revises_scalarForUpdate.bind fun _ => revises_orRaise.bind fun _ =>
    revises_runIf (revises_now.bind fun _ =>
      (revises_flushUpdate fun row => nextVersion_revokedKey row _).bind fun _ =>
        revises_writeAudit.bind fun _ => by trivial)

theorem nextVersion_lastUsedAt (row : ApiKey) (lastUsedAt : Option DateTime) :
    NextVersion .apiKeys row { row with lastUsedAt } := ⟨rfl, id⟩

theorem revises_authenticateApiKey {rawKey : String} : (authenticateApiKey rt rawKey).Revises versions :=
  revises_raiseIf.bind fun _ => revises_scalar.bind fun _ => revises_orRaise.bind fun _ =>
    revises_now.bind fun _ =>
      (revises_runIf (revises_flushUpdate fun row => nextVersion_lastUsedAt row _)).bind fun _ => by trivial

theorem revises_createProject {organizationId actorId : Uuid} {data : ProjectCreate} :
    (createProject rt organizationId actorId data).Revises versions :=
  Revises.bind (revises_of_within (within_query _)) fun _ => revises_raiseIf.bind fun _ =>
    revises_uuid4.bind fun _ => revises_databaseNow.bind fun _ => revises_addRow.bind fun _ =>
      revises_refresh.bind fun _ => revises_writeAudit.bind fun _ => trivial

theorem nextVersion_merge_project (loaded changed row : Project) (updatedAt : DateTime) :
    NextVersion .projects row (loaded.merge changed row updatedAt) := rfl

theorem revises_updateProject {organizationId projectId actorId : Uuid} {data : ProjectUpdate} :
    (updateProject rt organizationId projectId actorId data).Revises versions := by
  have hlock : (lockProject organizationId projectId actorId).Revises versions := revises_of_within
    ((within_query _).bind fun _ => (within_lockMatching _).bind fun _ => (within_first _).bind fun _ =>
      within_orRaise)
  refine hlock.bind fun _ => Revises.bind (revises_runIf ?_) fun _ => revises_refresh.bind fun _ =>
    revises_writeAudit.bind fun _ => trivial
  exact revises_databaseNow.bind fun _ => revises_flushUpdate fun row => nextVersion_merge_project _ _ row _

theorem nextVersion_merge_subscription (loaded changed row : Subscription) (updatedAt : DateTime) :
    NextVersion .subscriptions row (loaded.merge changed row updatedAt) := rfl

theorem revises_flushSubscription {loaded changed : Subscription} :
    (flushSubscription loaded changed).Revises versions :=
  revises_runIf (revises_databaseNow.bind fun _ =>
    revises_flushUpdate fun row => nextVersion_merge_subscription _ _ row _)

theorem revises_getOrCreateSubscription {organizationId : Uuid} {at? : Option DateTime} :
    (getOrCreateSubscription organizationId at?).Revises versions := by
  refine revises_scalarForUpdate.bind fun _ => revises_orRaise.bind fun _ => revises_scalar.bind fun found => ?_
  cases found with
  | none => exact revises_createDefaultSubscription
  | some subscription => trivial

theorem revises_changePlan {organizationId actorUserId : Uuid} {plan : Plan} {ipAddress : Option String}
    {at? : Option DateTime} : (changePlan rt organizationId plan actorUserId ipAddress at?).Revises versions :=
  revises_getOrCreateSubscription.bind fun _ => revises_nowOr.bind fun _ => revises_orRaise.bind fun _ =>
    revises_flushSubscription.bind fun _ =>
      (revises_runIf (revises_writeAudit.bind fun _ => by trivial)).bind fun _ => revises_refresh

theorem revises_recordUsage {organizationId : Uuid} {metric : String} {quantity : Int}
    {at? : Option DateTime} : (recordUsage organizationId metric quantity at?).Revises versions := by
  have hquota : ∀ periodEnd, (quotaExceeded metric at? periodEnd).Revises versions := fun periodEnd =>
    revises_nowOr.bind fun _ => trivial
  exact revises_raiseIf.bind fun _ => revises_scalarForUpdate.bind fun _ => revises_orRaise.bind fun _ =>
    revises_scalar.bind fun _ => revises_nowOr.bind fun _ => revises_orRaise.bind fun _ =>
      Revises.bind (revises_of_within (within_query _)) fun _ => (revises_runIf (hquota _)).bind fun _ =>
        revises_nowOr.bind fun _ => revises_uuid4.bind fun _ => revises_addRow.bind fun _ => by trivial

theorem revises_registerUser {email password : String} :
    (registerUser rt email password).Revises versions :=
  Revises.bind (revises_of_within (within_query _)) fun _ => revises_raiseIf.bind fun _ =>
    revises_uuid4.bind fun _ => revises_databaseNow.bind fun _ =>
      (revises_exceptIntegrityError revises_addRow).bind fun _ => revises_refresh

theorem revises_issueTokens {user : User} : (issueTokens rt user).Revises versions :=
  revises_raiseIf.bind fun _ => revises_now.bind fun _ => revises_tokenUrlsafe.bind fun _ =>
    revises_orRaise.bind fun _ => (revises_of_within (within_createAccessToken fun _ _ _ => trivial)).bind fun _ =>
      revises_uuid4.bind fun _ => revises_addRow.bind fun _ => by trivial

theorem nextVersion_revoked (row : RefreshToken) (revokedAt : DateTime) :
    NextVersion .refreshTokens row { row with revokedAt := some revokedAt } := ⟨rfl, fun _ => rfl⟩

theorem revises_rotateRefreshToken {rawToken : String} : (rotateRefreshToken rt rawToken).Revises versions :=
  revises_now.bind fun _ => revises_scalarForUpdate.bind fun _ => revises_orRaise.bind fun _ =>
    revises_raiseIf.bind fun _ => revises_raiseIf.bind fun _ => revises_scalar.bind fun _ =>
      revises_orRaise.bind fun _ => revises_raiseIf.bind fun _ =>
        (revises_flushUpdate fun row => nextVersion_revoked row _).bind fun _ => revises_issueTokens

theorem revises_revokeRefreshToken {rawToken : String} : (revokeRefreshToken rt rawToken).Revises versions :=
  revises_scalarForUpdate.bind fun _ => revises_orRaise.bind fun _ => revises_runIf
    (revises_now.bind fun _ => revises_flushUpdate fun row => nextVersion_revoked row _)

theorem revises_storeWebhookEvent {event : BillingWebhook} : (storeWebhookEvent event).Revises versions := by
  refine revises_scalar.bind fun existing => ?_
  cases existing with
  | some existing => trivial
  | none =>
    refine revises_uuid4.bind fun _ => revises_databaseNow.bind fun _ =>
      Revises.bind (revises_insertRow _) fun inserted => ?_
    cases inserted with
    | true => trivial
    | false => exact revises_scalar.bind fun _ => revises_orRaise.bind fun _ => trivial

theorem nextVersion_status (row : WebhookEvent) (status : WebhookStatus) (processedAt : Option DateTime) :
    NextVersion .webhookEvents row { row with status, processedAt } := rfl

theorem revises_lockedSubscription {organizationId : Uuid} :
    (lockedSubscription organizationId).Revises versions := by
  refine revises_scalarForUpdate.bind fun _ => revises_orRaise.bind fun _ =>
    revises_scalarForUpdate.bind fun found => ?_
  cases found with
  | none => exact revises_createDefaultSubscription
  | some subscription => trivial

theorem revises_settleEvent {at? : Option DateTime} {event : WebhookEvent} {organizationId : Uuid}
    {subscription changed : Subscription} :
    (settleEvent rt at? event organizationId subscription changed).Revises versions :=
  revises_flushSubscription.bind fun _ => revises_writeAudit.bind fun _ => revises_nowOr.bind fun _ =>
    (revises_flushUpdate fun row => nextVersion_status row _ _).bind fun _ => by trivial

theorem revises_processRow {at? : Option DateTime} {event : WebhookEvent} {parsedEvent : BillingWebhook} :
    (processRow rt at? event parsedEvent).Revises versions :=
  (revises_of_within (within_validateWebhook fun _ _ _ => trivial)).bind fun _ => revises_orRaise.bind fun _ =>
    revises_lockedSubscription.bind fun _ => revises_nowOr.bind fun _ => revises_orRaise.bind fun _ =>
      (revises_of_within within_ofExcept).bind fun _ => revises_settleEvent

theorem revises_processWebhookEvent {webhookEventId : String} {at? : Option DateTime} :
    (processWebhookEvent rt webhookEventId at?).Revises versions := by
  refine revises_orRaise.bind fun _ => revises_scalarForUpdate.bind fun _ => revises_orRaise.bind fun event => ?_
  split
  · trivial
  · exact revises_orRaise.bind fun _ => revises_processRow

theorem revises_markWebhookFailed {webhookEventId : String} :
    (markWebhookFailed rt webhookEventId).Revises versions := by
  refine revises_orRaise.bind fun _ => revises_scalarForUpdate.bind fun event => ?_
  cases event with
  | none => trivial
  | some event => exact revises_runIf (revises_flushUpdate fun row => nextVersion_status row _ _)

end Services

/-! ### Requests that delete nothing, and the worker -/

/-- The calls that delete rows. -/
def TenantCall.mayDelete : TenantCall → Bool
  | .deleteOrganization | .removeMember _ | .deleteProject _ => true
  | _ => false

theorem revises_getCurrentUser {credentials : Option Credentials} :
    (getCurrentUser rt credentials).Revises versions :=
  revises_of_within (within_getCurrentUser fun _ _ _ => trivial)

theorem revises_createInvitationRoute {organizationId : Uuid} {user : User} {data : InvitationCreate} :
    (createInvitationRoute rt organizationId user data).Revises versions :=
  revises_createInvitation.bind fun _ => Revises.bind ⟨trivial, trivial⟩ fun _ =>
    (revises_of_within (within_mail fun _ _ _ => trivial)).bind fun _ => trivial

theorem revises_billingWebhook {delivery : Delivery} : (billingWebhook rt delivery).Revises versions :=
  (revises_of_within within_ofExcept).bind fun _ => revises_orRaise.bind fun _ =>
    (revises_of_within (within_validateWebhook fun _ _ _ => trivial)).bind fun _ =>
      revises_storeWebhookEvent.bind fun _ => Revises.bind ⟨trivial, trivial⟩ fun _ =>
        (revises_runIf (Revises.bind (revises_of_within (within_enqueue fun _ _ _ => trivial)) fun _ =>
          by trivial)).bind fun _ => by trivial

theorem revises_operation {organizationId : Uuid} {user : User} {membership : Membership} {call : TenantCall}
    (hcall : call.mayDelete = false) :
    (call.operation rt organizationId user membership).Revises versions := by
  cases call with
  | deleteOrganization | removeMember membershipId | deleteProject projectId => cases hcall
  | getOrganization | listMembers | listApiKeys | listProjects | getProject projectId | readUsage
  | readSubscription | readAuditLog limit offset =>
    exact revises_of_within (within_operation (fun _ _ _ => trivial) (by simp [TenantCall.tables]) trivial)
  | updateOrganization data => exact revises_updateOrganization.bind fun _ => trivial
  | updateMember membershipId role => exact revises_updateMembership.bind fun _ => trivial
  | createInvitation data => exact revises_createInvitationRoute
  | createApiKey name => exact revises_createApiKey.bind fun _ => trivial
  | revokeApiKey keyId => exact revises_revokeApiKey.bind fun _ => trivial
  | createProject data => exact revises_createProject.bind fun _ => trivial
  | updateProject projectId data => exact revises_updateProject.bind fun _ => trivial
  | changePlan plan ipAddress => exact revises_raiseIf.bind fun _ => revises_changePlan.bind fun _ => trivial

/-- The requests that delete rows. -/
def Request.mayDelete : Request → Bool
  | .tenant _ _ call => call.mayDelete
  | _ => false

theorem revises_handle {request : Request} (hrequest : request.mayDelete = false) :
    (request.handle rt).Revises versions := by
  refine revises_getSession ?_
  cases request with
  | tenant organizationId credentials call =>
    exact revises_getCurrentUser.bind fun _ => (revises_scalar.bind fun _ => revises_orRaise).bind fun _ =>
      revises_raiseIf.bind fun _ => revises_operation hrequest
  | createUsageEvent organizationId rawKey quantity =>
    have hprincipal : (getApiKeyPrincipal rt rawKey).Revises versions := revises_orRaise.bind fun _ =>
      revises_authenticateApiKey.bind fun _ =>
        (revises_of_within (within_enforceRateLimit fun _ _ _ => trivial)).bind fun _ => trivial
    exact hprincipal.bind fun _ => revises_raiseIf.bind fun _ => revises_recordUsage.bind fun _ => trivial
  | createOrganization credentials data =>
    exact revises_getCurrentUser.bind fun _ => revises_createOrganization.bind fun _ => trivial
  | acceptInvitation credentials token =>
    exact revises_getCurrentUser.bind fun _ => revises_acceptInvitation.bind fun _ => trivial
  | billingWebhook delivery => exact revises_billingWebhook
  | register email password => exact revises_registerUser.bind fun _ => trivial
  | login email password =>
    exact Revises.bind (revises_scalar.bind fun _ => revises_orRaise.bind fun _ =>
      revises_raiseIf.bind fun _ => trivial) fun _ => revises_issueTokens.bind fun _ => trivial
  | refresh refreshToken => exact revises_rotateRefreshToken.bind fun _ => trivial
  | logout refreshToken => exact revises_revokeRefreshToken.bind fun _ => trivial
  | listOrganizations credentials | me credentials =>
    exact revises_of_within (within_endpoint (fun _ _ _ => trivial) (by simp [Request.tables]) trivial)

theorem revises_handler {type : String} {handler : JobHandler} (h : buildHandlers rt type = some handler)
    (payload : List (String × Value)) : (handler payload).Revises versions := by
  have hcommit : (Prog.commitTransaction : App Unit).Revises versions := ⟨trivial, trivial⟩
  unfold buildHandlers at h
  split at h
  · rw [← Option.some.inj h]
    exact revises_of_within within_sendInvitationEmail
  · split at h
    · rw [← Option.some.inj h]
      refine (revises_of_within within_required).bind fun _ => Revises.handle ?_ fun _ => ?_
      · exact revises_sessionScope (revises_processWebhookEvent.bind fun _ => hcommit)
      · exact (revises_sessionScope (revises_markWebhookFailed.bind fun _ => hcommit)).bind fun _ => trivial
    · split at h
      · rw [← Option.some.inj h]
        exact revises_of_within (within_writeUsageRollup fun _ _ _ => trivial)
      · cases h

theorem revises_runForever (fuel polls : Nat) :
    ((defaultWorker rt).runForever rt fuel polls).Revises versions := by
  refine composed_runForever (K := fun _ p => p.Revises versions) (fun type handler hhandler payload => ?_)
    revises_composes fuel polls
  exact revises_handler hhandler payload

end Revises

/-! ### Requests that delete -/

section Deleting

variable {rt : Runtime} {T : Type} {P : Protocol schema Env T} {tag : T} {R : Exn → Assertion schema Env T}
  {D : versions.Deletions} {σ : Session schema} {s : Shared schema Env T}

theorem wp_cascade_revised {organizationId : Uuid} {tables : List Table} {Q : Unit → Assertion schema Env T}
    (hR : Harmless P R) (hof : ∀ t (row : Row t), tenantOf row = some organizationId → D.rows t row)
    (h : Revised P tag D σ s) (hQ : ∀ σ' s', Revised P tag D σ' s' → Q () σ' s') :
    wp P tag Q R (cascade organizationId tables) σ s := by
  induction tables generalizing σ s with
  | nil => exact hQ σ s h
  | cons t ts ih =>
    rw [cascade, Prog.bind_eq, wp_bind]
    refine wp_deleteMatching_revised hR.escapes (fun row hrow => hof t row ?_) h fun σ' s' h' => ih h'
    simpa using hrow

theorem wp_writeAudit_revised {organizationId : Uuid} {actorUserId : Option Uuid}
    {action resourceType resourceId : String} {metadata : List (String × Value)} {ipAddress : Option String}
    {Q : AuditLog → Assertion schema Env T} (hD : P.Tolerates Env.Drawn) (hR : Harmless P R)
    (hclean : σ.writes = .empty)
    (hQ : ∀ entry σ' s', Later P tag σ.locks s s' → σ.locks ⊆ σ'.locks → Revised P tag D σ' s' →
      Q entry σ' s') :
    wp P tag Q R
      (writeAudit organizationId actorUserId action resourceType resourceId metadata ipAddress) σ s := by
  refine wp_writeAudit hD hR fun entry σ' s' _ hlater hnow' hadded => ?_
  have hrevising : σ.Revising D s'.db := .of_writes_empty hclean
  refine hQ entry σ' s' hlater hadded.locks ⟨hnow', ?_⟩
  refine hrevising.put (.of_writes_empty hnow'.integral hclean) hadded.writes fun seen hseen => ?_
  rw [hadded.placed.1] at hseen
  cases hseen

theorem wp_deleteOrganization_revised {organizationId actorId : Uuid} {Q : Unit → Assertion schema Env T}
    (hD : P.Tolerates Env.Drawn) (hR : Harmless P R) (hclean : σ.writes = .empty)
    (hof : ∀ t (row : Row t), tenantOf row = some organizationId → D.rows t row)
    (hQ : ∀ σ' s', Revised P tag D σ' s' → Q () σ' s') :
    wp P tag Q R (deleteOrganization rt organizationId actorId) σ s := by
  rw [deleteOrganization, claimOrganization]
  simp only [Prog.bind_eq, wp_bind]
  have hclean' : ∀ t, σ.writes t = [] := fun t => by rw [hclean]; rfl
  refine wp_scalarJoinForUpdate hR.escapes (hclean' .organizations) (hclean' .memberships)
    (fun σ₁ s₁ h₁ _ => hR _ _ _ h₁.inv h₁.integral)
    fun organization owner σ₁ s₁ h₁ hext₁ hcond horg _ => ?_
  simp only [isMemberOrganization, Bool.and_eq_true, decide_eq_true_eq] at hcond
  have hid : organization.id = organizationId := hcond.1.1.2
  have hcopy : (σ.copyOf (t := .organizations) organization).id = organizationId :=
    (rowId_copyOf σ (t := .organizations) organization).trans hid
  have hclean₁ : (σ₁.attach (t := .organizations) organization).writes = .empty := by
    rw [Session.writes_attach, hext₁.writes, hclean]
  refine wp_writeAudit_revised (D := D) hD hR hclean₁ fun entry σ₂ s₂ h₂ hl₂ hrevised₂ => ?_
  rw [hcopy]
  have hdoomed : σ₂.Dooms D s₂.db .organizations organizationId := by
    obtain ⟨held, hmem, hkey, hmode, -⟩ := ((horg.frozen h₂.frozen).mono hl₂).held
    refine ⟨⟨held, hmem, hid ▸ hkey, by simp [hmode]⟩, fun row hrow => hof .organizations row ?_⟩
    exact congrArg some (Store.lookup_id hrow)
  exact wp_deleteRow_revised hR.escapes hrevised₂ hdoomed fun σ₃ s₃ h₃ => wp_cascade_revised hR hof h₃ hQ

/-- A session that wrote an entry and deleted a row that it had locked. -/
theorem revising_of_removed {t : Table} {row : Row t} {entry : AuditLog} {db : Db} (ht : t ≠ .auditLogs)
    (hw : σ.writes =
      ((.empty : Overlay schema).put Table.auditLogs entry.id (some entry)).put t (rowId row) none)
    (hvacant : σ.Vacant db .auditLogs entry.id) (hlocked : σ.Locked db row) (hrow : D.rows t row) :
    σ.Revising D db := by
  intro t' id version hfind old hold
  rw [hw] at hfind
  by_cases ht' : t' = t
  · subst ht'
    by_cases hid : id = rowId row
    · subst hid
      obtain rfl := Option.some.inj (hlocked.current.symm.trans hold)
      exact Or.inl hrow
    · rw [Overlay.find_put_id_ne _ _ hid, Overlay.find_put_table_ne _ ht] at hfind
      cases hfind
  · rw [Overlay.find_put_table_ne _ ht'] at hfind
    by_cases haudit : t' = .auditLogs
    · subst haudit
      by_cases hid : id = entry.id
      · subst hid
        rw [hvacant.current] at hold
        cases hold
      · rw [Overlay.find_put_id_ne _ _ hid] at hfind
        cases hfind
    · rw [Overlay.find_put_table_ne _ haudit] at hfind
      cases hfind

theorem wp_removeMembership_revised {organizationId membershipId actorId : Uuid}
    {Q : Unit → Assertion schema Env T} (hD : P.Tolerates Env.Drawn) (hR : Harmless P R)
    (hclean : σ.writes = .empty)
    (hof : ∀ row : Membership, isMembershipId organizationId membershipId row = true → D.rows .memberships row)
    (hQ : ∀ σ' s', Revised P tag D σ' s' → Q () σ' s') :
    wp P tag Q R (removeMembership rt organizationId membershipId actorId) σ s := by
  refine wp_removeMembership hD hR (by rw [hclean]; rfl) fun actorRow targetRow σ' s' hnow' hremoved => ?_
  obtain ⟨entry, hrecorded, hw⟩ := hremoved.written
  refine hQ σ' s' ⟨hnow', ?_⟩
  rw [hclean] at hw
  exact revising_of_removed (by decide) hw (hrecorded.vacant (by rw [hclean]; rfl))
    hremoved.locked.targetLocked (hof targetRow hremoved.locked.targetOf)

theorem wp_deleteProject_revised {organizationId projectId actorId : Uuid}
    {Q : Unit → Assertion schema Env T} (hD : P.Tolerates Env.Drawn) (hR : Harmless P R)
    (hclean : σ.writes = .empty)
    (hof : ∀ row : Project, isProjectId organizationId projectId row = true → D.rows .projects row)
    (hQ : ∀ σ' s', Revised P tag D σ' s' → Q () σ' s') :
    wp P tag Q R (deleteProject rt organizationId projectId actorId) σ s := by
  refine wp_deleteProject hD hR (by rw [hclean]; rfl) fun σ' s' hnow' hdeleted => ?_
  obtain ⟨entry, hrecorded, hw⟩ := hdeleted.written
  obtain ⟨project, hlocked, hproject⟩ := hdeleted.locked
  refine hQ σ' s' ⟨hnow', ?_⟩
  have hid : project.id = projectId := by
    simp only [isProjectId, Bool.and_eq_true, decide_eq_true_eq] at hproject
    exact hproject.1
  rw [hclean, ← hid] at hw
  exact revising_of_removed (by decide) hw (hrecorded.vacant (by rw [hclean]; rfl)) hlocked
    (hof project hproject)

end Deleting

/-! ### Whole runs -/

/-- A process of the deployment: a request in its session, or a worker. -/
inductive Party where
  | session (request : Request)
  | worker (fuel polls : Nat)

def Party.program (rt : Runtime) : Party → App (Option Response)
  | .session request => some <$> request.handle rt
  | .worker fuel polls => (fun _ => none) <$> (defaultWorker rt).runForever rt fuel polls

/-- The processes, none of which has done anything yet. -/
def startParties (rt : Runtime) (s : Shared schema Env Party) (parties : List Party) :
    World schema Env Exn Party (Option Response) :=
  World.start s parties fun party => party.program rt

/-- The rows that a process may delete. -/
def Party.deletes : Party → (t : Table) → Row t → Prop
  | .session request => request.deletes
  | .worker _ _ => fun _ _ => False

def Party.deletions (party : Party) : versions.Deletions where
  rows := party.deletes
  earlier t old new h hnew := by
    cases party with
    | session request => exact request.deletes_earlier t old new h hnew
    | worker fuel polls => exact hnew

/-- What the commits, newest first, have made of the rows of a database. -/
def Evolved (log : List (Commit schema Party)) (db db' : Db) : Prop :=
  ∀ t, ∀ row ∈ db t, (∃ row' ∈ db' t, rowId row' = rowId row ∧ NextVersion t row row') ∨
    ∃ c ∈ log, c.tag.deletes t row

/-- A request on its own. -/
theorem wp_request_revised {rt : Runtime} {request : Request} {s : Shared schema Env Party}
    (hnow : Interferes (Protocol.revisions versions Party.deletions) (.session request) .empty s s) :
    wp (Protocol.revisions versions Party.deletions) (.session request) (fun _ _ _ => True) (fun _ _ _ => True)
      (request.handle rt) .empty s := by
  have hlog : (Protocol.revisions (E := Env) versions Party.deletions).LogOnly := revisions_logOnly
  have hD := hlog.tolerates Env.Drawn
  by_cases hrequest : request.mayDelete = false
  · exact wp_mono (fun _ _ _ _ => trivial) (fun _ _ _ _ => trivial) _ _ _
      (wp_revises (revises_handle hrequest) hlog (fun _ _ h => h.allows) ⟨hnow, .of_writes_empty rfl⟩)
  · refine wp_getSession harmless_true ?_
    have hcommit : ∀ σ (s : Shared schema Env Party),
        Revised (Protocol.revisions versions Party.deletions) (.session request)
          (Party.deletions (.session request)) σ s → ∀ s',
        Interferes (Protocol.revisions versions Party.deletions) (.session request) σ s s' →
        (Protocol.revisions versions Party.deletions).Allows (.session request) σ s'
          (s'.commit (.session request) σ) ∧ True :=
      fun σ s h s' hs => ⟨(h.interferes hs).allows, trivial⟩
    cases request with
    | tenant organizationId credentials call =>
      refine wp_handle_tenant hD harmless_true hnow fun user membership σ₁ s₁ hentered hnow₁ => ?_
      cases call with
      | deleteOrganization =>
        simp only [TenantCall.operation, Prog.bind_eq, wp_bind]
        refine wp_deleteOrganization_revised (D := Party.deletions (.session _)) hD harmless_true
          hentered.writes (fun t row hof => ?_) hcommit
        exact hof
      | removeMember membershipId =>
        simp only [TenantCall.operation, Prog.bind_eq, wp_bind]
        refine wp_removeMembership_revised (D := Party.deletions (.session _)) hD harmless_true
          hentered.writes (fun row hrow => ?_) hcommit
        simp only [isMembershipId, Bool.and_eq_true, decide_eq_true_eq] at hrow
        exact ⟨rfl, hrow.1, congrArg some hrow.2⟩
      | deleteProject projectId =>
        simp only [TenantCall.operation, Prog.bind_eq, wp_bind]
        refine wp_deleteProject_revised (D := Party.deletions (.session _)) hD harmless_true
          hentered.writes (fun row hrow => ?_) hcommit
        simp only [isProjectId, Bool.and_eq_true, decide_eq_true_eq] at hrow
        exact ⟨rfl, hrow.1, congrArg some hrow.2⟩
      | _ => exact absurd rfl hrequest
    | _ => exact absurd rfl hrequest

theorem revised_of_reach {rt : Runtime} {s : Shared schema Env Party} {parties : List Party}
    {w : World schema Env Exn Party (Option Response)} (hdb : s.db.Integral) (hlog : s.log = [])
    (hreach : (startParties rt s parties).Reach w) :
    ∀ c ∈ w.shared.log, c.before.Revised c.tag.deletions c.after := by
  refine World.revised_of_reach (D := Party.deletions) hdb hlog (fun party _ => ?_) hreach
  have hinv : ∀ c ∈ s.log, c.before.Revised c.tag.deletions c.after := by
    intro c hc
    rw [hlog] at hc
    cases hc
  have hnow : Interferes (Protocol.revisions versions Party.deletions) party .empty s s :=
    .refl hinv hdb (.of_writes_empty hdb rfl)
  cases party with
  | session request =>
    rw [Party.program, Prog.map_eq, wp_bind]
    exact wp_mono (fun _ _ _ _ => trivial) (fun _ _ _ _ => trivial) _ _ _ (wp_request_revised hnow)
  | worker fuel polls =>
    refine wp_mono (fun _ _ _ _ => trivial) (fun _ _ _ _ => trivial) _ _ _
      (wp_revises (Revises.bind (revises_runForever fuel polls) fun _ => trivial) revisions_logOnly
        (fun _ _ h => h.allows) ⟨hnow, .of_writes_empty rfl⟩)

/-- **The life of every row**: whatever was there at the start, or was left by some commit, is there in a
later version, or a request that came after has deleted it. -/
theorem evolved_of_reach (rt : Runtime) {s : Shared schema Env Party} {parties : List Party}
    {w : World schema Env Exn Party (Option Response)} (hdb : s.db.Integral) (hlog : s.log = [])
    (hreach : (startParties rt s parties).Reach w) :
    Evolved w.shared.log s.db w.shared.db ∧
      (∀ c ∈ w.shared.log, Evolved [c] c.before c.after) ∧
        ∀ newer c older, w.shared.log = newer ++ c :: older → Evolved newer c.after w.shared.db := by
  have hrevised := revised_of_reach hdb hlog hreach
  have hleads := World.leads_of_reach hlog hreach
  refine ⟨fun t row hrow => hleads.revised hrevised hrow, fun c hc t row hrow => ?_,
    fun newer c older hsplit t row hrow => ?_⟩
  · rcases hrevised c hc t row hrow with hdead | hnext
    · exact Or.inr ⟨c, List.mem_cons_self, hdead⟩
    · exact Or.inl hnext
  · rw [hsplit] at hleads
    refine hleads.after.revised (fun c' hc' => hrevised c' ?_) hrow
    rw [hsplit]
    exact List.mem_append_left _ hc'

namespace Reference

/-- An owner renames a project and, at the same time, deletes its organization; a worker polls. -/
def closingDown : List Party :=
  [.session (.tenant 15 (bearer 1) (.updateProject 41 ⟨some "Archive", none, none⟩)),
    .session (.tenant 15 (bearer 1) .deleteOrganization), .worker 1 1]

def ownedProject : Tables :=
  { users := [user 1], organizations := [organization 15], memberships := [member 31 1 15 .owner],
    projects := [⟨41, 15, "Project", none, .active, 1, noon 0, noon 0⟩] }

def closeDown : World schema Env Exn Party (Option Response) :=
  (startParties runtime (shared Party daily ownedProject) closingDown).playAll
    ((List.replicate 60 [Move.run 0, .run 2]).flatten ++ List.replicate 60 (Move.run 1))

theorem evolved_of_closeDown :
    Evolved closeDown.shared.log ownedProject.db closeDown.shared.db ∧
      (∀ c ∈ closeDown.shared.log, Evolved [c] c.before c.after) ∧
        ∀ newer c older, closeDown.shared.log = newer ++ c :: older →
          Evolved newer c.after closeDown.shared.db :=
  evolved_of_reach (w := closeDown) runtime (ValidDb.integral (by decide +kernel)) rfl
    (World.reach_playAll _ _)

example : closeDown.shared.log.length = 2 := by decide +kernel

end Reference

end TenantForge
