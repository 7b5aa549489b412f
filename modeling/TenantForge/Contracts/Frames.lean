import TenantForge.Api.Routes
import TenantForge.AppRules
import TenantForge.ReadCommitted.CommitsLast
/-!
# Frames of the operations

The tables that each operation may write. Nothing is said here about what it writes; the other modules
of this folder do that for the operations that the claims are about.
-/

namespace TenantForge

open Gregorian ReadCommitted ReadCommitted.Prog

variable {W : Table → Prop} {D : Env → Env → Prop} {C : Prop} {α : Type} {rt : Runtime}

section Helpers

theorem within_raiseIf {condition : Prop} [Decidable condition] {error : Exn} :
    (raiseIf condition error).Within W D C := by
  rw [raiseIf]
  split <;> trivial

theorem within_runIf {condition : Prop} [Decidable condition] {body : App Unit}
    (h : body.Within W D C) : (runIf condition body).Within W D C := by
  rw [runIf]
  split
  · exact h
  · trivial

theorem within_orRaise {result : Option α} {error : Exn} : (orRaise result error).Within W D C := by
  cases result <;> trivial

theorem within_ofExcept {result : Except Exn α} : (ofExcept result).Within W D C := by
  cases result <;> trivial

theorem within_addRow {t : Table} {row : Row t} (ht : W t) : (addRow t row).Within W D C :=
  (within_insertRow.mpr ht).bind fun ok => by cases ok <;> trivial

theorem within_flushUpdate {t : Table} {id : Uuid} {set : Row t → Row t} (ht : W t) :
    (flushUpdate t id set).Within W D C :=
  (within_updateRow.mpr ht).bind fun result => by cases result <;> trivial

theorem within_refresh {t : Table} {id : Uuid} : (refresh t id).Within W D C :=
  (within_query _).bind fun row => by cases row <;> trivial

theorem within_exceptIntegrityError {error : Exn} {body : App α} (h : body.Within W D C) :
    (exceptIntegrityError error body).Within W D C := by
  refine h.handle fun exc => ?_
  split <;> trivial

theorem within_joinForUpdate {t t' : Table} {cond : Row t → Row t' → Bool} :
    (scalarJoinForUpdate (S := schema) t t' cond : App (Option (Row t))).Within W D C := by
  refine ((within_query _).bind fun ids => ?_).bind fun pairs => within_first _
  induction ids with
  | nil => trivial
  | cons id ids ih => exact ⟨⟨⟨fun _ => ih.bind fun _ => trivial, trivial⟩, trivial⟩, trivial⟩

theorem within_sessionScope {body : App α} (h : body.Within W D C) : (sessionScope body).Within W D C := by
  refine Within.handle (Within.bind h fun _ => ?_) fun _ => ?_ <;> trivial

/-- A request whose body commits nothing itself commits last. -/
theorem commitsLast_getSession {body : App α} (h : body.Within W D False) :
    (getSession body).CommitsLast := by
  refine CommitsLast.handle (CommitsLast.bind h fun result => ?_) fun exc => trivial
  exact ⟨⟨result, rfl⟩, trivial⟩

end Helpers

/-! ### Services -/

section Services

variable (hD : ∀ e e' : Env, e.Drawn e' → D e e')

include hD

theorem within_now : now.Within W D C := within_act.mpr fun e => hD _ _ e.drawn_now

theorem within_databaseNow : databaseNow.Within W D C :=
  within_act.mpr fun e => hD _ _ e.drawn_databaseNow

theorem within_tokenUrlsafe : tokenUrlsafe.Within W D C :=
  within_act.mpr fun e => hD _ _ e.drawn_tokenUrlsafe

theorem within_nowOr {at? : Option DateTime} : (nowOr at?).Within W D C := by
  cases at? with
  | none => exact within_now hD
  | some t => trivial

theorem within_writeAudit {organizationId : Uuid} {actorUserId : Option Uuid}
    {action resourceType resourceId : String} {metadata : List (String × Value)}
    {ipAddress : Option String} (ha : W .auditLogs) :
    (writeAudit organizationId actorUserId action resourceType resourceId metadata
      ipAddress).Within W D C :=
  within_freshId.bind fun _ => (within_databaseNow hD).bind fun _ => (within_addRow ha).bind fun _ =>
    trivial

theorem within_enforceRateLimit {identifier : String} : (enforceRateLimit identifier).Within W D C := by
  refine Within.bind (within_act.mpr fun e => hD _ _ e.drawn_check) fun verdict => ?_
  split <;> trivial

theorem within_getCurrentUser {credentials : Option Credentials} :
    (getCurrentUser rt credentials).Within W D C :=
  within_orRaise.bind fun _ => (within_now hD).bind fun _ => within_orRaise.bind fun _ =>
    within_scalar.bind fun _ => within_orRaise.bind fun _ =>
      (within_enforceRateLimit hD).bind fun _ => trivial

theorem within_updateOrganization {organizationId actorId : Uuid} {data : OrganizationUpdate}
    (ho : W .organizations) (ha : W .auditLogs) :
    (updateOrganization rt organizationId actorId data).Within W D C :=
  within_joinForUpdate.bind fun _ => within_orRaise.bind fun _ =>
    (within_exceptIntegrityError (within_runIf ((within_databaseNow hD).bind fun _ =>
      within_flushUpdate ho))).bind fun _ => within_refresh.bind fun _ =>
        (within_writeAudit hD ha).bind fun _ => trivial

theorem within_createDefaultSubscription {organizationId : Uuid} {at? : Option DateTime}
    (hs : W .subscriptions) : (createDefaultSubscription organizationId at?).Within W D C :=
  (within_nowOr hD).bind fun _ => within_orRaise.bind fun _ => within_freshId.bind fun _ =>
    (within_databaseNow hD).bind fun _ => (within_addRow hs).bind fun _ => trivial

theorem within_createOrganization {actor : User} {data : OrganizationCreate}
    (hW : ∀ t ∈ [Table.organizations, .memberships, .subscriptions, .auditLogs], W t) :
    (createOrganization rt actor data).Within W D C :=
  (within_query _).bind fun _ => within_raiseIf.bind fun _ => within_freshId.bind fun _ =>
    (within_databaseNow hD).bind fun _ => (within_exceptIntegrityError
      ((within_addRow (hW _ (by decide))).bind fun _ => within_freshId.bind fun _ =>
        (within_databaseNow hD).bind fun _ => (within_addRow (hW _ (by decide))).bind fun _ =>
          (within_createDefaultSubscription hD (hW _ (by decide))).bind fun _ => by trivial)).bind
            fun _ => within_refresh.bind fun _ =>
              (within_writeAudit hD (hW _ (by decide))).bind fun _ => trivial

theorem within_deleteOrganization {organizationId actorId : Uuid} (ho : W .organizations)
    (hc : ∀ t ∈ childTables, W t) : (deleteOrganization rt organizationId actorId).Within W D C := by
  have hcascade : ∀ (id : Uuid) (tables : List Table), (∀ t ∈ tables, W t) →
      (cascade id tables).Within W D C := fun id tables htables => by
    induction tables with
    | nil => trivial
    | cons t ts ih =>
      obtain ⟨ht, hts⟩ := List.forall_mem_cons.mp htables
      exact (within_deleteMatching ht).bind fun _ => ih hts
  have hclaim : (claimOrganization rt organizationId actorId).Within W D C :=
    within_joinForUpdate.bind fun _ => within_orRaise.bind fun _ =>
      (within_writeAudit hD (hc _ (by decide))).bind fun _ => (within_deleteRow.mpr ho).bind fun _ => trivial
  exact hclaim.bind fun id => hcascade id _ hc

omit hD in
theorem within_ensureAnotherOwner {organizationId excluded : Uuid} :
    (ensureAnotherOwner organizationId excluded).Within W D C :=
  within_selectForUpdate.bind fun _ => within_raiseIf

omit hD in
theorem within_lockMembership {organizationId membershipId : Uuid} :
    (lockMembership organizationId membershipId).Within W D C :=
  within_scalarForUpdate.bind fun _ => within_orRaise

theorem within_updateMembership {organizationId membershipId actorId : Uuid} {newRole : Role}
    (hm : W .memberships) (ha : W .auditLogs) :
    (updateMembership rt organizationId membershipId actorId newRole).Within W D C :=
  (within_scalarForUpdate.bind fun _ => within_orRaise).bind fun _ => within_lockMembership.bind
    fun _ => within_raiseIf.bind fun _ => within_raiseIf.bind fun _ =>
      (within_runIf within_ensureAnotherOwner).bind fun _ =>
        (within_runIf (within_flushUpdate hm)).bind fun _ => (within_writeAudit hD ha).bind fun _ =>
          trivial

theorem within_removeMembership {organizationId membershipId actorId : Uuid} (hm : W .memberships)
    (ha : W .auditLogs) : (removeMembership rt organizationId membershipId actorId).Within W D C :=
  (within_scalarForUpdate.bind fun _ => within_orRaise).bind fun _ => within_lockMembership.bind
    fun _ => within_raiseIf.bind fun _ => within_raiseIf.bind fun _ =>
      (within_runIf within_ensureAnotherOwner).bind fun _ => (within_writeAudit hD ha).bind fun _ =>
        within_deleteRow.mpr hm

theorem within_createInvitation {organizationId actorId : Uuid} {data : InvitationCreate}
    (hi : W .invitations) (ha : W .auditLogs) :
    (createInvitation rt organizationId actorId data).Within W D C := by
  have hrole : ∀ actorRole : Role, (ensureInvitationRole actorRole data.role).Within W D C := by
    intro actorRole
    rw [ensureInvitationRole]
    split
    · trivial
    · split <;> trivial
  exact (within_selectForUpdate.bind fun _ => within_raiseIf).bind fun _ =>
    (within_scalarForUpdate.bind fun _ => within_orRaise).bind fun _ => (hrole _).bind fun _ =>
      (within_now hD).bind fun _ => (within_query _).bind fun _ => within_raiseIf.bind fun _ =>
        (within_query _).bind fun _ => within_raiseIf.bind fun _ =>
          (within_tokenUrlsafe hD).bind fun _ => within_orRaise.bind fun _ =>
            within_freshId.bind fun _ => (within_addRow hi).bind fun _ =>
              within_refresh.bind fun _ => (within_writeAudit hD ha).bind fun _ => trivial

theorem within_generateApiKey : generateApiKey.Within W D C :=
  (within_tokenUrlsafe hD).bind fun _ => trivial

theorem within_createApiKey {organizationId actorId : Uuid} {name : String} (hk : W .apiKeys)
    (ha : W .auditLogs) : (createApiKey rt organizationId actorId name).Within W D C :=
  (within_scalarForUpdate.bind fun _ => within_orRaise).bind fun _ =>
    (within_generateApiKey hD).bind fun _ => within_freshId.bind fun _ =>
      (within_databaseNow hD).bind fun _ => (within_addRow hk).bind fun _ =>
        within_refresh.bind fun _ => (within_writeAudit hD ha).bind fun _ => trivial

theorem within_revokeApiKey {organizationId keyId actorId : Uuid} (hk : W .apiKeys)
    (ha : W .auditLogs) : (revokeApiKey rt organizationId keyId actorId).Within W D C :=
  (within_scalarForUpdate.bind fun _ => within_orRaise).bind fun _ =>
    within_scalarForUpdate.bind fun _ => within_orRaise.bind fun _ => within_runIf <|
      (within_now hD).bind fun _ => (within_flushUpdate hk).bind fun _ =>
        (within_writeAudit hD ha).bind fun _ => trivial

theorem within_createProject {organizationId actorId : Uuid} {data : ProjectCreate} (hp : W .projects)
    (ha : W .auditLogs) : (createProject rt organizationId actorId data).Within W D C :=
  (within_query _).bind fun _ => within_raiseIf.bind fun _ => within_freshId.bind fun _ =>
    (within_databaseNow hD).bind fun _ => (within_addRow hp).bind fun _ =>
      within_refresh.bind fun _ => (within_writeAudit hD ha).bind fun _ => trivial

omit hD in
theorem within_lockProject {organizationId projectId actorId : Uuid} :
    (lockProject organizationId projectId actorId).Within W D C :=
  (within_query _).bind fun _ => (within_lockMatching _).bind fun _ =>
    (within_first _).bind fun _ => within_orRaise

theorem within_updateProject {organizationId projectId actorId : Uuid} {data : ProjectUpdate}
    (hp : W .projects) (ha : W .auditLogs) :
    (updateProject rt organizationId projectId actorId data).Within W D C :=
  within_lockProject.bind fun _ =>
    (within_runIf ((within_databaseNow hD).bind fun _ => within_flushUpdate hp)).bind fun _ =>
      within_refresh.bind fun _ => (within_writeAudit hD ha).bind fun _ => trivial

theorem within_deleteProject {organizationId projectId actorId : Uuid} (hp : W .projects)
    (ha : W .auditLogs) : (deleteProject rt organizationId projectId actorId).Within W D C :=
  within_lockProject.bind fun _ => (within_writeAudit hD ha).bind fun _ => within_deleteRow.mpr hp

theorem within_getUsageSummary {organizationId : Uuid} {metric : String} {at? : Option DateTime} :
    (getUsageSummary organizationId metric at?).Within W D C :=
  (within_query _).bind fun _ => within_raiseIf.bind fun _ => within_scalar.bind fun _ =>
    (within_nowOr hD).bind fun _ => within_orRaise.bind fun _ => (within_query _).bind fun _ => trivial

theorem within_changePlan {organizationId actorUserId : Uuid} {plan : Plan} {ipAddress : Option String}
    {at? : Option DateTime} (hs : W .subscriptions) (ha : W .auditLogs) :
    (changePlan rt organizationId plan actorUserId ipAddress at?).Within W D C := by
  have hget : (getOrCreateSubscription organizationId at?).Within W D C := by
    refine within_scalarForUpdate.bind fun _ => within_orRaise.bind fun _ =>
      within_scalar.bind fun subscription => ?_
    cases subscription with
    | some subscription => trivial
    | none => exact within_createDefaultSubscription hD hs
  exact hget.bind fun _ => (within_nowOr hD).bind fun _ => within_orRaise.bind fun _ =>
    (within_runIf ((within_databaseNow hD).bind fun _ => within_flushUpdate hs)).bind fun _ =>
      (within_runIf ((within_writeAudit hD ha).bind fun _ => by trivial)).bind fun _ => within_refresh

theorem within_recordUsage {organizationId : Uuid} {metric : String} {quantity : Int}
    {at? : Option DateTime} (hu : W .usageEvents) :
    (recordUsage organizationId metric quantity at?).Within W D C :=
  within_raiseIf.bind fun _ => within_scalarForUpdate.bind fun _ => within_orRaise.bind fun _ =>
    within_scalar.bind fun _ => (within_nowOr hD).bind fun _ => within_orRaise.bind fun _ =>
      (within_query _).bind fun _ => (within_runIf ((within_nowOr hD).bind fun _ => by trivial)).bind
        fun _ => (within_nowOr hD).bind fun _ => within_freshId.bind fun _ =>
          (within_addRow hu).bind fun _ => trivial

theorem within_getApiKeyPrincipal {rawKey : Option String} (hk : W .apiKeys) :
    (getApiKeyPrincipal rt rawKey).Within W D C := by
  have hkey : ∀ key, (authenticateApiKey rt key).Within W D C := fun key =>
    within_raiseIf.bind fun _ => within_scalar.bind fun _ => within_orRaise.bind fun _ =>
      (within_now hD).bind fun _ => (within_runIf (within_flushUpdate hk)).bind fun _ => trivial
  exact within_orRaise.bind fun _ => (hkey _).bind fun _ =>
    (within_enforceRateLimit hD).bind fun _ => trivial

theorem within_validateWebhook {event : BillingWebhook} : (validateWebhook rt event).Within W D C := by
  have hperiod : ∀ object, (validateSubscription rt object).Within W D C := fun object =>
    within_raiseIf.bind fun _ => within_raiseIf.bind fun _ => within_raiseIf.bind fun _ =>
      (within_runIf ((within_now hD).bind fun _ => within_orRaise.bind fun _ =>
        (within_now hD).bind fun _ => within_orRaise.bind fun _ => within_raiseIf)).bind fun _ =>
          within_raiseIf.bind fun _ => within_raiseIf
  exact within_raiseIf.bind fun _ => within_orRaise.bind fun _ => within_raiseIf.bind fun _ =>
    (within_runIf (hperiod _)).bind fun _ => trivial

theorem within_storeWebhookEvent {event : BillingWebhook} (hw : W .webhookEvents) :
    (storeWebhookEvent event).Within W D C := by
  refine within_scalar.bind fun existing => ?_
  cases existing with
  | some existing => trivial
  | none =>
    refine within_freshId.bind fun _ => (within_databaseNow hD).bind fun _ =>
      (within_insertRow.mpr hw).bind fun inserted => ?_
    cases inserted with
    | true => trivial
    | false => exact within_scalar.bind fun _ => within_orRaise.bind fun _ => trivial

theorem within_processWebhookEvent {webhookEventId : String} {at? : Option DateTime}
    (hw : W .webhookEvents) (hs : W .subscriptions) (ha : W .auditLogs) :
    (processWebhookEvent rt webhookEventId at?).Within W D C := by
  have hlock : ∀ organizationId, (lockedSubscription organizationId).Within W D C := fun organizationId =>
    within_scalarForUpdate.bind fun _ => within_orRaise.bind fun _ =>
      within_scalarForUpdate.bind fun subscription => by
        cases subscription with
        | some subscription => trivial
        | none => exact within_createDefaultSubscription hD hs
  refine within_orRaise.bind fun _ => within_scalarForUpdate.bind fun _ => within_orRaise.bind fun event => ?_
  split
  · trivial
  · exact within_orRaise.bind fun _ => (within_validateWebhook hD).bind fun _ =>
      within_orRaise.bind fun _ => (hlock _).bind fun _ => (within_nowOr hD).bind fun _ =>
        within_orRaise.bind fun _ => within_ofExcept.bind fun _ =>
          (within_runIf ((within_databaseNow hD).bind fun _ => within_flushUpdate hs)).bind fun _ =>
            (within_writeAudit hD ha).bind fun _ => (within_nowOr hD).bind fun _ =>
              (within_flushUpdate hw).bind fun _ => trivial

omit hD in
theorem within_markWebhookFailed {webhookEventId : String} (hw : W .webhookEvents) :
    (markWebhookFailed rt webhookEventId).Within W D C := by
  refine within_orRaise.bind fun _ => within_scalarForUpdate.bind fun event => ?_
  cases event with
  | none => trivial
  | some event => exact within_runIf (within_flushUpdate hw)

theorem within_acceptInvitation {rawToken : String} {user : User} (hi : W .invitations)
    (hm : W .memberships) (ha : W .auditLogs) : (acceptInvitation rt rawToken user).Within W D C :=
  (within_now hD).bind fun _ => within_scalarForUpdate.bind fun _ => within_orRaise.bind fun _ =>
    within_raiseIf.bind fun _ => within_raiseIf.bind fun _ => within_raiseIf.bind fun _ =>
      (within_query _).bind fun _ => within_raiseIf.bind fun _ =>
        (within_exceptIntegrityError ((within_flushUpdate hi).bind fun _ => within_freshId.bind fun _ =>
          (within_databaseNow hD).bind fun _ => (within_addRow hm).bind fun _ => by trivial)).bind fun _ =>
            within_refresh.bind fun _ => (within_writeAudit hD ha).bind fun _ => trivial

theorem within_registerUser {email password : String} (hu : W .users) :
    (registerUser rt email password).Within W D C :=
  (within_query _).bind fun _ => within_raiseIf.bind fun _ => within_freshId.bind fun _ =>
    (within_databaseNow hD).bind fun _ =>
      (within_exceptIntegrityError (within_addRow hu)).bind fun _ => within_refresh

theorem within_createAccessToken {userId : Uuid} : (createAccessToken rt userId).Within W D C :=
  (within_now hD).bind fun _ => within_freshId.bind fun _ => trivial

theorem within_issueTokens {user : User} (hr : W .refreshTokens) : (issueTokens rt user).Within W D C :=
  within_raiseIf.bind fun _ => (within_now hD).bind fun _ => (within_tokenUrlsafe hD).bind fun _ =>
    within_orRaise.bind fun _ => (within_createAccessToken hD).bind fun _ =>
      within_freshId.bind fun _ => (within_addRow hr).bind fun _ => trivial

theorem within_rotateRefreshToken {rawToken : String} (hr : W .refreshTokens) :
    (rotateRefreshToken rt rawToken).Within W D C :=
  (within_now hD).bind fun _ => within_scalarForUpdate.bind fun _ => within_orRaise.bind fun _ =>
    within_raiseIf.bind fun _ => within_raiseIf.bind fun _ => within_scalar.bind fun _ =>
      within_orRaise.bind fun _ => within_raiseIf.bind fun _ => (within_flushUpdate hr).bind fun _ =>
        within_issueTokens hD hr

theorem within_revokeRefreshToken {rawToken : String} (hr : W .refreshTokens) :
    (revokeRefreshToken rt rawToken).Within W D C :=
  within_scalarForUpdate.bind fun _ => within_orRaise.bind fun _ => within_runIf <|
    (within_now hD).bind fun _ => within_flushUpdate hr

end Services

/-! ### The queue -/

section Queue

variable (hD : ∀ e e' : Env, e.Onward e' → D e e')

include hD

theorem within_redisCommand {β : Type} {command : Env → β × Env}
    (hcommand : ∀ e : Env, e.Onward (command e).2) : (redisCommand command).Within W D C := by
  refine Within.bind (within_act.mpr fun e => hD _ _ ?_) fun _ => within_orRaise
  dsimp only
  split
  · exact ⟨rfl, le_rfl, rfl, le_rfl⟩
  · have hsent := hcommand { e with commands := e.commands + 1 }
    exact ⟨hsent.clock, hsent.ticks, hsent.tokens, hsent.issued⟩

theorem within_enqueue {type : String} {payload : List (String × Value)} :
    (RedisJobQueue.enqueue rt type payload).Within W D C := by
  have hcreate : (Job.create rt type payload).Within W D C :=
    within_raiseIf.bind fun _ => within_freshId.bind fun _ =>
      (within_now fun e e' h => hD e e' h.onward).bind fun _ => trivial
  exact hcreate.bind fun _ => (within_redisCommand hD fun _ => ⟨rfl, le_rfl, rfl, le_rfl⟩).bind fun _ => trivial

theorem within_sendInvitation {email token : String} {organizationId invitationId : Uuid} :
    (sendInvitation rt email organizationId invitationId token).Within W D C := by
  refine within_raiseIf.bind fun _ => Within.handle ?_ fun exc => ?_
  · exact (within_enqueue hD).bind fun _ => trivial
  · split <;> trivial

theorem within_billingWebhook {delivery : Delivery} (hw : W .webhookEvents) (hC : C) :
    (billingWebhook rt delivery).Within W D C := by
  have hdrawn : ∀ e e' : Env, e.Drawn e' → D e e' := fun e e' h => hD e e' h.onward
  exact within_ofExcept.bind fun _ => within_orRaise.bind fun _ =>
    (within_validateWebhook hdrawn).bind fun _ => (within_storeWebhookEvent hdrawn hw).bind fun _ =>
      (within_commit hC).bind fun _ =>
        (within_runIf ((within_enqueue hD).bind fun _ => by trivial)).bind fun _ => trivial

/-- The mail of an invitation goes to the queue, whatever becomes of it. -/
theorem within_mail {result : Invitation × String} :
    ((sendInvitation rt result.1.email result.1.organizationId result.1.id result.2).handle fun exc =>
      if exc = .invitationDeliveryError then .pure () else .throw exc).Within W D C :=
  (within_sendInvitation hD).handle fun exc => by split <;> trivial

theorem within_createInvitationRoute {organizationId : Uuid} {user : User} {data : InvitationCreate}
    (hi : W .invitations) (ha : W .auditLogs) (hC : C) :
    (createInvitationRoute rt organizationId user data).Within W D C :=
  (within_createInvitation (fun e e' h => hD e e' h.onward) hi ha).bind fun _ =>
    (within_commit hC).bind fun _ => Within.bind (within_mail hD) fun _ => trivial

end Queue

/-! ### Requests -/

/-- The tables that a call may write. -/
def TenantCall.tables : TenantCall → List Table
  | .getOrganization | .listMembers | .listApiKeys | .listProjects | .getProject _ => []
  | .readUsage | .readSubscription | .readAuditLog _ _ => []
  | .updateOrganization _ => [.organizations, .auditLogs]
  | .deleteOrganization => .organizations :: childTables
  | .updateMember _ _ | .removeMember _ => [.memberships, .auditLogs]
  | .createInvitation _ => [.invitations, .auditLogs]
  | .createApiKey _ | .revokeApiKey _ => [.apiKeys, .auditLogs]
  | .createProject _ | .updateProject _ _ | .deleteProject _ => [.projects, .auditLogs]
  | .changePlan _ _ => [.subscriptions, .auditLogs]

/-- The tables that a request may write. -/
def Request.tables : Request → List Table
  | .tenant _ _ call => call.tables
  | .createUsageEvent _ _ _ => [.apiKeys, .usageEvents]
  | .createOrganization _ _ => [.organizations, .memberships, .subscriptions, .auditLogs]
  | .acceptInvitation _ _ => [.invitations, .memberships, .auditLogs]
  | .billingWebhook _ => [.webhookEvents]
  | .register _ _ => [.users]
  | .login _ _ | .refresh _ | .logout _ => [.refreshTokens]
  | .listOrganizations _ | .me _ => []

/-- The invitation route commits before its mail is sent. -/
def TenantCall.commitsEarly : TenantCall → Bool
  | .createInvitation _ => true
  | _ => false

/-- The requests that commit before their endpoint is through: the mail of an invitation is sent, and the
job of a webhook event enqueued, after the commit. -/
def Request.commitsEarly : Request → Bool
  | .tenant _ _ call => call.commitsEarly
  | .billingWebhook _ => true
  | _ => false

/-- The tables that a request on neither members nor invitations writes. -/
def OutsideMembers (t : Table) : Prop := t ≠ .memberships ∧ t ≠ .invitations

section Requests

variable (hD : ∀ e e' : Env, e.Onward e' → D e e')

include hD

theorem within_operation_early {organizationId : Uuid} {user : User} {membership : Membership}
    {call : TenantCall} (hW : ∀ t ∈ call.tables, W t) (hC : call.commitsEarly = true → C) :
    (call.operation rt organizationId user membership).Within W D C := by
  have hdrawn : ∀ e e' : Env, e.Drawn e' → D e e' := fun e e' h => hD e e' h.onward
  cases call with
  | getOrganization =>
    exact Within.bind ((within_query _).bind fun _ => (within_first _).bind fun _ => within_orRaise)
      fun _ => trivial
  | updateOrganization data =>
    exact (within_updateOrganization hdrawn (hW _ (by simp [TenantCall.tables])) (hW _ (by simp [TenantCall.tables]))).bind fun _ => trivial
  | deleteOrganization =>
    exact (within_deleteOrganization hdrawn (hW _ (by simp [TenantCall.tables])) fun t ht =>
      hW t (List.mem_cons_of_mem _ ht)).bind fun _ => trivial
  | listMembers =>
    exact Within.bind ((within_query _).bind fun _ => (within_attachAll _).bind fun _ => trivial)
      fun _ => trivial
  | updateMember membershipId role =>
    exact (within_updateMembership hdrawn (hW _ (by simp [TenantCall.tables])) (hW _ (by simp [TenantCall.tables]))).bind fun _ => trivial
  | removeMember membershipId =>
    exact (within_removeMembership hdrawn (hW _ (by simp [TenantCall.tables])) (hW _ (by simp [TenantCall.tables]))).bind fun _ => trivial
  | createInvitation data =>
    exact within_createInvitationRoute hD (hW _ (by simp [TenantCall.tables])) (hW _ (by simp [TenantCall.tables]))
      (hC rfl)
  | createApiKey name =>
    exact (within_createApiKey hdrawn (hW _ (by simp [TenantCall.tables])) (hW _ (by simp [TenantCall.tables]))).bind fun _ => trivial
  | listApiKeys =>
    exact Within.bind ((within_query _).bind fun _ => within_attachAll _) fun _ => trivial
  | revokeApiKey keyId =>
    exact (within_revokeApiKey hdrawn (hW _ (by simp [TenantCall.tables])) (hW _ (by simp [TenantCall.tables]))).bind fun _ => trivial
  | createProject data =>
    exact (within_createProject hdrawn (hW _ (by simp [TenantCall.tables])) (hW _ (by simp [TenantCall.tables]))).bind fun _ => trivial
  | listProjects =>
    exact Within.bind ((within_query _).bind fun _ => within_attachAll _) fun _ => trivial
  | getProject projectId =>
    exact Within.bind ((within_query _).bind fun _ => (within_first _).bind fun _ => within_orRaise)
      fun _ => trivial
  | updateProject projectId data =>
    exact (within_updateProject hdrawn (hW _ (by simp [TenantCall.tables])) (hW _ (by simp [TenantCall.tables]))).bind fun _ => trivial
  | deleteProject projectId =>
    exact (within_deleteProject hdrawn (hW _ (by simp [TenantCall.tables])) (hW _ (by simp [TenantCall.tables]))).bind fun _ => trivial
  | readUsage => exact (within_getUsageSummary hdrawn).bind fun _ => trivial
  | readSubscription =>
    exact Within.bind (within_scalar.bind fun _ => within_orRaise) fun _ => trivial
  | changePlan plan ipAddress =>
    exact within_raiseIf.bind fun _ =>
      (within_changePlan hdrawn (hW _ (by simp [TenantCall.tables])) (hW _ (by simp [TenantCall.tables]))).bind fun _ => trivial
  | readAuditLog limit offset =>
    exact Within.bind ((within_query _).bind fun _ => within_attachAll _) fun _ => trivial

theorem within_operation {organizationId : Uuid} {user : User} {membership : Membership}
    {call : TenantCall} (hW : ∀ t ∈ call.tables, W t) (hC : C) :
    (call.operation rt organizationId user membership).Within W D C :=
  within_operation_early hD hW fun _ => hC

theorem within_endpoint_early {request : Request} (hW : ∀ t ∈ request.tables, W t)
    (hC : request.commitsEarly = true → C) :
    (request.endpoint rt).Within W D C := by
  have hdrawn : ∀ e e' : Env, e.Drawn e' → D e e' := fun e e' h => hD e e' h.onward
  cases request with
  | tenant organizationId credentials call =>
    exact (within_getCurrentUser hdrawn).bind fun _ =>
      Within.bind (within_scalar.bind fun _ => within_orRaise) fun _ => within_raiseIf.bind fun _ =>
        within_operation_early hD hW hC
  | createUsageEvent organizationId rawKey quantity =>
    exact (within_getApiKeyPrincipal hdrawn (hW _ (by simp [Request.tables]))).bind fun _ =>
      within_raiseIf.bind fun _ =>
        (within_recordUsage hdrawn (hW _ (by simp [Request.tables]))).bind fun _ => trivial
  | createOrganization credentials data =>
    exact (within_getCurrentUser hdrawn).bind fun _ =>
      (within_createOrganization hdrawn fun t ht => hW t ht).bind fun _ => trivial
  | listOrganizations credentials =>
    exact (within_getCurrentUser hdrawn).bind fun _ =>
      Within.bind ((within_query _).bind fun _ => within_attachAll _) fun _ => trivial
  | acceptInvitation credentials token =>
    exact (within_getCurrentUser hdrawn).bind fun _ =>
      (within_acceptInvitation hdrawn (hW _ (by simp [Request.tables])) (hW _ (by simp [Request.tables]))
        (hW _ (by simp [Request.tables]))).bind fun _ => trivial
  | billingWebhook delivery => exact within_billingWebhook hD (hW _ (by simp [Request.tables])) (hC rfl)
  | register email password =>
    exact (within_registerUser hdrawn (hW _ (by simp [Request.tables]))).bind fun _ => trivial
  | login email password =>
    refine Within.bind (within_scalar.bind fun _ => within_orRaise.bind fun _ =>
      within_raiseIf.bind fun _ => trivial) fun _ => ?_
    exact (within_issueTokens hdrawn (hW _ (by simp [Request.tables]))).bind fun _ => trivial
  | refresh refreshToken =>
    exact (within_rotateRefreshToken hdrawn (hW _ (by simp [Request.tables]))).bind fun _ => trivial
  | logout refreshToken =>
    exact (within_revokeRefreshToken hdrawn (hW _ (by simp [Request.tables]))).bind fun _ => trivial
  | me credentials => exact (within_getCurrentUser hdrawn).bind fun _ => trivial

/-- **The frame of a request**. -/
theorem within_endpoint {request : Request} (hW : ∀ t ∈ request.tables, W t) (hC : C) :
    (request.endpoint rt).Within W D C :=
  within_endpoint_early hD hW fun _ => hC

/-- The frame of a request with its session. -/
theorem within_request {request : Request} (hW : ∀ t ∈ request.tables, W t) (hC : C) :
    (request.handle rt).Within W D C :=
  Within.handle ((within_endpoint hD hW hC).bind fun _ => (within_commit hC).bind fun _ => trivial)
    fun _ => trivial

end Requests

end TenantForge
