import TenantForge.Contracts.ApiKeys
import TenantForge.Contracts.Invitations
import TenantForge.Contracts.Memberships
import TenantForge.Contracts.Organizations
import TenantForge.Contracts.Projects
import TenantForge.Contracts.Webhooks
import TenantForge.Exchanges
import TenantForge.Reference.Runtime
/-!
# Completeness of the audit log

A committed operation adds exactly one entry to the audit log, which names the organization, the actor
and the resource, and an operation that raises adds none (`audited_iff`). The exception is
`delete_organization`: its entry belongs to the deleted organization and is swept away by the cascade
that it triggers itself.
-/

namespace TenantForge

open Gregorian ReadCommitted

inductive AuditedOperation where
  | createOrganization (actor : User) (data : OrganizationCreate)
  | updateOrganization (organizationId actorId : Uuid) (data : OrganizationUpdate)
  | deleteOrganization (organizationId actorId : Uuid)
  | updateMembership (organizationId membershipId actorId : Uuid) (newRole : Role)
  | removeMembership (organizationId membershipId actorId : Uuid)
  | createInvitation (organizationId actorId : Uuid) (data : InvitationCreate)
  | acceptInvitation (rawToken : String) (user : User)
  | createApiKey (organizationId actorId : Uuid) (name : String)
  | revokeApiKey (organizationId keyId actorId : Uuid)
  | createProject (organizationId actorId : Uuid) (data : ProjectCreate)
  | updateProject (organizationId projectId actorId : Uuid) (data : ProjectUpdate)
  | deleteProject (organizationId projectId actorId : Uuid)
  | processWebhookEvent (webhookEventId : String) (at? : Option DateTime)

namespace AuditedOperation

/-- What the operation returns. -/
def Result : AuditedOperation → Type
  | createOrganization _ _ | updateOrganization _ _ _ => Organization
  | updateMembership _ _ _ _ | acceptInvitation _ _ => Membership
  | createInvitation _ _ _ => Invitation × String
  | createApiKey _ _ _ => ApiKey × String
  | createProject _ _ _ | updateProject _ _ _ _ => Project
  | processWebhookEvent _ _ => WebhookEvent × Bool
  | deleteOrganization _ _ | removeMembership _ _ _ | revokeApiKey _ _ _ | deleteProject _ _ _ => Unit

section Program

variable (rt : Runtime)

def body : (operation : AuditedOperation) → App operation.Result
  | createOrganization actor data => TenantForge.createOrganization rt actor data
  | updateOrganization organizationId actorId data =>
    TenantForge.updateOrganization rt organizationId actorId data
  | deleteOrganization organizationId actorId => TenantForge.deleteOrganization rt organizationId actorId
  | updateMembership organizationId membershipId actorId newRole =>
    TenantForge.updateMembership rt organizationId membershipId actorId newRole
  | removeMembership organizationId membershipId actorId =>
    TenantForge.removeMembership rt organizationId membershipId actorId
  | createInvitation organizationId actorId data =>
    TenantForge.createInvitation rt organizationId actorId data
  | acceptInvitation rawToken user => TenantForge.acceptInvitation rt rawToken user
  | createApiKey organizationId actorId name => TenantForge.createApiKey rt organizationId actorId name
  | revokeApiKey organizationId keyId actorId => TenantForge.revokeApiKey rt organizationId keyId actorId
  | createProject organizationId actorId data => TenantForge.createProject rt organizationId actorId data
  | updateProject organizationId projectId actorId data =>
    TenantForge.updateProject rt organizationId projectId actorId data
  | deleteProject organizationId projectId actorId =>
    TenantForge.deleteProject rt organizationId projectId actorId
  | processWebhookEvent webhookEventId at? => TenantForge.processWebhookEvent rt webhookEventId at?

/-- The worker processes events in a session scope that it commits itself. -/
def inWorker : AuditedOperation → Bool
  | processWebhookEvent _ _ => true
  | _ => false

def transaction (operation : AuditedOperation) : App operation.Result :=
  if operation.inWorker then sessionScope do
    let result ← operation.body rt
    Prog.commitTransaction
    pure result
  else getSession (operation.body rt)

theorem commitsBody_transaction (operation : AuditedOperation) :
    CommitsBody (operation.transaction rt) (operation.body rt) := by
  unfold transaction
  split
  · exact commitsBody_sessionScope _
  · exact commitsBody_getSession _

end Program

def deletesOrganization : AuditedOperation → Bool
  | deleteOrganization _ _ => true
  | _ => false

/-- The operation had something to do: the key was not revoked before, the event is processed now. -/
def Counted (before : Db) : (operation : AuditedOperation) → operation.Result → Prop
  | revokeApiKey organizationId keyId _, _ => ∃ key : ApiKey, key ∈ before .apiKeys ∧
    isApiKeyId organizationId keyId key = true ∧ key.revokedAt = none
  | processWebhookEvent _ _, result => result.2 = true
  | _, _ => True

/-- The entry names the organization, the actor and the resource of the operation. -/
def Accounts (rt : Runtime) (before after : Db) (entry : AuditLog) :
    (operation : AuditedOperation) → operation.Result → Prop
  | createOrganization actor _, organization =>
    entry.Records (Organization.id organization) (some actor.id) "organization.created"
      (rt.uuidText (Organization.id organization))
  | updateOrganization organizationId actorId _, _ =>
    entry.Records organizationId (some actorId) "organization.updated" (rt.uuidText organizationId)
  | deleteOrganization organizationId actorId, _ =>
    entry.Records organizationId (some actorId) "organization.deleted" (rt.uuidText organizationId)
  | updateMembership organizationId membershipId actorId _, _ =>
    entry.Records organizationId (some actorId) "member.role_changed" (rt.uuidText membershipId)
  | removeMembership organizationId membershipId actorId, _ =>
    entry.Records organizationId (some actorId) "member.removed" (rt.uuidText membershipId)
  | createInvitation organizationId actorId _, result =>
    entry.Records organizationId (some actorId) "member.invited" (rt.uuidText (Invitation.id result.1))
  | acceptInvitation rawToken user, _ => ∃ invitation : Invitation, invitation ∈ before .invitations ∧
    hasToken (rt.hashToken rawToken) invitation = true ∧
    entry.Records invitation.organizationId (some user.id) "invitation.accepted"
      (rt.uuidText invitation.id)
  | createApiKey organizationId actorId _, result =>
    entry.Records organizationId (some actorId) "api_key.created" (rt.uuidText (ApiKey.id result.1))
  | revokeApiKey organizationId keyId actorId, _ =>
    entry.Records organizationId (some actorId) "api_key.revoked" (rt.uuidText keyId)
  | createProject organizationId actorId _, project =>
    entry.Records organizationId (some actorId) "project.created" (rt.uuidText (Project.id project))
  | updateProject organizationId projectId actorId _, _ =>
    entry.Records organizationId (some actorId) "project.updated" (rt.uuidText projectId)
  | deleteProject organizationId projectId actorId, _ =>
    entry.Records organizationId (some actorId) "project.deleted" (rt.uuidText projectId)
  | processWebhookEvent webhookEventId _, _ =>
    ∃ (event : WebhookEvent) (parsed : BillingWebhook) (object : List (String × Value))
      (organizationId : Uuid) (subscription : Subscription), event ∈ before .webhookEvents ∧
      rt.parseUuid webhookEventId = some event.id ∧
      BillingWebhook.modelValidate event.payload = some parsed ∧ objectField parsed = some object ∧
      organizationField rt object = some organizationId ∧
      subscriptionOf organizationId after = some subscription ∧
      entry.Records organizationId none "subscription.changed" (rt.uuidText subscription.id)

end AuditedOperation

/-! ### One entry -/

section Entry

variable {T : Type} {tag : T} {s : Shared schema Env T} {rt : Runtime}

theorem Recorded.view_auditLogs {organizationId : Uuid} {actorUserId : Option Uuid}
    {action resourceId : String} {σ : Session schema} {db : Db} {entry : AuditLog}
    (h : Recorded organizationId actorUserId action resourceId .empty σ db entry)
    (hw : σ.writes .auditLogs = [(entry.id, some entry)]) :
    σ.view db .auditLogs = db .auditLogs ++ [entry] :=
  Session.view_of_insert (S := schema) (t := .auditLogs) hw (h.vacant rfl).current

/-- The session has added one entry, and it accounts for the operation. -/
def Audited (rt : Runtime) (operation : AuditedOperation) (db : Db) (value : operation.Result)
    (σ : Session schema) : Prop :=
  operation.Counted db value → ∃ entry : AuditLog, operation.Accounts rt db (σ.view db) entry value ∧
    σ.view db .auditLogs = db .auditLogs ++ [entry]

/-- **The step**: each operation but one adds one entry. -/
theorem wp_audited (operation : AuditedOperation) (hkeeps : operation.deletesOrganization = false)
    (hdb : s.db.Integral) :
    wp (Protocol.still s) tag (fun value σ' s' => s'.db = s.db ∧ Audited rt operation s.db value σ')
      (fun _ _ _ => True) (operation.body rt) .empty s := by
  have hnow : Interferes (Protocol.still s) tag .empty s s := still_now hdb rfl
  have hsame : ∀ {σ' : Session schema} {s' : Shared schema Env T},
      Interferes (Protocol.still s) tag σ' s' s' → s'.db = s.db := fun h => h.inv.db
  cases operation with
  | createOrganization actor data =>
    refine wp_createOrganization still_tolerates_drawn harmless_true
      fun organization owner σ' s' hnow' hcreated => ⟨hsame hnow', fun _ => ?_⟩
    obtain ⟨subscription, current, entry, _, hrecorded, _, hw⟩ := hcreated.written
    rw [hsame hnow'] at hrecorded
    exact ⟨entry, hrecorded.records, hrecorded.view_auditLogs (by rw [hw, Overlay.put_table_of_nil rfl])⟩
  | updateOrganization organizationId actorId data =>
    refine wp_updateOrganization still_tolerates_drawn harmless_true rfl rfl
      fun result σ' s' hnow' hupdated => ⟨hsame hnow', fun _ => ?_⟩
    obtain ⟨entry, hrecorded, hw⟩ := hupdated.written
    rw [hsame hnow'] at hrecorded
    refine ⟨entry, hrecorded.records, hrecorded.view_auditLogs ?_⟩
    rcases hw with hw | ⟨row, _, hw⟩ <;> rw [hw, Overlay.put_table_of_nil rfl]
  | deleteOrganization organizationId actorId => cases hkeeps
  | updateMembership organizationId membershipId actorId newRole =>
    refine wp_updateMembership still_tolerates_drawn harmless_true rfl
      fun actorRow targetRow σ' s' hnow' hchanged => ⟨hsame hnow', fun _ => ?_⟩
    obtain ⟨entry, hrecorded, hw⟩ := hchanged.written
    have htarget := hchanged.locked.targetOf
    simp only [isMembershipId, Bool.and_eq_true, decide_eq_true_eq] at htarget
    rw [hsame hnow', htarget.1] at hrecorded
    refine ⟨entry, hrecorded.records, hrecorded.view_auditLogs ?_⟩
    rw [hw]
    split <;> rw [Overlay.put_table_of_nil rfl]
  | removeMembership organizationId membershipId actorId =>
    refine wp_removeMembership still_tolerates_drawn harmless_true rfl
      fun actorRow targetRow σ' s' hnow' hremoved => ⟨hsame hnow', fun _ => ?_⟩
    obtain ⟨entry, hrecorded, hw⟩ := hremoved.written
    have htarget := hremoved.locked.targetOf
    simp only [isMembershipId, Bool.and_eq_true, decide_eq_true_eq] at htarget
    rw [hsame hnow', htarget.1] at hrecorded
    exact ⟨entry, hrecorded.records, hrecorded.view_auditLogs
      (by rw [hw, Overlay.put_table_ne _ (by decide), Overlay.put_table_of_nil rfl])⟩
  | createInvitation organizationId actorId data =>
    refine wp_createInvitation still_tolerates_drawn harmless_true rfl rfl
      fun actorRow invitation rawToken σ' s' hnow' hissued => ⟨hsame hnow', fun _ => ?_⟩
    obtain ⟨entry, hrecorded, hw⟩ := hissued.written
    rw [hsame hnow'] at hrecorded
    exact ⟨entry, hrecorded.records, hrecorded.view_auditLogs (by rw [hw, Overlay.put_table_of_nil rfl])⟩
  | acceptInvitation rawToken user =>
    refine wp_acceptInvitation still_tolerates_drawn harmless_true rfl
      fun row accepted membership σ' s' hnow' haccepted => ⟨hsame hnow', fun _ => ?_⟩
    obtain ⟨entry, hrecorded, hw⟩ := haccepted.written
    have hrow := haccepted.locked.mem
    rw [hsame hnow'] at hrecorded hrow
    exact ⟨entry, ⟨row, hrow, by simp [hasToken, haccepted.token], hrecorded.records⟩,
      hrecorded.view_auditLogs (by rw [hw, Overlay.put_table_of_nil rfl])⟩
  | createApiKey organizationId actorId name =>
    refine wp_createApiKey still_tolerates_drawn harmless_true rfl
      fun key rawKey σ' s' hnow' hcreated => ⟨hsame hnow', fun _ => ?_⟩
    obtain ⟨entry, hrecorded, hw⟩ := hcreated.written
    rw [hsame hnow'] at hrecorded
    exact ⟨entry, hrecorded.records, hrecorded.view_auditLogs (by rw [hw, Overlay.put_table_of_nil rfl])⟩
  | revokeApiKey organizationId keyId actorId =>
    refine wp_revokeApiKey still_tolerates_drawn harmless_true rfl rfl rfl
      fun key σ' s' hnow' hrevoked => ⟨hsame hnow', fun hcounted => ?_⟩
    obtain ⟨other, hother, hof, hlive⟩ := hcounted
    have hkey := hrevoked.locked.mem
    rw [hsame hnow'] at hkey
    have hid := hrevoked.keyOf
    simp only [isApiKeyId, Bool.and_eq_true, decide_eq_true_eq] at hid hof
    obtain rfl : other = key := hdb.eq_of_id (t := .apiKeys) hother hkey (hof.1.trans hid.1.symm)
    rcases hrevoked.written with ⟨hrevokedAt, _⟩ | ⟨_, revokedAt, entry, hrecorded, hw⟩
    · exact absurd hlive hrevokedAt
    · rw [hsame hnow'] at hrecorded
      exact ⟨entry, hrecorded.records, hrecorded.view_auditLogs
        (by rw [hw, Overlay.put_table_of_nil rfl])⟩
  | createProject organizationId actorId data =>
    refine wp_createProject still_tolerates_drawn harmless_true
      fun project σ' s' hnow' hcreated => ⟨hsame hnow', fun _ => ?_⟩
    obtain ⟨entry, hrecorded, hw⟩ := hcreated.written
    rw [hsame hnow'] at hrecorded
    exact ⟨entry, hrecorded.records, hrecorded.view_auditLogs (by rw [hw, Overlay.put_table_of_nil rfl])⟩
  | updateProject organizationId projectId actorId data =>
    refine wp_updateProject still_tolerates_drawn harmless_true rfl
      fun result σ' s' hnow' hupdated => ⟨hsame hnow', fun _ => ?_⟩
    obtain ⟨entry, hrecorded, hw⟩ := hupdated.written
    rw [hsame hnow'] at hrecorded
    refine ⟨entry, hrecorded.records, hrecorded.view_auditLogs ?_⟩
    rcases hw with hw | ⟨row, _, _, hw⟩ <;> rw [hw, Overlay.put_table_of_nil rfl]
  | deleteProject organizationId projectId actorId =>
    refine wp_deleteProject still_tolerates_drawn harmless_true rfl
      fun σ' s' hnow' hdeleted => ⟨hsame hnow', fun _ => ?_⟩
    obtain ⟨entry, hrecorded, hw⟩ := hdeleted.written
    rw [hsame hnow'] at hrecorded
    exact ⟨entry, hrecorded.records, hrecorded.view_auditLogs
      (by rw [hw, Overlay.put_table_ne _ (by decide), Overlay.put_table_of_nil rfl])⟩
  | processWebhookEvent webhookEventId at? =>
    refine wp_processWebhookEvent still_metering.subscriptions still_tolerates_drawn harmless_true hnow
      (fun event σ' s' hnow' _ _ _ _ => ⟨hsame hnow', fun hcounted => by cases hcounted⟩)
      fun event organizationId before changed after result σ' s' hnow' hprocessed =>
        ⟨hsame hnow', fun _ => ?_⟩
    have hevent := hprocessed.locked.mem
    have hsound := hnow'.sound
    rw [hsame hnow'] at hprocessed hevent hsound
    obtain ⟨parsed, object, current, period, hparsed, hobject, horganization, _, _, happlied⟩ :=
      hprocessed.applied
    obtain ⟨id, createdAt, hw, hvacant⟩ := hprocessed.audited
    rw [Overlay.put_table_of_nil rfl] at hw
    have hid : after.id = before.id := by
      rcases hprocessed.flushed with ⟨_, rfl⟩ | ⟨_, updatedAt, rfl⟩
      · rfl
      · exact (applyEvent_keys happlied).1
    refine ⟨webhookEntry rt organizationId event before changed id createdAt, ⟨event, parsed, object,
      organizationId, after, hevent, hprocessed.parsed, hparsed, hobject, horganization,
      hprocessed.sees.subscriptionOf_view hdb hsound, rfl, rfl, rfl, by rw [hid]; rfl⟩, ?_⟩
    exact Session.view_of_insert (S := schema) (t := .auditLogs) hw (hvacant rfl).current

end Entry

/-! ### The entry that is swept away -/

section Cascade

variable {T : Type} {tag : T} {s : Shared schema Env T} {rt : Runtime}

/-- The cascades leave no row of the organization in these tables. -/
theorem run_cascade (organizationId : Uuid) (tables : List Table) (tag : T) {σ : Session schema}
    (hdb : s.db.Integral) (hσ : σ.Sound s.db) :
    ∃ σ', σ'.Sound s.db ∧ (∀ t, ∀ row ∈ σ'.view s.db t, row ∈ σ.view s.db t) ∧
      (∀ t ∈ tables, ∀ row ∈ σ'.view s.db t, tenantOf (t := t) row ≠ some organizationId) ∧
      (cascade organizationId tables).run tag σ s = (.ok (), σ', s) := by
  induction tables generalizing σ with
  | nil => exact ⟨σ, hσ, fun _ _ hrow => hrow, fun _ ht => absurd ht List.not_mem_nil, rfl⟩
  | cons t ts ih =>
    obtain ⟨σ₁, hσ₁, hothers, hrows, hrun⟩ := Prog.run_deleteMatching (E := Env) (X := Exn) (S := schema)
      tag t (fun row => tenantOf row = some organizationId) σ s hdb hσ
    obtain ⟨σ₂, hσ₂, hfewer, hnone, hrest⟩ := ih hσ₁
    have hkept : ∀ u, ∀ row ∈ σ₁.view s.db u, row ∈ σ.view s.db u := fun u row hrow => by
      by_cases hu : u = t
      · subst hu
        exact (hrows row hrow).1
      · rwa [hothers u hu] at hrow
    refine ⟨σ₂, hσ₂, fun u row hrow => hkept u row (hfewer u row hrow), fun u hu row hrow => ?_, ?_⟩
    · rcases List.mem_cons.mp hu with rfl | hu
      · simpa using (hrows row (hfewer u row hrow)).2
      · exact hnone u hu row hrow
    · rw [cascade, Prog.bind_eq, Prog.run_bind_ok hrun, hrest]

theorem wp_claimOrganization {P : Protocol schema Env T} {R : Exn → Assertion schema Env T}
    {σ : Session schema} {organizationId actorId : Uuid} {Q : Uuid → Assertion schema Env T}
    (hD : P.Tolerates Env.Drawn) (hR : Harmless P R) (hclean : σ.writes .organizations = [])
    (hclean' : σ.writes .memberships = [])
    (h : ∀ σ' s', σ'.Sound s'.db → P.inv s' → Q organizationId σ' s') :
    wp P tag Q R (claimOrganization rt organizationId actorId) σ s := by
  rw [claimOrganization]
  simp only [Prog.bind_eq, wp_bind]
  refine wp_scalarJoinForUpdate hR.escapes hclean hclean'
    (fun σ₁ s₁ h₁ _ => hR _ _ _ h₁.inv h₁.integral)
    fun organization owner σ₁ s₁ h₁ hext₁ hcond _ _ => ?_
  simp only [isMemberOrganization, Bool.and_eq_true, decide_eq_true_eq] at hcond
  have hcopy : (σ.copyOf (t := .organizations) organization).id = organizationId :=
    (rowId_copyOf σ (t := .organizations) organization).trans hcond.1.1.2
  refine wp_writeAudit hD hR fun entry σ₂ s₂ _ _ _ _ => fun s₃ h₃ => ⟨?_, hR.escapes.of_interferes h₃⟩
  rw [hcopy]
  exact h _ s₃ (h₃.sound.delete _ _) h₃.inv

/-- Nothing of the organization is left in the audit log, the entry of its deletion included. -/
theorem gone_of_deleteOrganization (rt : Runtime) (tag : T) {organizationId actorId : Uuid} (hdb : s.db.Integral)
    (hok : ((getSession (deleteOrganization rt organizationId actorId)).run tag .empty s).1 = .ok ())
    {entry : AuditLog} (hentry : entry ∈
      ((getSession (deleteOrganization rt organizationId actorId)).run tag .empty s).2.2.db .auditLogs) :
    entry.organizationId ≠ organizationId := by
  have hwp : wp (Protocol.still s) tag (fun id σ' s' => id = organizationId ∧ σ'.Sound s'.db ∧ Still s s')
      (fun _ _ _ => True) (claimOrganization rt organizationId actorId) .empty s :=
    wp_claimOrganization still_tolerates_drawn harmless_true rfl rfl
      fun σ' s' hσ hinv => ⟨rfl, hσ, hinv⟩
  obtain ⟨hclaim, _, _⟩ := run_of_wp (fun _ _ _ _ => trivial) (fun _ _ _ _ => trivial)
    (claimOrganization rt organizationId actorId) .empty s (Still.refl s) hdb
    (.of_writes_empty hdb rfl) hwp
  have hcommits := commitsBody_getSession (deleteOrganization rt organizationId actorId) T tag .empty s
  rw [deleteOrganization, Prog.bind_eq, Prog.run_bind] at hcommits
  generalize (claimOrganization rt organizationId actorId).run tag .empty s = claimed at hclaim hcommits
  obtain ⟨outcome, σ₁, s₁⟩ := claimed
  cases outcome with
  | error error => cases hok.symm.trans hcommits.1
  | ok id =>
    obtain ⟨rfl, hσ₁, hstill⟩ := hclaim
    obtain ⟨σ₂, _, _, hnone, hrun⟩ := run_cascade id childTables tag (hstill.db ▸ hdb) hσ₁
    simp only [hrun] at hcommits
    rw [deleteOrganization, Prog.bind_eq, hcommits.2] at hentry
    have htenant := hnone .auditLogs (by decide) entry hentry
    exact fun heq => htenant (congrArg some heq)

end Cascade

/-- A transaction that raises commits nothing. -/
theorem AuditedOperation.unchanged {T : Type} {tag : T} {s : Shared schema Env T} {rt : Runtime}
    (operation : AuditedOperation) (hdb : s.db.Integral) {error : Exn}
    (herror : ((operation.transaction rt).run tag .empty s).1 = .error error) :
    ((operation.transaction rt).run tag .empty s).2.2.db = s.db := by
  cases hkeeps : operation.deletesOrganization with
  | false =>
    exact (((operation.commitsBody_transaction rt).of_wp hdb rfl (wp_audited operation hkeeps hdb)).2
      error herror).db
  | true =>
    cases operation with
    | deleteOrganization organizationId actorId =>
      have hwp : wp (Protocol.still s) tag (fun _ _ _ => True) (fun _ _ _ => True)
          (TenantForge.deleteOrganization rt organizationId actorId) .empty s :=
        wp_deleteOrganization still_tolerates_drawn harmless_true rfl rfl fun _ _ _ _ => trivial
      exact (((AuditedOperation.commitsBody_transaction rt _).of_wp hdb rfl hwp).2 error herror).db
    | _ => cases hkeeps

/-- **The audit log is complete**: an operation that succeeds adds exactly one entry, unless it deletes
the organization that the entry belongs to, and an operation that raises adds none. -/
theorem audited_iff {T : Type} (rt : Runtime) (operation : AuditedOperation) (tag : T)
    (s : Shared schema Env T) (hdb : s.db.Integral) :
    let result := (operation.transaction rt).run tag .empty s
    (∀ value, result.1 = .ok value → operation.Counted s.db value →
      ((∃ entry : AuditLog, operation.Accounts rt s.db result.2.2.db entry value ∧
          result.2.2.db .auditLogs = s.db .auditLogs ++ [entry]) ↔
        operation.deletesOrganization = false)) ∧
    ∀ error, result.1 = .error error → result.2.2.db .auditLogs = s.db .auditLogs := by
  refine ⟨fun value hvalue hcounted => ?_, fun error herror => by rw [operation.unchanged hdb herror]⟩
  cases hkeeps : operation.deletesOrganization with
  | false =>
    refine iff_of_true ?_ rfl
    obtain ⟨σ, s', ⟨hsame, haudited⟩, _, hafter⟩ := ((operation.commitsBody_transaction rt).of_wp hdb rfl
      (wp_audited operation hkeeps hdb)).1 value hvalue
    rw [hafter, Shared.commit_db, hsame]
    exact haudited hcounted
  | true =>
    refine iff_of_false ?_ (by decide)
    rintro ⟨entry, haccounts, hadded⟩
    cases operation with
    | deleteOrganization organizationId actorId =>
      refine gone_of_deleteOrganization rt tag hdb hvalue ?_ haccounts.organizationId
      exact hadded ▸ List.mem_append_right _ List.mem_cons_self
    | _ => cases hkeeps

namespace Reference

/-- An organization with an owner and another member. -/
def ownerAndMember : Tables where
  users := [user 1, user 2]
  organizations := [organization 5]
  memberships := [member 11 1 5 .owner, member 12 2 5 .member]

def staffed : Shared schema Env Unit := shared Unit (fun _ => noon 1) ownerAndMember

/-- The owner removes the other member, and one entry says so. -/
theorem removal_audited :
    let removal := AuditedOperation.removeMembership 5 12 1
    let result := (removal.transaction runtime).run () .empty staffed
    ∃ entry : AuditLog, removal.Accounts runtime staffed.db result.2.2.db entry () ∧
      result.2.2.db .auditLogs = staffed.db .auditLogs ++ [entry] := by
  have hok : ((getSession (removeMembership runtime 5 12 1)).run () .empty staffed).1 = .ok () := by
    decide +kernel
  exact ((audited_iff runtime (.removeMembership 5 12 1) () staffed
    (ValidDb.integral (by decide +kernel : ValidDb ownerAndMember.db))).1 () hok trivial).mpr rfl

/-- The owner deletes the organization, and no entry says so. -/
theorem deletion_unaudited :
    let deletion := AuditedOperation.deleteOrganization 5 1
    let result := (deletion.transaction runtime).run () .empty staffed
    result.1 = .ok () ∧ ¬∃ entry : AuditLog,
      deletion.Accounts runtime staffed.db result.2.2.db entry () ∧
        result.2.2.db .auditLogs = staffed.db .auditLogs ++ [entry] := by
  intro deletion result
  have hempty : result.2.2.db .auditLogs = ([] : List AuditLog) := by decide +kernel
  have hok : ((getSession (deleteOrganization runtime 5 1)).run () .empty staffed).1 = .ok () := by
    decide +kernel
  refine ⟨hok, fun ⟨entry, _, hadded⟩ => ?_⟩
  cases hempty.symm.trans hadded

end Reference

end TenantForge
