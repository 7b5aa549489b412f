import TenantForge.Exchanges
import TenantForge.ReadCommitted.TwoRuns
import TenantForge.Reference.Runtime
/-!
# Tenant isolation

Two runs of one request on a path `/organizations/{organization_id}/...`, over databases that agree on the
users and on the rows of this organization, end alike: the answer, the rows of the organization and the
environment do not depend on the rows of other tenants, and these stay as they are. Unique constraints
range over all tenants, so the databases have to agree on the slugs that are taken as well, and the ids and
tokens that are drawn have to be new in both.
-/

namespace TenantForge

open Gregorian ReadCommitted Prog

/-! ### What a member can see -/

/-- The rows of an organization, and all users. -/
def ofOrganization (organizationId : Uuid) {t : Table} (row : Row t) : Bool :=
  tenantOf row = some organizationId || t = .users

/-- A split into what a member of an organization can see and the rest. -/
structure ForTenant (rt : Runtime) (organizationId : Uuid) (V : Split schema Env) : Prop where
  visible : ∀ {t : Table} (row : Row t), V.visible (t := t) row = ofOrganization organizationId row
  organization : V.Apart .organizations organizationId
  user : ∀ id, V.Apart .users id
  slug : ∀ slug, V.Balanced .organizations (.slug slug)
  subscriber : V.Balanced .subscriptions (.subscriber organizationId)
  onward : ∀ e e', V.env e → e.Onward e' → V.env e'
  invitationToken : ∀ e, V.env e →
    V.Balanced .invitations (.invitationToken (rt.hashToken (e.tokens e.issued)))
  apiKey : ∀ e, V.env e → V.Balanced .apiKeys (.apiKey (rt.hashToken ("tf_live_" ++ e.tokens e.issued)))

variable {rt : Runtime} {organizationId : Uuid} {V : Split schema Env} {T : Type} {tag : T} {α β : Type}

/-! ### Statements -/

section Statements

variable {P : α → Prop} {Q : β → Prop}

theorem secure_raiseIf (condition : Prop) [Decidable condition] (error : Exn) :
    Secure V tag (fun _ => ¬condition) (raiseIf condition error) := by
  by_cases h : condition
  · rw [raiseIf, if_pos h]
    exact .throw error
  · rw [raiseIf, if_neg h]
    exact .pure h

theorem secure_runIf {condition : Prop} [Decidable condition] {body : App Unit}
    (hbody : condition → Secure V tag (fun _ => True) body) :
    Secure V tag (fun _ => True) (runIf condition body) := by
  by_cases h : condition
  · rw [runIf, if_pos h]
    exact hbody h
  · rw [runIf, if_neg h]
    exact .pure trivial

theorem secure_orRaise {result : Option β} (h : ∀ value ∈ result, Q value) (error : Exn) :
    Secure V tag Q (orRaise result error) := by
  cases result with
  | none => exact .throw error
  | some value => exact .pure (h value rfl)

theorem secure_addRow {t : Table} {row : Row t} (hrow : V.visible (t := t) row = true)
    (hid : V.Apart t (rowId row)) (hindex : ∀ u ∈ uniqueValues row, V.Balanced t u)
    (hparents : ∀ parent ∈ foreignKeys row, V.Apart parent.1 parent.2) :
    Secure V tag (fun _ => True) (addRow t row) := by
  refine .bind (Secure.insertRow (S := schema) (t := t) hrow hid hindex hparents) fun inserted _ => ?_
  cases inserted with
  | true => exact .pure trivial
  | false => exact .throw _

theorem secure_flushUpdate {t : Table} {id : Uuid} {set : Row t → Row t} (hid : V.Apart t id)
    (hset : ∀ old, V.visible (t := t) old = true → V.visible (t := t) (set old) = true)
    (hindex : ∀ old : Row t, V.visible (t := t) old = true → ∀ u ∈ uniqueValues (set old),
      u ∉ uniqueValues old → V.Balanced t u) :
    Secure V tag (fun _ => True) (flushUpdate t id set) := by
  refine .bind (Secure.updateRow (S := schema) (t := t) hid hset hindex) fun result _ => ?_
  cases result with
  | done => exact .pure trivial
  | missing => exact .throw _
  | clash => exact .throw _

theorem secure_refresh {t : Table} {id : Uuid} (hid : V.Apart t id) :
    Secure V tag (fun row => V.Ours (t := t) row) (refresh t id) := by
  refine .bind (.query (Q := fun row => ∀ found ∈ row, V.Ours (t := t) found)
    (fun db hdb => hdb.lookup_seen hid) fun db hdb row hrow => ?_) fun found hfound => ?_
  · have hsame : rowId row = id := Store.lookup_id hrow
    refine ⟨?_, show V.Apart t (rowId row) by rwa [hsame]⟩
    by_contra hnot
    exact hdb.id_ne hid (Store.lookup_mem hrow) (by simpa using hnot) (Store.lookup_id hrow)
  · cases found with
    | none => exact .throw _
    | some row => exact .pure (hfound row rfl)

theorem secure_exceptIntegrityError {error : Exn} {body : App β} (h : Secure V tag Q body) :
    Secure V tag Q (exceptIntegrityError error body) := by
  refine .handle h fun exc => ?_
  split
  · exact .bind .rollbackTransaction fun _ _ => .throw error
  · exact .throw exc

theorem secure_getSession {body : App β} (h : Secure V tag Q body) :
    Secure V tag Q (getSession body) :=
  .handle (.bind h fun _ hvalue => .bind .commitTransaction fun _ _ => .pure hvalue) fun exc =>
    .bind .rollbackTransaction fun _ _ => .throw exc

end Statements

/-! ### Conditions on the organization -/

theorem isMembership_tenant {userId : Uuid} {allowed : Role → Bool} {row : Membership}
    (h : isMembership organizationId userId allowed row = true) :
    tenantOf (t := .memberships) row = some organizationId := by
  simp only [isMembership, Bool.and_eq_true, decide_eq_true_eq] at h
  rw [tenantOf, h.1.1]

theorem isMemberOrganization_tenant {userId : Uuid} {allowed : Role → Bool} {organization : Organization}
    {membership : Membership} (h : isMemberOrganization organizationId userId allowed organization membership = true) :
    tenantOf (t := .organizations) organization = some organizationId ∧
      tenantOf (t := .memberships) membership = some organizationId := by
  simp only [isMemberOrganization, Bool.and_eq_true, decide_eq_true_eq] at h
  obtain ⟨⟨⟨hof, hid⟩, -⟩, -⟩ := h
  exact ⟨congrArg some hid, congrArg some (hof.trans hid)⟩

theorem isProjectId_tenant {projectId : Uuid} {row : Project} (h : isProjectId organizationId projectId row = true) :
    tenantOf (t := .projects) row = some organizationId := by
  simp only [isProjectId, Bool.and_eq_true, decide_eq_true_eq] at h
  exact congrArg some h.2

theorem isSubscriptionOf_tenant {row : Subscription} (h : isSubscriptionOf organizationId row = true) :
    tenantOf (t := .subscriptions) row = some organizationId := by
  simp only [isSubscriptionOf, decide_eq_true_eq] at h
  exact congrArg some h

/-! ### Sources and the audit log -/

section Tenant

variable (hV : ForTenant rt organizationId V)
include hV

theorem secure_act {act : Env → β × Env} (h : ∀ e : Env, e.Onward (act e).2) :
    Secure V tag (fun _ => True) (Prog.act act : App β) :=
  .act fun e he => ⟨hV.onward e _ he (h e), trivial⟩

theorem secure_now : Secure V tag (fun _ => True) now :=
  secure_act hV fun _ => ⟨rfl, Nat.le_succ _, rfl, le_rfl⟩

theorem secure_nowOr (at? : Option DateTime) : Secure V tag (fun _ => True) (nowOr at?) := by
  cases at? with
  | none => exact secure_now hV
  | some t => exact .pure trivial

theorem secure_databaseNow : Secure V tag (fun _ => True) databaseNow :=
  secure_act hV fun _ => ⟨rfl, le_rfl, rfl, le_rfl⟩

theorem secure_tokenUrlsafe : Secure V tag (fun token =>
    V.Balanced .invitations (.invitationToken (rt.hashToken token)) ∧
      V.Balanced .apiKeys (.apiKey (rt.hashToken ("tf_live_" ++ token)))) tokenUrlsafe :=
  .act fun e he => ⟨hV.onward e _ he ⟨rfl, le_rfl, rfl, Nat.le_succ _⟩, hV.invitationToken e he, hV.apiKey e he⟩

theorem ForTenant.visible_of {t : Table} {row : Row t} (h : tenantOf row = some organizationId) :
    V.visible (t := t) row = true := by
  rw [hV.visible, ofOrganization, h]
  simp

theorem ForTenant.visible_user (user : User) : V.visible (t := .users) user = true := by
  rw [hV.visible]
  rfl

theorem ForTenant.sees {t : Table} {cond : Row t → Bool}
    (h : ∀ row, cond row = true → tenantOf row = some organizationId) : Secure.Sees V (t := t) cond :=
  fun _ _ row _ hcond => hV.visible_of (h row hcond)

theorem ForTenant.seen_users (db : Db) : V.seen db .users = db .users :=
  List.filter_eq_self.mpr fun user _ => hV.visible_user user

/-- The rows that the foreign keys of a tenant-owned row name. -/
theorem ForTenant.apart_parents (users : List Uuid) {parent : Table × Uuid}
    (h : parent ∈ (Table.organizations, organizationId) :: users.map fun user => (Table.users, user)) :
    V.Apart parent.1 parent.2 := by
  rcases List.mem_cons.mp h with rfl | h
  · exact hV.organization
  · obtain ⟨user, -, rfl⟩ := List.mem_map.mp h
    exact hV.user user

theorem secure_writeAudit (actor : Option Uuid) (action resourceType resourceId : String)
    (metadata : List (String × Value)) (ipAddress : Option String) :
    Secure V tag (fun _ => True)
      (writeAudit organizationId actor action resourceType resourceId metadata ipAddress) := by
  refine .bind Secure.freshId fun id hid => .bind (secure_databaseNow hV) fun createdAt _ => ?_
  refine .bind (secure_addRow (hV.visible_of rfl) (hid .auditLogs) (fun u hu => absurd hu List.not_mem_nil)
    fun parent hparent => ?_) fun _ _ => .pure trivial
  exact hV.apart_parents actor.toList hparent

theorem ForTenant.tenantOf_eq {t : Table} {row : Row t} (h : V.visible (t := t) row = true) (ht : t ≠ .users) :
    tenantOf row = some organizationId := by
  rw [hV.visible, ofOrganization] at h
  simpa [ht] using h

/-! ### Dependencies -/

theorem secure_enforceRateLimit (identifier : String) :
    Secure V tag (fun _ => True) (enforceRateLimit identifier) := by
  refine .bind (secure_act hV fun _ => ⟨rfl, le_rfl, rfl, le_rfl⟩) fun verdict _ => ?_
  cases verdict with
  | none => exact .pure trivial
  | some retryAfter => exact .throw _

theorem secure_getCurrentUser (credentials : Option Credentials) :
    Secure V tag (fun _ => True) (getCurrentUser rt credentials) := by
  refine .bind (secure_orRaise (fun _ _ => trivial) _) fun credentials _ => ?_
  refine .bind (secure_now hV) fun current _ => ?_
  refine .bind (secure_orRaise (fun _ _ => trivial) _) fun userId _ => ?_
  refine .bind (.scalar fun _ _ row _ _ => hV.visible_user row) fun user _ => ?_
  refine .bind (secure_orRaise (fun _ _ => trivial) _) fun user _ => ?_
  exact .bind (secure_enforceRateLimit hV _) fun _ _ => .pure trivial

theorem secure_getCurrentMembership (user : User) :
    Secure V tag (fun membership => membership.organizationId = organizationId)
      (getCurrentMembership organizationId user) := by
  refine .bind (.scalar (hV.sees fun _ => isMembership_tenant)) fun membership hmembership => ?_
  refine secure_orRaise (fun found hfound => ?_) _
  exact Option.some.inj (hV.tenantOf_eq (hmembership found hfound).1 (by decide))

/-! ### Organizations -/

theorem ForTenant.seesOrganization (userId : Uuid) (allowed : Role → Bool) :
    Secure.SeesPairs V .organizations .memberships
      (isMemberOrganization organizationId userId allowed) := fun _ _ _ _ _ _ hcond =>
  let ⟨horganization, hmembership⟩ := isMemberOrganization_tenant hcond
  ⟨hV.visible_of horganization, hV.visible_of hmembership⟩

theorem secure_getOrganization (userId : Uuid) :
    Secure V tag (fun _ => True) (getOrganization organizationId userId) := by
  have hpairs := hV.seesOrganization userId anyRole
  refine .bind (.query (Q := fun rows => ∀ row ∈ rows, V.Ours (t := .organizations) row)
    (fun db hdb => congrArg _ (Split.joined_seen (hpairs db hdb))) fun db hdb row hrow => ?_) fun rows hrows =>
    .bind (.first hrows) fun organization _ => secure_orRaise (fun _ _ => trivial) _
  obtain ⟨pair, hpair, rfl⟩ := List.mem_map.mp hrow
  exact (hdb.ours_joined (hpairs db hdb) hpair).1

theorem secure_updateOrganization (actorId : Uuid) (data : OrganizationUpdate) :
    Secure V tag (fun _ => True) (updateOrganization rt organizationId actorId data) := by
  refine .bind (.scalarJoinForUpdate (hV.seesOrganization actorId ownerOrAdmin)) fun organization horganization => ?_
  refine .bind (secure_orRaise horganization _) fun organization hours => ?_
  refine .bind (secure_exceptIntegrityError (secure_runIf fun _ => .bind (secure_databaseNow hV) fun updatedAt _ =>
    secure_flushUpdate hours.2 ?_ fun old _ u hu _ => ?_)) fun _ _ => ?_
  · intro old hold
    have hof : tenantOf (t := .organizations) old = some organizationId := hV.tenantOf_eq hold (by decide)
    exact hV.visible_of hof
  · obtain rfl := List.mem_singleton.mp hu
    exact hV.slug _
  · refine .bind (secure_refresh hours.2) fun organization _ => ?_
    exact .bind (secure_writeAudit hV _ _ _ _ _ _) fun _ _ => .pure trivial

theorem secure_cascade (ts : List Table) : Secure V tag (fun _ => True) (cascade organizationId ts) := by
  induction ts with
  | nil => exact .pure trivial
  | cons t ts ih =>
    refine .bind (.deleteMatching (hV.sees fun row hrow => ?_)) fun _ _ => ih
    simpa using hrow

theorem secure_deleteOrganization (actorId : Uuid) :
    Secure V tag (fun _ => True) (deleteOrganization rt organizationId actorId) := by
  have hclaim : Secure V tag (· = organizationId) (claimOrganization rt organizationId actorId) := by
    refine .bind (.scalarJoinForUpdate (hV.seesOrganization actorId ownerOnly)) fun organization horganization => ?_
    refine .bind (secure_orRaise horganization _) fun organization hours => ?_
    have hid : organization.id = organizationId := Option.some.inj (hV.tenantOf_eq hours.1 (by decide))
    exact .bind (secure_writeAudit hV _ _ _ _ _ _) fun _ _ => .bind (.deleteRow hours.2) fun _ _ => .pure hid
  refine .bind hclaim fun id hid => ?_
  rw [hid]
  exact secure_cascade hV childTables

theorem secure_listMembers : Secure V tag (fun _ => True) (listMembers organizationId) := by
  have hpairs : Secure.SeesPairs V .memberships .users
      (fun (membership : Membership) (user : User) =>
        user.id = membership.userId && membership.organizationId = organizationId) := by
    intro db hdb membership _ user _ hcond
    simp only [Bool.and_eq_true, decide_eq_true_eq] at hcond
    exact ⟨hV.visible_of (congrArg some hcond.2), hV.visible_user user⟩
  refine .bind (.query (Q := fun rows => ∀ row ∈ rows.map Prod.fst, V.Ours (t := .memberships) row)
    (fun db hdb => ?_) fun db hdb row hrow => ?_) fun rows hrows => .bind (.attachAll hrows) fun _ _ => .pure trivial
  · exact congrArg (fun pairs => (List.map _ pairs).mergeSort memberOrder) (Split.joined_seen (hpairs db hdb))
  · obtain ⟨found, hfound, rfl⟩ := List.mem_map.mp hrow
    obtain ⟨pair, hpair, rfl⟩ := List.mem_map.mp (List.mem_mergeSort.mp hfound)
    exact (hdb.ours_joined (hpairs db hdb) hpair).1

/-! ### Memberships -/

theorem secure_lockActorMembership (userId : Uuid) :
    Secure V tag (fun _ => True) (lockActorMembership organizationId userId) :=
  .bind (.scalarForUpdate (hV.sees fun _ => isMembership_tenant)) fun _ _ => secure_orRaise (fun _ _ => trivial) _

theorem secure_lockMembership (membershipId : Uuid) :
    Secure V tag (fun membership => V.Ours (t := .memberships) membership)
      (lockMembership organizationId membershipId) := by
  refine .bind (.scalarForUpdate (hV.sees fun row hrow => ?_)) fun _ hours => secure_orRaise hours _
  simp only [isMembershipId, Bool.and_eq_true, decide_eq_true_eq] at hrow
  exact congrArg some hrow.2

theorem secure_ensureAnotherOwner (membershipId : Uuid) :
    Secure V tag (fun _ => True) (ensureAnotherOwner organizationId membershipId) := by
  refine .bind (.selectForUpdate (hV.sees fun row hrow => ?_)) fun _ _ =>
    (secure_raiseIf _ _).mono fun _ _ => trivial
  simp only [isOwnerOf, Bool.and_eq_true, decide_eq_true_eq] at hrow
  exact congrArg some hrow.1

theorem secure_updateMembership (membershipId actorId : Uuid) (newRole : Role) :
    Secure V tag (fun _ => True) (updateMembership rt organizationId membershipId actorId newRole) := by
  refine .bind (secure_lockActorMembership hV actorId) fun actor _ => ?_
  refine .bind (secure_lockMembership hV membershipId) fun target htarget => ?_
  refine .bind (secure_raiseIf _ _) fun _ _ => .bind (secure_raiseIf _ _) fun _ _ => ?_
  refine .bind (secure_runIf fun _ => secure_ensureAnotherOwner hV target.id) fun _ _ => ?_
  refine .bind (secure_runIf fun _ => secure_flushUpdate htarget.2 ?_ fun old _ u hu hnew =>
    absurd hu hnew) fun _ _ => ?_
  · intro old hold
    have hof : tenantOf (t := .memberships) old = some organizationId := hV.tenantOf_eq hold (by decide)
    exact hV.visible_of hof
  · exact .bind (secure_writeAudit hV _ _ _ _ _ _) fun _ _ => .pure trivial

theorem secure_removeMembership (membershipId actorId : Uuid) :
    Secure V tag (fun _ => True) (removeMembership rt organizationId membershipId actorId) := by
  refine .bind (secure_lockActorMembership hV actorId) fun actor _ => ?_
  refine .bind (secure_lockMembership hV membershipId) fun target htarget => ?_
  refine .bind (secure_raiseIf _ _) fun _ _ => .bind (secure_raiseIf _ _) fun _ _ => ?_
  refine .bind (secure_runIf fun _ => secure_ensureAnotherOwner hV target.id) fun _ _ => ?_
  exact .bind (secure_writeAudit hV _ _ _ _ _ _) fun _ _ => .deleteRow htarget.2

/-! ### Invitations -/

theorem secure_createInvitation (actorId : Uuid) (data : InvitationCreate) :
    Secure V tag (fun _ => True) (createInvitation rt organizationId actorId data) := by
  have hlock : Secure V tag (fun _ => True) (lockOrganization organizationId) := by
    refine .bind (.selectForUpdate (hV.sees fun row hrow => ?_)) fun _ _ =>
      (secure_raiseIf _ _).mono fun _ _ => trivial
    simp only [isOrganization, decide_eq_true_eq] at hrow
    exact congrArg some hrow
  have hactor : Secure V tag (fun _ => True) (lockActor organizationId actorId) :=
    .bind (.scalarForUpdate (hV.sees fun _ => isMembership_tenant)) fun _ _ => secure_orRaise (fun _ _ => trivial) _
  have hrole : ∀ actorRole : Role, Secure V tag (fun _ => True) (ensureInvitationRole actorRole data.role) := by
    intro actorRole
    unfold ensureInvitationRole
    split
    · exact .pure trivial
    · split
      · exact .pure trivial
      · exact .throw _
  refine .bind hlock fun _ _ => .bind hactor fun actor _ => .bind (hrole actor.role) fun _ _ => ?_
  refine .bind (secure_now hV) fun current _ => ?_
  refine .bind (.query (Q := fun _ => True) (fun db _ => ?_) fun _ _ => trivial) fun memberExists _ => ?_
  · rw [memberHasEmail, memberHasEmail, hV.seen_users]
    refine Split.any_seen fun membership _ hcond => hV.visible_of ?_
    rw [Bool.and_eq_true, decide_eq_true_eq] at hcond
    exact congrArg some hcond.1
  refine .bind (secure_raiseIf _ _) fun _ _ => ?_
  refine .bind (.query (Q := fun _ => True) (fun db _ => ?_) fun _ _ => trivial) fun activeInvitation _ => ?_
  · refine Split.any_seen fun invitation _ hcond => hV.visible_of ?_
    simp only [isActiveInvitation, Bool.and_eq_true, decide_eq_true_eq] at hcond
    exact congrArg some hcond.1.1.1
  refine .bind (secure_raiseIf _ _) fun _ _ => .bind (secure_tokenUrlsafe hV) fun rawToken htoken => ?_
  refine .bind (secure_orRaise (fun _ _ => trivial) _) fun expiresAt _ => .bind .freshId fun id hid => ?_
  refine .bind (secure_addRow (hV.visible_of rfl) (hid .invitations) (fun u hu => ?_) fun parent hparent => ?_)
    fun _ _ => ?_
  · obtain rfl := List.mem_singleton.mp hu
    exact htoken.1
  · exact hV.apart_parents [actorId] hparent
  · refine .bind (secure_refresh (hid .invitations)) fun invitation _ => ?_
    exact .bind (secure_writeAudit hV _ _ _ _ _ _) fun _ _ => .pure trivial

theorem secure_redisCommand {command : Env → β × Env} (h : ∀ e : Env, e.Onward (command e).2) :
    Secure V tag (fun _ => True) (redisCommand command) := by
  refine .bind (secure_act hV fun e => ?_) fun answer _ => secure_orRaise (fun _ _ => trivial) _
  have hsent : e.Onward { e with commands := e.commands + 1 } := ⟨rfl, le_rfl, rfl, le_rfl⟩
  split
  · exact hsent
  · exact hsent.trans (h _)

theorem secure_enqueue (type : String) (payload : List (String × Value)) :
    Secure V tag (fun _ => True) (RedisJobQueue.enqueue rt type payload) := by
  have hcreate : Secure V tag (fun _ => True) (Job.create rt type payload) :=
    .bind (secure_raiseIf _ _) fun _ _ => .bind .freshId fun _ _ => .bind (secure_now hV) fun _ _ => .pure trivial
  refine .bind hcreate fun job _ => .bind (secure_redisCommand hV fun e => ?_) fun _ _ => .pure trivial
  exact ⟨rfl, le_rfl, rfl, le_rfl⟩

theorem secure_sendInvitation (email : String) (of invitationId : Uuid) (token : String) :
    Secure V tag (fun _ => True) (sendInvitation rt email of invitationId token) := by
  refine .bind (secure_raiseIf _ _) fun _ _ => ?_
  refine .handle (.bind (secure_enqueue hV _ _) fun _ _ => .pure trivial) fun exc => ?_
  split
  · exact .throw _
  · exact .throw _

theorem secure_createInvitationRoute (user : User) (data : InvitationCreate) :
    Secure V tag (fun _ => True) (createInvitationRoute rt organizationId user data) := by
  refine .bind (secure_createInvitation hV user.id data) fun created _ => .bind .commitTransaction fun _ _ => ?_
  refine .bind (.handle (secure_sendInvitation hV _ _ _ _) fun exc => ?_) fun _ _ => .pure trivial
  split
  · exact .pure trivial
  · exact .throw _

/-! ### API keys -/

theorem secure_lockOwner (userId : Uuid) : Secure V tag (fun _ => True) (lockOwner organizationId userId) :=
  .bind (.scalarForUpdate (hV.sees fun _ => isMembership_tenant)) fun _ _ => secure_orRaise (fun _ _ => trivial) _

theorem secure_createApiKey (actorId : Uuid) (name : String) :
    Secure V tag (fun _ => True) (createApiKey rt organizationId actorId name) := by
  refine .bind (secure_lockOwner hV actorId) fun _ _ => ?_
  refine .bind (.bind (secure_tokenUrlsafe hV) fun token htoken =>
    .pure (Q := fun key : String × String => V.Balanced .apiKeys (.apiKey (rt.hashToken key.1))) htoken.2)
    fun key hkey => .bind .freshId fun id hid => .bind (secure_databaseNow hV) fun createdAt _ => ?_
  refine .bind (secure_addRow (hV.visible_of rfl) (hid .apiKeys) (fun u hu => ?_) fun parent hparent => ?_)
    fun _ _ => ?_
  · obtain rfl := List.mem_singleton.mp hu
    exact hkey
  · exact hV.apart_parents [actorId] hparent
  · refine .bind (secure_refresh (hid .apiKeys)) fun key _ => ?_
    exact .bind (secure_writeAudit hV _ _ _ _ _ _) fun _ _ => .pure trivial

theorem secure_listApiKeys (actorId : Uuid) :
    Secure V tag (fun _ => True) (listApiKeys organizationId actorId) := by
  have hpairs : Secure.SeesPairs V .apiKeys .memberships
      (fun (key : ApiKey) (membership : Membership) =>
        membership.organizationId = key.organizationId && key.organizationId = organizationId &&
          membership.userId = actorId && ownerOnly membership.role) := by
    intro db hdb key _ membership _ hcond
    simp only [Bool.and_eq_true, decide_eq_true_eq] at hcond
    obtain ⟨⟨⟨hsame, hof⟩, -⟩, -⟩ := hcond
    exact ⟨hV.visible_of (congrArg some hof), hV.visible_of (congrArg some (hsame.trans hof))⟩
  refine .bind (.query (Q := fun rows => ∀ row ∈ rows, V.Ours (t := .apiKeys) row)
    (fun db hdb => ?_) fun db hdb row hrow => ?_) fun rows hrows => (Secure.attachAll hrows).mono fun _ _ => trivial
  · exact congrArg (fun pairs => (List.map _ pairs).mergeSort apiKeyOrder) (Split.joined_seen (hpairs db hdb))
  · obtain ⟨pair, hpair, rfl⟩ := List.mem_map.mp (List.mem_mergeSort.mp hrow)
    exact (hdb.ours_joined (hpairs db hdb) hpair).1

theorem secure_revokeApiKey (keyId actorId : Uuid) :
    Secure V tag (fun _ => True) (revokeApiKey rt organizationId keyId actorId) := by
  refine .bind (secure_lockOwner hV actorId) fun _ _ => ?_
  refine .bind (.scalarForUpdate (hV.sees fun row hrow => ?_)) fun key hkey => ?_
  · simp only [isApiKeyId, Bool.and_eq_true, decide_eq_true_eq] at hrow
    exact congrArg some hrow.2
  refine .bind (secure_orRaise hkey _) fun key hours => secure_runIf fun _ =>
    .bind (secure_now hV) fun revokedAt _ => ?_
  refine .bind (secure_flushUpdate hours.2 (fun old hold => ?_) fun old _ u hu hnew => absurd hu hnew) fun _ _ => ?_
  · have hof : tenantOf (t := .apiKeys) old = some organizationId := hV.tenantOf_eq hold (by decide)
    exact hV.visible_of hof
  · exact .bind (secure_writeAudit hV _ _ _ _ _ _) fun _ _ => .pure trivial

/-! ### Projects -/

theorem isMember_seen (userId : Uuid) (db : Db) :
    isMember organizationId userId (V.seen db) = isMember organizationId userId db :=
  Split.any_seen fun _ _ hcond => hV.visible_of (isMembership_tenant hcond)

theorem secure_createProject (actorId : Uuid) (data : ProjectCreate) :
    Secure V tag (fun _ => True) (createProject rt organizationId actorId data) := by
  refine .bind (.query (Q := fun _ => True) (fun db _ => isMember_seen hV actorId db) fun _ _ => trivial)
    fun allowed _ => .bind (secure_raiseIf _ _) fun _ _ => .bind .freshId fun id hid => ?_
  refine .bind (secure_databaseNow hV) fun createdAt _ => ?_
  refine .bind (secure_addRow (hV.visible_of rfl) (hid .projects) (fun u hu => absurd hu List.not_mem_nil)
    fun parent hparent => hV.apart_parents [actorId] hparent) fun _ _ => ?_
  refine .bind (secure_refresh (hid .projects)) fun project _ => ?_
  exact .bind (secure_writeAudit hV _ _ _ _ _ _) fun _ _ => .pure trivial

theorem secure_listProjects (actorId : Uuid) :
    Secure V tag (fun _ => True) (listProjects organizationId actorId) := by
  have hvisible : ∀ db : Db, ∀ row : Project, row ∈ db .projects →
      (row.organizationId = organizationId && isMember organizationId actorId db) = true →
        V.visible (t := .projects) row = true := by
    intro db row _ hcond
    simp only [Bool.and_eq_true, decide_eq_true_eq] at hcond
    exact hV.visible_of (congrArg some hcond.1)
  refine .bind (.query (Q := fun rows => ∀ row ∈ rows, V.Ours (t := .projects) row)
    (fun db _ => ?_) fun db hdb row hrow => ?_) fun rows hrows => (Secure.attachAll hrows).mono fun _ _ => trivial
  · rw [isMember_seen hV]
    exact congrArg (List.mergeSort · projectOrder) (Split.filter_seen (S := schema) (t := .projects) (hvisible db))
  · obtain ⟨hmem, hcond⟩ := List.mem_filter.mp (List.mem_mergeSort.mp hrow)
    exact ⟨hvisible db row hmem hcond, hdb.apart .projects row hmem (hvisible db row hmem hcond)⟩

theorem filter_projects_seen (projectId actorId : Uuid) (db : Db) :
    ((V.seen db .projects).filter fun (row : Project) =>
      isProjectId organizationId projectId row && isMember organizationId actorId (V.seen db)) =
    (db .projects).filter fun (row : Project) =>
      isProjectId organizationId projectId row && isMember organizationId actorId db := by
  rw [isMember_seen hV]
  refine Split.filter_seen (S := schema) (t := .projects) fun row _ hcond => hV.visible_of ?_
  exact isProjectId_tenant (Bool.and_eq_true_iff.mp hcond).1

theorem secure_getProject (projectId actorId : Uuid) :
    Secure V tag (fun _ => True) (getProject organizationId projectId actorId) := by
  refine .bind (.query (Q := fun rows => ∀ row ∈ rows, V.Ours (t := .projects) row)
    (fun db _ => filter_projects_seen hV projectId actorId db) fun db hdb row hrow => ?_) fun rows hrows =>
    .bind (.first hrows) fun project _ => secure_orRaise (fun _ _ => trivial) _
  obtain ⟨hmem, hcond⟩ := List.mem_filter.mp hrow
  have hvisible := hV.visible_of (isProjectId_tenant (Bool.and_eq_true_iff.mp hcond).1)
  exact ⟨hvisible, hdb.apart .projects row hmem hvisible⟩

theorem secure_lockProject (projectId actorId : Uuid) :
    Secure V tag (fun project => V.Ours (t := .projects) project)
      (lockProject organizationId projectId actorId) := by
  refine .bind (.query (Q := fun ids => ∀ id ∈ ids, V.Apart .projects id)
    (fun db _ => congrArg _ (filter_projects_seen hV projectId actorId db)) fun db hdb id hid => ?_) fun ids hids =>
    .bind (.lockMatching (hV.sees fun _ => isProjectId_tenant) hids) fun rows hrows =>
      .bind (.first hrows) fun project hours => secure_orRaise hours _
  obtain ⟨row, hrow, rfl⟩ := List.mem_map.mp hid
  obtain ⟨hmem, hcond⟩ := List.mem_filter.mp hrow
  exact hdb.apart .projects row hmem (hV.visible_of (isProjectId_tenant (Bool.and_eq_true_iff.mp hcond).1))

theorem secure_updateProject (projectId actorId : Uuid) (data : ProjectUpdate) :
    Secure V tag (fun _ => True) (updateProject rt organizationId projectId actorId data) := by
  refine .bind (secure_lockProject hV projectId actorId) fun project hours => ?_
  refine .bind (secure_runIf fun _ => .bind (secure_databaseNow hV) fun updatedAt _ =>
    secure_flushUpdate hours.2 (fun old hold => ?_) fun old _ u hu _ => nomatch hu) fun _ _ => ?_
  · have hof : tenantOf (t := .projects) old = some organizationId := hV.tenantOf_eq hold (by decide)
    exact hV.visible_of hof
  · refine .bind (secure_refresh hours.2) fun project _ => ?_
    exact .bind (secure_writeAudit hV _ _ _ _ _ _) fun _ _ => .pure trivial

theorem secure_deleteProject (projectId actorId : Uuid) :
    Secure V tag (fun _ => True) (deleteProject rt organizationId projectId actorId) :=
  .bind (secure_lockProject hV projectId actorId) fun _ hours =>
    .bind (secure_writeAudit hV _ _ _ _ _ _) fun _ _ => .deleteRow hours.2

/-! ### Usage, subscriptions and the audit log -/

theorem usageIn_seen (metric : String) (start stop : DateTime) (db : Db) :
    usageIn organizationId metric start stop (V.seen db) = usageIn organizationId metric start stop db := by
  refine congrArg (fun rows => (List.map UsageEvent.quantity rows).sum)
    (Split.filter_seen (S := schema) (t := .usageEvents) fun event _ hcond => ?_)
  exact hV.visible_of (congrArg some (of_decide_eq_true hcond).1)

theorem secure_getUsageSummary (metric : String) (at? : Option DateTime) :
    Secure V tag (fun _ => True) (getUsageSummary organizationId metric at?) := by
  refine .bind (.query (Q := fun _ => True) (fun db _ => ?_) fun _ _ => trivial) fun found _ => ?_
  · refine Split.any_seen fun organization _ hcond => hV.visible_of ?_
    exact congrArg some (of_decide_eq_true hcond)
  refine .bind (secure_raiseIf _ _) fun _ _ => ?_
  refine .bind (.scalar (hV.sees fun _ => isSubscriptionOf_tenant)) fun subscription _ => ?_
  refine .bind (secure_nowOr hV at?) fun current _ => .bind (secure_orRaise (fun _ _ => trivial) _) fun period _ => ?_
  exact .bind (.query (Q := fun _ => True) (fun db _ => usageIn_seen hV metric _ _ db) fun _ _ => trivial)
    fun used _ => .pure trivial

theorem secure_getSubscription : Secure V tag (fun _ => True) (getSubscription organizationId) :=
  .bind (.scalar (hV.sees fun _ => isSubscriptionOf_tenant)) fun _ _ => secure_orRaise (fun _ _ => trivial) _

theorem secure_createDefaultSubscription (at? : Option DateTime) :
    Secure V tag (fun subscription => V.Ours (t := .subscriptions) subscription)
      (createDefaultSubscription organizationId at?) := by
  refine .bind (secure_nowOr hV at?) fun current _ => .bind (secure_orRaise (fun _ _ => trivial) _) fun period _ => ?_
  refine .bind .freshId fun id hid => .bind (secure_databaseNow hV) fun createdAt _ => ?_
  refine .bind (secure_addRow (hV.visible_of rfl) (hid .subscriptions) (fun u hu => ?_) fun parent hparent => ?_)
    fun _ _ => .pure ⟨hV.visible_of rfl, hid .subscriptions⟩
  · obtain rfl := List.mem_singleton.mp hu
    exact hV.subscriber
  · exact hV.apart_parents [] hparent

theorem secure_changePlan (plan : Plan) (actorId : Uuid) (ipAddress : Option String) (at? : Option DateTime) :
    Secure V tag (fun _ => True) (changePlan rt organizationId plan actorId ipAddress at?) := by
  have hsubscription : Secure V tag (fun subscription => V.Ours (t := .subscriptions) subscription)
      (getOrCreateSubscription organizationId at?) := by
    refine .bind (.scalarForUpdate (hV.sees fun row hrow => ?_)) fun _ _ =>
      .bind (secure_orRaise (fun _ _ => trivial) _) fun _ _ =>
        .bind (.scalar (hV.sees fun _ => isSubscriptionOf_tenant)) fun subscription hours => ?_
    · simp only [isOrganization, decide_eq_true_eq] at hrow
      exact congrArg some hrow
    · cases subscription with
      | none => exact secure_createDefaultSubscription hV at?
      | some subscription => exact .pure (hours subscription rfl)
  refine .bind hsubscription fun subscription hours => .bind (secure_nowOr hV at?) fun current _ => ?_
  refine .bind (secure_orRaise (fun _ _ => trivial) _) fun period _ => ?_
  refine .bind (secure_runIf fun _ => .bind (secure_databaseNow hV) fun updatedAt _ =>
    secure_flushUpdate hours.2 (fun old hold => ?_) fun old hold u hu hnew => ?_) fun _ _ => ?_
  · have hof : tenantOf (t := .subscriptions) old = some organizationId := hV.tenantOf_eq hold (by decide)
    exact hV.visible_of hof
  · -- the identifiers at the payment provider stay as they are
    simp only [uniqueValues, Subscription.merge, assign, if_true] at hu hnew
    exact absurd hu hnew
  · refine .bind (secure_runIf fun _ =>
      .bind (secure_writeAudit hV _ _ _ _ _ _) fun _ _ => .pure trivial) fun _ _ => ?_
    exact (secure_refresh hours.2).mono fun _ _ => trivial

theorem secure_listAuditLogs (limit offset : Nat) :
    Secure V tag (fun _ => True) (listAuditLogs organizationId limit offset) := by
  have hvisible : ∀ db : Db, ∀ row : AuditLog, row ∈ db .auditLogs →
      decide (row.organizationId = organizationId) = true → V.visible (t := .auditLogs) row = true :=
    fun _ _ _ hcond => hV.visible_of (congrArg some (of_decide_eq_true hcond))
  refine .bind (.query (Q := fun rows => ∀ row ∈ rows, V.Ours (t := .auditLogs) row)
    (fun db _ => ?_) fun db hdb row hrow => ?_) fun rows hrows => (Secure.attachAll hrows).mono fun _ _ => trivial
  · exact congrArg (fun rows => ((List.mergeSort rows auditOrder).drop offset).take limit)
      (Split.filter_seen (S := schema) (t := .auditLogs) (hvisible db))
  · obtain ⟨hmem, hcond⟩ :=
      List.mem_filter.mp (List.mem_mergeSort.mp (List.mem_of_mem_drop (List.mem_of_mem_take hrow)))
    exact ⟨hvisible db row hmem hcond, hdb.apart .auditLogs row hmem (hvisible db row hmem hcond)⟩

/-! ### Requests -/

theorem secure_operation (user : User) {membership : Membership} (hof : membership.organizationId = organizationId)
    (call : TenantCall) : Secure V tag (fun _ => True) (call.operation rt organizationId user membership) := by
  cases call with
  | getOrganization => exact .map (secure_getOrganization hV user.id)
  | updateOrganization data => exact .map (secure_updateOrganization hV user.id data)
  | deleteOrganization => exact .bind (secure_deleteOrganization hV user.id) fun _ _ => .pure trivial
  | listMembers => exact .map (secure_listMembers hV)
  | updateMember membershipId role => exact .map (secure_updateMembership hV membershipId user.id role)
  | removeMember membershipId => exact .bind (secure_removeMembership hV membershipId user.id) fun _ _ => .pure trivial
  | createInvitation data => exact secure_createInvitationRoute hV user data
  | createApiKey name => exact .bind (secure_createApiKey hV user.id name) fun _ _ => .pure trivial
  | listApiKeys => exact .bind (secure_listApiKeys hV user.id) fun _ _ => .pure trivial
  | revokeApiKey keyId => exact .bind (secure_revokeApiKey hV keyId user.id) fun _ _ => .pure trivial
  | createProject data => exact .map (secure_createProject hV user.id data)
  | listProjects => exact .map (secure_listProjects hV user.id)
  | getProject projectId => exact .map (secure_getProject hV projectId user.id)
  | updateProject projectId data => exact .map (secure_updateProject hV projectId user.id data)
  | deleteProject projectId => exact .bind (secure_deleteProject hV projectId user.id) fun _ _ => .pure trivial
  | readUsage => exact .map (by rw [hof]; exact secure_getUsageSummary hV apiRequestsMetric none)
  | readSubscription => exact .map (by rw [hof]; exact secure_getSubscription hV)
  | changePlan plan ipAddress =>
    refine .bind (secure_raiseIf _ _) fun _ _ => .map ?_
    rw [hof]
    exact secure_changePlan hV plan membership.userId ipAddress none
  | readAuditLog limit offset => exact .map (by rw [hof]; exact secure_listAuditLogs hV limit offset)

theorem secure_tenantCall (credentials : Option Credentials) (call : TenantCall) :
    Secure V tag (fun _ => True) (call.handle rt organizationId credentials) :=
  .bind (secure_getCurrentUser hV credentials) fun user _ =>
    .bind (secure_getCurrentMembership hV user) fun _ hof =>
      .bind (secure_raiseIf _ _) fun _ _ => secure_operation hV user hof call

theorem secure_recordUsage (metric : String) (quantity : Int) (at? : Option DateTime) :
    Secure V tag (fun _ => True) (recordUsage organizationId metric quantity at?) := by
  refine .bind (secure_raiseIf _ _) fun _ _ => .bind (.scalarForUpdate (hV.sees fun row hrow => ?_)) fun _ _ => ?_
  · simp only [isOrganization, decide_eq_true_eq] at hrow
    exact congrArg some hrow
  refine .bind (secure_orRaise (fun _ _ => trivial) _) fun _ _ => ?_
  refine .bind (.scalar (hV.sees fun _ => isSubscriptionOf_tenant)) fun subscription _ => ?_
  refine .bind (secure_nowOr hV at?) fun current _ => .bind (secure_orRaise (fun _ _ => trivial) _) fun period _ => ?_
  refine .bind (.query (Q := fun _ => True) (fun db _ => usageIn_seen hV metric _ _ db) fun _ _ => trivial)
    fun used _ => ?_
  refine .bind (secure_runIf fun _ => .bind (secure_nowOr hV at?) fun _ _ => .throw _) fun _ _ => ?_
  refine .bind (secure_nowOr hV at?) fun createdAt _ => .bind .freshId fun id hid => ?_
  refine .bind (secure_addRow (hV.visible_of rfl) (hid .usageEvents) (fun u hu => absurd hu List.not_mem_nil)
    fun parent hparent => ?_) fun _ _ => .pure trivial
  exact hV.apart_parents [] hparent

/-- The raw key is not a key of another tenant. -/
def NotForeign (rt : Runtime) (V : Split schema Env) (raw : String) : Prop :=
  ∀ row : ApiKey, (row ∈ V.left .apiKeys ∨ row ∈ V.right .apiKeys) → row.keyHash ≠ rt.hashToken raw

theorem secure_authenticateApiKey {raw : String} (hraw : NotForeign rt V raw) :
    Secure V tag (fun principal => principal.organizationId = organizationId) (authenticateApiKey rt raw) := by
  have hlive : Secure.Sees V (t := .apiKeys) (isLiveKey (rt.hashToken raw)) := by
    intro db hdb row hrow hcond
    simp only [isLiveKey, Bool.and_eq_true, decide_eq_true_eq] at hcond
    by_contra hnot
    have hmem : row ∈ V.hidden db .apiKeys := Split.mem_hidden.mpr ⟨hrow, by simpa using hnot⟩
    refine hraw row ?_ hcond.1
    rcases hdb.hidden with hside | hside
    · exact Or.inl (hside ▸ hmem)
    · exact Or.inr (hside ▸ hmem)
  refine .bind (secure_raiseIf _ _) fun _ _ => .bind (.scalar hlive) fun key hkey => ?_
  refine .bind (secure_orRaise hkey _) fun key hours => .bind (secure_now hV) fun usedAt _ => ?_
  refine .bind (secure_runIf fun _ => secure_flushUpdate hours.2 (fun old hold => ?_) fun old _ u hu hnew =>
    absurd hu hnew) fun _ _ => .pure (Option.some.inj (hV.tenantOf_eq hours.1 (by decide)))
  have hof : tenantOf (t := .apiKeys) old = some organizationId := hV.tenantOf_eq hold (by decide)
  exact hV.visible_of hof

theorem secure_createUsageEvent {rawKey : Option String} (quantity : Int)
    (hkey : ∀ raw ∈ rawKey, NotForeign rt V raw) :
    Secure V tag (fun _ => True) (createUsageEvent rt organizationId rawKey quantity) := by
  have hprincipal : Secure V tag (fun principal => principal.organizationId = organizationId)
      (getApiKeyPrincipal rt rawKey) := by
    refine .bind (secure_orRaise (Q := NotForeign rt V) (fun raw hraw => ?_) _) fun raw hraw =>
      .bind (secure_authenticateApiKey hV hraw) fun principal hof =>
        .bind (secure_enforceRateLimit hV _) fun _ _ => .pure hof
    exact hkey raw (Option.filter_eq_some_iff.mp hraw).1
  refine .bind hprincipal fun principal hof => .bind (secure_raiseIf _ _) fun _ _ => .map ?_
  rw [hof]
  exact secure_recordUsage hV apiRequestsMetric quantity none

end Tenant

/-! ### Two databases -/

section Databases

variable {s s' : Shared schema Env T}

/-- Two states that agree on the sources, the users, the rows of an organization and the slugs that are
taken. -/
structure AgreeOn (organizationId : Uuid) (s s' : Shared schema Env T) : Prop where
  env : s'.env = s.env
  ids : s'.ids = s.ids
  users : s'.db .users = s.db .users
  rows : ∀ t, ofTenant organizationId t s'.db = ofTenant organizationId t s.db
  slugs : ∀ slug, s'.db.HasIndex .organizations (.slug slug) ↔ s.db.HasIndex .organizations (.slug slug)

/-- The ids and tokens that will be drawn are new. -/
structure AllNew (rt : Runtime) (s : Shared schema Env T) : Prop where
  ids : ∀ t id, s.ids.Holds id → s.db.lookup t id = none
  invitations : ∀ n, s.env.issued ≤ n → ∀ row : Invitation, row ∈ s.db .invitations →
    row.tokenHash ≠ rt.hashToken (s.env.tokens n)
  apiKeys : ∀ n, s.env.issued ≤ n → ∀ row : ApiKey, row ∈ s.db .apiKeys →
    row.keyHash ≠ rt.hashToken ("tf_live_" ++ s.env.tokens n)

/-- What a member of the organization cannot see. -/
def others (organizationId : Uuid) (db : Db) : Db := fun t =>
  (db t).filter fun row => !ofOrganization organizationId row

/-- The split of two states by what a member of an organization can see. -/
def tenantSplit (organizationId : Uuid) (s s' : Shared schema Env T) : Split schema Env where
  visible row := ofOrganization organizationId row
  left := others organizationId s.db
  right := others organizationId s'.db
  env e := e.tokens = s.env.tokens ∧ s.env.issued ≤ e.issued

theorem mem_others {db : Db} {t : Table} {row : Row t} :
    row ∈ others organizationId db t ↔ row ∈ db t ∧ tenantOf row ≠ some organizationId ∧ t ≠ .users := by
  rw [others, List.mem_filter]
  simp [ofOrganization]

theorem AgreeOn.seen (h : AgreeOn organizationId s s') (t : Table) :
    (s'.db t).filter (ofOrganization organizationId) = (s.db t).filter (ofOrganization organizationId) := by
  by_cases ht : t = .users
  · subst ht
    rw [h.users]
  · have hsame : ∀ db : Db, (db t).filter (ofOrganization organizationId) = ofTenant organizationId t db :=
      fun db => List.filter_congr fun row _ => by simp [ofOrganization, ht]
    rw [hsame, hsame, h.rows]

/-- What is visible in one state is in the other one. -/
theorem AgreeOn.mem_iff (h : AgreeOn organizationId s s') {t : Table} {row : Row t}
    (hrow : ofOrganization organizationId row = true) : row ∈ s'.db t ↔ row ∈ s.db t := by
  have hmem : row ∈ (s'.db t).filter (ofOrganization organizationId) ↔
      row ∈ (s.db t).filter (ofOrganization organizationId) := by rw [h.seen]
  simpa [List.mem_filter, hrow] using hmem

/-- A slug of another tenant is taken by another tenant in the other state, too. -/
theorem AgreeOn.slug_right (h : AgreeOn organizationId s s') (hdb : s.db.Integral) {slug : String}
    (htaken : (tenantSplit organizationId s s').left.HasIndex .organizations (.slug slug)) :
    (tenantSplit organizationId s s').right.HasIndex .organizations (.slug slug) := by
  obtain ⟨row, hrow, hslug⟩ := htaken
  obtain ⟨hmem, hother, -⟩ := mem_others.mp hrow
  obtain ⟨row', hrow', hslug'⟩ := (h.slugs slug).mpr ⟨row, hmem, hslug⟩
  refine ⟨row', mem_others.mpr ⟨hrow', fun hof => ?_, by decide⟩, hslug'⟩
  have hvisible : ofOrganization (t := .organizations) organizationId row' = true := by simp [ofOrganization, hof]
  have hid := hdb.unique .organizations row hmem row' ((h.mem_iff hvisible).mp hrow') (.slug slug) hslug hslug'
  exact hother ((congrArg some hid).trans hof)

theorem AgreeOn.symm (h : AgreeOn organizationId s s') : AgreeOn organizationId s' s :=
  ⟨h.env.symm, h.ids.symm, h.users.symm, fun t => (h.rows t).symm, fun slug => (h.slugs slug).symm⟩

theorem forTenant_tenantSplit (h : AgreeOn organizationId s s') (hdb : s.db.Integral) (hdb' : s'.db.Integral)
    (hnew : AllNew rt s) (hnew' : AllNew rt s') : ForTenant rt organizationId (tenantSplit organizationId s s') where
  visible _ := rfl
  organization := by
    have hside : ∀ db : Db, ∀ row : Organization, row ∈ others organizationId db .organizations →
        row.id ≠ organizationId := fun db row hrow hid => (mem_others.mp hrow).2.1 (congrArg some hid)
    exact ⟨hside s.db, hside s'.db⟩
  user id := by
    have hside : ∀ db : Db, ∀ row : User, row ∈ others organizationId db .users → row.id ≠ id :=
      fun db row hrow _ => (mem_others.mp hrow).2.2 rfl
    exact ⟨hside s.db, hside s'.db⟩
  slug slug := ⟨h.slug_right hdb, h.symm.slug_right hdb'⟩
  subscriber := by
    have hside : ∀ db : Db, ¬(others organizationId db).HasIndex .subscriptions (.subscriber organizationId) := by
      rintro db ⟨row, hrow, hu⟩
      refine (mem_others.mp hrow).2.1 (congrArg some ?_)
      simpa [uniqueValues, eq_comm] using hu
    exact iff_of_false (hside s.db) (hside s'.db)
  onward e e' he honward := ⟨honward.tokens.trans he.1, he.2.trans honward.issued⟩
  invitationToken e he := by
    have hside : ∀ s₁ : Shared schema Env T, AllNew rt s₁ → s₁.env = s.env →
        ¬(others organizationId s₁.db).HasIndex .invitations
          (.invitationToken (rt.hashToken (e.tokens e.issued))) := by
      rintro s₁ hnew henv ⟨row, hrow, hu⟩
      rw [he.1, ← henv] at hu
      refine hnew.invitations e.issued (by rw [henv]; exact he.2) row (mem_others.mp hrow).1 ?_
      simpa [uniqueValues, eq_comm] using hu
    exact iff_of_false (hside s hnew rfl) (hside s' hnew' h.env)
  apiKey e he := by
    have hside : ∀ s₁ : Shared schema Env T, AllNew rt s₁ → s₁.env = s.env →
        ¬(others organizationId s₁.db).HasIndex .apiKeys
          (.apiKey (rt.hashToken ("tf_live_" ++ e.tokens e.issued))) := by
      rintro s₁ hnew henv ⟨row, hrow, hu⟩
      rw [he.1, ← henv] at hu
      refine hnew.apiKeys e.issued (by rw [henv]; exact he.2) row (mem_others.mp hrow).1 ?_
      simpa [uniqueValues, eq_comm] using hu
    exact iff_of_false (hside s hnew rfl) (hside s' hnew' h.env)

/-- The two runs begin alike. -/
theorem alike_tenantSplit (h : AgreeOn organizationId s s') (hdb : s.db.Integral) (hdb' : s'.db.Integral)
    (hnew : AllNew rt s) (hnew' : AllNew rt s') :
    (tenantSplit organizationId s s').Alike .empty .empty s s' where
  hidden := rfl
  hidden' := rfl
  seen := funext fun t => h.seen t
  sameEnv := h.env
  ids := h.ids
  writes := rfl
  loaded := rfl
  known := ⟨rfl, le_rfl⟩
  apart t row hrow hvisible := by
    have hside : ∀ db : Db, db.Integral → row ∈ db t →
        ∀ other ∈ others organizationId db t, rowId other ≠ rowId row := by
      intro db hdb hrow other hother hid
      obtain rfl := hdb.eq_of_id (t := t) (mem_others.mp hother).1 hrow hid
      have hvisible : ofOrganization organizationId other = true := hvisible
      have hhidden := (List.mem_filter.mp hother).2
      rw [hvisible] at hhidden
      cases hhidden
    exact ⟨hside s.db hdb hrow, hside s'.db hdb' ((h.mem_iff hvisible).mpr hrow)⟩
  pending _ _ hentry := absurd hentry List.not_mem_nil
  copies _ _ hcopy := absurd hcopy List.not_mem_nil
  fresh t id hid := by
    have hside : ∀ s₁ : Shared schema Env T, AllNew rt s₁ → s₁.ids = s.ids →
        ∀ row ∈ others organizationId s₁.db t, rowId row ≠ id := fun s₁ hnew hids row hrow =>
      Store.lookup_eq_none.mp (hnew.ids t id (hids ▸ hid)) row (mem_others.mp hrow).1
    exact ⟨hside s hnew rfl, hside s' hnew' h.ids⟩

end Databases

/-! ### Isolation -/

/-- The requests of a member of the organization, or of one of its API keys. -/
def Request.Concerns (rt : Runtime) (organizationId : Uuid) (db : Db) : Request → Prop
  | .tenant of _ _ => of = organizationId
  | .createUsageEvent of rawKey _ => of = organizationId ∧ ∀ raw ∈ rawKey, ∃ key : ApiKey,
      key ∈ db .apiKeys ∧ key.organizationId = organizationId ∧ key.keyHash = rt.hashToken raw
  | _ => False

variable (tag) in
theorem secure_handle {s s' : Shared schema Env T} (h : AgreeOn organizationId s s') (hdb : s.db.Integral)
    (hdb' : s'.db.Integral) (hnew : AllNew rt s) (hnew' : AllNew rt s') {request : Request}
    (hrequest : request.Concerns rt organizationId s.db) :
    Secure (tenantSplit organizationId s s') tag (fun _ => True) (request.handle rt) := by
  have hV := forTenant_tenantSplit h hdb hdb' hnew hnew'
  refine secure_getSession ?_
  cases request with
  | tenant of credentials call =>
    obtain rfl : of = organizationId := hrequest
    exact secure_tenantCall hV credentials call
  | createUsageEvent of rawKey quantity =>
    obtain ⟨rfl, hkey⟩ := hrequest
    refine secure_createUsageEvent hV quantity fun raw hraw row hrow hhash => ?_
    obtain ⟨key, hmem, hof, hkeyHash⟩ := hkey raw hraw
    have hside : ∀ db : Db, db.Integral → key ∈ db .apiKeys → row ∈ others of db .apiKeys → False := by
      intro db hdb hkeyMem hrow
      obtain ⟨hrowMem, hother, -⟩ := mem_others.mp hrow
      have hsame := hdb.unique .apiKeys row hrowMem key hkeyMem (.apiKey (rt.hashToken raw))
        (by simp [uniqueValues, hhash]) (by simp [uniqueValues, hkeyHash])
      obtain rfl := hdb.eq_of_id (t := .apiKeys) hrowMem hkeyMem hsame
      exact hother (congrArg some hof)
    have hvisible : ofOrganization (t := .apiKeys) of key = true := by simp [ofOrganization, tenantOf, hof]
    rcases hrow with hrow | hrow
    · exact hside s.db hdb hmem hrow
    · exact hside s'.db hdb' ((h.mem_iff hvisible).mpr hmem) hrow
  | _ => exact hrequest.elim

/-- A request leaves the rows of other tenants, the users and their tokens as they are. -/
def LeavesOthers (organizationId : Uuid) (before after : Db) : Prop :=
  ∀ (t : Table) (row : Row t), tenantOf row ≠ some organizationId → (row ∈ after t ↔ row ∈ before t)

theorem AgreeOn.of_alike {s s' s₁ s₁' : Shared schema Env T} {σ σ' : Session schema}
    (hV : ForTenant rt organizationId (tenantSplit organizationId s s'))
    (h : (tenantSplit organizationId s s').Alike σ σ' s₁ s₁') : AgreeOn organizationId s₁ s₁' where
  env := h.sameEnv
  ids := h.ids
  users := by
    have hseen := congrFun h.seen .users
    rwa [hV.seen_users, hV.seen_users] at hseen
  rows t := by
    have hsame : ∀ db : Db, ofTenant organizationId t db =
        ((tenantSplit organizationId s s').seen db t).filter fun row => tenantOf row = some organizationId := by
      intro db
      refine (Split.filter_seen (S := schema) (t := t) fun row _ hof => hV.visible_of ?_).symm
      exact of_decide_eq_true hof
    rw [hsame, hsame, h.seen]
  slugs slug := by
    let V := tenantSplit organizationId s s'
    rw [V.hasIndex_iff s₁'.db, V.hasIndex_iff s₁.db, h.seen, h.hidden, h.hidden']
    exact or_congr Iff.rfl (hV.slug slug).symm

theorem users_not_mem_tables {db : Db} {request : Request} (h : request.Concerns rt organizationId db) :
    Table.users ∉ request.tables := by
  cases request with
  | tenant of credentials call => cases call <;> simp [Request.tables, TenantCall.tables, childTables]
  | createUsageEvent of rawKey quantity => simp [Request.tables]
  | _ => exact h.elim

/-- Rows that were hidden are there before and after. -/
theorem leavesOthers_of_hidden {before after : Db} (h : others organizationId after = others organizationId before)
    (husers : after .users = before .users) : LeavesOthers organizationId before after := by
  intro t row hrow
  by_cases ht : t = .users
  · subst ht
    rw [husers]
  · have hmem : row ∈ others organizationId after t ↔ row ∈ others organizationId before t := by rw [h]
    rw [mem_others, mem_others] at hmem
    simpa [hrow, ht] using hmem

/-- **Tenant isolation**: over two databases that agree on the users and on the rows of an organization, a
request of a member ends alike, and the rows of other tenants stay as they are. -/
theorem isolated {s s' : Shared schema Env Request} (h : AgreeOn organizationId s s') (hdb : s.db.Integral)
    (hdb' : s'.db.Integral) (hnew : AllNew rt s) (hnew' : AllNew rt s') {request : Request}
    (hrequest : request.Concerns rt organizationId s.db) :
    (request.perform rt s').outcome = (request.perform rt s).outcome ∧
      AgreeOn organizationId (request.perform rt s).after (request.perform rt s').after ∧
      LeavesOthers organizationId s.db (request.perform rt s).after.db ∧
      LeavesOthers organizationId s'.db (request.perform rt s').after.db := by
  have hV := forTenant_tenantSplit h hdb hdb' hnew hnew'
  obtain ⟨houtcome, halike, -⟩ := secure_handle request h hdb hdb' hnew hnew' hrequest .empty .empty s s'
    (alike_tenantSplit h hdb hdb' hnew hnew')
  have husers := users_not_mem_tables hrequest
  refine ⟨houtcome, .of_alike hV halike, ?_, ?_⟩
  · exact leavesOthers_of_hidden halike.hidden ((request.perform_frame rt hdb).1 .users husers)
  · exact leavesOthers_of_hidden halike.hidden' ((request.perform_frame rt hdb').1 .users husers)

/-! ### Strangers -/

section Strangers

variable {s s' : Shared schema Env T}

/-- The verdict of the rate limiter. -/
def admission (identifier : String) (e : Env) : Except Exn Unit :=
  match e.verdicts identifier e.checks with
  | none => .ok ()
  | some retryAfter =>
    .error (.app ⟨429, "rate_limit_exceeded", "Too many requests", [("Retry-After", toString retryAfter)]⟩)

variable (tag) in
theorem run_enforceRateLimit (identifier : String) (σ : Session schema) (s : Shared schema Env T) :
    (enforceRateLimit identifier).run tag σ s =
      (admission identifier s.env, σ, { s with env := { s.env with checks := s.env.checks + 1 } }) := by
  have hact : (Prog.act (X := Exn) (S := schema) fun e : Env =>
      (e.verdicts identifier e.checks, { e with checks := e.checks + 1 })).run tag σ s =
      (.ok (s.env.verdicts identifier s.env.checks), σ,
        { s with env := { s.env with checks := s.env.checks + 1 } }) := rfl
  rw [enforceRateLimit, Prog.bind_eq, Prog.run_bind_ok hact, admission]
  cases s.env.verdicts identifier s.env.checks <;> rfl

/-- What `get_current_user` makes of a header: the active user that the token names, unless the rate limiter
holds the user back. -/
def authentication (rt : Runtime) (credentials : Option Credentials) (e : Env) (users : List User) :
    Except Exn User × Env :=
  match credentials.filter fun c => rt.lower c.scheme = "bearer" with
  | none => (.error authenticationError, e)
  | some credentials =>
    let e₁ := { e with ticks := e.ticks + 1 }
    match decodeAccessToken rt credentials.credentials (e.clock e.ticks) with
    | none => (.error invalidAccessToken, e₁)
    | some userId =>
      match users.filter (isActiveUser userId) with
      | [] => (.error invalidAccessToken, e₁)
      | user :: _ =>
        ((admission ("user:" ++ rt.uuidText user.id) e₁).map fun _ => user, { e₁ with checks := e₁.checks + 1 })

variable (rt tag s) in
theorem run_getCurrentUser (credentials : Option Credentials) :
    ∃ σ : Session schema, σ.writes = .empty ∧ (getCurrentUser rt credentials).run tag .empty s =
      ((authentication rt credentials s.env (s.db .users)).1, σ,
        { s with env := (authentication rt credentials s.env (s.db .users)).2 }) := by
  unfold authentication
  rw [getCurrentUser, Prog.bind_eq]
  cases hheader : credentials.filter fun c => rt.lower c.scheme = "bearer" with
  | none => exact ⟨.empty, rfl, Prog.run_bind_error (run_orRaise_none tag .empty s _) _⟩
  | some c =>
    rw [Prog.run_bind_ok (run_orRaise_some tag .empty s c _), Prog.bind_eq, Prog.run_bind_ok (run_now tag .empty s),
      Prog.bind_eq]
    let read : Shared schema Env T := { s with env := { s.env with ticks := s.env.ticks + 1 } }
    dsimp only
    cases hdecoded : decodeAccessToken rt c.credentials (s.env.clock s.env.ticks) with
    | none => exact ⟨.empty, rfl, Prog.run_bind_error (run_orRaise_none tag .empty read _) _⟩
    | some userId =>
      rw [Prog.run_bind_ok (run_orRaise_some tag .empty read userId _), Prog.bind_eq]
      dsimp only
      have hscalar : (Prog.scalar (X := Exn) (S := schema) .users (isActiveUser userId)).run tag .empty read =
          (Prog.first (X := Exn) (S := schema) (t := .users) ((s.db .users).filter (isActiveUser userId))).run tag
            .empty read := by
        rw [Prog.scalar, Prog.query, Prog.bind, Prog.run, Session.view_empty, Prog.matching]
        rfl
      cases husers : (s.db .users).filter (isActiveUser userId) with
      | nil =>
        rw [husers] at hscalar
        exact ⟨.empty, rfl, (Prog.run_bind_ok hscalar _).trans
          (Prog.run_bind_error (run_orRaise_none tag .empty read _) _)⟩
      | cons user users =>
        rw [husers] at hscalar
        let known : Session schema := Session.empty.attach (S := schema) (t := .users) user
        refine ⟨known, rfl, (Prog.run_bind_ok hscalar _).trans ?_⟩
        refine (Prog.run_bind_ok (run_orRaise_some tag known read user _) _).trans ?_
        have hlimit := run_enforceRateLimit tag ("user:" ++ rt.uuidText user.id) known read
        rw [Prog.bind_eq, Prog.run_bind, hlimit]
        change _ = ((admission ("user:" ++ rt.uuidText user.id) read.env).map fun _ => user, known,
          { read with env := { read.env with checks := read.env.checks + 1 } })
        cases admission ("user:" ++ rt.uuidText user.id) read.env <;> rfl

/-- Who has no membership is told that there is no such organization. -/
theorem run_getCurrentMembership_none {σ : Session schema} (hσ : σ.writes = .empty) {user : User}
    (h : ∀ m : Membership, m ∈ s.db .memberships → m.organizationId = organizationId → m.userId ≠ user.id) :
    (getCurrentMembership organizationId user).run tag σ s = (.error organizationNotFound, σ, s) := by
  have hnone : Prog.matching (S := schema) .memberships (isMembership organizationId user.id anyRole)
      (σ.view s.db) = [] := by
    rw [Session.view, hσ, Overlay.apply_empty]
    refine List.filter_eq_nil_iff.mpr fun m hm hcond => ?_
    simp only [isMembership, Bool.and_eq_true, decide_eq_true_eq] at hcond
    exact h m hm hcond.1.1 hcond.1.2
  have hscalar : (Prog.scalar (X := Exn) (S := schema) .memberships
      (isMembership organizationId user.id anyRole)).run tag σ s = (.ok none, σ, s) := by
    rw [Prog.scalar, Prog.query, Prog.bind, Prog.run, hnone]
    rfl
  rw [getCurrentMembership, Prog.bind_eq, Prog.run_bind_ok hscalar]
  rfl

variable (rt tag) in
/-- What a call of a stranger comes to. -/
theorem run_stranger {credentials : Option Credentials} (call : TenantCall)
    (h : ∀ user, (authentication rt credentials s.env (s.db .users)).1 = .ok user →
      ∀ m : Membership, m ∈ s.db .memberships → m.organizationId = organizationId → m.userId ≠ user.id) :
    ∃ σ : Session schema, (call.handle rt organizationId credentials).run tag .empty s =
      (((authentication rt credentials s.env (s.db .users)).1.bind fun _ => .error organizationNotFound), σ,
        { s with env := (authentication rt credentials s.env (s.db .users)).2 }) := by
  obtain ⟨σ, hσ, hrun⟩ := run_getCurrentUser rt tag s credentials
  rw [TenantCall.handle, Prog.bind_eq]
  cases houtcome : (authentication rt credentials s.env (s.db .users)).1 with
  | error error =>
    rw [houtcome] at hrun
    exact ⟨σ, Prog.run_bind_error hrun _⟩
  | ok user =>
    rw [houtcome] at hrun
    rw [Prog.run_bind_ok hrun, Prog.bind_eq]
    let known : Shared schema Env T := { s with env := (authentication rt credentials s.env (s.db .users)).2 }
    exact ⟨σ, Prog.run_bind_error (run_getCurrentMembership_none (s := known) hσ (h user houtcome)) _⟩

end Strangers

/-- **Strangers learn nothing**: a call of a user without a membership ends as its authentication does, and
after that with the same answer whether the organization exists or not; nothing is written. -/
theorem stranger_isolated {s s' : Shared schema Env Request} (henv : s'.env = s.env)
    (husers : s'.db .users = s.db .users) {credentials : Option Credentials}
    (hstranger : ∀ user, (authentication rt credentials s.env (s.db .users)).1 = .ok user →
      ∀ m : Membership, m ∈ s.db .memberships ∨ m ∈ s'.db .memberships →
        m.organizationId = organizationId → m.userId ≠ user.id) (call : TenantCall) :
    let request := Request.tenant organizationId credentials call
    (request.perform rt s').outcome = (request.perform rt s).outcome ∧
      (request.perform rt s).after.db = s.db ∧ (request.perform rt s').after.db = s'.db ∧
      ∀ user, (authentication rt credentials s.env (s.db .users)).1 = .ok user →
        (request.perform rt s).outcome = .error organizationNotFound := by
  intro request
  have hperform : ∀ s₁ : Shared schema Env Request, s₁.env = s.env → s₁.db .users = s.db .users →
      (∀ user, (authentication rt credentials s.env (s.db .users)).1 = .ok user →
        ∀ m : Membership, m ∈ s₁.db .memberships → m.organizationId = organizationId →
          m.userId ≠ user.id) →
      (request.perform rt s₁).outcome =
        ((authentication rt credentials s.env (s.db .users)).1.bind fun _ => .error organizationNotFound) ∧
      (request.perform rt s₁).after.db = s₁.db := by
    intro s₁ henv husers hnone
    rw [← henv, ← husers] at hnone ⊢
    obtain ⟨σ, hrun⟩ := run_stranger rt request call hnone
    have hcommits := commitsBody_getSession (call.handle rt organizationId credentials) Request request .empty s₁
    rw [hrun] at hcommits
    cases houtcome : (authentication rt credentials s₁.env (s₁.db .users)).1 with
    | error error =>
      rw [houtcome] at hcommits
      exact ⟨hcommits.1, by rw [show (request.perform rt s₁).after = _ from hcommits.2]⟩
    | ok user =>
      rw [houtcome] at hcommits
      exact ⟨hcommits.1, by rw [show (request.perform rt s₁).after = _ from hcommits.2]⟩
  obtain ⟨houtcome, hdb⟩ := hperform s rfl rfl fun user huser m hm => hstranger user huser m (Or.inl hm)
  obtain ⟨houtcome', hdb'⟩ := hperform s' henv husers fun user huser m hm => hstranger user huser m (Or.inr hm)
  refine ⟨houtcome'.trans houtcome.symm, hdb, hdb', fun user huser => ?_⟩
  rw [houtcome, huser]
  rfl

namespace Reference

/-- Two organizations; user 1 owns the first one, user 2 has no membership. -/
def twoTenants : Tables :=
  { users := [user 1, user 2], organizations := [organization 15, organization 16],
    memberships := [member 31 1 15 .owner] }

/-- The second organization has a project, too. -/
def busyTenants : Tables :=
  { twoTenants with projects := [⟨41, 16, "Project", none, .active, 1, noon 0, noon 0⟩] }

theorem allNew_of_lt {tables : Tables} (h : ∀ t ∈ allTables, ∀ id ∈ (tables.db t).map rowId, id < 1000)
    (hinvitations : tables.invitations = []) (hkeys : tables.apiKeys = []) :
    AllNew runtime (shared Request daily tables) := by
  refine ⟨lookup_of_holds h, fun n _ row hrow => ?_, fun n _ row hrow => ?_⟩
  · change row ∈ tables.invitations at hrow
    rw [hinvitations] at hrow
    cases hrow
  · change row ∈ tables.apiKeys at hrow
    rw [hkeys] at hrow
    cases hrow

theorem createProject_isolated :
    let request := Request.tenant 15 (bearer 1) (.createProject ⟨"Project", none⟩)
    let s := shared Request daily twoTenants
    let s' := shared Request daily busyTenants
    (request.perform runtime s').outcome = (request.perform runtime s).outcome ∧
      AgreeOn 15 (request.perform runtime s).after (request.perform runtime s').after ∧
      LeavesOthers 15 s.db (request.perform runtime s).after.db ∧
      LeavesOthers 15 s'.db (request.perform runtime s').after.db := by
  intro request s s'
  have hagree : AgreeOn 15 s s' := ⟨rfl, rfl, rfl, fun t => by cases t <;> rfl, fun _ => Iff.rfl⟩
  exact isolated hagree (ValidDb.integral (by decide +kernel)) (ValidDb.integral (by decide +kernel))
    (allNew_of_lt (by decide) rfl rfl) (allNew_of_lt (by decide) rfl rfl) rfl

theorem getProject_stranger :
    let request := Request.tenant 16 (bearer 2) (.getProject 41)
    let s := shared Request daily twoTenants
    let s' := shared Request daily busyTenants
    (request.perform runtime s').outcome = (request.perform runtime s).outcome ∧
      (request.perform runtime s).after.db = s.db ∧ (request.perform runtime s').after.db = s'.db ∧
      ∀ user, (authentication runtime (bearer 2) s.env (s.db .users)).1 = .ok user →
        (request.perform runtime s).outcome = .error organizationNotFound := by
  intro request s s'
  have hnone : ∀ m ∈ twoTenants.memberships, m.organizationId = 16 → False := by decide
  have henv : s'.env = s.env := rfl
  refine stranger_isolated henv rfl (fun _ _ m hm hof => ?_) (.getProject 41)
  rcases hm with hm | hm
  · exact (hnone m hm hof).elim
  · exact (hnone m hm hof).elim

end Reference

end TenantForge
