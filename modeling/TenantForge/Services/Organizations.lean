import TenantForge.Services.Billing
/-!
# Organizations and memberships (`app/services/organizations.py`)
-/

namespace TenantForge

open Gregorian ReadCommitted

variable (rt : Runtime)

structure OrganizationCreate where
  name : String
  slug : String

/-- The fields that the request sets. -/
structure OrganizationUpdate where
  name : Option String
  slug : Option String

def slugTaken : Exn := conflictError "slug_taken" "This organization slug is already in use"

def createOrganization (actor : User) (data : OrganizationCreate) : App Organization := do
  let slug := rt.lower data.slug
  let taken ← Prog.query fun db : Db =>
    (db .organizations).any fun (row : Organization) => row.slug = slug
  raiseIf (taken = true) slugTaken
  let id ← uuid4
  let createdAt ← databaseNow
  let organization : Organization :=
    { id, name := data.name, slug, createdAt, updatedAt := createdAt }
  exceptIntegrityError slugTaken do
    addRow .organizations organization
    let membershipId ← uuid4
    let joinedAt ← databaseNow
    addRow .memberships
      { id := membershipId, userId := actor.id, organizationId := id, role := .owner, joinedAt }
    let _ ← createDefaultSubscription id
  let organization ← refresh .organizations id
  let _ ← writeAudit id (some actor.id) "organization.created" "organization" (rt.uuidText id)
  pure organization

/-- The membership is of this user in this organization, with an allowed role. -/
def isMembership (organizationId userId : Uuid) (allowed : Role → Bool) (row : Membership) : Bool :=
  row.organizationId = organizationId && row.userId = userId && allowed row.role

def anyRole (_ : Role) : Bool := true

def ownerOrAdmin (role : Role) : Bool := role = .owner || role = .admin

def ownerOnly (role : Role) : Bool := role = .owner

/-- `join(Membership, Membership.organization_id == Organization.id)` with the conditions of the
queries below. -/
def isMemberOrganization (organizationId userId : Uuid) (allowed : Role → Bool)
    (organization : Organization) (membership : Membership) : Bool :=
  membership.organizationId = organization.id && organization.id = organizationId &&
    membership.userId = userId && allowed membership.role

def organizationOrder (a b : Organization) : Bool :=
  decide (a.createdAt < b.createdAt ∨ (a.createdAt = b.createdAt ∧ a.id ≤ b.id))

def listOrganizations (userId : Uuid) : App (List Organization) := do
  let rows ← Prog.query fun db : Db =>
    ((Prog.joined (S := schema) .organizations .memberships
      (fun (organization : Organization) (membership : Membership) =>
        membership.organizationId = organization.id && membership.userId = userId) db).map
      Prod.fst).mergeSort organizationOrder
  Prog.attachAll (S := schema) (t := .organizations) rows

def getOrganization (organizationId userId : Uuid) : App Organization := do
  let rows ← Prog.query fun db : Db =>
    (Prog.joined (S := schema) .organizations .memberships
      (isMemberOrganization organizationId userId anyRole) db).map Prod.fst
  let organization ← Prog.first (S := schema) (t := .organizations) rows
  orRaise organization organizationNotFound

/-- A row after the flush of a changed organization object. -/
def Organization.merge (loaded changed row : Organization) (updatedAt : DateTime) : Organization :=
  { row with
    name := assign loaded.name changed.name row.name
    slug := assign loaded.slug changed.slug row.slug
    updatedAt }

def flushOrganization (loaded changed : Organization) : App Unit :=
  runIf (changed ≠ loaded) do
    let updatedAt ← databaseNow
    flushUpdate .organizations loaded.id fun row => loaded.merge changed row updatedAt

def updateOrganization (organizationId actorId : Uuid) (data : OrganizationUpdate) :
    App Organization := do
  let organization ← Prog.scalarJoinForUpdate (S := schema) .organizations .memberships
    (isMemberOrganization organizationId actorId ownerOrAdmin)
  let organization ← orRaise organization forbiddenError
  let changed := { organization with
    name := data.name.getD organization.name
    slug := (data.slug.map rt.lower).getD organization.slug }
  exceptIntegrityError slugTaken (flushOrganization organization changed)
  let organization ← refresh .organizations organization.id
  let fields := data.name.toList.map (fun _ => Value.str "name") ++
    data.slug.toList.map fun _ => Value.str "slug"
  let _ ← writeAudit organizationId (some actorId) "organization.updated" "organization"
    (rt.uuidText organizationId) [("fields", .list fields)]
  pure organization

/-- The cascades of `ondelete="CASCADE"` from a deleted organization. -/
def cascade (organizationId : Uuid) : List Table → App Unit
  | [] => pure ()
  | t :: ts => do
    Prog.deleteMatching (S := schema) t fun row => tenantOf row = some organizationId
    cascade organizationId ts

/-- `delete_organization` up to its cascades. -/
def claimOrganization (organizationId actorId : Uuid) : App Uuid := do
  let organization ← Prog.scalarJoinForUpdate (S := schema) .organizations .memberships
    (isMemberOrganization organizationId actorId ownerOnly)
  let organization ← orRaise organization
    (forbiddenError "owner_required" "Only an owner can delete the organization")
  let _ ← writeAudit organizationId (some actorId) "organization.deleted" "organization"
    (rt.uuidText organizationId)
  Prog.deleteRow (S := schema) .organizations organization.id
  pure organization.id

def deleteOrganization (organizationId actorId : Uuid) : App Unit := do
  let deletedId ← claimOrganization rt organizationId actorId
  cascade deletedId childTables

def memberOrder (a b : Membership × String) : Bool :=
  decide (a.1.joinedAt < b.1.joinedAt ∨ (a.1.joinedAt = b.1.joinedAt ∧ a.1.id ≤ b.1.id))

/-- The members of an organization with the email addresses of their users. -/
def listMembers (organizationId : Uuid) : App (List (Membership × String)) := do
  let rows ← Prog.query fun db : Db =>
    ((Prog.joined (S := schema) .memberships .users
      (fun (membership : Membership) (user : User) =>
        user.id = membership.userId && membership.organizationId = organizationId) db).map
      fun pair => ((pair.1 : Membership), User.email pair.2)).mergeSort memberOrder
  let members ← Prog.attachAll (S := schema) (t := .memberships) (rows.map Prod.fst)
  pure (members.zip (rows.map Prod.snd))

/-! ### Changing memberships -/

def lockActorMembership (organizationId userId : Uuid) : App Membership := do
  let membership ← Prog.scalarForUpdate (S := schema) .memberships
    (isMembership organizationId userId anyRole)
  orRaise membership forbiddenError

def isMembershipId (organizationId membershipId : Uuid) (row : Membership) : Bool :=
  row.id = membershipId && row.organizationId = organizationId

def lockMembership (organizationId membershipId : Uuid) : App Membership := do
  let membership ← Prog.scalarForUpdate (S := schema) .memberships
    (isMembershipId organizationId membershipId)
  orRaise membership (notFoundError "membership_not_found" "Membership not found")

def isOwnerOf (organizationId : Uuid) (row : Membership) : Bool :=
  row.organizationId = organizationId && row.role = .owner

def ensureAnotherOwner (organizationId excludedMembershipId : Uuid) : App Unit := do
  let owners ← Prog.selectForUpdate (S := schema) .memberships (isOwnerOf organizationId)
  raiseIf (owners.any (fun (owner : Membership) => owner.id ≠ excludedMembershipId) = false)
    (conflictError "last_owner" "An organization must keep at least one owner")

def updateMembership (organizationId membershipId actorId : Uuid) (newRole : Role) :
    App Membership := do
  let actor ← lockActorMembership organizationId actorId
  let target ← lockMembership organizationId membershipId
  raiseIf (actor.role = .admin ∧ (target.role ≠ .member ∨ newRole ≠ .member))
    (forbiddenError "membership_change_forbidden"
      "Administrators cannot grant roles or manage owners")
  raiseIf (actor.role ≠ .admin ∧ actor.role ≠ .owner) forbiddenError
  runIf (target.role = .owner ∧ newRole ≠ .owner) (ensureAnotherOwner organizationId target.id)
  runIf (newRole ≠ target.role)
    (flushUpdate .memberships target.id fun (row : Membership) => { row with role := newRole })
  let _ ← writeAudit organizationId (some actorId) "member.role_changed" "membership"
    (rt.uuidText target.id) [("old_role", .str target.role.value), ("new_role", .str newRole.value)]
  pure { target with role := newRole }

def removeMembership (organizationId membershipId actorId : Uuid) : App Unit := do
  let actor ← lockActorMembership organizationId actorId
  let target ← lockMembership organizationId membershipId
  raiseIf (actor.role = .admin ∧ target.role ≠ .member)
    (forbiddenError "membership_remove_forbidden" "Administrators can remove members only")
  raiseIf (actor.role ≠ .owner ∧ actor.role ≠ .admin) forbiddenError
  runIf (target.role = .owner) (ensureAnotherOwner organizationId target.id)
  let _ ← writeAudit organizationId (some actorId) "member.removed" "membership"
    (rt.uuidText target.id)
    [("user_id", .str (rt.uuidText target.userId)), ("role", .str target.role.value)]
  Prog.deleteRow (S := schema) .memberships target.id

end TenantForge
