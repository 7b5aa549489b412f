import TenantForge.Services.Organizations
/-!
# Invitations (`app/services/invitations.py`, `app/security/permissions.py`)
-/

namespace TenantForge

open Gregorian ReadCommitted

variable (rt : Runtime)

structure InvitationCreate where
  email : String
  role : Role

def ensureInvitationRole (actorRole invitedRole : Role) : App Unit :=
  if actorRole = .owner then pure ()
  else if actorRole = .admin ∧ invitedRole = .member then pure ()
  else throw (forbiddenError "invitation_role_forbidden" "You cannot invite a member with that role")

def lockOrganization (organizationId : Uuid) : App Unit := do
  let found ← Prog.selectForUpdate (S := schema) .organizations (isOrganization organizationId)
  raiseIf (found.isEmpty = true) forbiddenError

def lockActor (organizationId userId : Uuid) : App Membership := do
  let membership ← Prog.scalarForUpdate (S := schema) .memberships
    (isMembership organizationId userId ownerOrAdmin)
  orRaise membership forbiddenError

/-- A member of the organization has this email address, compared in lower case by the database. -/
def memberHasEmail (organizationId : Uuid) (email : String) (db : Db) : Bool :=
  (db .memberships).any fun (membership : Membership) =>
    membership.organizationId = organizationId &&
      (db .users).any fun (user : User) =>
        user.id = membership.userId && rt.sqlLower user.email = email

def isActiveInvitation (organizationId : Uuid) (email : String) (current : DateTime)
    (row : Invitation) : Bool :=
  row.organizationId = organizationId && rt.sqlLower row.email = email && row.acceptedAt.isNone &&
    current < row.expiresAt

def createInvitation (organizationId actorId : Uuid) (data : InvitationCreate) :
    App (Invitation × String) := do
  lockOrganization organizationId
  let actorMembership ← lockActor organizationId actorId
  ensureInvitationRole actorMembership.role data.role
  let current ← now
  let memberExists ← Prog.query (memberHasEmail rt organizationId data.email)
  raiseIf (memberExists = true) (conflictError "already_member" "This user is already a member")
  let activeInvitation ← Prog.query fun db : Db =>
    (db .invitations).any (isActiveInvitation rt organizationId data.email current)
  raiseIf (activeInvitation = true)
    (conflictError "invitation_exists" "An active invitation already exists")
  let rawToken ← tokenUrlsafe
  let expiresAt ← orRaise (current.addDays rt.settings.invitationExpireDays) .overflowError
  let id ← uuid4
  let invitation : Invitation := {
    id, organizationId, email := data.email, role := data.role,
    tokenHash := rt.hashToken rawToken, expiresAt, acceptedAt := none,
    createdBy := actorId, createdAt := current }
  addRow .invitations invitation
  let invitation ← refresh .invitations id
  let _ ← writeAudit organizationId (some actorId) "member.invited" "invitation" (rt.uuidText id)
    [("email", .str data.email), ("role", .str data.role.value)]
  pure (invitation, rawToken)

def alreadyMember : Exn := conflictError "already_member" "This user is already a member"

def hasToken (tokenHash : String) (row : Invitation) : Bool := row.tokenHash = tokenHash

/-- The unit of work sends the update of the invitation before the new membership; the row is locked
already, so the update can neither wait nor fail, and the other order makes no difference. -/
def acceptInvitation (rawToken : String) (user : User) : App Membership := do
  let current ← now
  let invitation ← Prog.scalarForUpdate (S := schema) .invitations (hasToken (rt.hashToken rawToken))
  let invitation ← orRaise invitation (notFoundError "invitation_not_found" "Invitation not found")
  raiseIf (invitation.acceptedAt.isSome = true)
    (conflictError "invitation_used" "Invitation has already been accepted")
  raiseIf (invitation.expiresAt ≤ current)
    (conflictError "invitation_expired" "Invitation has expired")
  raiseIf (rt.lower invitation.email ≠ rt.lower user.email)
    (forbiddenError "invitation_email_mismatch" "This invitation belongs to another account")
  let existing ← Prog.query fun db : Db =>
    (db .memberships).any (isMembership invitation.organizationId user.id anyRole)
  raiseIf (existing = true) alreadyMember
  let membershipId ← exceptIntegrityError alreadyMember do
    flushUpdate .invitations invitation.id fun (row : Invitation) =>
      { row with acceptedAt := some current }
    let id ← uuid4
    let joinedAt ← databaseNow
    addRow .memberships
      { id, userId := user.id, organizationId := invitation.organizationId,
        role := invitation.role, joinedAt }
    pure id
  let membership ← refresh .memberships membershipId
  let _ ← writeAudit invitation.organizationId (some user.id) "invitation.accepted" "invitation"
    (rt.uuidText invitation.id) [("membership_id", .str (rt.uuidText membershipId))]
  pure membership

end TenantForge
