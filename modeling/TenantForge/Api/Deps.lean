import TenantForge.Services.ApiKeys
import TenantForge.Services.Auth
/-!
# Request dependencies (`app/api/deps.py`, `app/infrastructure/rate_limit.py`)
-/

namespace TenantForge

open Gregorian ReadCommitted

variable (rt : Runtime)

/-- The `Authorization` header. -/
structure Credentials where
  scheme : String
  credentials : String

/-- `FixedWindowRateLimiter(redis).enforce(identifier, limit)` -/
def enforceRateLimit (identifier : String) : App Unit := do
  let verdict ← Prog.act fun e : Env =>
    (e.verdicts identifier e.checks, { e with checks := e.checks + 1 })
  match verdict with
  | none => pure ()
  | some retryAfter =>
    throw (.app ⟨429, "rate_limit_exceeded", "Too many requests", [("Retry-After", toString retryAfter)]⟩)

def invalidAccessToken : Exn :=
  authenticationError "invalid_access_token" "Invalid or expired access token"

def isActiveUser (userId : Uuid) (row : User) : Bool := row.id = userId && row.isActive

def getCurrentUser (credentials : Option Credentials) : App User := do
  let credentials ← orRaise (credentials.filter fun c => rt.lower c.scheme = "bearer")
    authenticationError
  let current ← now
  let userId ← orRaise (decodeAccessToken rt credentials.credentials current) invalidAccessToken
  let user ← Prog.scalar (S := schema) .users (isActiveUser userId)
  let user ← orRaise user invalidAccessToken
  enforceRateLimit ("user:" ++ rt.uuidText user.id)
  pure user

def getCurrentMembership (organizationId : Uuid) (currentUser : User) : App Membership := do
  let membership ← Prog.scalar (S := schema) .memberships
    (isMembership organizationId currentUser.id anyRole)
  orRaise membership organizationNotFound

def requireRoles (allowed : Role → Bool) (membership : Membership) : App Unit :=
  raiseIf (allowed membership.role = false) forbiddenError

def getApiKeyPrincipal (rawKey : Option String) : App ApiKeyPrincipal := do
  let rawKey ← orRaise (rawKey.filter fun key => 8 ≤ key.length ∧ key.length ≤ 256) invalidApiKey
  let principal ← authenticateApiKey rt rawKey
  enforceRateLimit ("api-key:" ++ rt.uuidText principal.keyId)
  pure principal

end TenantForge
