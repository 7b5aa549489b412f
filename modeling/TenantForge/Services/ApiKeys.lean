import TenantForge.Services.Organizations
/-!
# API keys (`app/services/api_keys.py`)
-/

namespace TenantForge

open Gregorian ReadCommitted

variable (rt : Runtime)

structure ApiKeyPrincipal where
  keyId : Uuid
  organizationId : Uuid
  deriving DecidableEq

/-- A new raw key and its visible beginning. -/
def generateApiKey : App (String × String) := do
  let token ← tokenUrlsafe
  let key := "tf_live_" ++ token
  pure (key, String.ofList (key.toList.take 16))

def lockOwner (organizationId userId : Uuid) : App Membership := do
  let membership ← Prog.scalarForUpdate (S := schema) .memberships
    (isMembership organizationId userId ownerOnly)
  orRaise membership (forbiddenError "owner_required" "Only an owner can manage API keys")

def createApiKey (organizationId actorId : Uuid) (name : String) : App (ApiKey × String) := do
  let _ ← lockOwner organizationId actorId
  let (rawKey, keyPrefix) ← generateApiKey
  let id ← uuid4
  let createdAt ← databaseNow
  addRow .apiKeys
    { id, organizationId, name, keyHash := rt.hashToken rawKey, keyPrefix, createdBy := actorId,
      lastUsedAt := none, createdAt, revokedAt := none }
  let apiKey ← refresh .apiKeys id
  let _ ← writeAudit organizationId (some actorId) "api_key.created" "api_key" (rt.uuidText id)
    [("name", .str name), ("prefix", .str keyPrefix)]
  pure (apiKey, rawKey)

/-- Newest first. -/
def apiKeyOrder (a b : ApiKey) : Bool :=
  decide (b.createdAt < a.createdAt ∨ (a.createdAt = b.createdAt ∧ a.id ≤ b.id))

def listApiKeys (organizationId actorId : Uuid) : App (List ApiKey) := do
  let rows ← Prog.query fun db : Db =>
    ((Prog.joined (S := schema) .apiKeys .memberships
      (fun (key : ApiKey) (membership : Membership) =>
        membership.organizationId = key.organizationId && key.organizationId = organizationId &&
          membership.userId = actorId && ownerOnly membership.role) db).map
      Prod.fst).mergeSort apiKeyOrder
  Prog.attachAll (S := schema) (t := .apiKeys) rows

def isApiKeyId (organizationId keyId : Uuid) (row : ApiKey) : Bool :=
  row.id = keyId && row.organizationId = organizationId

def revokeApiKey (organizationId keyId actorId : Uuid) : App Unit := do
  let _ ← lockOwner organizationId actorId
  let apiKey ← Prog.scalarForUpdate (S := schema) .apiKeys (isApiKeyId organizationId keyId)
  let apiKey ← orRaise apiKey (notFoundError "api_key_not_found" "API key not found")
  runIf (apiKey.revokedAt = none) do
    let revokedAt ← now
    flushUpdate .apiKeys apiKey.id fun (row : ApiKey) => { row with revokedAt := some revokedAt }
    let _ ← writeAudit organizationId (some actorId) "api_key.revoked" "api_key"
      (rt.uuidText apiKey.id)

def invalidApiKey : Exn := authenticationError "invalid_api_key" "Invalid API key"

def isLiveKey (keyHash : String) (row : ApiKey) : Bool :=
  row.keyHash = keyHash && row.revokedAt.isNone

def authenticateApiKey (rawKey : String) : App ApiKeyPrincipal := do
  raiseIf (rawKey.startsWith "tf_live_" = false) invalidApiKey
  let apiKey ← Prog.scalar (S := schema) .apiKeys (isLiveKey (rt.hashToken rawKey))
  let apiKey ← orRaise apiKey invalidApiKey
  let usedAt ← now
  runIf (apiKey.lastUsedAt ≠ some usedAt)
    (flushUpdate .apiKeys apiKey.id fun (row : ApiKey) => { row with lastUsedAt := some usedAt })
  pure ⟨apiKey.id, apiKey.organizationId⟩

end TenantForge
