import TenantForge.Services.Organizations
/-!
# Accounts and tokens (`app/services/auth.py`, `app/security/jwt.py`)
-/

namespace TenantForge

open Gregorian ReadCommitted

variable (rt : Runtime)

structure IssuedTokens where
  accessToken : String
  refreshToken : String
  expiresIn : Nat

/-- `none` is an `InvalidAccessToken`, whatever the reason. -/
def decodeAccessToken (token : String) (current : DateTime) : Option Uuid :=
  (rt.jwtDecode token current).bind fun claims =>
    if claims.type = "access" then rt.parseUuid claims.sub else none

def createAccessToken (userId : Uuid) : App (String × Nat) := do
  let issuedAt ← now
  let jti ← uuid4
  pure (rt.jwtEncode ⟨rt.uuidText userId, "access"⟩ jti issuedAt,
    rt.settings.accessTokenExpireMinutes * 60)

def hasEmail (email : String) (row : User) : Bool := row.email = email

def emailTaken : Exn := conflictError "email_taken" "An account with this email already exists"

def registerUser (email password : String) : App User := do
  let email := rt.lower (rt.strip email)
  let existing ← Prog.query fun db : Db => (db .users).any (hasEmail email)
  raiseIf (existing = true) emailTaken
  let id ← uuid4
  let createdAt ← databaseNow
  exceptIntegrityError emailTaken do
    addRow .users { id, email, passwordHash := rt.hashPassword password, isActive := true,
                    isVerified := false, createdAt, updatedAt := createdAt }
  refresh .users id

def dummyPasswordHash : String := rt.hashPassword "not-a-real-user-password"

def authenticateUser (email password : String) : App User := do
  let user ← Prog.scalar (S := schema) .users (hasEmail (rt.lower (rt.strip email)))
  let candidateHash := (user.map User.passwordHash).getD (dummyPasswordHash rt)
  let invalid := authenticationError "invalid_credentials" "Invalid email or password"
  let user ← orRaise user invalid
  raiseIf (rt.verifyPassword password candidateHash = false ∨ user.isActive = false) invalid
  pure user

def inactiveUser : Exn := authenticationError "inactive_user" "This account is inactive"

def issueTokens (user : User) : App IssuedTokens := do
  raiseIf (user.isActive = false) inactiveUser
  let current ← now
  let refreshToken ← tokenUrlsafe
  let expiresAt ← orRaise (current.addDays rt.settings.refreshTokenExpireDays) .overflowError
  let (accessToken, expiresIn) ← createAccessToken rt user.id
  let id ← uuid4
  addRow .refreshTokens { id, userId := user.id, tokenHash := rt.hashToken refreshToken, expiresAt,
                          revokedAt := none, createdAt := current }
  pure ⟨accessToken, refreshToken, expiresIn⟩

def hasTokenHash (tokenHash : String) (row : RefreshToken) : Bool := row.tokenHash = tokenHash

def invalidRefreshToken : Exn :=
  authenticationError "invalid_refresh_token" "Invalid refresh token"

/-- The flush of a revoked token object. -/
def flushRevoked (token : RefreshToken) (revokedAt : DateTime) : App Unit :=
  flushUpdate .refreshTokens token.id fun (row : RefreshToken) =>
    { row with revokedAt := some revokedAt }

def isUserId (userId : Uuid) (row : User) : Bool := row.id = userId

def rotateRefreshToken (rawToken : String) : App IssuedTokens := do
  let current ← now
  let storedToken ← Prog.scalarForUpdate (S := schema) .refreshTokens
    (hasTokenHash (rt.hashToken rawToken))
  let storedToken ← orRaise storedToken invalidRefreshToken
  raiseIf (storedToken.revokedAt.isSome = true)
    (authenticationError "refresh_token_reused" "Refresh token has already been used")
  raiseIf (storedToken.expiresAt ≤ current)
    (authenticationError "refresh_token_expired" "Refresh token has expired")
  let user ← Prog.scalar (S := schema) .users (isUserId storedToken.userId)
  let user ← orRaise user inactiveUser
  raiseIf (user.isActive = false) inactiveUser
  -- the revocation is flushed with the new token
  flushRevoked storedToken current
  issueTokens rt user

def revokeRefreshToken (rawToken : String) : App Unit := do
  let storedToken ← Prog.scalarForUpdate (S := schema) .refreshTokens
    (hasTokenHash (rt.hashToken rawToken))
  let storedToken ← orRaise storedToken invalidRefreshToken
  runIf (storedToken.revokedAt = none) do
    let revokedAt ← now
    flushRevoked storedToken revokedAt

end TenantForge
