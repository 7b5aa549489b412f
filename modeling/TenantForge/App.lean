import TenantForge.Database
import TenantForge.ReadCommitted.Program
/-!
# Runtime, environment and exceptions

`Runtime` collects the functions of the Python runtime, of its libraries and of the settings that the
code calls; nothing is assumed of them but the laws written as fields. `Env` is the world outside the
database: the clock, the random sources, the rate limiter's verdicts and the Redis lists.
-/

namespace TenantForge

open Gregorian ReadCommitted

/-! ### Exceptions -/

structure AppError where
  statusCode : Nat
  code : String
  message : String
  headers : List (String × String)
  deriving DecidableEq

inductive Exn where
  | app (error : AppError)
  | valueError (message : String)
  | jsonDecodeError
  | recursionError
  | keyError
  | indexError
  | typeError
  | overflowError
  | osError
  | validationError
  | integrityError
  | staleDataError
  | invalidRequestError
  | databaseError
  | redisError
  | invitationDeliveryError
  deriving DecidableEq

instance : DatabaseError Exn := ⟨.databaseError⟩

def appError (statusCode : Nat) (code message : String) : Exn := .app ⟨statusCode, code, message, []⟩

def notFoundError (code message : String) : Exn := appError 404 code message

def forbiddenError (code : String := "forbidden") (message : String := "Permission denied") : Exn :=
  appError 403 code message

def conflictError (code message : String) : Exn := appError 409 code message

def authenticationError (code : String := "authentication_required")
    (message : String := "Invalid credentials") : Exn :=
  .app ⟨401, code, message, [("WWW-Authenticate", "Bearer")]⟩

/-! ### Runtime -/

/-- What `datetime.fromisoformat` returns: a naive time, or an aware one with its UTC offset. -/
inductive ParsedDateTime where
  | naive (civil : DateTime)
  | aware (civil : DateTime) (offsetMicros : Int)

/-- How the time functions of the standard library fail. -/
inductive TimeError where
  | value
  | overflow
  | os

def TimeError.exn : TimeError → Exn
  | .value => .valueError "invalid time"
  | .overflow => .overflowError
  | .os => .osError

/-- How `json.loads` fails: the text is no JSON, a numeral has too many digits for an integer, or the values
are nested too deeply. -/
inductive JsonError where
  | decode
  | digits
  | recursion

def JsonError.exn : JsonError → Exn
  | .decode => .jsonDecodeError
  | .digits => .valueError "Exceeds the limit (4300 digits) for integer string conversion"
  | .recursion => .recursionError

/-- The claims of an access token. -/
structure TokenClaims where
  sub : String
  type : String

structure Settings where
  appEnv : String
  invitationExpireDays : Nat
  refreshTokenExpireDays : Nat
  accessTokenExpireMinutes : Nat

/-- What decoding an entry of the queue takes from Python. Any text may be nested too deeply for `loads`,
also one that `dumps` wrote. -/
structure Interpreter where
  /-- `str(value)` of a value that is not a string -/
  strOf : Value → String
  /-- `int(text)`; `none` is a `ValueError` -/
  parseInt : String → Option Int
  isoFormat : DateTime → String
  /-- SHA-256 of the UTF-8 text, in hexadecimal -/
  hashToken : String → String
  dumps : Value → String
  loads : String → Except JsonError Value

/-- The stack is deep enough for the values that are encoded. -/
structure Runtime extends Interpreter where
  settings : Settings
  strip : String → String
  lower : String → String
  upper : String → String
  lower_ascii : ∀ text, (∀ c ∈ text.toList, c.toNat < 128) →
    lower text = String.ofList (text.toList.map Char.toLower)
  upper_ascii : ∀ text, (∀ c ∈ text.toList, c.toNat < 128) →
    upper text = String.ofList (text.toList.map Char.toUpper)
  /-- the `lower` function of the database -/
  sqlLower : String → String
  /-- `str(id)` -/
  uuidText : Uuid → String
  /-- `uuid.UUID(text)`; `none` is a `ValueError` -/
  parseUuid : String → Option Uuid
  parseUuid_uuidText : ∀ id, parseUuid (uuidText id) = some id
  /-- `datetime.fromtimestamp(value, tz=UTC)` of a number -/
  fromTimestamp : Value → Except TimeError DateTime
  fromIsoFormat : String → Except TimeError ParsedDateTime
  loads_dumps : ∀ value, loads (dumps value) = .ok value
  /-- the signed claims of a bearer token that is valid at this time -/
  jwtDecode : String → DateTime → Option TokenClaims
  /-- the token with these claims, this `jti` and this time of issue -/
  jwtEncode : TokenClaims → Uuid → DateTime → String
  hashPassword : String → String
  verifyPassword : String → String → Bool

instance : Coe Runtime Interpreter := ⟨Runtime.toInterpreter⟩

/-- `str(value)`. -/
def Interpreter.str (py : Interpreter) : Value → String
  | .str text => text
  | value => py.strOf value

/-! ### The environment -/

/-- The sources are streams; each has the number of values taken from it so far. A `verdict` is `none`
when the rate limiter lets a client pass, else the seconds to wait. `enqueued`, `finished` and
`acknowledged` are histories of job ids, and `sleeps` of pauses; no code reads them. -/
structure Env where
  clock : Nat → DateTime
  ticks : Nat
  databaseClock : Nat → DateTime
  stamps : Nat
  tokens : Nat → String
  issued : Nat
  verdicts : String → Nat → Option Nat
  checks : Nat
  redisFaults : Nat → Bool
  commands : Nat
  jobs : List String
  processing : List String
  deadLetters : List String
  enqueued : List String
  finished : List String
  acknowledged : List String
  sleeps : List Int

abbrev App := Prog schema Env Exn

/-- `datetime.now(UTC)` -/
def now : App DateTime :=
  Prog.act fun e => (e.clock e.ticks, { e with ticks := e.ticks + 1 })

/-- The `now()` of the database, which fills the defaults of the time columns. -/
def databaseNow : App DateTime :=
  Prog.act fun e => (e.databaseClock e.stamps, { e with stamps := e.stamps + 1 })

/-- `uuid.uuid4()` -/
def uuid4 : App Uuid := Prog.freshId (S := schema)

/-- `secrets.token_urlsafe` -/
def tokenUrlsafe : App String :=
  Prog.act fun e => (e.tokens e.issued, { e with issued := e.issued + 1 })

/-- `now or datetime.now(UTC)` -/
def nowOr : Option DateTime → App DateTime
  | some t => pure t
  | none => now

/-! ### Raising -/

def raiseIf (condition : Prop) [Decidable condition] (error : Exn) : App Unit :=
  if condition then throw error else pure ()

/-- `if condition: body`. -/
def runIf (condition : Prop) [Decidable condition] (body : App Unit) : App Unit :=
  if condition then body else pure ()

/-- The value, or the exception of a computation that has none. -/
def orRaise {α : Type} (result : Option α) (error : Exn) : App α :=
  match result with
  | some value => pure value
  | none => throw error

def ofExcept {α : Type} : Except Exn α → App α
  | .ok value => pure value
  | .error error => throw error

/-! ### The unit of work -/

/-- `session.add(row)` and the flush that inserts it. -/
def addRow (t : Table) (row : Row t) : App Unit := do
  if ← Prog.insertRow (S := schema) (t := t) row then pure () else throw .integrityError

/-- The flush of changed attributes: an `UPDATE` of the row with this primary key. -/
def flushUpdate (t : Table) (id : Uuid) (set : Row t → Row t) : App Unit := do
  match ← Prog.updateRow (S := schema) t id set with
  | .done => pure ()
  | .missing => throw .staleDataError
  | .clash => throw .integrityError

/-- `session.refresh(obj)`: the row is read again by its primary key. -/
def refresh (t : Table) (id : Uuid) : App (Row t) := do
  match ← Prog.query fun db : Db => db.lookup t id with
  | some row => pure row
  | none => throw .invalidRequestError

/-- The value an `UPDATE` gives a column: the unit of work sends it only if it differs from the value
that was loaded. -/
def assign {α : Type} [DecidableEq α] (loaded new current : α) : α :=
  if new = loaded then current else new

/-- `get_session` around a request: commit at the end, roll back on any exception. -/
def getSession {α : Type} (body : App α) : App α := do
  try
    let result ← body
    Prog.commitTransaction
    pure result
  catch exc =>
    Prog.rollbackTransaction
    throw exc

/-- `except IntegrityError: await session.rollback(); raise error`. -/
def exceptIntegrityError {α : Type} (error : Exn) (body : App α) : App α := do
  try body
  catch exc =>
    if exc = .integrityError then do
      Prog.rollbackTransaction
      throw error
    else throw exc

/-- `async with session_factory() as session`: closing the session rolls back what is uncommitted. -/
def sessionScope {α : Type} (body : App α) : App α := do
  try
    let result ← body
    Prog.rollbackTransaction
    pure result
  catch exc =>
    Prog.rollbackTransaction
    throw exc

end TenantForge
