import TenantForge.App
import TenantForge.Float
/-!
# The job queue (`app/infrastructure/queue.py`)

The head of a list is its left end. A Redis command or a `MULTI` block is one environment action; it
may also fail without effect.
-/

namespace TenantForge

open Gregorian ReadCommitted

variable (rt : Runtime) (py : Interpreter)

structure Job where
  id : String
  type : String
  payload : List (String × Value)
  attempt : Int
  createdAt : String

def maxAttempts : Int := 3

def retryDelays : List Int := [1, 2, 4]

def sensitivePayloadKeys : List String :=
  ["api_key", "authorization", "password", "refresh_token", "token"]

mutual

def redactPayload : Value → Value
  | .dict items => .dict (redactItems items)
  | .list items => .list (redactList items)
  | value => value

def redactItems : List (String × Value) → List (String × Value)
  | [] => []
  | (key, item) :: items =>
    (key, if rt.lower key ∈ sensitivePayloadKeys then .str "[redacted]" else redactPayload item) ::
      redactItems items

def redactList : List Value → List Value
  | [] => []
  | item :: items => redactPayload item :: redactList items

end

/-- `int(value)` -/
def toInt : Value → Except Exn Int
  | .int n => .ok n
  | .bool b => .ok (if b then 1 else 0)
  | .float (.finite q) => .ok (PyFloat.trunc q)
  | .float (.infinite _) => .error .overflowError
  | .float .nan => .error (.valueError "cannot convert float NaN to integer")
  | .str text =>
    match py.parseInt text with
    | some n => .ok n
    | none => .error (.valueError "invalid literal for int()")
  | _ => .error .typeError

/-- `data[key]` -/
def requireKey (items : List (String × Value)) (key : String) : Except Exn Value :=
  match Value.get? items key with
  | some value => .ok value
  | none => .error .keyError

namespace Job

/-- `asdict(job)` -/
def asDict (job : Job) : List (String × Value) :=
  [("id", .str job.id), ("type", .str job.type), ("payload", .dict job.payload),
    ("attempt", .int job.attempt), ("created_at", .str job.createdAt)]

def toJson (job : Job) : String := rt.dumps (.dict job.asDict)

def nextAttempt (job : Job) : Job := { job with attempt := job.attempt + 1 }

def fromJson (raw : String) : Except Exn Job :=
  match py.loads raw with
  | .error error => .error error.exn
  | .ok (.dict data) =>
    match Value.get? data "payload" with
    | some (.dict payload) => do
      let id ← requireKey data "id"
      let type ← requireKey data "type"
      let attempt ← requireKey data "attempt"
      let attempt ← toInt py attempt
      let createdAt ← requireKey data "created_at"
      .ok ⟨py.str id, py.str type, payload, attempt, py.str createdAt⟩
    | _ => .error (.valueError "invalid job payload")
  | .ok _ => .error (.valueError "invalid job payload")

/-- A job survives its own encoding. -/
theorem fromJson_toJson (job : Job) : fromJson rt (job.toJson rt) = .ok job := by
  simp [fromJson, toJson, rt.loads_dumps, asDict, Value.get?, requireKey, toInt, Interpreter.str,
    bind, Except.bind]

def create (type : String) (payload : List (String × Value)) : App Job := do
  raiseIf (type = "") (.valueError "job type is required")
  let id ← uuid4
  let createdAt ← now
  pure ⟨rt.uuidText id, type, payload, 0, rt.isoFormat createdAt⟩

end Job

/-! ### Redis -/

/-- One command, or one `MULTI` block; on a fault nothing is executed. -/
def redisCommand {β : Type} (command : Env → β × Env) : App β := do
  let answer ← Prog.act fun e : Env =>
    let sent := { e with commands := e.commands + 1 }
    if e.redisFaults e.commands then (none, sent)
    else (some (command sent).1, (command sent).2)
  orRaise answer .redisError

/-- `RPOPLPUSH source target`: the last entry, and the two lists afterwards. -/
def rpoplpush (source target : List String) : Option String × List String × List String :=
  match source.getLast? with
  | none => (none, source, target)
  | some raw => (some raw, source.dropLast, raw :: target)

/-- `type(exc).__name__` -/
def Exn.typeName : Exn → String
  | .app error =>
    if error.statusCode = 404 then "NotFoundError"
    else if error.statusCode = 403 then "ForbiddenError"
    else if error.statusCode = 409 then "ConflictError"
    else if error.statusCode = 401 then "AuthenticationError"
    else "AppError"
  | .valueError _ => "ValueError"
  | .jsonDecodeError => "JSONDecodeError"
  | .recursionError => "RecursionError"
  | .keyError => "KeyError"
  | .indexError => "IndexError"
  | .typeError => "TypeError"
  | .overflowError => "OverflowError"
  | .osError => "OSError"
  | .validationError => "ValidationError"
  | .integrityError => "IntegrityError"
  | .staleDataError => "StaleDataError"
  | .invalidRequestError => "InvalidRequestError"
  | .databaseError => "DBAPIError"
  | .redisError => "RedisError"
  | .invitationDeliveryError => "InvitationDeliveryError"

namespace RedisJobQueue

def enqueue (type : String) (payload : List (String × Value)) : App Job := do
  let job ← Job.create rt type payload
  redisCommand fun e =>
    ((), { e with jobs := job.toJson rt :: e.jobs, enqueued := job.id :: e.enqueued })
  pure job

/-- The exceptions that mark an entry as malformed. -/
def isMalformed : Exn → Bool
  | .keyError | .typeError | .valueError _ | .jsonDecodeError => true
  | _ => false

/-- What the dead-letter list keeps of an entry that cannot be decoded. -/
def malformedEnvelope (raw : String) (failedAt : DateTime) (exc : Exn) : String :=
  py.dumps (.dict [("failed_at", .str (py.isoFormat failedAt)), ("error_type", .str exc.typeName),
    ("raw_sha256", .str (py.hashToken raw))])

/-- What `dequeue` does with the entry that it has moved to the processing list. -/
def decodeMoved (raw : String) : App (Option Job) :=
  match Job.fromJson py raw with
  | .ok job => pure (some job)
  | .error exc =>
    if isMalformed exc then do
      let failedAt ← now
      redisCommand fun e => ((), { e with
        processing := e.processing.erase raw
        deadLetters := malformedEnvelope py raw failedAt exc :: e.deadLetters })
      throw exc
    else throw exc

def dequeue : App (Option Job) := do
  let raw ← redisCommand fun e =>
    let moved := rpoplpush e.jobs e.processing
    (moved.1, { e with jobs := moved.2.1, processing := moved.2.2 })
  match raw with
  | none => pure none
  | some raw => decodeMoved py raw

def acknowledge (job : Job) : App Unit :=
  redisCommand fun e =>
    ((), { e with processing := e.processing.erase (job.toJson rt),
                  acknowledged := job.id :: e.acknowledged })

def retry (job : Job) : App Job := do
  redisCommand fun e =>
    ((), { e with processing := e.processing.erase (job.toJson rt),
                  jobs := job.nextAttempt.toJson rt :: e.jobs })
  pure job.nextAttempt

/-- What the dead-letter list keeps of a job. -/
def deadLetter (job : Job) (failedAt : DateTime) (error : Exn) : String :=
  rt.dumps (.dict [
    ("job", .dict { job with payload := redactItems rt job.payload }.asDict),
    ("failed_at", .str (rt.isoFormat failedAt)), ("error_type", .str error.typeName)])

def moveToDeadLetter (job : Job) (error : Exn) : App Unit := do
  let failedAt ← now
  redisCommand fun e =>
    ((), { e with processing := e.processing.erase (job.toJson rt),
                  deadLetters := deadLetter rt job failedAt error :: e.deadLetters })

/-- Move every entry of the processing list back; `none` when `fuel` entries were not all. -/
def recoverInFlight : Nat → App (Option Nat)
  | 0 => pure none
  | fuel + 1 => do
    let raw ← redisCommand fun e =>
      let moved := rpoplpush e.processing e.jobs
      (moved.1, { e with processing := moved.2.1, jobs := moved.2.2 })
    match raw with
    | none => pure (some 0)
    | some _ => do
      let recovered ← recoverInFlight fuel
      pure (recovered.map (· + 1))

end RedisJobQueue

end TenantForge
