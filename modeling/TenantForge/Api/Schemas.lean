import TenantForge.Api.Routes
import TenantForge.Python.Text
/-!
# Request bodies (`app/schemas`)

The schemas of the requests that name something. A field's type and constraints are checked first, its
`field_validator` runs on what passed, and its result is not checked again. The `model_validator` runs when
no field failed. Fields that a schema does not know are ignored.
-/

namespace TenantForge

open Gregorian ReadCommitted

/-! ### Fields -/

inductive FieldError where
  | missing
  | modelType
  | stringType
  | stringTooShort
  | stringTooLong
  | stringPatternMismatch
  | enum
  | valueError (message : String)
  deriving DecidableEq

/-- What is wrong with a body, and where. -/
abbrev BodyErrors := List (List String × FieldError)

/-- `Field(min_length=minLength, max_length=maxLength, pattern=pattern)`; the length is a number of code
points. -/
structure TextField where
  minLength : Nat
  maxLength : Nat
  pattern : String → Bool

namespace TextField

def plain (minLength maxLength : Nat) : TextField := ⟨minLength, maxLength, fun _ => true⟩

variable (field : TextField)

/-- `str` -/
def check : Value → Except FieldError String
  | .str text =>
    if field.maxLength < text.length then .error .stringTooLong
    else if text.length < field.minLength then .error .stringTooShort
    else if field.pattern text = false then .error .stringPatternMismatch
    else .ok text
  | _ => .error .stringType

/-- `str | None` -/
def checkOptional : Value → Except FieldError (Option String)
  | .null => .ok none
  | value => (field.check value).map some

end TextField

/-- `value.strip()` -/
def stripText (text : String) : String := String.ofList (Python.strip text.toList)

/-- One character of `[a-z0-9]`. -/
def isSlugChar (c : Char) : Bool := ('a' ≤ c && c ≤ 'z') || c.isDigit

/-- `^[a-z0-9]+(?:-[a-z0-9]+)*$` -/
def isSlug (text : String) : Bool :=
  (text.toList.splitOn '-').all fun part => !part.isEmpty && part.all isSlugChar

def nameField (maxLength : Nat) : TextField := .plain 1 maxLength

def slugField : TextField := ⟨2, 80, isSlug⟩

def descriptionField : TextField := .plain 0 10000

/-- The body as an object. -/
def bodyFields : Value → Except BodyErrors (List (String × Value))
  | .dict fields => .ok fields
  | _ => .error [([], .modelType)]

section Fields

variable {α β : Type} (fields : List (String × Value)) (key : String)

/-- A field without a default. -/
def requiredField (check : Value → Except FieldError α) : Except BodyErrors α :=
  match Value.get? fields key with
  | none => .error [([key], .missing)]
  | some value => (check value).mapError fun error => [([key], error)]

/-- A field with a default; `none` when the body does not set it. -/
def optionalField (check : Value → Except FieldError α) : Except BodyErrors (Option α) :=
  match Value.get? fields key with
  | none => .ok none
  | some value => ((check value).mapError fun error => [([key], error)]).map some

/-- Two fields; the errors of both are reported. -/
def bothFields (first : Except BodyErrors α) (second : Except BodyErrors β) : Except BodyErrors (α × β) :=
  match first, second with
  | .ok a, .ok b => .ok (a, b)
  | .ok _, .error errors => .error errors
  | .error errors, .ok _ => .error errors
  | .error errors, .error others => .error (errors ++ others)

end Fields

/-- `if value is None: raise ValueError("Field cannot be null")` -/
def rejectNull {α : Type} : Option α → Except FieldError α
  | none => .error (.valueError "Field cannot be null")
  | some value => .ok value

/-- `if not self.model_fields_set` of the `model_validator` -/
def requireChange (isSet : Bool) : Except BodyErrors Unit :=
  if isSet then .ok () else .error [([], .valueError "At least one field must be provided")]

/-! ### Schemas -/

def OrganizationCreate.modelValidate (body : Value) : Except BodyErrors OrganizationCreate := do
  let fields ← bodyFields body
  let (name, slug) ← bothFields
    (requiredField fields "name" fun value => ((nameField 120).check value).map stripText)
    (requiredField fields "slug" fun value => (slugField.check value).map stripText)
  .ok ⟨name, slug⟩

def OrganizationUpdate.modelValidate (body : Value) : Except BodyErrors OrganizationUpdate := do
  let fields ← bodyFields body
  let (name, slug) ← bothFields
    (optionalField fields "name" fun value => do
      let text ← (nameField 120).checkOptional value
      (rejectNull text).map stripText)
    (optionalField fields "slug" fun value => do
      let text ← slugField.checkOptional value
      (rejectNull text).map stripText)
  requireChange (name.isSome || slug.isSome)
  .ok ⟨name, slug⟩

def ProjectStatus.value : ProjectStatus → String
  | .active => "ACTIVE"
  | .archived => "ARCHIVED"

/-- `ProjectStatus | None` -/
def ProjectStatus.checkOptional : Value → Except FieldError (Option ProjectStatus)
  | .null => .ok none
  | .str text =>
    match [ProjectStatus.active, .archived].find? fun status => status.value = text with
    | some status => .ok (some status)
    | none => .error .enum
  | _ => .error .enum

def ProjectCreate.modelValidate (body : Value) : Except BodyErrors ProjectCreate := do
  let fields ← bodyFields body
  let (name, description) ← bothFields
    (requiredField fields "name" fun value => ((nameField 120).check value).map stripText)
    (optionalField fields "description" descriptionField.checkOptional)
  .ok ⟨name, description.getD none⟩

/-- The name is not stripped here. -/
def ProjectUpdate.modelValidate (body : Value) : Except BodyErrors ProjectUpdate := do
  let fields ← bodyFields body
  let (name, description, status) ← bothFields
    (optionalField fields "name" fun value => do
      let text ← (nameField 120).checkOptional value
      rejectNull text)
    (bothFields (optionalField fields "description" descriptionField.checkOptional)
      (optionalField fields "status" fun value => do
        let status ← ProjectStatus.checkOptional value
        rejectNull status))
  requireChange (name.isSome || description.isSome || status.isSome)
  .ok ⟨name, description, status⟩

/-- `ApiKeyCreate`: the name of the new key. -/
def apiKeyCreateName (body : Value) : Except BodyErrors String := do
  let fields ← bodyFields body
  requiredField fields "name" fun value => ((nameField 100).check value).map stripText

/-! ### Requests with a body -/

/-- The requests that name something. -/
def Request.naming : Request → Bool
  | .createOrganization _ _ => true
  | .tenant _ _ call => match call with
    | .updateOrganization _ | .createProject _ | .updateProject _ _ | .createApiKey _ => true
    | _ => false
  | _ => false

/-- A request as it arrives. -/
inductive Posting where
  | createOrganization (credentials : Option Credentials) (body : Value)
  | updateOrganization (organizationId : Uuid) (credentials : Option Credentials) (body : Value)
  | createProject (organizationId : Uuid) (credentials : Option Credentials) (body : Value)
  | updateProject (organizationId projectId : Uuid) (credentials : Option Credentials) (body : Value)
  | createApiKey (organizationId : Uuid) (credentials : Option Credentials) (body : Value)
  | other (request : Request) (hother : request.naming = false)

/-- The request with its validated body. -/
def Posting.validate : Posting → Except BodyErrors Request
  | .createOrganization credentials body =>
    (OrganizationCreate.modelValidate body).map (.createOrganization credentials)
  | .updateOrganization organizationId credentials body =>
    (OrganizationUpdate.modelValidate body).map fun data =>
      .tenant organizationId credentials (.updateOrganization data)
  | .createProject organizationId credentials body =>
    (ProjectCreate.modelValidate body).map fun data =>
      .tenant organizationId credentials (.createProject data)
  | .updateProject organizationId projectId credentials body =>
    (ProjectUpdate.modelValidate body).map fun data =>
      .tenant organizationId credentials (.updateProject projectId data)
  | .createApiKey organizationId credentials body =>
    (apiKeyCreateName body).map fun name => .tenant organizationId credentials (.createApiKey name)
  | .other request _ => .ok request

/-- A body that is not valid ends the request. -/
def Posting.handle (rt : Runtime) (posting : Posting) : App Response :=
  match posting.validate with
  | .ok request => request.handle rt
  | .error _ => throw .validationError

end TenantForge
