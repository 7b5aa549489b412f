import TenantForge.Api.Schemas
import TenantForge.Contracts.Frames
import TenantForge.ReadCommitted.RowInvariants
import TenantForge.Reference.Runtime
/-!
# Stored names

The names of organizations, projects and API keys. A schema checks the length of a name before it takes
off the whitespace, so a name of whitespace only passes and is stored empty; the schema that updates a
project takes off nothing. In a run without such requests every stored name is trimmed
(`namesTrimmed_of_reach`).
-/

namespace TenantForge

open Gregorian ReadCommitted ReadCommitted.Prog

/-! ### Trimmed names -/

/-- No whitespace at either end. -/
def Trimmed (text : String) : Prop :=
  (∀ c ∈ text.toList.head?, Python.isSpace c = false) ∧ ∀ c ∈ text.toList.getLast?, Python.isSpace c = false

/-- Some character is no whitespace. -/
def HasText (text : String) : Prop := ∃ c ∈ text.toList, Python.isSpace c = false

/-- A name that fits its column and is neither empty nor padded. -/
structure TrimmedName (limit : Nat) (name : String) : Prop where
  pos : 1 ≤ name.length
  le : name.length ≤ limit
  trimmed : Trimmed name

/-- The names of a row. -/
def NamesTrimmed : (t : Table) → Row t → Prop
  | .organizations, row => TrimmedName 120 (Organization.name row)
  | .projects, row => TrimmedName 120 (Project.name row)
  | .apiKeys, row => TrimmedName 100 (ApiKey.name row)
  | _, _ => True

theorem trimmed_stripText (text : String) : Trimmed (stripText text) := by
  rw [Trimmed, stripText, String.toList_ofList]
  exact Python.stripWhere_ends Python.isSpace text.toList

theorem length_stripText_le (text : String) : (stripText text).length ≤ text.length := by
  rw [stripText, String.length_ofList, ← String.length_toList]
  exact Python.length_stripWhere_le Python.isSpace text.toList

theorem length_stripText_pos_iff {text : String} : 1 ≤ (stripText text).length ↔ HasText text := by
  rw [stripText, String.length_ofList, Nat.one_le_iff_ne_zero, Ne, List.length_eq_zero_iff, Python.strip,
    Python.stripWhere_eq_nil_iff, HasText]
  simp only [not_forall, Bool.not_eq_true, exists_prop]

/-! ### What the schemas let pass -/

theorem TextField.check_ok {field : TextField} {value : Value} {text : String}
    (h : field.check value = .ok text) :
    value = .str text ∧ field.minLength ≤ text.length ∧ text.length ≤ field.maxLength := by
  unfold TextField.check at h
  split at h
  · split at h
    · cases h
    · split at h
      · cases h
      · split at h
        · cases h
        · cases h
          exact ⟨rfl, by omega, by omega⟩
  · cases h

theorem TextField.checkOptional_ok {field : TextField} {value : Value} {text : String}
    (h : field.checkOptional value = .ok (some text)) : field.check value = .ok text := by
  unfold TextField.checkOptional at h
  split at h
  · cases h
  · cases hcheck : field.check value with
    | error error => rw [hcheck] at h; cases h
    | ok text' =>
      rw [hcheck] at h
      cases h
      rfl

/-- A name that is stripped after its check is trimmed if and only if it has text. -/
theorem trimmedName_stripText_iff {limit : Nat} {value : Value} {text : String}
    (h : (nameField limit).check value = .ok text) :
    TrimmedName limit (stripText text) ↔ HasText text := by
  obtain ⟨-, -, hle⟩ := TextField.check_ok h
  rw [← length_stripText_pos_iff]
  exact ⟨TrimmedName.pos, fun hpos => ⟨hpos, (length_stripText_le text).trans hle, trimmed_stripText text⟩⟩

/-- A name that is only checked is trimmed if and only if it came so. -/
theorem trimmedName_iff {limit : Nat} {value : Value} {text : String}
    (h : (nameField limit).check value = .ok text) : TrimmedName limit text ↔ Trimmed text := by
  obtain ⟨-, hpos, hle⟩ := TextField.check_ok h
  exact ⟨TrimmedName.trimmed, fun htrimmed => ⟨hpos, hle, htrimmed⟩⟩

section Fields

variable {α β : Type} {fields : List (String × Value)} {key : String}

theorem requiredField_ok {check : Value → Except FieldError α} {a : α}
    (h : requiredField fields key check = .ok a) :
    ∃ value, Value.get? fields key = some value ∧ check value = .ok a := by
  unfold requiredField at h
  split at h
  · cases h
  · rename_i value hvalue
    cases hcheck : check value with
    | error error => rw [hcheck] at h; cases h
    | ok a' =>
      rw [hcheck] at h
      cases h
      exact ⟨value, hvalue, hcheck⟩

theorem optionalField_ok {check : Value → Except FieldError α} {result : Option α}
    (h : optionalField fields key check = .ok result) :
    (Value.get? fields key = none ∧ result = none) ∨
      ∃ value a, Value.get? fields key = some value ∧ check value = .ok a ∧ result = some a := by
  unfold optionalField at h
  split at h
  · rename_i hnone
    exact Or.inl ⟨hnone, (Except.ok.inj h).symm⟩
  · rename_i value hvalue
    cases hcheck : check value with
    | error error => rw [hcheck] at h; cases h
    | ok a =>
      rw [hcheck] at h
      exact Or.inr ⟨value, a, hvalue, hcheck, (Except.ok.inj h).symm⟩

theorem bothFields_ok {first : Except BodyErrors α} {second : Except BodyErrors β} {a : α} {b : β}
    (h : bothFields first second = .ok (a, b)) : first = .ok a ∧ second = .ok b := by
  cases first <;> cases second <;> cases h
  exact ⟨rfl, rfl⟩

theorem map_ok {ε : Type} {f : α → β} {result : Except ε α} {b : β} (h : result.map f = .ok b) :
    ∃ a, result = .ok a ∧ f a = b := by
  cases result with
  | error error => cases h
  | ok a => exact ⟨a, rfl, Except.ok.inj h⟩

theorem bind_ok {ε : Type} {f : α → Except ε β} (result : Except ε α) {b : β}
    (h : (result >>= f) = .ok b) : ∃ a, result = .ok a ∧ f a = .ok b := by
  cases result with
  | error error => cases h
  | ok a => exact ⟨a, rfl, h⟩

theorem rejectNull_ok {value : Option α} {a : α} (h : rejectNull value = .ok a) : value = some a := by
  cases value with
  | none => cases h
  | some value => rw [Except.ok.inj h]

end Fields

/-- The text that a body gives as the name. -/
def bodyName (body : Value) : Option String :=
  match body with
  | .dict fields => match Value.get? fields "name" with
    | some (.str text) => some text
    | _ => none
  | _ => none

theorem bodyName_eq {fields : List (String × Value)} {value : Value} {text : String}
    (hvalue : Value.get? fields "name" = some value) {field : TextField}
    (hcheck : field.check value = .ok text) : bodyName (.dict fields) = some text := by
  obtain ⟨rfl, -, -⟩ := TextField.check_ok hcheck
  simp only [bodyName, hvalue]

theorem bodyFields_ok {body : Value} {fields : List (String × Value)} (h : bodyFields body = .ok fields) :
    body = .dict fields := by
  unfold bodyFields at h
  split at h
  · rw [Except.ok.inj h]
  · cases h

/-- The name of something new: it is stripped after its check. -/
theorem requiredName_ok {limit : Nat} {fields : List (String × Value)} {name : String}
    (h : requiredField fields "name" (fun value => ((nameField limit).check value).map stripText) = .ok name) :
    TrimmedName limit name ↔ ∀ text ∈ bodyName (.dict fields), HasText text := by
  obtain ⟨value, hvalue, hname⟩ := requiredField_ok h
  obtain ⟨text, hcheck, rfl⟩ := map_ok hname
  simp only [bodyName_eq hvalue hcheck, Option.mem_some_iff, forall_eq']
  exact trimmedName_stripText_iff hcheck

/-- The new name of something stored, if the body sets it; `finish` is what is done to it after its check. -/
theorem optionalName_ok {limit : Nat} {fields : List (String × Value)} {name? : Option String}
    {finish : String → String} {P : String → Prop}
    (hfinish : ∀ value text, (nameField limit).check value = .ok text →
      (TrimmedName limit (finish text) ↔ P text))
    {check : Value → Except FieldError String}
    (hcheck : ∀ value name, check value = .ok name →
      ∃ text, (nameField limit).checkOptional value = .ok (some text) ∧ finish text = name)
    (h : optionalField fields "name" check = .ok name?) :
    (∀ name ∈ name?, TrimmedName limit name) ↔ ∀ text ∈ bodyName (.dict fields), P text := by
  rcases optionalField_ok h with ⟨hnone, rfl⟩ | ⟨value, name, hvalue, hfield, rfl⟩
  · simp [bodyName, hnone]
  · obtain ⟨text, htext, rfl⟩ := hcheck value name hfield
    have htext := TextField.checkOptional_ok htext
    simp only [bodyName_eq hvalue htext, Option.mem_some_iff, forall_eq']
    exact hfinish value text htext

/-- The name of a new organization, as the schema returns it. -/
theorem OrganizationCreate.modelValidate_ok {body : Value} {data : OrganizationCreate}
    (h : OrganizationCreate.modelValidate body = .ok data) :
    TrimmedName 120 data.name ↔ ∀ text ∈ bodyName body, HasText text := by
  obtain ⟨fields, hfields, h⟩ := bind_ok _ h
  obtain ⟨⟨name, slug⟩, hboth, hdata⟩ := bind_ok _ h
  obtain rfl := bodyFields_ok hfields
  obtain rfl := Except.ok.inj hdata
  exact requiredName_ok (bothFields_ok hboth).1

theorem ProjectCreate.modelValidate_ok {body : Value} {data : ProjectCreate}
    (h : ProjectCreate.modelValidate body = .ok data) :
    TrimmedName 120 data.name ↔ ∀ text ∈ bodyName body, HasText text := by
  obtain ⟨fields, hfields, h⟩ := bind_ok _ h
  obtain ⟨⟨name, description⟩, hboth, hdata⟩ := bind_ok _ h
  obtain rfl := bodyFields_ok hfields
  obtain rfl := Except.ok.inj hdata
  exact requiredName_ok (bothFields_ok hboth).1

theorem apiKeyCreateName_ok {body : Value} {name : String} (h : apiKeyCreateName body = .ok name) :
    TrimmedName 100 name ↔ ∀ text ∈ bodyName body, HasText text := by
  obtain ⟨fields, hfields, h⟩ := bind_ok _ h
  obtain rfl := bodyFields_ok hfields
  exact requiredName_ok h

theorem OrganizationUpdate.modelValidate_ok {body : Value} {data : OrganizationUpdate}
    (h : OrganizationUpdate.modelValidate body = .ok data) :
    (∀ name ∈ data.name, TrimmedName 120 name) ↔ ∀ text ∈ bodyName body, HasText text := by
  obtain ⟨fields, hfields, h⟩ := bind_ok _ h
  obtain ⟨⟨name, slug⟩, hboth, hrest⟩ := bind_ok _ h
  obtain ⟨_, _, hdata⟩ := bind_ok (requireChange (name.isSome || slug.isSome)) hrest
  obtain rfl := bodyFields_ok hfields
  obtain rfl := Except.ok.inj hdata
  refine optionalName_ok (fun _ _ => trimmedName_stripText_iff) (fun value name hfield => ?_)
    (bothFields_ok hboth).1
  obtain ⟨text?, hcheck, hfield⟩ := bind_ok _ hfield
  obtain ⟨text, hreject, rfl⟩ := map_ok hfield
  exact ⟨text, rejectNull_ok hreject ▸ hcheck, rfl⟩

theorem ProjectUpdate.modelValidate_ok {body : Value} {data : ProjectUpdate}
    (h : ProjectUpdate.modelValidate body = .ok data) :
    (∀ name ∈ data.name, TrimmedName 120 name) ↔ ∀ text ∈ bodyName body, Trimmed text := by
  obtain ⟨fields, hfields, h⟩ := bind_ok _ h
  obtain ⟨⟨name, description, status⟩, hboth, hrest⟩ := bind_ok _ h
  obtain ⟨_, _, hdata⟩ :=
    bind_ok (requireChange (name.isSome || description.isSome || status.isSome)) hrest
  obtain rfl := bodyFields_ok hfields
  obtain rfl := Except.ok.inj hdata
  refine optionalName_ok (fun _ _ => trimmedName_iff) (fun value name hfield => ?_)
    (bothFields_ok hboth).1
  obtain ⟨text?, hcheck, hreject⟩ := bind_ok _ hfield
  exact ⟨name, rejectNull_ok hreject ▸ hcheck, rfl⟩

/-! ### What the operations write -/

/-- The tables whose rows have no name. -/
def Nameless (t : Table) : Prop := t ≠ .organizations ∧ t ≠ .projects ∧ t ≠ .apiKeys

theorem namesTrimmed_of_nameless {t : Table} (h : Nameless t) (row : Row t) : NamesTrimmed t row := by
  cases t with
  | organizations => exact absurd rfl h.1
  | projects => exact absurd rfl h.2.1
  | apiKeys => exact absurd rfl h.2.2
  | _ => trivial

section Upholds

variable {α : Type} {rt : Runtime}

/-- What writes no names upholds the invariant. -/
theorem upholds_of_within {p : App α} (hp : p.Within Nameless (fun _ _ => True) True) :
    p.Upholds NamesTrimmed :=
  hp.upholds fun _ ht row => namesTrimmed_of_nameless ht row

theorem upholds_writeAudit {organizationId : Uuid} {actorUserId : Option Uuid}
    {action resourceType resourceId : String} {metadata : List (String × Value)}
    {ipAddress : Option String} :
    (writeAudit organizationId actorUserId action resourceType resourceId metadata
      ipAddress).Upholds NamesTrimmed :=
  upholds_of_within (within_writeAudit (fun _ _ _ => trivial) (by simp [Nameless]))

theorem upholds_now : now.Upholds NamesTrimmed := fun _ => trivial

theorem upholds_databaseNow : databaseNow.Upholds NamesTrimmed := fun _ => trivial

theorem upholds_uuid4 : uuid4.Upholds NamesTrimmed := fun _ => trivial

theorem upholds_raiseIf {condition : Prop} [Decidable condition] {error : Exn} :
    (raiseIf condition error).Upholds NamesTrimmed := upholds_of_within within_raiseIf

theorem upholds_orRaise {result : Option α} {error : Exn} :
    (orRaise result error).Upholds NamesTrimmed := upholds_of_within within_orRaise

theorem upholds_refresh {t : Table} {id : Uuid} : (refresh t id).Upholds NamesTrimmed :=
  upholds_of_within within_refresh

theorem upholds_runIf {condition : Prop} [Decidable condition] {body : App Unit}
    (h : body.Upholds NamesTrimmed) : (runIf condition body).Upholds NamesTrimmed := by
  rw [runIf]
  split
  · exact h
  · trivial

theorem upholds_addRow {t : Table} {row : Row t} (hrow : NamesTrimmed t row) :
    (addRow t row).Upholds NamesTrimmed :=
  (upholds_insertRow hrow).bind fun ok => by cases ok <;> trivial

theorem upholds_flushUpdate {t : Table} {id : Uuid} {set : Row t → Row t}
    (hset : ∀ row, NamesTrimmed t row → NamesTrimmed t (set row)) :
    (flushUpdate t id set).Upholds NamesTrimmed :=
  (upholds_updateRow hset).bind fun result => by cases result <;> trivial

theorem upholds_exceptIntegrityError {error : Exn} {body : App α} (h : body.Upholds NamesTrimmed) :
    (exceptIntegrityError error body).Upholds NamesTrimmed := by
  refine h.handle fun exc => ?_
  split <;> trivial

/-- An assigned name is the stored one or the new one. -/
theorem trimmedName_assign {limit : Nat} {loaded current : String} {new : Option String}
    (hnew : ∀ name ∈ new, TrimmedName limit name) (hcurrent : TrimmedName limit current) :
    TrimmedName limit (assign loaded (new.getD loaded) current) := by
  rw [assign]
  split
  · exact hcurrent
  · rename_i hne
    cases new with
    | none => exact absurd rfl hne
    | some name => exact hnew name rfl

theorem upholds_createOrganization {actor : User} {data : OrganizationCreate}
    (hname : TrimmedName 120 data.name) : (createOrganization rt actor data).Upholds NamesTrimmed := by
  have hsubscription : ∀ id, (createDefaultSubscription id).Upholds NamesTrimmed := fun id =>
    upholds_of_within (within_createDefaultSubscription (fun _ _ _ => trivial) (by simp [Nameless]))
  refine (upholds_of_within (within_query _)).bind fun _ => upholds_raiseIf.bind fun _ =>
    upholds_uuid4.bind fun id => upholds_databaseNow.bind fun _ =>
      (upholds_exceptIntegrityError ?_).bind fun _ => upholds_refresh.bind fun _ =>
        upholds_writeAudit.bind fun _ => trivial
  exact (upholds_addRow (by exact hname)).bind fun _ => upholds_uuid4.bind fun _ => upholds_databaseNow.bind fun _ =>
    (upholds_addRow (by trivial)).bind fun _ => (hsubscription id).bind fun _ => trivial

theorem upholds_updateOrganization {organizationId actorId : Uuid} {data : OrganizationUpdate}
    (hname : ∀ name ∈ data.name, TrimmedName 120 name) :
    (updateOrganization rt organizationId actorId data).Upholds NamesTrimmed := by
  refine (upholds_of_within within_joinForUpdate).bind fun _ => upholds_orRaise.bind fun organization =>
    (upholds_exceptIntegrityError (upholds_runIf (upholds_databaseNow.bind fun _ =>
      upholds_flushUpdate fun row hrow => ?_))).bind fun _ => upholds_refresh.bind fun _ =>
        upholds_writeAudit.bind fun _ => trivial
  exact trimmedName_assign hname hrow

theorem upholds_createProject {organizationId actorId : Uuid} {data : ProjectCreate}
    (hname : TrimmedName 120 data.name) :
    (createProject rt organizationId actorId data).Upholds NamesTrimmed :=
  (upholds_of_within (within_query _)).bind fun _ => upholds_raiseIf.bind fun _ =>
    upholds_uuid4.bind fun _ => upholds_databaseNow.bind fun _ => (upholds_addRow (by exact hname)).bind fun _ =>
      upholds_refresh.bind fun _ => upholds_writeAudit.bind fun _ => trivial

theorem upholds_updateProject {organizationId projectId actorId : Uuid} {data : ProjectUpdate}
    (hname : ∀ name ∈ data.name, TrimmedName 120 name) :
    (updateProject rt organizationId projectId actorId data).Upholds NamesTrimmed := by
  refine (upholds_of_within within_lockProject).bind fun project =>
    (upholds_runIf (upholds_databaseNow.bind fun _ => upholds_flushUpdate fun row hrow => ?_)).bind fun _ =>
      upholds_refresh.bind fun _ => upholds_writeAudit.bind fun _ => trivial
  exact trimmedName_assign hname hrow

theorem upholds_createApiKey {organizationId actorId : Uuid} {name : String}
    (hname : TrimmedName 100 name) :
    (createApiKey rt organizationId actorId name).Upholds NamesTrimmed :=
  (upholds_of_within (within_scalarForUpdate.bind fun _ => within_orRaise)).bind fun _ =>
    (upholds_of_within (within_generateApiKey fun _ _ _ => trivial)).bind fun _ =>
      upholds_uuid4.bind fun _ => upholds_databaseNow.bind fun _ => (upholds_addRow (by exact hname)).bind fun _ =>
        upholds_refresh.bind fun _ => upholds_writeAudit.bind fun _ => trivial

/-! ### The other requests -/

theorem upholds_deleteOrganization {organizationId actorId : Uuid} :
    (deleteOrganization rt organizationId actorId).Upholds NamesTrimmed := by
  have hcascade : ∀ (id : Uuid) (tables : List Table), (cascade id tables).Upholds NamesTrimmed := by
    intro id tables
    induction tables with
    | nil => trivial
    | cons t ts ih =>
      exact ((upholds_of_within within_selectForUpdate).bind fun _ => upholds_deleteAll _).bind fun _ => ih
  have hclaim : (claimOrganization rt organizationId actorId).Upholds NamesTrimmed :=
    (upholds_of_within within_joinForUpdate).bind fun _ => upholds_orRaise.bind fun _ =>
      upholds_writeAudit.bind fun _ => upholds_deleteRow.bind fun _ => trivial
  exact hclaim.bind fun id => hcascade id _

theorem upholds_deleteProject {organizationId projectId actorId : Uuid} :
    (deleteProject rt organizationId projectId actorId).Upholds NamesTrimmed :=
  (upholds_of_within within_lockProject).bind fun _ => upholds_writeAudit.bind fun _ => upholds_deleteRow

theorem upholds_revokeApiKey {organizationId keyId actorId : Uuid} :
    (revokeApiKey rt organizationId keyId actorId).Upholds NamesTrimmed :=
  (upholds_of_within (within_scalarForUpdate.bind fun _ => within_orRaise)).bind fun _ =>
    (upholds_of_within within_scalarForUpdate).bind fun _ => upholds_orRaise.bind fun _ => upholds_runIf <|
      upholds_now.bind fun _ => (upholds_flushUpdate (by exact fun _ hrow => hrow)).bind fun _ =>
        upholds_writeAudit.bind fun _ => trivial

/-- A key that is used keeps its name. -/
theorem upholds_getApiKeyPrincipal {rawKey : Option String} :
    (getApiKeyPrincipal rt rawKey).Upholds NamesTrimmed := by
  have hkey : ∀ key, (authenticateApiKey rt key).Upholds NamesTrimmed := fun key =>
    upholds_raiseIf.bind fun _ => (upholds_of_within within_scalar).bind fun _ =>
      upholds_orRaise.bind fun _ => upholds_now.bind fun _ =>
        (upholds_runIf (upholds_flushUpdate (by exact fun _ hrow => hrow))).bind fun _ => trivial
  exact upholds_orRaise.bind fun _ => (hkey _).bind fun _ =>
    (upholds_of_within (within_enforceRateLimit fun _ _ _ => trivial)).bind fun _ => trivial

/-! ### Requests -/

/-- The names that a request gives are trimmed. -/
def Request.GivesTrimmed : Request → Prop
  | .createOrganization _ data => TrimmedName 120 data.name
  | .tenant _ _ call => match call with
    | .updateOrganization data => ∀ name ∈ data.name, TrimmedName 120 name
    | .createProject data => TrimmedName 120 data.name
    | .updateProject _ data => ∀ name ∈ data.name, TrimmedName 120 name
    | .createApiKey name => TrimmedName 100 name
    | _ => True
  | _ => True

theorem upholds_tenant {organizationId : Uuid} {credentials : Option Credentials} {call : TenantCall}
    (h : ∀ user membership, (call.operation rt organizationId user membership).Upholds NamesTrimmed) :
    (call.handle rt organizationId credentials).Upholds NamesTrimmed :=
  (upholds_of_within (within_getCurrentUser fun _ _ _ => trivial)).bind fun _ =>
    (upholds_of_within (within_scalar.bind fun _ => within_orRaise)).bind fun _ =>
      upholds_raiseIf.bind fun _ => h _ _

theorem upholds_endpoint {request : Request} (h : request.GivesTrimmed) :
    (request.endpoint rt).Upholds NamesTrimmed := by
  have hordinary : (∀ t ∈ request.tables, Nameless t) → (request.endpoint rt).Upholds NamesTrimmed :=
    fun hW => upholds_of_within (within_endpoint (fun _ _ _ => trivial) hW trivial)
  cases request with
  | createOrganization credentials data =>
    exact (upholds_of_within (within_getCurrentUser fun _ _ _ => trivial)).bind fun _ =>
      (upholds_createOrganization h).bind fun _ => trivial
  | createUsageEvent organizationId rawKey quantity =>
    exact upholds_getApiKeyPrincipal.bind fun _ => upholds_raiseIf.bind fun _ =>
      (upholds_of_within (within_recordUsage (fun _ _ _ => trivial) (by simp [Nameless]))).bind fun _ =>
        trivial
  | tenant organizationId credentials call =>
    cases call with
    | updateOrganization data =>
      exact upholds_tenant fun _ _ => (upholds_updateOrganization h).bind fun _ => trivial
    | createProject data =>
      exact upholds_tenant fun _ _ => (upholds_createProject h).bind fun _ => trivial
    | updateProject projectId data =>
      exact upholds_tenant fun _ _ => (upholds_updateProject h).bind fun _ => trivial
    | createApiKey name =>
      exact upholds_tenant fun _ _ => (upholds_createApiKey h).bind fun _ => trivial
    | deleteOrganization =>
      exact upholds_tenant fun _ _ => upholds_deleteOrganization.bind fun _ => trivial
    | deleteProject projectId =>
      exact upholds_tenant fun _ _ => upholds_deleteProject.bind fun _ => trivial
    | revokeApiKey keyId =>
      exact upholds_tenant fun _ _ => upholds_revokeApiKey.bind fun _ => trivial
    | _ => exact hordinary (by simp [Request.tables, TenantCall.tables, Nameless])
  | _ => exact hordinary (by simp [Request.tables, Nameless])

end Upholds

/-! ### Runs -/

/-- The name in the body has text; the new name of a project has no whitespace at its ends. -/
def Posting.GivesText : Posting → Prop
  | .createOrganization _ body | .updateOrganization _ _ body | .createProject _ _ body
  | .createApiKey _ _ body => ∀ text ∈ bodyName body, HasText text
  | .updateProject _ _ _ body => ∀ text ∈ bodyName body, Trimmed text
  | .other _ _ => True

/-- **A request that is accepted** gives trimmed names if and only if its body gives text. -/
theorem givesTrimmed_iff {posting : Posting} {request : Request} (h : posting.validate = .ok request) :
    request.GivesTrimmed ↔ posting.GivesText := by
  cases posting with
  | createOrganization credentials body =>
    obtain ⟨data, hdata, rfl⟩ := map_ok h
    exact OrganizationCreate.modelValidate_ok hdata
  | updateOrganization organizationId credentials body =>
    obtain ⟨data, hdata, rfl⟩ := map_ok h
    exact OrganizationUpdate.modelValidate_ok hdata
  | createProject organizationId credentials body =>
    obtain ⟨data, hdata, rfl⟩ := map_ok h
    exact ProjectCreate.modelValidate_ok hdata
  | updateProject organizationId projectId credentials body =>
    obtain ⟨data, hdata, rfl⟩ := map_ok h
    exact ProjectUpdate.modelValidate_ok hdata
  | createApiKey organizationId credentials body =>
    obtain ⟨name, hname, rfl⟩ := map_ok h
    exact apiKeyCreateName_ok hname
  | other request hother =>
    obtain rfl := Except.ok.inj h
    refine iff_of_true ?_ trivial
    cases request with
    | createOrganization => cases hother
    | tenant organizationId credentials call => cases call <;> trivial
    | _ => trivial

theorem upholds_posting {rt : Runtime} {posting : Posting}
    (h : ∀ request, posting.validate = .ok request → posting.GivesText) :
    (posting.handle rt).Upholds NamesTrimmed := by
  rw [Posting.handle]
  cases hvalidate : posting.validate with
  | error errors => trivial
  | ok request =>
    have hrequest := (givesTrimmed_iff hvalidate).mpr (h request hvalidate)
    exact Upholds.handle ((upholds_endpoint hrequest).bind fun _ =>
      Upholds.bind ⟨trivial, trivial⟩ fun _ => trivial) fun _ => trivial

/-- **Stored names are trimmed** in every state of every run whose accepted requests give text. -/
theorem namesTrimmed_of_reach (rt : Runtime) {s : Shared schema Env Posting} {postings : List Posting}
    {w : World schema Env Exn Posting Response} (hstored : s.db.Satisfies NamesTrimmed)
    (htext : ∀ posting ∈ postings, ∀ request, posting.validate = .ok request → posting.GivesText)
    (hreach : (World.start s postings (Posting.handle rt)).Reach w) :
    w.shared.db.Satisfies NamesTrimmed :=
  (hreach.satisfies (World.satisfies_start hstored fun posting hposting =>
    upholds_posting (htext posting hposting))).db

namespace Reference

/-- An organization with one project. -/
def oneProject : Tables where
  users := [user 1]
  organizations := [organization 5]
  memberships := [member 11 1 5 .owner]
  projects := [⟨6, 5, "Plan", none, .active, 1, noon 0, noon 0⟩]

def named (fields : List (String × String)) : Value :=
  .dict (fields.map fun field => (field.1, .str field.2))

/-- The postings, one after another. -/
def postedInTurn (postings : List Posting) : World schema Env Exn Posting Response :=
  (World.start (shared Posting (fun _ => noon 1) oneProject) postings (Posting.handle runtime)).playAll
    ((List.range postings.length).flatMap fun i => List.replicate 40 (.run i))

def organizationNames (db : Db) : List String := (db .organizations).map Organization.name

def projectNames (db : Db) : List String := (db .projects).map Project.name

theorem namesTrimmed_oneProject : oneProject.db.Satisfies NamesTrimmed := by
  have hname : TrimmedName 120 "Organization" :=
    ⟨by decide, by decide, by rintro _ ⟨⟩; rfl, by rintro _ ⟨⟩; rfl⟩
  have hplan : TrimmedName 120 "Plan" := ⟨by decide, by decide, by rintro _ ⟨⟩; rfl, by rintro _ ⟨⟩; rfl⟩
  intro t row hrow
  cases t with
  | organizations => exact List.mem_singleton.mp hrow ▸ hname
  | projects => exact List.mem_singleton.mp hrow ▸ hplan
  | apiKeys => cases hrow
  | _ => trivial

/-- Names that are padded. -/
def paddedPostings : List Posting :=
  [.createOrganization (bearer 1) (named [("name", " Acme "), ("slug", "acme")]),
    .updateProject 5 6 (bearer 1) (named [("name", "Next plan")]),
    .createApiKey 5 (bearer 1) (named [("name", "\tkey\n")])]

theorem namesTrimmed_padded :
    organizationNames (postedInTurn paddedPostings).shared.db = ["Organization", "Acme"] ∧
      projectNames (postedInTurn paddedPostings).shared.db = ["Next plan"] ∧
      (postedInTurn paddedPostings).shared.db.Satisfies NamesTrimmed := by
  refine ⟨by decide +kernel, by decide +kernel, namesTrimmed_of_reach runtime namesTrimmed_oneProject
    (fun posting hposting _ _ => ?_) (World.reach_playAll _ _)⟩
  have hacme : HasText " Acme " := ⟨'A', by decide, by decide⟩
  have hkey : HasText "\tkey\n" := ⟨'k', by decide, by decide⟩
  have hplan : Trimmed "Next plan" := ⟨by rintro _ ⟨⟩; rfl, by rintro _ ⟨⟩; rfl⟩
  rcases List.mem_cons.mp hposting with rfl | hposting
  · exact fun text htext => Option.some.inj htext ▸ hacme
  · rcases List.mem_cons.mp hposting with rfl | hposting
    · exact fun text htext => Option.some.inj htext ▸ hplan
    · obtain rfl := List.mem_singleton.mp hposting
      exact fun text htext => Option.some.inj htext ▸ hkey

/-- Names that the schemas accept: one is whitespace only, and one renames a project. -/
def blankPostings : List Posting :=
  [.createOrganization (bearer 1) (named [("name", "   "), ("slug", "blank")]),
    .updateProject 5 6 (bearer 1) (named [("name", " Plan ")])]

/-- The first name is stored empty, and the second one as it came. -/
theorem blankName_stored :
    let start := World.start (shared Posting (fun _ => noon 1) oneProject) blankPostings
      (Posting.handle runtime)
    start.shared.db.Satisfies NamesTrimmed ∧ start.Reach (postedInTurn blankPostings) ∧
      organizationNames (postedInTurn blankPostings).shared.db = ["Organization", ""] ∧
      projectNames (postedInTurn blankPostings).shared.db = [" Plan "] ∧
      ¬(postedInTurn blankPostings).shared.db.Satisfies NamesTrimmed := by
  have horganizations : organizationNames (postedInTurn blankPostings).shared.db = ["Organization", ""] := by
    decide +kernel
  refine ⟨namesTrimmed_oneProject, World.reach_playAll _ _, horganizations, by decide +kernel,
    fun hsatisfies => ?_⟩
  obtain ⟨row, hrow, hname⟩ : ∃ row ∈ (postedInTurn blankPostings).shared.db .organizations,
      Organization.name row = "" :=
    List.mem_map.mp (show "" ∈ organizationNames (postedInTurn blankPostings).shared.db by
      rw [horganizations]; simp)
  have hpos : 1 ≤ (Organization.name row).length := (hsatisfies .organizations row hrow).pos
  rw [hname] at hpos
  exact absurd hpos (by decide)

end Reference

end TenantForge
