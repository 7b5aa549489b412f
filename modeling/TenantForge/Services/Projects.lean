import TenantForge.Services.Organizations
/-!
# Projects (`app/services/projects.py`)
-/

namespace TenantForge

open Gregorian ReadCommitted

variable (rt : Runtime)

structure ProjectCreate where
  name : String
  description : Option String

/-- The fields that the request sets; a description may be set to null. -/
structure ProjectUpdate where
  name : Option String
  description : Option (Option String)
  status : Option ProjectStatus

def isMember (organizationId userId : Uuid) (db : Db) : Bool :=
  (db .memberships).any (isMembership organizationId userId anyRole)

def createProject (organizationId actorId : Uuid) (data : ProjectCreate) : App Project := do
  let allowed ← Prog.query (isMember organizationId actorId)
  raiseIf (allowed = false) forbiddenError
  let id ← uuid4
  let createdAt ← databaseNow
  addRow .projects
    { id, organizationId, name := data.name, description := data.description, status := .active,
      createdBy := actorId, createdAt, updatedAt := createdAt }
  let project ← refresh .projects id
  let _ ← writeAudit organizationId (some actorId) "project.created" "project" (rt.uuidText id)
  pure project

def projectOrder (a b : Project) : Bool :=
  decide (a.createdAt < b.createdAt ∨ (a.createdAt = b.createdAt ∧ a.id ≤ b.id))

def listProjects (organizationId actorId : Uuid) : App (List Project) := do
  let rows ← Prog.query fun db : Db =>
    ((db .projects).filter fun (row : Project) =>
      row.organizationId = organizationId && isMember organizationId actorId db).mergeSort projectOrder
  Prog.attachAll (S := schema) (t := .projects) rows

def isProjectId (organizationId projectId : Uuid) (row : Project) : Bool :=
  row.id = projectId && row.organizationId = organizationId

def projectNotFound : Exn := notFoundError "project_not_found" "Project not found"

def getProject (organizationId projectId actorId : Uuid) : App Project := do
  let rows ← Prog.query fun db : Db =>
    (db .projects).filter fun (row : Project) =>
      isProjectId organizationId projectId row && isMember organizationId actorId db
  let project ← Prog.first (S := schema) (t := .projects) rows
  orRaise project projectNotFound

/-- The statement's snapshot decides the membership; only the project row is locked and read again. -/
def lockProject (organizationId projectId actorId : Uuid) : App Project := do
  let ids ← Prog.query fun db : Db =>
    ((db .projects).filter fun (row : Project) =>
      isProjectId organizationId projectId row && isMember organizationId actorId db).map Project.id
  let rows ← Prog.lockMatching (S := schema) .projects (isProjectId organizationId projectId) ids
  let project ← Prog.first (S := schema) (t := .projects) rows
  orRaise project projectNotFound

/-- A row after the flush of a changed project object. -/
def Project.merge (loaded changed row : Project) (updatedAt : DateTime) : Project :=
  { row with
    name := assign loaded.name changed.name row.name
    description := assign loaded.description changed.description row.description
    status := assign loaded.status changed.status row.status
    updatedAt }

def flushProject (loaded changed : Project) : App Unit :=
  runIf (changed ≠ loaded) do
    let updatedAt ← databaseNow
    flushUpdate .projects loaded.id fun row => loaded.merge changed row updatedAt

def updateProject (organizationId projectId actorId : Uuid) (data : ProjectUpdate) :
    App Project := do
  let project ← lockProject organizationId projectId actorId
  flushProject project { project with
    name := data.name.getD project.name
    description := data.description.getD project.description
    status := data.status.getD project.status }
  let fields := data.description.toList.map (fun _ => Value.str "description") ++
    data.name.toList.map (fun _ => Value.str "name") ++
    data.status.toList.map fun _ => Value.str "status"
  let project ← refresh .projects project.id
  let _ ← writeAudit organizationId (some actorId) "project.updated" "project"
    (rt.uuidText project.id) [("fields", .list fields)]
  pure project

def deleteProject (organizationId projectId actorId : Uuid) : App Unit := do
  let project ← lockProject organizationId projectId actorId
  let _ ← writeAudit organizationId (some actorId) "project.deleted" "project"
    (rt.uuidText project.id)
  Prog.deleteRow (S := schema) .projects project.id

end TenantForge
