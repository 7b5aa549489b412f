import TenantForge.App
/-!
# Audit log (`app/services/audit.py`)
-/

namespace TenantForge

open ReadCommitted

def writeAudit (organizationId : Uuid) (actorUserId : Option Uuid)
    (action resourceType resourceId : String) (metadata : List (String × Value) := [])
    (ipAddress : Option String := none) : App AuditLog := do
  let id ← uuid4
  let createdAt ← databaseNow
  let entry : AuditLog := {
    id, organizationId, actorUserId, action, resourceType, resourceId,
    details := metadata, ipAddress, createdAt }
  addRow .auditLogs entry
  pure entry

/-- Newest first. -/
def auditOrder (a b : AuditLog) : Bool :=
  decide (b.createdAt < a.createdAt ∨ (a.createdAt = b.createdAt ∧ b.id ≤ a.id))

def listAuditLogs (organizationId : Uuid) (limit offset : Nat) : App (List AuditLog) := do
  let rows ← Prog.query fun db : Db =>
    (((db .auditLogs).filter fun (row : AuditLog) => row.organizationId = organizationId).mergeSort
      auditOrder |>.drop offset).take limit
  Prog.attachAll (S := schema) (t := .auditLogs) rows

end TenantForge
