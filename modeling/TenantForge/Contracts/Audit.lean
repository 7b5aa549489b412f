import TenantForge.AppRules
import TenantForge.Services.Audit
/-!
# Contract of the audit log
-/

namespace TenantForge

open Gregorian ReadCommitted

variable {T : Type} {P : Protocol schema Env T} {tag : T} {R : Exn → Assertion schema Env T}
  {σ : Session schema} {s : Shared schema Env T}

/-- What an entry says: who did what to which resource of which organization. -/
structure AuditLog.Records (entry : AuditLog) (organizationId : Uuid) (actorUserId : Option Uuid)
    (action resourceId : String) : Prop where
  organizationId : entry.organizationId = organizationId
  actorUserId : entry.actorUserId = actorUserId
  action : entry.action = action
  resourceId : entry.resourceId = resourceId

theorem AuditLog.Records.of_eq {entry : AuditLog} {organizationId : Uuid} {actorUserId : Option Uuid}
    {action resourceType resourceId : String} {metadata : List (String × Value)}
    {ipAddress : Option String} (h : entry = ⟨entry.id, organizationId, actorUserId, action,
      resourceType, resourceId, metadata, ipAddress, entry.createdAt⟩) :
    entry.Records organizationId actorUserId action resourceId := by
  rw [h]
  exact ⟨rfl, rfl, rfl, rfl⟩

theorem wp_writeAudit {organizationId : Uuid} {actorUserId : Option Uuid}
    {action resourceType resourceId : String} {metadata : List (String × Value)}
    {ipAddress : Option String} {Q : AuditLog → Assertion schema Env T}
    (hD : P.Tolerates Env.Drawn) (hR : Harmless P R)
    (h : ∀ entry σ' s', entry = ⟨entry.id, organizationId, actorUserId, action, resourceType,
        resourceId, metadata, ipAddress, entry.createdAt⟩ →
      Later P tag σ.locks s s' → Interferes P tag σ' s' s' →
      Added .auditLogs entry.id entry σ σ' s'.db → Q entry σ' s') :
    wp P tag Q R
      (writeAudit organizationId actorUserId action resourceType resourceId metadata ipAddress) σ s := by
  rw [writeAudit]
  simp only [Prog.bind_eq, wp_bind]
  refine wp_uuid4 hD fun id σ₁ s₁ hext h₁ _ _ => ?_
  refine wp_databaseNow hD fun createdAt s₂ h₂ _ => ?_
  refine wp_addRow hR fun σ' s₃ h₃ _ hadded hnow => ?_
  have hlater := h₁.trans ((h₂.trans (.of_interferes h₃)).mono hext.locks)
  exact h _ _ _ rfl hlater hnow (hadded.of_extends hext)

/-- The session has inserted an entry that says this. -/
structure Recorded (organizationId : Uuid) (actorUserId : Option Uuid) (action resourceId : String)
    (σ₀ σ : Session schema) (db : Db) (entry : AuditLog) : Prop where
  records : entry.Records organizationId actorUserId action resourceId
  vacant : σ₀.writes .auditLogs = [] → σ.Vacant db .auditLogs entry.id

section Recorded

variable {organizationId : Uuid} {actorUserId : Option Uuid} {action resourceType resourceId : String}
  {σ₀ σ' : Session schema} {s' : Shared schema Env T} {entry : AuditLog}

theorem Recorded.of_added {metadata : List (String × Value)} {ipAddress : Option String}
    (hentry : entry = ⟨entry.id, organizationId, actorUserId, action, resourceType, resourceId, metadata,
      ipAddress, entry.createdAt⟩) (hadded : Added .auditLogs entry.id entry σ σ' s.db)
    (hclean : σ₀.writes .auditLogs = [] → σ.writes .auditLogs = []) :
    Recorded organizationId actorUserId action resourceId σ₀ σ' s.db entry :=
  ⟨.of_eq hentry, fun h => hadded.vacant (hclean h)⟩

theorem Recorded.later (h : Recorded organizationId actorUserId action resourceId σ₀ σ s.db entry)
    (hs : Later P tag σ.locks s s') (hl : σ.locks ⊆ σ'.locks) :
    Recorded organizationId actorUserId action resourceId σ₀ σ' s'.db entry :=
  { h with vacant := fun hclean => ((h.vacant hclean).frozen hs.frozen).mono hl }

end Recorded

end TenantForge
