import TenantForge.Contracts.Audit
import TenantForge.Services.Projects
/-!
# Contracts of the project operations

What `create_project`, `update_project` and `delete_project` have written when they return. The row of a
project that is changed or deleted was locked before.
-/

namespace TenantForge

open Gregorian ReadCommitted

variable {T : Type} {P : Protocol schema Env T} {tag : T} {R : Exn → Assertion schema Env T}
  {σ : Session schema} {s : Shared schema Env T} {rt : Runtime}

/-! ### Creating -/

/-- `create_project` has returned this project. -/
structure ProjectCreated (rt : Runtime) (organizationId actorId : Uuid) (σ₀ σ : Session schema)
    (db : Db) (project : Project) : Prop where
  organization : project.organizationId = organizationId
  vacant : σ₀.writes .projects = [] → σ.Vacant db .projects project.id
  written : ∃ entry : AuditLog,
    Recorded organizationId (some actorId) "project.created" (rt.uuidText project.id) σ₀ σ db entry ∧
    σ.writes = (σ₀.writes.put .projects project.id (some project)).put .auditLogs entry.id (some entry)

/-- The project of a request to create one. -/
def ProjectCreate.project (data : ProjectCreate) (id organizationId actorId : Uuid) (createdAt : DateTime) :
    Project :=
  ⟨id, organizationId, data.name, data.description, .active, actorId, createdAt, createdAt⟩

theorem wp_createProject_contents {organizationId actorId : Uuid} {data : ProjectCreate}
    {Q : Project → Assertion schema Env T} (hD : P.Tolerates Env.Drawn) (hR : Harmless P R)
    (h : ∀ project createdAt σ' s', Interferes P tag σ' s' s' →
      ProjectCreated rt organizationId actorId σ σ' s'.db project →
      project = data.project project.id organizationId actorId createdAt → Q project σ' s') :
    wp P tag Q R (createProject rt organizationId actorId data) σ s := by
  rw [createProject]
  simp only [Prog.bind_eq, wp_bind]
  refine wp_query hR.escapes fun s₁ h₁ => ?_
  refine wp_raiseIf (fun _ => hR _ _ _ h₁.inv h₁.integral) fun _ => ?_
  refine wp_uuid4 hD fun id σ₁ s₂ hext₁ h₂ _ _ => ?_
  refine wp_databaseNow hD fun createdAt s₃ h₃ hnow₃ => ?_
  refine wp_addRow hR fun σ₂ s₄ h₄ _ hadded hnow₄ => ?_
  generalize hproject : Project.mk id organizationId data.name data.description _ actorId createdAt
    createdAt = project at hadded
  obtain rfl : id = project.id := by rw [← hproject]
  refine wp_refresh hR fun s₅ result h₅ hresult => ?_
  -- the row that is read again is the new one
  obtain rfl : result = project := by
    rw [Session.view, h₅.sound.coherent.lookup_apply, hadded.writes] at hresult
    simpa [rowId] using hresult.symm
  refine wp_writeAudit hD hR fun entry σ₃ s₆ hentry h₆ hnow₆ haudited => ?_
  have hw₂ : σ₂.writes = σ.writes.put .projects result.id (some result) := by
    rw [hadded.writes, hext₁.writes]
    rfl
  have hlater : Later P tag σ₂.locks s₄ s₆ := (Later.of_interferes h₅).trans h₆
  refine h result createdAt σ₃ s₆ hnow₆ ⟨by rw [← hproject], fun hclean => ?_, entry,
    .of_added hentry haudited fun hclean => ?_, by rw [haudited.writes, hw₂]⟩ ?_
  · exact ((hadded.vacant (by rw [hext₁.writes, hclean])).frozen hlater.frozen).mono haudited.locks
  · rw [hw₂, Overlay.put_table_ne _ (by decide), hclean]
  · rw [← hproject]
    rfl

theorem wp_createProject {organizationId actorId : Uuid} {data : ProjectCreate}
    {Q : Project → Assertion schema Env T} (hD : P.Tolerates Env.Drawn) (hR : Harmless P R)
    (h : ∀ project σ' s', Interferes P tag σ' s' s' →
      ProjectCreated rt organizationId actorId σ σ' s'.db project → Q project σ' s') :
    wp P tag Q R (createProject rt organizationId actorId data) σ s :=
  wp_createProject_contents hD hR fun project _ σ' s' hnow hcreated _ => h project σ' s' hnow hcreated

/-! ### Locking -/

theorem wp_lockProject {organizationId projectId actorId : Uuid} {Q : Project → Assertion schema Env T}
    (hR : Harmless P R) (hclean : σ.writes .projects = [])
    (h : ∀ project σ' s', Interferes P tag σ' s' s' → σ'.writes = σ.writes →
      σ'.Locked s'.db (t := .projects) project → isProjectId organizationId projectId project = true →
      Q (σ.copyOf (t := .projects) project) σ' s') :
    wp P tag Q R (lockProject organizationId projectId actorId) σ s := by
  simp only [lockProject, Prog.bind_eq, wp_bind]
  refine wp_query hR.escapes fun s₁ h₁ => ?_
  refine wp_lockMatching (S := schema) (t := .projects) hR.escapes h₁.now fun rows σ₁ s₂ h₂ hext hrows => ?_
  cases rows with
  | nil => exact hR _ _ _ h₂.inv h₂.integral
  | cons project rows =>
    refine fun s₃ h₃ => ?_
    obtain ⟨hof, hlocked, _⟩ := hrows hclean project List.mem_cons_self
    rw [hext.copyOf]
    exact h project _ s₃ (h₃.attach _) hext.writes
      ((hlocked.interferes h₃).mono (List.Subset.refl _)) hof

/-! ### Updating -/

/-- `update_project` has returned: the row is written if an attribute has changed. -/
structure ProjectUpdated (rt : Runtime) (organizationId projectId actorId : Uuid)
    (σ₀ σ : Session schema) (db : Db) : Prop where
  locked : ∃ project : Project, σ.Locked db (t := .projects) project ∧
    isProjectId organizationId projectId project = true
  written : ∃ entry : AuditLog,
    Recorded organizationId (some actorId) "project.updated" (rt.uuidText projectId) σ₀ σ db entry ∧
    (σ.writes = σ₀.writes.put .auditLogs entry.id (some entry) ∨
      ∃ row : Project, row.id = projectId ∧ row.organizationId = organizationId ∧
        σ.writes = (σ₀.writes.put .projects projectId (some row)).put .auditLogs entry.id (some entry))

/-- The project after a request to update it. -/
def ProjectUpdate.apply (data : ProjectUpdate) (project : Project) (updatedAt : DateTime) : Project :=
  { project with
    name := data.name.getD project.name
    description := data.description.getD project.description
    status := data.status.getD project.status
    updatedAt }

/-- `update_project` has returned this result, for this locked project. -/
structure ProjectPatched (rt : Runtime) (organizationId projectId actorId : Uuid) (data : ProjectUpdate)
    (σ₀ σ : Session schema) (db : Db) (project result : Project) : Prop where
  locked : σ.Locked db (t := .projects) project
  isProject : isProjectId organizationId projectId project = true
  resultId : result.id = projectId ∧ result.organizationId = organizationId
  contents : σ₀.loaded .projects = [] → ∃ updatedAt, result = data.apply project updatedAt
  written : ∃ entry : AuditLog,
    Recorded organizationId (some actorId) "project.updated" (rt.uuidText projectId) σ₀ σ db entry ∧
    (σ.writes = σ₀.writes.put .auditLogs entry.id (some entry) ∧ result = project ∨
      σ.writes = (σ₀.writes.put .projects projectId (some result)).put .auditLogs entry.id (some entry))

theorem ProjectPatched.updated {organizationId projectId actorId : Uuid} {data : ProjectUpdate}
    {σ₀ : Session schema} {db : Db} {project result : Project}
    (h : ProjectPatched rt organizationId projectId actorId data σ₀ σ db project result) :
    ProjectUpdated rt organizationId projectId actorId σ₀ σ db := by
  obtain ⟨entry, hrecorded, hw⟩ := h.written
  exact ⟨⟨project, h.locked, h.isProject⟩, entry, hrecorded,
    hw.imp And.left fun hw => ⟨result, h.resultId.1, h.resultId.2, hw⟩⟩

theorem ProjectPatched.later {organizationId projectId actorId : Uuid} {data : ProjectUpdate}
    {σ₀ : Session schema} {s' : Shared schema Env T} {project result : Project}
    (h : ProjectPatched rt organizationId projectId actorId data σ₀ σ s.db project result)
    (hs : Interferes P tag σ s s') :
    ProjectPatched rt organizationId projectId actorId data σ₀ σ s'.db project result := by
  obtain ⟨entry, hrecorded, hw⟩ := h.written
  exact { h with
    locked := h.locked.interferes hs
    written := ⟨entry, hrecorded.later (.of_interferes hs) (List.Subset.refl _), hw⟩ }

/-- The flush of an update writes the updated row, if anything has changed. -/
theorem wp_flushProject {project copy : Project} (data : ProjectUpdate) (hD : P.Tolerates Env.Drawn)
    (hR : Harmless P R) (hnow : Interferes P tag σ s s) (hclean : σ.writes .projects = [])
    (hlocked : σ.Locked s.db (t := .projects) project) (hid : copy.id = project.id) :
    wp P tag (fun _ σ' s' => Interferes P tag σ' s' s' ∧ σ'.Locked s'.db (t := .projects) project ∧
        ((copy = project → ∃ updatedAt, data.apply project updatedAt = project) ∧ σ'.writes = σ.writes ∨
          ∃ row : Project, row.id = project.id ∧ row.organizationId = project.organizationId ∧
            (copy = project → ∃ updatedAt, row = data.apply project updatedAt) ∧
            σ'.writes = σ.writes.put .projects project.id (some row))) R
      (flushProject copy { copy with
        name := data.name.getD copy.name
        description := data.description.getD copy.description
        status := data.status.getD copy.status }) σ s := by
  rw [flushProject]
  refine wp_runIf (fun _ => ?_) fun hsame => ⟨hnow, hlocked, Or.inl ⟨fun hcopy => ?_, rfl⟩⟩
  · simp only [Prog.bind_eq, wp_bind]
    refine wp_databaseNow hD fun updatedAt s₂ h₂ hnow₂ => ?_
    refine wp_flushUpdate hR fun s₃ σ₂ old h₃ hold _ hσ₂ hnow₃ => ?_
    have hlocked₃ := hlocked.frozen (h₂.trans (.of_interferes h₃)).frozen
    rw [hid, Session.lookup_view_of_nil hclean] at hold
    obtain rfl : old = project := Option.some.inj (hold.symm.trans hlocked₃.current)
    subst hσ₂
    refine ⟨hnow₃, hlocked₃.mono (Session.locks_write _ _ _ _ _ _), Or.inr
      ⟨copy.merge _ old updatedAt, rfl, rfl, fun hcopy => ⟨updatedAt, ?_⟩,
        congrArg (fun id => σ.writes.put .projects id (some (copy.merge _ old updatedAt))) hid⟩⟩
    subst hcopy
    simp only [Project.merge, ProjectUpdate.apply, assign_self]
  · subst hcopy
    exact ⟨copy.updatedAt, not_not.mp hsame⟩

theorem wp_updateProject_patched {organizationId projectId actorId : Uuid} {data : ProjectUpdate}
    {Q : Project → Assertion schema Env T} (hD : P.Tolerates Env.Drawn) (hR : Harmless P R)
    (hclean : σ.writes .projects = [])
    (h : ∀ project result σ' s', Interferes P tag σ' s' s' →
      ProjectPatched rt organizationId projectId actorId data σ σ' s'.db project result →
      Q result σ' s') :
    wp P tag Q R (updateProject rt organizationId projectId actorId data) σ s := by
  rw [updateProject]
  simp only [Prog.bind_eq, wp_bind]
  refine wp_lockProject hR hclean fun project σ₁ s₁ hnow₁ hw₁ hlocked₁ hof => ?_
  have hof' := hof
  simp only [isProjectId, Bool.and_eq_true, decide_eq_true_eq] at hof'
  obtain ⟨rfl, rfl⟩ := hof'
  have hcopy : (σ.copyOf (t := .projects) project).id = project.id :=
    rowId_copyOf σ (t := .projects) project
  have hloaded : σ.loaded .projects = [] → σ.copyOf (t := .projects) project = project := fun hnone => by
    rw [Session.copyOf, hnone]
    rfl
  generalize σ.copyOf (t := .projects) project = copy at hcopy hloaded ⊢
  refine (wp_flushProject data hD hR hnow₁ (by rw [hw₁, hclean]) hlocked₁ hcopy).then ?_
  rintro _ σ₂ s₂ ⟨hnow₂, hlocked₂, hw₂⟩
  rw [hcopy]
  refine wp_refresh hR fun s₃ result h₃ hresult => ?_
  refine wp_writeAudit hD hR fun entry σ₃ s₄ hentry h₄ hnow₄ haudited => ?_
  have hlocked₃ := ((hlocked₂.interferes h₃).frozen h₄.frozen).mono haudited.locks
  have hid : result.id = project.id := Store.lookup_id hresult
  rw [hid] at hentry
  rcases hw₂ with ⟨hcontents, hw₂⟩ | ⟨row, hrow, hrowOf, hcontents, hw₂⟩
  · -- nothing has changed, and the row is read again as it was locked
    rw [Session.lookup_view_of_nil (by rw [hw₂, hw₁, hclean])] at hresult
    obtain rfl : result = project := Option.some.inj (hresult.symm.trans (hlocked₂.interferes h₃).current)
    refine h result result σ₃ s₄ hnow₄ ⟨hlocked₃, hof, ⟨rfl, rfl⟩, fun hnone => ?_, entry,
      .of_added hentry haudited fun hclean => by rw [hw₂, hw₁, hclean],
      Or.inl ⟨by rw [haudited.writes, hw₂, hw₁], rfl⟩⟩
    obtain ⟨updatedAt, hsame⟩ := hcontents (hloaded hnone)
    exact ⟨updatedAt, hsame.symm⟩
  · obtain rfl : result = row := by
      rw [Session.view, h₃.sound.coherent.lookup_apply, hw₂, Overlay.find_put_self] at hresult
      exact (Option.some.inj hresult).symm
    refine h project result σ₃ s₄ hnow₄ ⟨hlocked₃, hof, ⟨hrow, hrowOf⟩, fun hnone => hcontents (hloaded hnone),
      entry, .of_added hentry haudited fun hclean => ?_, Or.inr (by rw [haudited.writes, hw₂, hw₁])⟩
    rw [hw₂, Overlay.put_table_ne _ (by decide), hw₁, hclean]

theorem wp_updateProject {organizationId projectId actorId : Uuid} {data : ProjectUpdate}
    {Q : Project → Assertion schema Env T} (hD : P.Tolerates Env.Drawn) (hR : Harmless P R)
    (hclean : σ.writes .projects = [])
    (h : ∀ result σ' s', Interferes P tag σ' s' s' →
      ProjectUpdated rt organizationId projectId actorId σ σ' s'.db → Q result σ' s') :
    wp P tag Q R (updateProject rt organizationId projectId actorId data) σ s :=
  wp_updateProject_patched hD hR hclean fun _ result σ' s' hnow hpatched =>
    h result σ' s' hnow hpatched.updated

/-! ### Deleting -/

/-- `delete_project` has returned. -/
structure ProjectDeleted (rt : Runtime) (organizationId projectId actorId : Uuid)
    (σ₀ σ : Session schema) (db : Db) : Prop where
  locked : ∃ project : Project, σ.Locked db (t := .projects) project ∧
    isProjectId organizationId projectId project = true
  written : ∃ entry : AuditLog,
    Recorded organizationId (some actorId) "project.deleted" (rt.uuidText projectId) σ₀ σ db entry ∧
    σ.writes = (σ₀.writes.put .auditLogs entry.id (some entry)).put .projects projectId none

theorem ProjectDeleted.later {organizationId projectId actorId : Uuid} {σ₀ : Session schema}
    {s' : Shared schema Env T} (h : ProjectDeleted rt organizationId projectId actorId σ₀ σ s.db)
    (hs : Interferes P tag σ s s') : ProjectDeleted rt organizationId projectId actorId σ₀ σ s'.db := by
  obtain ⟨⟨project, hlocked, hproject⟩, entry, hrecorded, hw⟩ := h
  exact ⟨⟨project, hlocked.interferes hs, hproject⟩, entry,
    hrecorded.later (.of_interferes hs) (List.Subset.refl _), hw⟩

theorem wp_deleteProject {organizationId projectId actorId : Uuid} {Q : Unit → Assertion schema Env T}
    (hD : P.Tolerates Env.Drawn) (hR : Harmless P R) (hclean : σ.writes .projects = [])
    (h : ∀ σ' s', Interferes P tag σ' s' s' →
      ProjectDeleted rt organizationId projectId actorId σ σ' s'.db → Q () σ' s') :
    wp P tag Q R (deleteProject rt organizationId projectId actorId) σ s := by
  rw [deleteProject]
  simp only [Prog.bind_eq, wp_bind]
  refine wp_lockProject hR hclean fun project σ₁ s₁ hnow₁ hw₁ hlocked₁ hof => ?_
  have hid : project.id = projectId := by
    simp only [isProjectId, Bool.and_eq_true, decide_eq_true_eq] at hof
    exact hof.1
  have hcopy : (σ.copyOf (t := .projects) project).id = projectId :=
    (rowId_copyOf σ (t := .projects) project).trans hid
  rw [hcopy]
  refine wp_writeAudit hD hR fun entry σ₂ s₂ hentry h₂ hnow₂ haudited => ?_
  have hw₂ : σ₂.writes = σ.writes.put .auditLogs entry.id (some entry) := by rw [haudited.writes, hw₁]
  have hlocked₂ := (hlocked₁.frozen h₂.frozen).mono haudited.locks
  have hrecorded : Recorded organizationId (some actorId) "project.deleted" (rt.uuidText projectId) σ σ₂
      s₂.db entry := .of_added hentry haudited fun hclean => by rw [hw₁, hclean]
  refine wp_deleteRow hR.escapes (fun s₃ h₃ hnone => ?_) fun s₃ old h₃ hold => ?_
  · rw [Session.lookup_view_of_nil (by rw [hw₂, Overlay.put_table_ne _ (by decide), hclean]), ← hid]
      at hnone
    cases (hlocked₂.interferes h₃).current.symm.trans hnone
  · have hsound := h₃.sound.delete (S := schema) .projects projectId
    rw [Session.delete, hold] at hsound
    have hl := σ₂.locks_write (Session.deleteNeeds (S := schema) old) s₃.db .projects projectId none
    refine h _ s₃ (.refl h₃.inv h₃.integral hsound) ⟨⟨project, ?_, hof⟩, entry, ?_, ?_⟩
    · exact (hlocked₂.interferes h₃).mono hl
    · exact hrecorded.later (.of_interferes h₃) hl
    · rw [Session.writes_write, hw₂]

end TenantForge
