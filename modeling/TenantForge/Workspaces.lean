import TenantForge.Atomicity
import TenantForge.Contracts.Organizations
import TenantForge.Contracts.Projects
import TenantForge.DeletedOrganizations
import TenantForge.JobSettlement
import TenantForge.ReadCommitted.Refinement
/-!
# Organizations and projects as one machine

A `Board` is what tenants see of organizations and projects. `Party.Step` says what each request does to a
board, all at once; every other process leaves it alone. Any number of requests and workers side by side make
a run of this machine, one step for each commit, in the order of the commits (`board_of_reach`). An update is
applied to what the commits before it have left, so no update is lost (`projects_of_reach`).
-/

namespace TenantForge

open Gregorian ReadCommitted Prog

/-! ### The machine -/

structure Board where
  organizations : Uuid → Option Organization
  projects : Uuid → Option Project

namespace Board

def setOrganization (b : Board) (id : Uuid) (organization : Option Organization) : Board :=
  { b with organizations := Function.update b.organizations id organization }

def setProject (b : Board) (id : Uuid) (project : Option Project) : Board :=
  { b with projects := Function.update b.projects id project }

/-- Without an organization and its projects. -/
def dropOrganization (b : Board) (id : Uuid) : Board where
  organizations := Function.update b.organizations id none
  projects projectId := (b.projects projectId).filter fun project => project.organizationId ≠ id

end Board

def TenantCall.Step (rt : Runtime) (organizationId : Uuid) : TenantCall → Board → Board → Prop
  | .updateOrganization data, b, b' => ∃ organization updatedAt,
    b.organizations organizationId = some organization ∧
      b' = b.setOrganization organizationId (some (data.apply rt organization updatedAt))
  | .deleteOrganization, b, b' =>
    (b.organizations organizationId).isSome ∧ b' = b.dropOrganization organizationId
  | .createProject data, b, b' => ∃ id actorId createdAt, (b.organizations organizationId).isSome ∧
    b.projects id = none ∧ b' = b.setProject id (some (data.project id organizationId actorId createdAt))
  | .updateProject projectId data, b, b' => ∃ project updatedAt, b.projects projectId = some project ∧
    project.organizationId = organizationId ∧
      b' = b.setProject projectId (some (data.apply project updatedAt))
  | .deleteProject projectId, b, b' => ∃ project, b.projects projectId = some project ∧
    project.organizationId = organizationId ∧ b' = b.setProject projectId none
  | _, b, b' => b' = b

/-- What the commit of a process does to the board. -/
def Party.Step (rt : Runtime) : Party → Board → Board → Prop
  | .session (.tenant organizationId _ call), b, b' => call.Step rt organizationId b b'
  | .session (.createOrganization _ data), b, b' => ∃ organization : Organization,
    b.organizations organization.id = none ∧ organization.name = data.name ∧
      organization.slug = rt.lower data.slug ∧
        (∀ id other, b.organizations id = some other → other.slug ≠ organization.slug) ∧
          b' = b.setOrganization organization.id (some organization)
  | _, b, b' => b' = b

def TenantCall.edits : TenantCall → Bool
  | .updateOrganization _ | .deleteOrganization => true
  | .createProject _ | .updateProject _ _ | .deleteProject _ => true
  | _ => false

/-- The requests that change the board. -/
def Party.edits : Party → Bool
  | .session (.tenant _ _ call) => call.edits
  | .session (.createOrganization _ _) => true
  | _ => false

theorem Party.step_of_not_edits {rt : Runtime} {party : Party} (hparty : party.edits = false) (b : Board) :
    party.Step rt b b := by
  cases party with
  | worker fuel polls => exact Eq.refl b
  | session request =>
    cases request with
    | tenant organizationId credentials call =>
      cases call with
      | updateOrganization | deleteOrganization | createProject | updateProject | deleteProject => cases hparty
      | _ => exact Eq.refl b
    | createOrganization credentials data => cases hparty
    | _ => exact Eq.refl b

/-- What the answer of a request shows is on the board. -/
def Response.Shown : Response → Board → Prop
  | .organization row, b => b.organizations row.id = some row
  | .project row, b => b.projects row.id = some row
  | _, _ => True

/-! ### The board of a store -/

def board (db : Db) : Board := ⟨db.lookup .organizations, db.lookup .projects⟩

/-- The tables that are not on the board. -/
def Aside (t : Table) : Prop := t ≠ .organizations ∧ t ≠ .projects

section Views

variable {σ : Session schema} {db : Db} {id : Uuid}

theorem board_of_spares (h : σ.Spares Aside) : board (σ.view db) = board db := by
  have horganizations := h .organizations fun haside => haside.1 rfl
  have hprojects := h .projects fun haside => haside.2 rfl
  simp only [board, Board.mk.injEq]
  exact ⟨funext (Session.lookup_view_of_nil horganizations db), funext (Session.lookup_view_of_nil hprojects db)⟩

/-- One pending version of a row, as it is seen. -/
theorem lookup_view_single {t : Table} {version : Option (Row t)} (hσ : σ.Sound db)
    (hw : σ.writes t = [(id, version)]) :
    (σ.view db).lookup t = Function.update (db.lookup t) id version := by
  funext other
  rw [Session.view, hσ.coherent.lookup_apply, Overlay.find, hw, Function.update_apply]
  by_cases hid : other = id
  · subst hid
    simp
  · simp [hid, Ne.symm hid]

theorem board_of_project {project : Option Project} (hσ : σ.Sound db)
    (horganizations : σ.writes .organizations = []) (hprojects : σ.writes .projects = [(id, project)]) :
    board (σ.view db) = (board db).setProject id project := by
  simp only [board, Board.setProject, Board.mk.injEq]
  exact ⟨funext (Session.lookup_view_of_nil horganizations db), lookup_view_single hσ hprojects⟩

theorem board_of_organization {organization : Option Organization} (hσ : σ.Sound db)
    (horganizations : σ.writes .organizations = [(id, organization)]) (hprojects : σ.writes .projects = []) :
    board (σ.view db) = (board db).setOrganization id organization := by
  simp only [board, Board.setOrganization, Board.mk.injEq]
  exact ⟨lookup_view_single hσ horganizations, funext (Session.lookup_view_of_nil hprojects db)⟩

/-- Writing what is there changes nothing. -/
theorem Board.setProject_self {b : Board} {project : Project} (h : b.projects id = some project) :
    b.setProject id (some project) = b := by
  rw [Board.setProject, ← h, Function.update_eq_self]

theorem Board.setOrganization_self {b : Board} {organization : Organization}
    (h : b.organizations id = some organization) : b.setOrganization id (some organization) = b := by
  rw [Board.setOrganization, ← h, Function.update_eq_self]

@[simp] theorem Board.projects_setProject {b : Board} {project : Option Project} :
    (b.setProject id project).projects id = project := Function.update_self _ _ _

@[simp] theorem Board.organizations_setOrganization {b : Board} {organization : Option Organization} :
    (b.setOrganization id organization).organizations id = organization := Function.update_self _ _ _

end Views

/-! ### What each request does -/

section Steps

variable {rt : Runtime} {σ : Session schema} {db : Db} {organizationId actorId : Uuid} {entry : AuditLog}

/-- A session that wrote a row and then an entry. -/
theorem writes_of_recorded {t : Table} {id : Uuid} {version : Option (Row t)} (ht : t ≠ .auditLogs)
    (hw : σ.writes = ((.empty : Overlay schema).put t id version).put Table.auditLogs entry.id (some entry)) :
    σ.writes t = [(id, version)] ∧ ∀ u, u ≠ t → u ≠ .auditLogs → σ.writes u = [] := by
  refine ⟨?_, fun u hu haudit => ?_⟩
  · rw [hw, Overlay.put_table_ne _ ht, Overlay.put_table_of_nil rfl]
  · rw [hw, Overlay.put_table_ne _ haudit, Overlay.put_table_ne _ hu]
    rfl

/-- A session that wrote an entry and then removed a row. -/
theorem writes_of_removed {t : Table} {id : Uuid} (ht : t ≠ .auditLogs)
    (hw : σ.writes = ((.empty : Overlay schema).put Table.auditLogs entry.id (some entry)).put t id none) :
    σ.writes t = [(id, none)] ∧ ∀ u, u ≠ t → u ≠ .auditLogs → σ.writes u = [] := by
  refine ⟨?_, fun u hu haudit => ?_⟩
  · rw [hw, Overlay.put_table_of_nil]
    rw [Overlay.put_table_ne _ ht]
    rfl
  · rw [hw, Overlay.put_table_ne _ hu, Overlay.put_table_ne _ haudit]
    rfl

/-- A session that wrote an entry only. -/
theorem spares_of_entry
    (hw : σ.writes = (.empty : Overlay schema).put Table.auditLogs entry.id (some entry)) : σ.Spares Aside := by
  intro t ht
  rw [hw, Overlay.put_table_ne _ fun haudit => ht (by rw [haudit]; exact ⟨by decide, by decide⟩)]
  rfl

theorem step_createProject (rt : Runtime) {data : ProjectCreate} {project : Project} {createdAt : DateTime}
    (hσ : σ.Sound db) (hvacant : σ.Vacant db .projects project.id)
    (hw : σ.writes = ((.empty : Overlay schema).put .projects project.id (some project)).put .auditLogs
      entry.id (some entry)) (hproject : project = data.project project.id organizationId actorId createdAt) :
    (board (σ.view db)).projects project.id = some project ∧
      ((σ.view db).Closed →
        (TenantCall.createProject data).Step rt organizationId (board db) (board (σ.view db))) := by
  obtain ⟨hprojects, hothers⟩ := writes_of_recorded (t := .projects) (by decide) hw
  have horganizations := hothers .organizations (by decide) (by decide)
  have hboard := board_of_project hσ horganizations hprojects
  have hshown : (board (σ.view db)).projects project.id = some project := by
    rw [hboard, Board.projects_setProject]
  refine ⟨hshown, fun hclosed => ⟨project.id, actorId, createdAt, ?_, hvacant.current, ?_⟩⟩
  · -- the organization is there, as the project names it
    have hparent : (Table.organizations, organizationId) ∈ foreignKeys (t := .projects) project := by
      rw [hproject]
      exact List.mem_cons_self
    have hsome := hclosed .projects project (Store.lookup_mem hshown) _ hparent
    rwa [Session.lookup_view_of_nil horganizations] at hsome
  · rw [hboard, ← hproject]

theorem ProjectPatched.step {projectId : Uuid} {data : ProjectUpdate} {σ₀ : Session schema}
    {project result : Project} (h : ProjectPatched rt organizationId projectId actorId data σ₀ σ db project result)
    (hσ : σ.Sound db) (hclean : σ₀.writes = .empty) (hloaded : σ₀.loaded .projects = []) :
    (board (σ.view db)).projects result.id = some result ∧
      (TenantCall.updateProject projectId data).Step rt organizationId (board db) (board (σ.view db)) := by
  have hproject := h.isProject
  simp only [isProjectId, Bool.and_eq_true, decide_eq_true_eq] at hproject
  have hcurrent : (board db).projects projectId = some project := by
    rw [← hproject.1]
    exact h.locked.current
  obtain ⟨updatedAt, hresult⟩ := h.contents hloaded
  obtain ⟨entry, -, hw⟩ := h.written
  rw [hclean] at hw
  have hboard : board (σ.view db) = (board db).setProject projectId (some result) := by
    rcases hw with ⟨hw, hsame⟩ | hw
    · rw [hsame, Board.setProject_self hcurrent]
      exact board_of_spares (spares_of_entry hw)
    · obtain ⟨hprojects, hothers⟩ := writes_of_recorded (t := .projects) (by decide) hw
      exact board_of_project hσ (hothers .organizations (by decide) (by decide)) hprojects
  refine ⟨by rw [hboard, h.resultId.1, Board.projects_setProject], project, updatedAt, hcurrent, hproject.2, ?_⟩
  rw [hboard, hresult]

theorem ProjectDeleted.step {projectId : Uuid} {σ₀ : Session schema}
    (h : ProjectDeleted rt organizationId projectId actorId σ₀ σ db) (hσ : σ.Sound db)
    (hclean : σ₀.writes = .empty) :
    (TenantCall.deleteProject projectId).Step rt organizationId (board db) (board (σ.view db)) := by
  obtain ⟨project, hlocked, hproject⟩ := h.locked
  simp only [isProjectId, Bool.and_eq_true, decide_eq_true_eq] at hproject
  obtain ⟨entry, -, hw⟩ := h.written
  rw [hclean] at hw
  obtain ⟨hprojects, hothers⟩ := writes_of_removed (t := .projects) (by decide) hw
  refine ⟨project, ?_, hproject.2,
    board_of_project hσ (hothers .organizations (by decide) (by decide)) hprojects⟩
  rw [← hproject.1]
  exact hlocked.current

theorem OrganizationPatched.step {data : OrganizationUpdate} {σ₀ : Session schema}
    {organization result : Organization}
    (h : OrganizationPatched rt organizationId actorId data σ₀ σ db organization result) (hσ : σ.Sound db)
    (hclean : σ₀.writes = .empty) (hloaded : σ₀.loaded .organizations = []) :
    (board (σ.view db)).organizations result.id = some result ∧
      (TenantCall.updateOrganization data).Step rt organizationId (board db) (board (σ.view db)) := by
  have hcurrent : (board db).organizations organizationId = some organization := by
    rw [← h.isOrganization]
    exact h.locked.current
  obtain ⟨updatedAt, hresult⟩ := h.contents hloaded
  obtain ⟨entry, -, hw⟩ := h.written
  rw [hclean] at hw
  have hboard : board (σ.view db) = (board db).setOrganization organizationId (some result) := by
    rcases hw with ⟨hw, hsame⟩ | hw
    · rw [hsame, Board.setOrganization_self hcurrent]
      exact board_of_spares (spares_of_entry hw)
    · obtain ⟨horganizations, hothers⟩ := writes_of_recorded (t := .organizations) (by decide) hw
      exact board_of_organization hσ horganizations (hothers .projects (by decide) (by decide))
  refine ⟨by rw [hboard, h.resultId, Board.organizations_setOrganization], organization, updatedAt, hcurrent, ?_⟩
  rw [hboard, hresult]

/-- In a closed store, the deletion of an organization has taken all its projects. -/
theorem OrganizationDeleted.step (rt : Runtime) {σ₀ : Session schema}
    (h : OrganizationDeleted organizationId actorId σ₀ σ db) (hσ : σ.Sound db) (hclean : σ₀.writes = .empty)
    (hclosed : (σ.view db).Closed) :
    TenantCall.deleteOrganization.Step rt organizationId (board db) (board (σ.view db)) := by
  obtain ⟨organization, hlocked, hid⟩ := h.organization
  obtain ⟨entry, -, -, σ₁, hw, hcascaded⟩ := h.written
  rw [hclean] at hw
  obtain ⟨hremoved, hothers⟩ := writes_of_removed (t := .organizations) (by decide) hw
  have horganizations := (hcascaded.others .organizations (by decide)).trans hremoved
  have hprojects := hothers .projects (by decide) (by decide)
  have hview := lookup_view_single hσ horganizations
  have habsent : (σ.view db).lookup .organizations organizationId = none := by
    rw [hview, Function.update_self]
  refine ⟨?_, ?_⟩
  · rw [← hid]
    exact Option.isSome_of_eq_some hlocked.current
  · simp only [board, Board.dropOrganization, Board.mk.injEq]
    refine ⟨hview, funext fun id => ?_⟩
    have hlookup := hσ.coherent.lookup_apply db .projects id
    cases hfind : σ.writes.find .projects id with
    | none =>
      -- a project that stays is of another organization
      rw [hfind, Option.getD_none] at hlookup
      rw [Session.view, hlookup]
      cases hproject : db.lookup .projects id with
      | none => rfl
      | some project =>
        have hseen : (σ.view db).lookup .projects id = some project := hlookup.trans hproject
        have hne := emptied_of_closed hclosed habsent .projects project (Store.lookup_mem hseen)
        have hof : project.organizationId ≠ organizationId := by simpa [tenantOf] using hne
        rw [Option.filter_some, if_pos (decide_eq_true hof)]
    | some version =>
      obtain ⟨rfl, project, hprojectId, htenant, hprojectLocked⟩ :=
        hcascaded.deleted .projects (by decide) hprojects id version hfind
      rw [hfind, Option.getD_some] at hlookup
      have hcurrent : db.lookup .projects id = some project := hprojectId ▸ hprojectLocked.current
      have hof : project.organizationId = organizationId := by simpa [tenantOf] using htenant
      rw [Session.view, hlookup, hcurrent, Option.filter_some, if_neg (by simp [hof])]

end Steps

/-! ### Frames of the worker -/

section Frames

variable {rt : Runtime} {W : Table → Prop}

theorem within_runForever (fuel polls : Nat) (hw : W .webhookEvents) (hs : W .subscriptions)
    (ha : W .auditLogs) : ((defaultWorker rt).runForever rt fuel polls).Within W (fun _ _ => True) True := by
  refine composed_runForever (K := fun _ p => p.Within W (fun _ _ => True) True)
    (fun type handler hhandler payload => ?_) (within_composes fun _ _ => trivial) fuel polls
  exact within_buildHandlers (fun _ _ _ => trivial) hhandler payload hw hs ha trivial

/-- A process that does not edit the board writes other tables. -/
theorem within_program {party : Party} (hparty : party.edits = false) :
    (party.program rt).Within Aside (fun _ _ => True) True := by
  cases party with
  | worker fuel polls =>
    exact (within_runForever fuel polls ⟨by decide, by decide⟩ ⟨by decide, by decide⟩
      ⟨by decide, by decide⟩).bind fun _ => trivial
  | session request =>
    have htables : ∀ t ∈ request.tables, Aside t := by
      cases request with
      | tenant organizationId credentials call =>
        cases call with
        | updateOrganization | deleteOrganization | createProject | updateProject | deleteProject =>
          cases hparty
        | _ => simp [Request.tables, TenantCall.tables, Aside]
      | createOrganization credentials data => cases hparty
      | _ => simp [Request.tables, Aside]
    exact (within_request (fun _ _ _ => trivial) htables trivial).bind fun _ => trivial

end Frames

/-! ### Whole runs -/

/-- A commit is a step of the machine, if the store that it leaves is closed. -/
def Plays {T : Type} (rt : Runtime) (of : T → Party) (c : Commit schema T) : Prop :=
  c.after.Closed → (of c.tag).Step rt (board c.before) (board c.after)

/-- A request that edits the board has done so when it answers, and its answer shows what it has left. -/
def Answered {T : Type} (of : T → Party) (tag : T) (response : Option Response) (log : List (Commit schema T)) :
    Prop :=
  (of tag).edits = true → ∃ c ∈ log, c.tag = tag ∧ ∀ answer, response = some answer → answer.Shown (board c.after)

section Runs

variable {rt : Runtime} {T : Type} {of : T → Party} {tag : T} {s : Shared schema Env T}

theorem answered_of_commit {σ : Session schema} {s s' : Shared schema Env T} {response : Response}
    (hs : Interferes (Protocol.stepping (Plays rt of)) tag σ s s') (hplays : Plays rt of ⟨tag, σ, s'.db⟩)
    (hshown : response.Shown (board (σ.view s'.db))) :
    (Protocol.stepping (Plays rt of)).Allows tag σ s' (s'.commit tag σ) ∧
      Answered of tag (some response) (s'.commit tag σ).log := by
  refine ⟨stepping_allows hs hplays, fun _ => ⟨_, List.mem_cons_self, rfl, fun answer hanswer => ?_⟩⟩
  cases hanswer
  exact hshown

theorem wp_edits_tenant {organizationId : Uuid} {credentials : Option Credentials} {call : TenantCall}
    (hcall : call.edits = true) (htag : of tag = .session (.tenant organizationId credentials call))
    (hnow : Interferes (Protocol.stepping (Plays rt of)) tag .empty s s) :
    wp (Protocol.stepping (Plays rt of)) tag (fun response _ s => Answered of tag (some response) s.log)
      (fun _ _ _ => True) ((Request.tenant organizationId credentials call).handle rt) .empty s := by
  have hplays : ∀ {σ : Session schema} {db : Db}, ((σ.view db).Closed →
      call.Step rt organizationId (board db) (board (σ.view db))) → Plays rt of ⟨tag, σ, db⟩ := by
    intro σ db hstep hclosed
    change (of tag).Step rt (board db) (board (σ.view db))
    rw [htag]
    exact hstep hclosed
  have hlog : (Protocol.stepping (E := Env) (Plays rt of)).LogOnly := stepping_logOnly
  have hD := hlog.tolerates Env.Drawn
  refine wp_getSession harmless_true ?_
  refine wp_handle_tenant hD harmless_true hnow fun user membership σ₁ s₁ hentered _ => ?_
  have hclean : ∀ t, σ₁.writes t = [] := fun t => by rw [hentered.writes]; rfl
  cases call with
  | createProject data =>
    simp only [TenantCall.operation, Prog.map_eq, wp_bind]
    refine wp_createProject_contents hD harmless_true fun project createdAt σ₂ s₂ _ hcreated hproject s₃ hs => ?_
    obtain ⟨entry, -, hw⟩ := hcreated.written
    rw [hentered.writes] at hw
    have hvacant := (hcreated.vacant (hclean .projects)).frozen hs.frozen
    have hstep := step_createProject rt hs.sound hvacant hw hproject
    exact answered_of_commit hs (hplays hstep.2) hstep.1
  | updateProject projectId data =>
    simp only [TenantCall.operation, Prog.map_eq, wp_bind]
    refine wp_updateProject_patched hD harmless_true (hclean .projects)
      fun project result σ₂ s₂ _ hpatched s₃ hs => ?_
    have hstep := (hpatched.later hs).step hs.sound hentered.writes
      (hentered.others .projects (by decide) (by decide))
    exact answered_of_commit hs (hplays fun _ => hstep.2) hstep.1
  | deleteProject projectId =>
    simp only [TenantCall.operation, Prog.bind_eq, wp_bind]
    refine wp_deleteProject hD harmless_true (hclean .projects) fun σ₂ s₂ _ hdeleted s₃ hs => ?_
    exact answered_of_commit hs (hplays fun _ => (hdeleted.later hs).step hs.sound hentered.writes) trivial
  | updateOrganization data =>
    simp only [TenantCall.operation, Prog.map_eq, wp_bind]
    refine wp_updateOrganization_patched hD harmless_true (hclean .organizations) (hclean .memberships)
      fun organization result σ₂ s₂ _ hpatched s₃ hs => ?_
    have hstep := (hpatched.later hs).step hs.sound hentered.writes
      (hentered.others .organizations (by decide) (by decide))
    exact answered_of_commit hs (hplays fun _ => hstep.2) hstep.1
  | deleteOrganization =>
    simp only [TenantCall.operation, Prog.bind_eq, wp_bind]
    refine wp_deleteOrganization hD harmless_true (hclean .organizations) (hclean .memberships)
      fun σ₂ s₂ _ hdeleted s₃ hs => ?_
    exact answered_of_commit hs (hplays ((hdeleted.later hs).step rt hs.sound hentered.writes)) trivial
  | _ => cases hcall

/-- The unique index keeps a new organization from taking a slug that is in use. -/
theorem slug_ne_of_vacant {σ : Session schema} {db : Db} {organization other : Organization} {id : Uuid}
    (hσ : σ.Sound db) (hvacant : db.lookup .organizations organization.id = none)
    (hview : (σ.view db).lookup .organizations =
      Function.update (db.lookup .organizations) organization.id (some organization))
    (hother : db.lookup .organizations id = some other) : other.slug ≠ organization.slug := by
  intro hslug
  have hne : id ≠ organization.id := by
    rintro rfl
    cases hvacant.symm.trans hother
  have hseen : (σ.view db).lookup .organizations id = some other := by
    rw [hview, Function.update_of_ne hne, hother]
  have hseen' : (σ.view db).lookup .organizations organization.id = some organization := by
    rw [hview, Function.update_self]
  have hid := hσ.unique .organizations other (Store.lookup_mem hseen) organization (Store.lookup_mem hseen')
    (.slug other.slug) List.mem_cons_self (by rw [hslug]; exact List.mem_cons_self)
  exact hne ((Store.lookup_id hother).symm.trans hid)

theorem wp_edits_createOrganization {credentials : Option Credentials} {data : OrganizationCreate}
    (htag : of tag = .session (.createOrganization credentials data))
    (hnow : Interferes (Protocol.stepping (Plays rt of)) tag .empty s s) :
    wp (Protocol.stepping (Plays rt of)) tag (fun response _ s => Answered of tag (some response) s.log)
      (fun _ _ _ => True) ((Request.createOrganization credentials data).handle rt) .empty s := by
  have hlog : (Protocol.stepping (E := Env) (Plays rt of)).LogOnly := stepping_logOnly
  have hD := hlog.tolerates Env.Drawn
  refine wp_getSession harmless_true ?_
  simp only [Request.endpoint, Prog.bind_eq, Prog.map_eq, wp_bind]
  refine wp_getCurrentUser hD harmless_true hnow fun user σ₁ s₁ huser _ _ => ?_
  refine wp_createOrganization_contents hD harmless_true
    fun organization owner σ₂ s₂ _ hcreated hname hslug s₃ hs => ?_
  obtain ⟨subscription, current, entry, -, -, -, hw⟩ := hcreated.written
  rw [huser.writes] at hw
  have hvacant := (hcreated.organizationVacant (by rw [huser.writes]; rfl)).frozen hs.frozen
  have hboard : board (σ₂.view s₃.db) = (board s₃.db).setOrganization organization.id (some organization) := by
    refine board_of_organization hs.sound ?_ ?_
    · rw [hw, Overlay.put_table_ne _ (by decide), Overlay.put_table_ne _ (by decide),
        Overlay.put_table_ne _ (by decide), Overlay.put_table_of_nil rfl]
    · rw [hw, Overlay.put_table_ne _ (by decide), Overlay.put_table_ne _ (by decide),
        Overlay.put_table_ne _ (by decide), Overlay.put_table_ne _ (by decide)]
      rfl
  have hfresh : ∀ id other, (board s₃.db).organizations id = some other → other.slug ≠ organization.slug :=
    fun id other => slug_ne_of_vacant hs.sound hvacant.current (congrArg Board.organizations hboard)
  have hplays : Plays rt of ⟨tag, σ₂, s₃.db⟩ := by
    intro _
    change (of tag).Step rt (board s₃.db) (board (σ₂.view s₃.db))
    rw [htag]
    exact ⟨organization, hvacant.current, hname, hslug, hfresh, hboard⟩
  refine answered_of_commit hs hplays ?_
  change (board (σ₂.view s₃.db)).organizations organization.id = some organization
  rw [hboard, Board.organizations_setOrganization]

/-- **The step**: each process plays the machine, among any others. -/
theorem wp_program (hnow : Interferes (Protocol.stepping (Plays rt of)) tag .empty s s) :
    wp (Protocol.stepping (Plays rt of)) tag (fun response _ s => Answered of tag response s.log)
      (fun _ _ _ => True) ((of tag).program rt) .empty s := by
  by_cases hparty : (of tag).edits = false
  · have hcommit : ∀ σ (s : Shared schema Env T), Interferes (Protocol.stepping (Plays rt of)) tag σ s s →
        σ.Spares Aside → (Protocol.stepping (Plays rt of)).Allows tag σ s (s.commit tag σ) := by
      refine fun σ s hs hspares => stepping_allows hs fun _ => ?_
      change (of tag).Step rt (board s.db) (board (σ.view s.db))
      rw [board_of_spares hspares]
      exact Party.step_of_not_edits hparty _
    refine wp_mono (fun _ _ _ _ hedits => ?_) (fun _ _ _ _ => trivial) _ _ _
      (wp_within (within_program hparty) (stepping_logOnly.tolerates _) (fun _ => hcommit) (fun _ _ => rfl) hnow)
    cases hparty.symm.trans hedits
  · cases htag : of tag with
    | worker fuel polls => exact absurd (by rw [htag]; rfl) hparty
    | session request =>
      rw [htag] at hparty
      rw [Party.program, Prog.map_eq, wp_bind]
      cases request with
      | tenant organizationId credentials call =>
        exact wp_edits_tenant (Bool.of_not_eq_false hparty) htag hnow
      | createOrganization credentials data => exact wp_edits_createOrganization htag hnow
      | _ => exact absurd rfl hparty

theorem steps_of_reach (of : T → Party) {jobs : List T} {w : World schema Env Exn T (Option Response)}
    (hdb : s.db.Integral) (hclosed : s.db.Closed) (hlog : s.log = [])
    (hreach : (World.start s jobs fun job => (of job).program rt).Reach w) :
    (∀ c ∈ w.shared.log, (of c.tag).Step rt (board c.before) (board c.after)) ∧
      ∀ th ∈ w.threads, ∀ response, th.prog = some (.pure response) →
        Answered of th.tag response w.shared.log := by
  have hclosed' := (references_of_reach of hdb hclosed hlog hreach).2
  have hmono : ∀ (tag : T) response (log log' : List (Commit schema T)), log ⊆ log' →
      Answered of tag response log → Answered of tag response log' := by
    intro tag response log log' hsub h hedits
    obtain ⟨c, hc, hrest⟩ := h hedits
    exact ⟨c, hsub hc, hrest⟩
  have hinv : (Protocol.stepping (E := Env) (Plays rt of)).inv s := by simp [Protocol.stepping, hlog]
  obtain ⟨hplays, -, hanswered⟩ := World.stepping_of_reach hmono hdb hlog
    (fun job _ => wp_program (.refl hinv hdb (.of_writes_empty hdb rfl))) hreach
  exact ⟨fun c hc => hplays c hc (hclosed' c hc).1, hanswered⟩

end Runs

/-- What became of a request that edits the board: exactly one step if it has been answered, and the answer
shows what the step has left; no step if it has not, or never will be. -/
structure Edited (log : List (Commit schema NumberedParty))
    (th : Thread schema Env Exn NumberedParty (Option Response)) : Prop where
  once : log.Pairwise fun later earlier => later.tag = th.tag → earlier.tag ≠ th.tag
  answered : ∀ response, th.prog = some (.pure response) →
    ∃ c ∈ log, c.tag = th.tag ∧ ∀ answer, response = some answer → answer.Shown (board c.after)
  unanswered : (∀ response, th.prog ≠ some (.pure response)) → ∀ c ∈ log, c.tag ≠ th.tag

theorem not_commitsEarly_of_edits {request : Request} (h : (Party.session request).edits = true) :
    request.commitsEarly = false := by
  cases request with
  | tenant organizationId credentials call =>
    cases call with
    | createInvitation data => cases h
    | _ => rfl
  | billingWebhook delivery => cases h
  | _ => rfl

theorem commitsLast_of_edits (rt : Runtime) {party : Party} (h : party.edits = true) :
    (party.program rt).CommitsLast := by
  cases party with
  | session request => exact (commitsLast_request rt (not_commitsEarly_of_edits h)).map some
  | worker fuel polls => cases h

theorem edited_of_reach (rt : Runtime) {s : Shared schema Env NumberedParty} {parties : List Party}
    {w : World schema Env Exn NumberedParty (Option Response)} (hdb : s.db.Integral) (hclosed : s.db.Closed)
    (hlog : s.log = []) (hreach : (startNumberedParties rt s parties).Reach w) :
    ∀ th ∈ w.threads, th.tag.1.edits = true → Edited w.shared.log th := by
  have hjobs : parties.zipIdx.Nodup := by
    refine List.Nodup.of_map Prod.snd ?_
    rw [List.zipIdx_map_snd]
    exact List.nodup_range'
  have hanswered := (steps_of_reach Prod.fst hdb hclosed hlog hreach).2
  refine fun th hth hedits => ⟨?_, fun response hresponse => hanswered th hth response hresponse hedits,
    fun hopen => ?_⟩
  · have honce : w.shared.log.Pairwise fun later earlier =>
        later.tag.1.edits = true → later.tag ≠ earlier.tag :=
      World.once_of_reach hjobs hlog (fun _ => commitsLast_of_edits rt) hreach
    refine honce.imp fun hne htag htag' => ?_
    exact hne (by rw [htag]; exact hedits) (htag.trans htag'.symm)
  · rcases World.uncommitted_of_reach hjobs hlog hreach th hth (commitsLast_of_edits rt hedits) with
      ⟨response, hresponse⟩ | hnone
    · exact absurd hresponse (hopen response)
    · exact hnone.1

/-- **The system is the machine**: the commits of a run, in their order, lead the board from its first state
to the present one, and every request that edits the board takes its step once it is answered, and only once. -/
theorem board_of_reach (rt : Runtime) {s : Shared schema Env NumberedParty} {parties : List Party}
    {w : World schema Env Exn NumberedParty (Option Response)} (hdb : s.db.Integral) (hclosed : s.db.Closed)
    (hlog : s.log = []) (hreach : (startNumberedParties rt s parties).Reach w) :
    Path (fun tag : NumberedParty => tag.1.Step rt) (board s.db) (Commit.tags w.shared.log) (board w.shared.db) ∧
      ∀ th ∈ w.threads, th.tag.1.edits = true → Edited w.shared.log th := by
  have hsteps := (steps_of_reach Prod.fst hdb hclosed hlog hreach).1
  exact ⟨(World.leads_of_reach hlog hreach).path hsteps, edited_of_reach rt hdb hclosed hlog hreach⟩

/-! ### No update is lost -/

/-- What a request makes of the contents of a project. -/
def Party.patch (id : Uuid) (project : Project) : Party → Project
  | .session (.tenant _ _ (.updateProject projectId data)) =>
    if projectId = id then data.apply project project.updatedAt else project
  | _ => project

/-- The requests that delete the project, or its organization. -/
def Party.drops (id organizationId : Uuid) : Party → Prop
  | .session (.tenant _ _ (.deleteProject projectId)) => projectId = id
  | .session (.tenant closed _ .deleteOrganization) => closed = organizationId
  | _ => False

/-- The same project, but for the time of the last update. -/
def SameContents (a b : Project) : Prop := b = { a with updatedAt := b.updatedAt }

theorem SameContents.apply {a b : Project} (h : SameContents a b) (data : ProjectUpdate) (at₁ at₂ : DateTime) :
    SameContents (data.apply a at₁) (data.apply b at₂) := by
  rw [SameContents, show b = _ from h]
  rfl

theorem SameContents.organizationId {a b : Project} (h : SameContents a b) :
    b.organizationId = a.organizationId := by
  rw [show b = _ from h]

/-- One step: a project that is not deleted has the contents that the request makes of it. -/
theorem Party.Step.patch {rt : Runtime} {party : Party} {b b' : Board} (h : party.Step rt b b') {id : Uuid}
    {project : Project} (hproject : b.projects id = some project)
    (hstays : ¬party.drops id project.organizationId) {expected : Project} (hsame : SameContents expected project) :
    ∃ project', b'.projects id = some project' ∧ SameContents (party.patch id expected) project' := by
  have hkept : ∀ {b' : Board}, b'.projects = b.projects → (∀ expected, party.patch id expected = expected) →
      ∃ project', b'.projects id = some project' ∧ SameContents (party.patch id expected) project' := by
    intro b' hprojects hpatch
    exact ⟨project, by rw [hprojects, hproject], by rwa [hpatch]⟩
  cases party with
  | worker fuel polls => exact hkept (congrArg Board.projects h) fun _ => rfl
  | session request =>
    cases request with
    | tenant organizationId credentials call =>
      cases call with
      | updateProject projectId data =>
        obtain ⟨project', updatedAt, hproject', -, rfl⟩ := h
        simp only [Party.patch]
        by_cases hid : projectId = id
        · subst hid
          obtain rfl := Option.some.inj (hproject.symm.trans hproject')
          refine ⟨data.apply project updatedAt, Board.projects_setProject, ?_⟩
          rw [if_pos rfl]
          exact hsame.apply data _ _
        · rw [if_neg hid]
          exact ⟨project, (Function.update_of_ne (Ne.symm hid) _ _).trans hproject, hsame⟩
      | createProject data =>
        obtain ⟨new, actorId, createdAt, -, hvacant, rfl⟩ := h
        have hne : id ≠ new := fun hid => by
          subst hid
          cases hproject.symm.trans hvacant
        exact ⟨project, (Function.update_of_ne hne _ _).trans hproject, hsame⟩
      | deleteProject projectId =>
        obtain ⟨project', -, -, rfl⟩ := h
        exact ⟨project, (Function.update_of_ne (Ne.symm hstays) _ _).trans hproject, hsame⟩
      | deleteOrganization =>
        obtain ⟨-, rfl⟩ := h
        refine ⟨project, ?_, hsame⟩
        simp only [Board.dropOrganization, hproject]
        exact Option.filter_eq_some_iff.mpr ⟨rfl, decide_eq_true (Ne.symm hstays)⟩
      | updateOrganization data =>
        obtain ⟨organization, updatedAt, -, rfl⟩ := h
        exact hkept rfl fun _ => rfl
      | _ => exact hkept (congrArg Board.projects h) fun _ => rfl
    | createOrganization credentials data =>
      obtain ⟨organization, -, -, -, -, rfl⟩ := h
      exact hkept rfl fun _ => rfl
    | _ => exact hkept (congrArg Board.projects h) fun _ => rfl

/-- A whole path: the contents of the project are those that the requests make of it, one after another. -/
theorem path_patch {rt : Runtime} {T : Type} {of : T → Party} {b b' : Board} {labels : List T}
    (h : Path (fun tag => (of tag).Step rt) b labels b') {id : Uuid} {project : Project}
    (hproject : b.projects id = some project) (hstays : ∀ tag ∈ labels, ¬(of tag).drops id project.organizationId) :
    ∃ project', b'.projects id = some project' ∧ project'.organizationId = project.organizationId ∧
      SameContents (labels.foldl (fun contents tag => (of tag).patch id contents) project) project' := by
  have hpatched : ∀ (party : Party) (p : Project), (party.patch id p).organizationId = p.organizationId := by
    intro party p
    unfold Party.patch
    split
    · split <;> rfl
    · rfl
  have hfold : ∀ labels : List T,
      (labels.foldl (fun contents tag => (of tag).patch id contents) project).organizationId =
        project.organizationId := by
    intro labels
    induction labels using List.reverseRecOn with
    | nil => rfl
    | append_singleton labels tag ih => rw [List.foldl_append, List.foldl_cons, List.foldl_nil, hpatched, ih]
  induction h with
  | refl => exact ⟨project, hproject, rfl, rfl⟩
  | step hpath hlast ih =>
    obtain ⟨before, hbefore, hof, hsame⟩ := ih fun tag htag => hstays tag (List.mem_append_left _ htag)
    have hdrops := hstays _ (List.mem_append_right _ List.mem_cons_self)
    rw [← hof] at hdrops
    obtain ⟨after, hafter, hsame'⟩ := hlast.patch hbefore hdrops hsame
    rw [List.foldl_append, List.foldl_cons, List.foldl_nil]
    refine ⟨after, hafter, ?_, hsame'⟩
    rw [hsame'.organizationId, hpatched, hfold]

/-- **No update is lost**: whatever part of the commits comes last, a project that was there before it, and
that none of these commits deletes, has the contents that their updates make of it, in the order of the
commits; and every answered update is among the commits, once. -/
theorem projects_of_reach (rt : Runtime) {s : Shared schema Env NumberedParty} {parties : List Party}
    {w : World schema Env Exn NumberedParty (Option Response)} (hdb : s.db.Integral) (hclosed : s.db.Closed)
    (hlog : s.log = []) (hreach : (startNumberedParties rt s parties).Reach w) :
    (∀ newer older, w.shared.log = newer ++ older → ∃ mid, Leads s.db older mid ∧
      ∀ id (project : Project), mid.lookup .projects id = some project →
        (∀ c ∈ newer, ¬c.tag.1.drops id project.organizationId) → ∃ project' : Project,
          w.shared.db.lookup .projects id = some project' ∧
            SameContents ((Commit.tags newer).foldl (fun contents tag => tag.1.patch id contents) project)
              project') ∧
      ∀ th ∈ w.threads, ∀ response, th.prog = some (.pure response) → th.tag.1.edits = true →
        (∃ c ∈ w.shared.log, c.tag = th.tag) ∧
          w.shared.log.Pairwise fun later earlier => later.tag = th.tag → earlier.tag ≠ th.tag := by
  obtain ⟨hsteps, hanswered⟩ := steps_of_reach Prod.fst hdb hclosed hlog hreach
  refine ⟨fun newer older hsplit => ?_, fun th hth response hresponse hedits => ?_⟩
  · have hleads := World.leads_of_reach hlog hreach
    rw [hsplit] at hleads
    obtain ⟨mid, holder, hnewer⟩ := hleads.split
    refine ⟨mid, holder, fun id project hproject hstays => ?_⟩
    have hpath : Path (fun tag : NumberedParty => tag.1.Step rt) (board mid) (Commit.tags newer)
        (board w.shared.db) :=
      hnewer.path fun c hc => hsteps c (hsplit ▸ List.mem_append_left _ hc)
    have hkept : ∀ tag ∈ Commit.tags newer, ¬tag.1.drops id project.organizationId := by
      intro tag htag
      obtain ⟨c, hc, rfl⟩ := Commit.mem_tags.mp htag
      exact hstays c hc
    obtain ⟨project', hproject', -, hsame⟩ := path_patch hpath hproject hkept
    exact ⟨project', hproject', hsame⟩
  · have hedited := edited_of_reach rt hdb hclosed hlog hreach th hth hedits
    obtain ⟨c, hc, htag, -⟩ := hedited.answered response hresponse
    exact ⟨⟨c, hc, htag⟩, hedited.once⟩

namespace Reference

/-- The owner renames a project, archives it and adds another one, all at the same time. -/
def busyDay : List Party :=
  [.session (.tenant 15 (bearer 1) (.updateProject 41 ⟨some "Renamed", none, none⟩)),
    .session (.tenant 15 (bearer 1) (.updateProject 41 ⟨none, none, some .archived⟩)),
    .session (.tenant 15 (bearer 1) (.createProject ⟨"Another project", none⟩)), .worker 1 1]

def busyNumbered : World schema Env Exn NumberedParty (Option Response) :=
  (startNumberedParties runtime (shared NumberedParty daily ownedProject) busyDay).playAll
    (List.replicate 80 [Move.run 0, .run 1, .run 2, .run 3]).flatten

theorem board_of_busyNumbered :
    Path (fun tag : NumberedParty => tag.1.Step runtime) (board ownedProject.db)
        (Commit.tags busyNumbered.shared.log) (board busyNumbered.shared.db) ∧
      ∀ th ∈ busyNumbered.threads, th.tag.1.edits = true → Edited busyNumbered.shared.log th :=
  board_of_reach (w := busyNumbered) runtime (ValidDb.integral (by decide +kernel)) closed_ownedProject rfl
    (World.reach_playAll _ _)

theorem projects_of_busyNumbered :
    (∀ newer older, busyNumbered.shared.log = newer ++ older → ∃ mid, Leads ownedProject.db older mid ∧
      ∀ id (project : Project), mid.lookup .projects id = some project →
        (∀ c ∈ newer, ¬c.tag.1.drops id project.organizationId) → ∃ project' : Project,
          busyNumbered.shared.db.lookup .projects id = some project' ∧
            SameContents ((Commit.tags newer).foldl (fun contents tag => tag.1.patch id contents) project)
              project') ∧
      ∀ th ∈ busyNumbered.threads, ∀ response, th.prog = some (.pure response) → th.tag.1.edits = true →
        (∃ c ∈ busyNumbered.shared.log, c.tag = th.tag) ∧
          busyNumbered.shared.log.Pairwise fun later earlier => later.tag = th.tag → earlier.tag ≠ th.tag :=
  projects_of_reach (w := busyNumbered) runtime (ValidDb.integral (by decide +kernel)) closed_ownedProject rfl
    (World.reach_playAll _ _)

/-- Both updates are there. -/
example : ((busyNumbered.shared.db.lookup .projects 41).map fun project : Project =>
    (project.name, project.status)) = some ("Renamed", .archived) := by
  decide +kernel

end Reference

end TenantForge
