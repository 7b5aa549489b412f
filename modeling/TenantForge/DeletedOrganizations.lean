import TenantForge.LockOrders
import TenantForge.ReadCommitted.ForeignKeys
import TenantForge.ReadCommitted.FreshKeys
import TenantForge.RowVersions
/-!
# A deleted organization leaves nothing behind

Any number of requests and workers, in any interleaving, aborts and crashes included: every row that a foreign
key names is there at any time. So once `delete_organization` has committed, no row of any table belongs to the
organization: neither a row that was there before, nor one that another request was adding meanwhile. An
organization is inserted under an id that its transaction drew, so the deleted one does not come back.
-/

namespace TenantForge

open Gregorian ReadCommitted Prog

/-! ### References -/

theorem NextVersion.foreignKeys {t : Table} {old new : Row t} (h : NextVersion t old new) :
    TenantForge.foreignKeys new = TenantForge.foreignKeys old := by
  cases t with
  | refreshTokens | invitations | apiKeys =>
    obtain ⟨hnew, -⟩ := h
    rw [hnew]
    rfl
  | users | usageEvents | auditLogs => rw [show new = old from h]
  | _ =>
    rw [show new = _ from h]
    rfl

/-- A row of a tenant, other than the organization itself, names the organization. -/
theorem organization_mem_foreignKeys {t : Table} {row : Row t} {organizationId : Uuid} :
    (Table.organizations, organizationId) ∈ foreignKeys row ↔
      t ≠ .organizations ∧ tenantOf row = some organizationId := by
  cases t <;> simp [foreignKeys, tenantOf, eq_comm]

/-- The cascade goes through all tables that have rows of tenants. -/
theorem mem_childTables {t : Table} {row : Row t} {organizationId : Uuid}
    (h : (Table.organizations, organizationId) ∈ foreignKeys row) : t ∈ childTables := by
  obtain ⟨hne, htenant⟩ := organization_mem_foreignKeys.mp h
  cases t with
  | users | refreshTokens | webhookEvents => cases htenant
  | organizations => exact absurd rfl hne
  | _ => decide

theorem not_referenced_childTables : ∀ t ∈ childTables, ¬schema.Referenced t := by
  intro t ht
  refine not_referenced (fun husers => ?_) fun horganizations => ?_
  · subst husers
    revert ht
    decide
  · subst horganizations
    revert ht
    decide

/-! ### Requests that keep the referenced rows -/

/-- The organization that a process may delete. -/
def Party.closes : Party → Option Uuid
  | .session (.tenant organizationId _ .deleteOrganization) => some organizationId
  | _ => none

/-- The organization that the process deletes was there, and is no longer. A tag is `of` the party that
it names. -/
def Vacated {T : Type} (of : T → Party) (c : Commit schema T) : Prop :=
  ∀ organizationId, (of c.tag).closes = some organizationId → c.Removes .organizations organizationId

section Refers

variable {rt : Runtime} {α : Type}

theorem refers_of_revises {p : App α} (hp : p.Revises versions) : p.Refers :=
  Revises.refers (fun t old new (h : NextVersion t old new) => h.foreignKeys) hp

theorem refers_deleteRow {t : Table} {id : Uuid} (ht : t ∈ childTables) :
    (deleteRow (S := schema) t id : App Unit).Refers :=
  ⟨not_referenced_childTables t ht, trivial, trivial⟩

theorem refers_removeMembership {organizationId membershipId actorId : Uuid} :
    (removeMembership rt organizationId membershipId actorId).Refers :=
  (refers_of_revises revises_lockActorMembership).bind fun _ =>
    (refers_of_revises (revises_of_within within_lockMembership)).bind fun _ =>
      (refers_of_revises revises_raiseIf).bind fun _ => (refers_of_revises revises_raiseIf).bind fun _ =>
        (refers_of_revises (revises_runIf (revises_of_within within_ensureAnotherOwner))).bind fun _ =>
          (refers_of_revises revises_writeAudit).bind fun _ => refers_deleteRow (by decide)

theorem refers_deleteProject {organizationId projectId actorId : Uuid} :
    (deleteProject rt organizationId projectId actorId).Refers := by
  have hlock : (lockProject organizationId projectId actorId).Revises versions := revises_of_within
    ((within_query _).bind fun _ => (within_lockMatching _).bind fun _ => (within_first _).bind fun _ =>
      within_orRaise)
  exact (refers_of_revises hlock).bind fun _ => (refers_of_revises revises_writeAudit).bind fun _ =>
    refers_deleteRow (by decide)

theorem refers_getSession {body : App α} (h : body.Refers) : (getSession body).Refers :=
  Refers.handle (Refers.bind h fun _ => ⟨trivial, trivial⟩) fun _ => trivial

theorem refers_handle {request : Request} (hrequest : (Party.session request).closes = none) :
    (request.handle rt).Refers := by
  by_cases hdelete : request.mayDelete = false
  · exact refers_of_revises (revises_handle hdelete)
  · cases request with
    | tenant organizationId credentials call =>
      refine refers_getSession ((refers_of_revises revises_getCurrentUser).bind fun _ =>
        (refers_of_revises (revises_scalar.bind fun _ => revises_orRaise)).bind fun _ =>
          (refers_of_revises revises_raiseIf).bind fun _ => ?_)
      cases call with
      | deleteOrganization => cases hrequest
      | removeMember membershipId => exact refers_removeMembership.bind fun _ => trivial
      | deleteProject projectId => exact refers_deleteProject.bind fun _ => trivial
      | _ => exact absurd rfl hdelete
    | _ => exact absurd rfl hdelete

end Refers

/-! ### Deleting an organization -/

section Deleting

variable {rt : Runtime} {T : Type} {P : Protocol schema Env T} {tag : T} {R : Exn → Assertion schema Env T}
  {σ : Session schema} {s : Shared schema Env T}

theorem wp_addRow_referring {t : Table} {row : Row t} {Q : Unit → Assertion schema Env T} (hR : Harmless P R)
    (h : Referring P tag σ s)
    (hQ : ∀ σ' s', Referring P tag σ' s' → σ.locks ⊆ σ'.locks → Frozen σ.locks s.db s'.db → Q () σ' s') :
    wp P tag Q R (addRow t row) σ s := by
  rw [addRow, Prog.bind_eq, wp_bind]
  refine wp_insertRow hR.escapes (fun s₁ h₁ haccepts _ => ?_) fun s₁ h₁ _ => hR _ _ _ h₁.inv h₁.integral
  have hsound := h₁.sound.insert (t := t) row
  have hanchored := (h.interferes h₁).anchored.insert h₁.sound (t := t) row
  rw [Session.insert, if_pos haccepts] at hsound hanchored
  exact hQ _ s₁ ⟨.refl h₁.inv h₁.integral hsound, hanchored⟩ (σ.locks_write _ _ _ _ _) h₁.frozen

theorem wp_writeAudit_referring {organizationId : Uuid} {actorUserId : Option Uuid}
    {action resourceType resourceId : String} {metadata : List (String × Value)} {ipAddress : Option String}
    {Q : AuditLog → Assertion schema Env T} (hD : P.Tolerates Env.Drawn) (hR : Harmless P R)
    (h : Referring P tag σ s)
    (hQ : ∀ entry σ' s', Referring P tag σ' s' → σ.locks ⊆ σ'.locks → Frozen σ.locks s.db s'.db →
      Q entry σ' s') :
    wp P tag Q R
      (writeAudit organizationId actorUserId action resourceType resourceId metadata ipAddress) σ s := by
  rw [writeAudit]
  simp only [Prog.bind_eq, wp_bind]
  refine wp_uuid4 hD fun id σ₁ s₁ hext h₁ hnow₁ _ => ?_
  have hreferring₁ : Referring P tag σ₁ s₁ :=
    ⟨hnow₁, (h.anchored.frozen h.now.sound h₁.frozen).congr hext.writes hext.locks⟩
  refine wp_databaseNow hD fun createdAt s₂ h₂ hnow₂ => ?_
  have hreferring₂ : Referring P tag σ₁ s₂ := ⟨hnow₂, hreferring₁.anchored.frozen hnow₁.sound h₂.frozen⟩
  exact wp_addRow_referring hR hreferring₂ fun σ₃ s₃ h₃ hl₃ hf₃ => hQ _ σ₃ s₃ h₃
    (fun _ hmem => hl₃ (hext.locks hmem))
    (h₁.frozen.trans ((h₂.frozen.mono hext.locks).trans (hf₃.mono hext.locks)))

variable {Good : Commit schema T → Prop} {organizationId : Uuid}

theorem wp_cascade_cascading {tables : List Table} {cleared : Table → Prop}
    {Q : Unit → Assertion schema Env T} (hR : Harmless (Protocol.references Good) R)
    (htables : ∀ t ∈ tables, ¬schema.Referenced t)
    (h : Cascading (Protocol.references Good) tag (Table.organizations, organizationId) cleared σ s)
    (hQ : ∀ σ' s', Cascading (Protocol.references Good) tag (Table.organizations, organizationId)
      (fun t => t ∈ tables ∨ cleared t) σ' s' → Q () σ' s') :
    wp (Protocol.references Good) tag Q R (cascade organizationId tables) σ s := by
  induction tables generalizing cleared σ s with
  | nil =>
    exact hQ σ s ⟨h.now, h.anchored, fun t ht => h.cleared t (ht.resolve_left List.not_mem_nil), h.absent,
      h.present⟩
  | cons t ts ih =>
    obtain ⟨ht, hts⟩ := List.forall_mem_cons.mp htables
    rw [cascade, Prog.bind_eq, wp_bind]
    refine wp_deleteMatching_cascading hR.escapes ht (fun row hrow => ?_) h fun σ₁ s₁ h₁ =>
      ih hts h₁ fun σ₂ s₂ h₂ =>
        hQ σ₂ s₂ ⟨h₂.now, h₂.anchored, fun u hu => h₂.cleared u ?_, h₂.absent, h₂.present⟩
    · exact decide_eq_true (organization_mem_foreignKeys.mp hrow).2
    · rcases hu with hu | hu
      · rcases List.mem_cons.mp hu with rfl | hu
        · exact Or.inr (Or.inl rfl)
        · exact Or.inl hu
      · exact Or.inr (Or.inr hu)

theorem wp_deleteOrganization_cascading {actorId : Uuid} {Q : Unit → Assertion schema Env T}
    (hR : Harmless (Protocol.references Good) R) (hclean : σ.writes = .empty)
    (hQ : ∀ σ' s', Cascading (Protocol.references Good) tag (Table.organizations, organizationId)
      (fun t => t ∈ childTables ∨ False) σ' s' → Q () σ' s') :
    wp (Protocol.references Good) tag Q R (deleteOrganization rt organizationId actorId) σ s := by
  rw [deleteOrganization, claimOrganization]
  simp only [Prog.bind_eq, wp_bind]
  have hclean' : ∀ t, σ.writes t = [] := fun t => by rw [hclean]; rfl
  refine wp_scalarJoinForUpdate hR.escapes (hclean' .organizations) (hclean' .memberships)
    (fun σ₁ s₁ h₁ _ => hR _ _ _ h₁.inv h₁.integral)
    fun organization owner σ₁ s₁ h₁ hext₁ hcond horg _ => ?_
  simp only [isMemberOrganization, Bool.and_eq_true, decide_eq_true_eq] at hcond
  have hid : organization.id = organizationId := hcond.1.1.2
  have hcopy : (σ.copyOf (t := .organizations) organization).id = organizationId :=
    (rowId_copyOf σ (t := .organizations) organization).trans hid
  have hreferring₁ : Referring (Protocol.references Good) tag (σ₁.attach (t := .organizations) organization) s₁ :=
    ⟨(h₁.extend hext₁).attach _,
      .of_writes_empty (by rw [Session.writes_attach, hext₁.writes, hclean])⟩
  refine wp_writeAudit_referring (references_tolerates _) hR hreferring₁ fun entry σ₂ s₂ h₂ hl₂ hf₂ => ?_
  rw [hcopy]
  have howns : Session.Owns σ₂.locks (Table.organizations, organizationId) := by
    obtain ⟨held, hmem, hkey, hmode, -⟩ := horg.held
    exact ⟨held, hl₂ hmem, hid ▸ hkey, hmode⟩
  have hpresent : (s₂.db.lookup .organizations organizationId).isSome := by
    obtain ⟨held, hmem, hkey, -⟩ := horg.held
    refine hf₂.shared held hmem .organizations organizationId (hid ▸ hkey) ?_
    exact hid ▸ Option.isSome_iff_exists.mpr ⟨organization, horg.current⟩
  exact wp_deleteRow_cascading hR.escapes h₂ howns hpresent fun σ₃ s₃ h₃ =>
    wp_cascade_cascading hR not_referenced_childTables h₃ hQ

end Deleting

/-! ### Whole runs -/

section Runs

variable {rt : Runtime} {T : Type} {of : T → Party} {tag : T} {s : Shared schema Env T}

/-- A request on its own. -/
theorem wp_request_references {request : Request} (htag : of tag = .session request)
    (hnow : Interferes (Protocol.references (Vacated of)) tag .empty s s) :
    wp (Protocol.references (Vacated of)) tag (fun _ _ _ => True) (fun _ _ _ => True)
      (request.handle rt) .empty s := by
  by_cases hrequest : (Party.session request).closes = none
  · have hgood : ∀ σ db, Vacated of ⟨tag, σ, db⟩ := by
      intro σ db organizationId hcloses
      cases hrequest.symm.trans ((congrArg Party.closes htag).symm.trans hcloses)
    exact wp_mono (fun _ _ _ _ => trivial) (fun _ _ _ _ => trivial) _ _ _
      (wp_refers (refers_handle hrequest) hgood ⟨hnow, .of_writes_empty rfl⟩)
  · cases request with
    | tenant organizationId credentials call =>
      cases call with
      | deleteOrganization =>
        refine wp_getSession harmless_true ?_
        refine wp_handle_tenant (references_tolerates _) harmless_true hnow
          fun user membership σ₁ s₁ hentered _ => ?_
        simp only [TenantCall.operation, Prog.bind_eq, wp_bind]
        refine wp_deleteOrganization_cascading harmless_true hentered.writes fun σ₂ s₂ h₂ s₃ h₃ => ⟨?_, trivial⟩
        have h₃' := h₂.interferes h₃
        refine references_allows h₃'.now h₃'.anchored (fun parent hgone t id hnames => ?_) ?_
        · subst hgone
          refine absurd hnames (h₃'.cleared t (Or.inl ?_) id)
          obtain ⟨row, _, hparent⟩ := hnames
          exact mem_childTables hparent
        · intro id hcloses
          cases (congrArg Party.closes htag).symm.trans hcloses
          exact ⟨h₃'.present, h₃'.absent⟩
      | _ => exact absurd rfl hrequest
    | _ => exact absurd rfl hrequest

theorem references_of_reach (of : T → Party) {jobs : List T} {w : World schema Env Exn T (Option Response)}
    (hdb : s.db.Integral) (hclosed : s.db.Closed) (hlog : s.log = [])
    (hreach : (World.start s jobs fun job => (of job).program rt).Reach w) :
    w.shared.db.Closed ∧ ∀ c ∈ w.shared.log, c.after.Closed ∧ Vacated of c := by
  refine World.references_of_reach hdb hclosed hlog (fun job _ => ?_) hreach
  have hinv : (Protocol.references (E := Env) (Vacated of)).inv s := ⟨hclosed, by simp [hlog]⟩
  have hnow : Interferes (Protocol.references (Vacated of)) job .empty s s :=
    .refl hinv hdb (.of_writes_empty hdb rfl)
  cases hparty : of job with
  | session request =>
    rw [Party.program, Prog.map_eq, wp_bind]
    exact wp_mono (fun _ _ _ _ => trivial) (fun _ _ _ _ => trivial) _ _ _ (wp_request_references hparty hnow)
  | worker fuel polls =>
    have hgood : ∀ σ db, Vacated of ⟨job, σ, db⟩ := fun _ _ _ hcloses => by
      cases (congrArg Party.closes hparty).symm.trans hcloses
    exact wp_mono (fun _ _ _ _ => trivial) (fun _ _ _ _ => trivial) _ _ _
      (wp_refers (refers_of_revises (Revises.bind (revises_runForever fuel polls) fun _ => trivial)) hgood
        ⟨hnow, .of_writes_empty rfl⟩)

end Runs

/-! ### The ids of organizations -/

section Mints

variable {rt : Runtime} {α : Type}

/-- A request that writes no organizations. -/
theorem mints_of_within {p : App α} (hp : p.Within (· ≠ Table.organizations) (fun _ _ => True) True) :
    p.Mints Table.organizations [] :=
  hp.mints (· rfl)

theorem mints_writeAudit {organizationId : Uuid} {actorUserId : Option Uuid}
    {action resourceType resourceId : String} {metadata : List (String × Value)} {ipAddress : Option String} :
    (writeAudit organizationId actorUserId action resourceType resourceId metadata ipAddress).Mints
      Table.organizations [] :=
  mints_of_within (within_writeAudit (fun _ _ _ => trivial) (by decide))

theorem mints_exceptIntegrityError {error : Exn} {body : App α} {names : List Uuid}
    (h : body.Mints Table.organizations names) :
    (exceptIntegrityError error body).Mints Table.organizations names := by
  refine h.handle fun exc => ?_
  split <;> trivial

theorem mints_flushUpdate {t : Table} {id : Uuid} {set : Row t → Row t} :
    (flushUpdate t id set).Mints Table.organizations [] := by
  have hupdate : (updateRow (S := schema) t id set : App UpdateResult).Mints Table.organizations [] :=
    ⟨fun _ => trivial, trivial⟩
  exact hupdate.bind fun result => by cases result <;> trivial

/-- The organization is inserted under the id that was drawn for it. -/
theorem mints_createOrganization {actor : User} {data : OrganizationCreate} :
    (createOrganization rt actor data).Mints Table.organizations [] := by
  refine (mints_of_within (within_query _)).bind fun _ => (mints_of_within within_raiseIf).bind fun _ =>
    fun id createdAt => (mints_exceptIntegrityError ?_).bind fun _ =>
      (mints_of_within within_refresh).bind fun _ => mints_writeAudit.bind fun _ => trivial
  have hinsert : (addRow .organizations ⟨id, data.name, rt.lower data.slug, createdAt, createdAt⟩).Mints
      Table.organizations [id] :=
    Mints.bind ⟨fun _ => List.mem_singleton_self id, fun _ => trivial, trivial⟩ fun ok => by cases ok <;> trivial
  refine hinsert.bind fun _ => mints_of_within (within_freshId.bind fun _ =>
    (within_databaseNow fun _ _ _ => trivial).bind fun _ => (within_addRow (by decide)).bind fun _ =>
      (within_createDefaultSubscription (fun _ _ _ => trivial) (by decide)).bind fun _ => by trivial)

theorem mints_updateOrganization {organizationId actorId : Uuid} {data : OrganizationUpdate} :
    (updateOrganization rt organizationId actorId data).Mints Table.organizations [] := by
  have hflush : ∀ loaded changed, (flushOrganization loaded changed).Mints Table.organizations [] := by
    intro loaded changed
    rw [flushOrganization, runIf]
    split
    · exact fun _ => mints_flushUpdate
    · trivial
  exact (mints_of_within within_joinForUpdate).bind fun _ => (mints_of_within within_orRaise).bind fun _ =>
    (mints_exceptIntegrityError (hflush _ _)).bind fun _ => (mints_of_within within_refresh).bind fun _ =>
      mints_writeAudit.bind fun _ => trivial

theorem mints_deleteAll {t : Table} (ids : List Uuid) :
    (deleteAll (S := schema) t ids : App Unit).Mints Table.organizations [] := by
  induction ids with
  | nil => trivial
  | cons id ids ih => exact ⟨ih, trivial⟩

theorem mints_deleteOrganization {organizationId actorId : Uuid} :
    (deleteOrganization rt organizationId actorId).Mints Table.organizations [] := by
  have hcascade : ∀ id tables, (cascade id tables).Mints Table.organizations [] := by
    intro id tables
    induction tables with
    | nil => trivial
    | cons t ts ih =>
      exact ((mints_of_within within_selectForUpdate).bind fun _ => mints_deleteAll _).bind fun _ => ih
  have hclaim : (claimOrganization rt organizationId actorId).Mints Table.organizations [] :=
    (mints_of_within within_joinForUpdate).bind fun _ => (mints_of_within within_orRaise).bind fun _ =>
      mints_writeAudit.bind fun _ => Mints.bind ⟨trivial, trivial⟩ fun _ => trivial
  exact hclaim.bind fun id => hcascade id _

theorem mints_tenant {organizationId : Uuid} {credentials : Option Credentials} {call : TenantCall}
    (h : ∀ user membership, (call.operation rt organizationId user membership).Mints Table.organizations []) :
    (call.handle rt organizationId credentials).Mints Table.organizations [] :=
  (mints_of_within (within_getCurrentUser fun _ _ _ => trivial)).bind fun _ =>
    (mints_of_within (within_scalar.bind fun _ => within_orRaise)).bind fun _ =>
      (mints_of_within within_raiseIf).bind fun _ => h _ _

theorem mints_endpoint {request : Request} : (request.endpoint rt).Mints Table.organizations [] := by
  have hordinary : (∀ t ∈ request.tables, t ≠ Table.organizations) →
      (request.endpoint rt).Mints Table.organizations [] := fun hW =>
    mints_of_within (within_endpoint (fun _ _ _ => trivial) hW trivial)
  cases request with
  | createOrganization credentials data =>
    exact (mints_of_within (within_getCurrentUser fun _ _ _ => trivial)).bind fun _ =>
      mints_createOrganization.bind fun _ => trivial
  | tenant organizationId credentials call =>
    cases call with
    | updateOrganization data => exact mints_tenant fun _ _ => mints_updateOrganization.bind fun _ => trivial
    | deleteOrganization => exact mints_tenant fun _ _ => mints_deleteOrganization.bind fun _ => trivial
    | _ => exact hordinary (by simp [Request.tables, TenantCall.tables])
  | _ => exact hordinary (by simp [Request.tables])

theorem mints_party (party : Party) : (party.program rt).Mints Table.organizations [] := by
  cases party with
  | session request =>
    rw [Party.program, Prog.map_eq]
    refine Mints.bind (Mints.handle (mints_endpoint.bind fun _ => ?_) fun _ => trivial) fun _ => trivial
    exact Mints.bind ⟨trivial, trivial⟩ fun _ => trivial
  | worker fuel polls =>
    rw [Party.program, Prog.map_eq]
    refine Mints.bind (composed_runForever (K := fun _ p => p.Mints Table.organizations [])
      (fun _ _ hhandler payload => ?_) mints_composes fuel polls) fun _ => trivial
    exact mints_of_within (within_buildHandlers (fun _ _ _ => trivial) hhandler payload (by decide) (by decide)
      (by decide) trivial)

end Mints

/-- No row of any table belongs to the organization. -/
def Emptied (db : Db) (organizationId : Uuid) : Prop :=
  ∀ t, ∀ row ∈ db t, tenantOf row ≠ some organizationId

/-- In a closed store without the organization, no row is of this tenant. -/
theorem emptied_of_closed {db : Db} (hclosed : db.Closed) {organizationId : Uuid}
    (habsent : db.lookup .organizations organizationId = none) : Emptied db organizationId := by
  intro t row hrow htenant
  by_cases ht : t = .organizations
  · subst ht
    exact Store.lookup_eq_none.mp habsent row hrow (Option.some.inj htenant)
  · have hsome := hclosed t row hrow _ (organization_mem_foreignKeys.mpr ⟨ht, htenant⟩)
    rw [habsent] at hsome
    cases hsome

/-- **Nothing is left behind**: every row that a foreign key names is there, now and after each commit, and
after the commit of a deletion no row of any table belongs to the organization. If the ids that are drawn are
new at the beginning, it stays so: no row belongs to the organization after any later commit, nor now. -/
theorem closed_of_reach (rt : Runtime) {s : Shared schema Env Party} {parties : List Party}
    {w : World schema Env Exn Party (Option Response)} (hdb : s.db.Integral) (hclosed : s.db.Closed)
    (hlog : s.log = []) (hreach : (startParties rt s parties).Reach w) :
    w.shared.db.Closed ∧
    (∀ c ∈ w.shared.log, c.after.Closed ∧ ∀ organizationId, c.tag.closes = some organizationId →
      Emptied c.after organizationId) ∧
    ((∀ id, s.ids.Holds id → s.db.lookup .organizations id = none) →
      (∀ c ∈ w.shared.log, ∀ organizationId, c.tag.closes = some organizationId →
        Emptied w.shared.db organizationId) ∧
      w.shared.log.Pairwise fun newer older => ∀ organizationId, older.tag.closes = some organizationId →
        Emptied newer.after organizationId) := by
  obtain ⟨hnow, hcommits⟩ := references_of_reach id hdb hclosed hlog hreach
  refine ⟨hnow, fun c hc => ⟨(hcommits c hc).1, fun organizationId hcloses => ?_⟩, fun hids => ?_⟩
  · exact emptied_of_closed (hcommits c hc).1 ((hcommits c hc).2 organizationId hcloses).2
  · have hspent := World.spent_of_reach hdb hids hlog (fun party _ => mints_party party) hreach
    refine ⟨fun c hc organizationId hcloses => ?_, ?_⟩
    · exact emptied_of_closed hnow (hspent.gone c hc organizationId ((hcommits c hc).2 organizationId hcloses))
    · refine hspent.later.imp_of_mem fun hnewer holder hlater organizationId hcloses => ?_
      exact emptied_of_closed (hcommits _ hnewer).1
        (hlater organizationId ((hcommits _ holder).2 organizationId hcloses))

namespace Reference

/-- The owner adds a project and, at the same time, deletes the organization; a worker polls. Later the owner
makes another organization. -/
def leaving : List Party :=
  [.session (.tenant 15 (bearer 1) (.createProject ⟨"Last project", none⟩)),
    .session (.tenant 15 (bearer 1) .deleteOrganization), .worker 1 1,
    .session (.createOrganization (bearer 1) ⟨"Next", "next"⟩)]

def leave : World schema Env Exn Party (Option Response) :=
  (startParties runtime (shared Party daily ownedProject) leaving).playAll
    (List.replicate 10 (Move.run 0) ++ (List.replicate 60 [Move.run 0, .run 1, .run 2]).flatten ++
      List.replicate 60 (Move.run 3))

theorem closed_ownedProject : ownedProject.db.Closed := by
  intro t
  cases t <;> decide +kernel

theorem closed_of_leave :
    leave.shared.db.Closed ∧
    (∀ c ∈ leave.shared.log, c.after.Closed ∧ ∀ organizationId, c.tag.closes = some organizationId →
      Emptied c.after organizationId) ∧
    (∀ c ∈ leave.shared.log, ∀ organizationId, c.tag.closes = some organizationId →
      Emptied leave.shared.db organizationId) ∧
    leave.shared.log.Pairwise fun newer older => ∀ organizationId, older.tag.closes = some organizationId →
      Emptied newer.after organizationId := by
  obtain ⟨hnow, hcommits, hlater⟩ := closed_of_reach (w := leave) runtime (ValidDb.integral (by decide +kernel))
    closed_ownedProject rfl (World.reach_playAll _ _)
  exact ⟨hnow, hcommits, hlater (lookup_of_holds (by decide +kernel) .organizations)⟩

/-- The project is there before the organization is deleted, and goes with it; the new organization has none. -/
example : leave.shared.log.map (fun c =>
      (c.tag.closes, (c.after .organizations).length, (c.after .projects).length)) =
    [(none, 1, 0), (some 15, 0, 0), (none, 1, 2)] := by
  decide +kernel

end Reference

end TenantForge
