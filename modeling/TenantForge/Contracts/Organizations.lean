import TenantForge.Contracts.Audit
import TenantForge.Services.Organizations
/-!
# Contracts of the organization operations

What `create_organization`, `update_organization` and `delete_organization` have written when they
return normally, and what keeps these writes valid until the commit.
-/

namespace TenantForge

open Gregorian ReadCommitted

variable {T : Type} {P : Protocol schema Env T} {tag : T} {R : Exn → Assertion schema Env T}
  {σ : Session schema} {s : Shared schema Env T} {rt : Runtime}

/-! ### The default subscription -/

/-- A subscription as `create_default_subscription` makes it at this time. -/
structure IsDefaultSubscription (organizationId : Uuid) (current : DateTime)
    (subscription : Subscription) : Prop where
  organizationId : subscription.organizationId = organizationId
  plan : subscription.plan = .free
  status : subscription.status = .active
  external : subscription.externalSubscriptionId = none
  period : calendarPeriod current =
    some (subscription.currentPeriodStart, subscription.currentPeriodEnd)

theorem wp_createDefaultSubscription {organizationId : Uuid} {at? : Option DateTime}
    {Q : Subscription → Assertion schema Env T} (hD : P.Tolerates Env.Drawn) (hR : Harmless P R)
    (hnow : Interferes P tag σ s s)
    (h : ∀ subscription current σ' s', IsDefaultSubscription organizationId current subscription →
      (∀ given, at? = some given → current = given) → Later P tag σ.locks s s' →
      Interferes P tag σ' s' s' → Added .subscriptions subscription.id subscription σ σ' s'.db →
      Q subscription σ' s') :
    wp P tag Q R (createDefaultSubscription organizationId at?) σ s := by
  rw [createDefaultSubscription]
  simp only [Prog.bind_eq, wp_bind]
  refine wp_nowOr hD hnow fun current s₁ hgiven _ h₁ hnow₁ => ?_
  refine wp_orRaise (fun _ => hR _ _ _ hnow₁.inv hnow₁.integral) fun period hperiod => ?_
  refine wp_uuid4 hD fun id σ₁ s₂ hext h₂ _ _ => ?_
  refine wp_databaseNow hD fun createdAt s₃ h₃ _ => ?_
  refine wp_addRow hR fun σ' s₄ h₄ _ hadded hnow' => ?_
  have hlater := (h₁.trans h₂).trans ((h₃.trans (.of_interferes h₄)).mono hext.locks)
  exact h _ current σ' s₄ ⟨rfl, rfl, rfl, rfl, hperiod⟩ hgiven hlater hnow' (hadded.of_extends hext)

/-! ### Creating -/

/-- `create_organization` has returned. -/
structure OrganizationCreated (rt : Runtime) (P : Protocol schema Env T) (tag : T) (actor : User)
    (σ₀ σ : Session schema) (s : Shared schema Env T) (organization : Organization)
    (owner : Membership) : Prop where
  organizationId : owner.organizationId = organization.id
  role : owner.role = .owner
  userId : owner.userId = actor.id
  named : Named P tag owner.id σ s
  organizationNamed : Named P tag organization.id σ s
  organizationVacant : σ₀.writes .organizations = [] → σ.Vacant s.db .organizations organization.id
  ownerVacant : σ₀.writes .memberships = [] → σ.Vacant s.db .memberships owner.id
  written : ∃ (subscription : Subscription) (current : DateTime) (entry : AuditLog),
    IsDefaultSubscription organization.id current subscription ∧
    Recorded organization.id (some actor.id) "organization.created" (rt.uuidText organization.id) σ₀ σ
      s.db entry ∧
    (σ₀.writes .subscriptions = [] → σ.Vacant s.db .subscriptions subscription.id) ∧
    σ.writes = (((σ₀.writes.put .organizations organization.id (some organization)).put .memberships
      owner.id (some owner)).put .subscriptions subscription.id (some subscription)).put .auditLogs
        entry.id (some entry)

theorem OrganizationCreated.later {actor : User} {σ₀ : Session schema} {s' : Shared schema Env T}
    {organization : Organization} {owner : Membership}
    (h : OrganizationCreated rt P tag actor σ₀ σ s organization owner) (hs : Later P tag σ.locks s s') :
    OrganizationCreated rt P tag actor σ₀ σ s' organization owner := by
  obtain ⟨subscription, current, entry, hdefault, hrecorded, hsub, hw⟩ := h.written
  exact { h with
    named := h.named.later hs (List.Subset.refl _)
    organizationNamed := h.organizationNamed.later hs (List.Subset.refl _)
    organizationVacant := fun hclean => (h.organizationVacant hclean).frozen hs.frozen
    ownerVacant := fun hclean => (h.ownerVacant hclean).frozen hs.frozen
    written := ⟨subscription, current, entry, hdefault, hrecorded.later hs (List.Subset.refl _),
      fun hclean => (hsub hclean).frozen hs.frozen, hw⟩ }

theorem wp_createOrganization_contents {actor : User} {data : OrganizationCreate}
    {Q : Organization → Assertion schema Env T} (hD : P.Tolerates Env.Drawn) (hR : Harmless P R)
    (h : ∀ organization owner σ' s', Interferes P tag σ' s' s' →
      OrganizationCreated rt P tag actor σ σ' s' organization owner → organization.name = data.name →
      organization.slug = rt.lower data.slug → Q organization σ' s') :
    wp P tag Q R (createOrganization rt actor data) σ s := by
  rw [createOrganization]
  simp only [Prog.bind_eq, wp_bind]
  refine wp_query hR.escapes fun s₁ h₁ => ?_
  refine wp_raiseIf (fun _ => hR _ _ _ h₁.inv h₁.integral) fun _ => ?_
  refine wp_uuid4 hD fun id σ₁ s₂ hext₁ h₂ _ hnamed₂ => ?_
  refine wp_databaseNow hD fun createdAt s₃ h₃ hnow₃ => ?_
  generalize hrow : Organization.mk id data.name _ createdAt createdAt = organization
  obtain rfl : id = organization.id := by rw [← hrow]
  have hnamed₃ : Named P tag organization.id σ₁ s₃ := hnamed₂.later h₃ (List.Subset.refl _)
  -- the three inserts and their flush
  have hflush : ∀ R', Harmless P R' → wp P tag (fun _ σ' s' => ∃ owner subscription current,
      Interferes P tag σ' s' s' ∧ σ₁.locks ⊆ σ'.locks ∧
      owner.organizationId = organization.id ∧ owner.role = .owner ∧ owner.userId = actor.id ∧
      Named P tag owner.id σ' s' ∧ Named P tag organization.id σ' s' ∧
      IsDefaultSubscription organization.id current subscription ∧
      (σ.writes .organizations = [] → σ'.Vacant s'.db .organizations organization.id) ∧
      (σ.writes .memberships = [] → σ'.Vacant s'.db .memberships owner.id) ∧
      (σ.writes .subscriptions = [] → σ'.Vacant s'.db .subscriptions subscription.id) ∧
      σ'.writes = ((σ.writes.put .organizations organization.id (some organization)).put .memberships
        owner.id (some owner)).put .subscriptions subscription.id (some subscription)) R'
      ((addRow .organizations organization).bind fun _ => uuid4.bind fun membershipId =>
        databaseNow.bind fun joinedAt =>
          (addRow .memberships ⟨membershipId, actor.id, organization.id, .owner, joinedAt⟩).bind
            fun _ => (createDefaultSubscription organization.id).bind fun _ => Prog.pure ()) σ₁ s₃ := by
    intro R' hR'
    simp only [wp_bind]
    refine wp_addRow hR' fun σ₂ s₄ h₄ _ horg hnow₄ => ?_
    refine wp_uuid4 hD fun membershipId σ₃ s₅ hext₃ h₅ _ hnamed => ?_
    refine wp_databaseNow hD fun joinedAt s₆ h₆ hnow₆ => ?_
    refine wp_addRow hR' fun σ₄ s₇ h₇ _ howner hnow₇ => ?_
    refine wp_createDefaultSubscription hD hR' hnow₇
      fun subscription current σ₅ s₈ hdefault _ h₈ hnow₈ hsub => ?_
    have hlater : Later P tag σ₃.locks s₅ s₈ :=
      (h₆.trans (.of_interferes h₇)).trans (h₈.mono howner.locks)
    have hl : σ₃.locks ⊆ σ₅.locks := fun _ hmem => hsub.locks (howner.locks hmem)
    have hl₂ : σ₂.locks ⊆ σ₅.locks := fun _ hmem => hl (hext₃.locks hmem)
    have hlater₁ : Later P tag σ₁.locks s₃ s₈ := (Later.of_interferes h₄).trans
      ((h₅.trans (hlater.mono hext₃.locks)).mono horg.locks)
    refine ⟨⟨membershipId, actor.id, organization.id, .owner, joinedAt⟩, subscription, current, hnow₈,
      fun _ hmem => hl₂ (horg.locks hmem), rfl, rfl, rfl, hnamed.later hlater hl,
      hnamed₃.later hlater₁ fun _ hmem => hl₂ (horg.locks hmem), hdefault, fun hclean => ?_,
      fun hclean => ?_, fun hclean => ?_, ?_⟩
    · exact ((horg.vacant (by rw [hext₁.writes, hclean])).frozen
        (h₅.trans (hlater.mono hext₃.locks)).frozen).mono hl₂
    · have hclean₃ : σ₃.writes .memberships = [] := by
        rw [hext₃.writes, horg.writes, Overlay.put_table_ne _ (by decide), hext₁.writes, hclean]
      exact ((howner.vacant hclean₃).frozen h₈.frozen).mono hsub.locks
    · refine hsub.vacant ?_
      rw [howner.writes, Overlay.put_table_ne _ (by decide), hext₃.writes, horg.writes,
        Overlay.put_table_ne _ (by decide), hext₁.writes, hclean]
    · rw [hsub.writes, howner.writes, hext₃.writes, horg.writes, hext₁.writes]; rfl
  refine (wp_exceptIntegrityError hR hflush).then ?_
  rintro _ σ₂ s₄ ⟨owner, subscription, current, hnow₄, hl₂, hof, hrole, huser, hnamed, hnamed₁,
    hdefault, horgv, hownerv, hsubv, hw⟩
  refine wp_refresh hR fun s₅ result h₅ hresult => ?_
  obtain rfl : result = organization := by
    rw [Session.view, h₅.sound.coherent.lookup_apply, hw, Overlay.find_put_table_ne _ (by decide),
      Overlay.find_put_table_ne _ (by decide), Overlay.find_put_self] at hresult
    exact (Option.some.inj hresult).symm
  refine wp_writeAudit hD hR fun entry σ₃ s₆ hentry h₆ hnow₆ haudited => ?_
  have hlater : Later P tag σ₂.locks s₄ s₆ := (Later.of_interferes h₅).trans h₆
  refine h result owner σ₃ s₆ hnow₆ ⟨hof, hrole, huser,
    hnamed.later hlater haudited.locks, hnamed₁.later hlater haudited.locks,
    fun hclean => ((horgv hclean).frozen hlater.frozen).mono haudited.locks,
    fun hclean => ((hownerv hclean).frozen hlater.frozen).mono haudited.locks,
    subscription, current, entry, hdefault, .of_added hentry haudited fun hclean => ?_,
    fun hclean => ?_, ?_⟩ (by rw [← hrow]) (by rw [← hrow])
  · rw [hw, Overlay.put_table_ne _ (by decide), Overlay.put_table_ne _ (by decide),
      Overlay.put_table_ne _ (by decide), hclean]
  · exact ((hsubv hclean).frozen hlater.frozen).mono haudited.locks
  · rw [haudited.writes, hw]

theorem wp_createOrganization {actor : User} {data : OrganizationCreate}
    {Q : Organization → Assertion schema Env T} (hD : P.Tolerates Env.Drawn) (hR : Harmless P R)
    (h : ∀ organization owner σ' s', Interferes P tag σ' s' s' →
      OrganizationCreated rt P tag actor σ σ' s' organization owner → Q organization σ' s') :
    wp P tag Q R (createOrganization rt actor data) σ s :=
  wp_createOrganization_contents hD hR fun organization owner σ' s' hnow hcreated _ _ =>
    h organization owner σ' s' hnow hcreated

/-! ### Updating -/

/-- `update_organization` has returned: the row is written if an attribute has changed. -/
structure OrganizationUpdated (rt : Runtime) (organizationId actorId : Uuid) (σ₀ σ : Session schema)
    (db : Db) : Prop where
  owner : ∃ row : Membership, σ.Locked db (t := .memberships) row ∧
    isMembership organizationId actorId ownerOrAdmin row = true
  written : ∃ entry : AuditLog,
    Recorded organizationId (some actorId) "organization.updated" (rt.uuidText organizationId) σ₀ σ db
      entry ∧
    (σ.writes = σ₀.writes.put .auditLogs entry.id (some entry) ∨
      ∃ row : Organization, row.id = organizationId ∧
        σ.writes = (σ₀.writes.put .organizations organizationId (some row)).put .auditLogs entry.id
          (some entry))

theorem wp_flushOrganization {loaded changed : Organization} {Q : Unit → Assertion schema Env T}
    (hD : P.Tolerates Env.Drawn) (hR : Harmless P R) (hsame : changed = loaded → Q () σ s)
    (h : ∀ old updatedAt σ' s', (loaded.merge changed old updatedAt).id = loaded.id →
      (σ.view s'.db).lookup .organizations loaded.id = some old → Later P tag σ.locks s s' →
      Interferes P tag σ' s' s' → σ.locks ⊆ σ'.locks →
      σ'.writes = σ.writes.put .organizations loaded.id (some (loaded.merge changed old updatedAt)) →
      Q () σ' s') :
    wp P tag Q R (flushOrganization loaded changed) σ s := by
  rw [flushOrganization]
  refine wp_runIf (fun _ => ?_) fun hsame' => hsame (not_not.mp hsame')
  simp only [Prog.bind_eq, wp_bind]
  refine wp_databaseNow hD fun updatedAt s₁ h₁ hnow₁ => ?_
  refine wp_flushUpdate hR fun s₂ σ₂ old h₂ hold _ hσ₂ hnow₂ => ?_
  subst hσ₂
  have hid : (loaded.merge changed old updatedAt).id = loaded.id := Store.lookup_id hold
  exact h old updatedAt _ s₂ hid hold (h₁.trans (.of_interferes h₂)) hnow₂
    (Session.locks_write _ _ _ _ _ _) rfl

/-- The organization after a request to update it. -/
def OrganizationUpdate.apply (rt : Runtime) (data : OrganizationUpdate) (organization : Organization)
    (updatedAt : DateTime) : Organization :=
  { organization with
    name := data.name.getD organization.name
    slug := (data.slug.map rt.lower).getD organization.slug
    updatedAt }

/-- `update_organization` has returned this result, for this locked organization. -/
structure OrganizationPatched (rt : Runtime) (organizationId actorId : Uuid) (data : OrganizationUpdate)
    (σ₀ σ : Session schema) (db : Db) (organization result : Organization) : Prop where
  owner : ∃ row : Membership, σ.Locked db (t := .memberships) row ∧
    isMembership organizationId actorId ownerOrAdmin row = true
  locked : σ.Locked db (t := .organizations) organization
  isOrganization : organization.id = organizationId
  resultId : result.id = organizationId
  contents : σ₀.loaded .organizations = [] → ∃ updatedAt, result = data.apply rt organization updatedAt
  written : ∃ entry : AuditLog,
    Recorded organizationId (some actorId) "organization.updated" (rt.uuidText organizationId) σ₀ σ db
      entry ∧
    (σ.writes = σ₀.writes.put .auditLogs entry.id (some entry) ∧ result = organization ∨
      σ.writes = (σ₀.writes.put .organizations organizationId (some result)).put .auditLogs entry.id
        (some entry))

theorem OrganizationPatched.updated {organizationId actorId : Uuid} {data : OrganizationUpdate}
    {σ₀ : Session schema} {db : Db} {organization result : Organization}
    (h : OrganizationPatched rt organizationId actorId data σ₀ σ db organization result) :
    OrganizationUpdated rt organizationId actorId σ₀ σ db := by
  obtain ⟨entry, hrecorded, hw⟩ := h.written
  exact ⟨h.owner, entry, hrecorded, hw.imp And.left fun hw => ⟨result, h.resultId, hw⟩⟩

theorem OrganizationPatched.later {organizationId actorId : Uuid} {data : OrganizationUpdate}
    {σ₀ : Session schema} {s' : Shared schema Env T} {organization result : Organization}
    (h : OrganizationPatched rt organizationId actorId data σ₀ σ s.db organization result)
    (hs : Interferes P tag σ s s') :
    OrganizationPatched rt organizationId actorId data σ₀ σ s'.db organization result := by
  obtain ⟨owner, howner, hof⟩ := h.owner
  obtain ⟨entry, hrecorded, hw⟩ := h.written
  exact { h with
    owner := ⟨owner, howner.interferes hs, hof⟩
    locked := h.locked.interferes hs
    written := ⟨entry, hrecorded.later (.of_interferes hs) (List.Subset.refl _), hw⟩ }

theorem wp_updateOrganization_patched {organizationId actorId : Uuid} {data : OrganizationUpdate}
    {Q : Organization → Assertion schema Env T} (hD : P.Tolerates Env.Drawn) (hR : Harmless P R)
    (hclean : σ.writes .organizations = []) (hclean' : σ.writes .memberships = [])
    (h : ∀ organization result σ' s', Interferes P tag σ' s' s' →
      OrganizationPatched rt organizationId actorId data σ σ' s'.db organization result →
      Q result σ' s') :
    wp P tag Q R (updateOrganization rt organizationId actorId data) σ s := by
  rw [updateOrganization]
  simp only [Prog.bind_eq, wp_bind]
  refine wp_scalarJoinForUpdate hR.escapes hclean hclean'
    (fun σ₁ s₁ h₁ _ => hR _ _ _ h₁.inv h₁.integral)
    fun organization owner σ₁ s₁ h₁ hext₁ hcond horg howner => ?_
  simp only [isMemberOrganization, Bool.and_eq_true, decide_eq_true_eq] at hcond
  obtain ⟨⟨⟨hof, rfl⟩, huser⟩, hrole⟩ := hcond
  have hmember : isMembership organization.id actorId ownerOrAdmin owner = true := by
    simp [isMembership, hof, huser, hrole]
  have hcopy : (σ.copyOf (t := .organizations) organization).id = organization.id :=
    rowId_copyOf σ (t := .organizations) organization
  have hloaded : σ.loaded .organizations = [] →
      σ.copyOf (t := .organizations) organization = organization := fun hnone => by
    rw [Session.copyOf, hnone]
    rfl
  have horg₁ : (σ₁.attach (t := .organizations) organization).Locked s₁.db (t := .organizations)
      organization := horg.mono (List.Subset.refl _)
  have howner₁ : (σ₁.attach (t := .organizations) organization).Locked s₁.db (t := .memberships) owner :=
    howner.mono (List.Subset.refl _)
  have hw₁ : (σ₁.attach (t := .organizations) organization).writes = σ.writes := hext₁.writes
  have hnow₁ := (h₁.extend hext₁).attach (t := .organizations) organization
  generalize σ₁.attach (t := .organizations) organization = σ₂ at horg₁ howner₁ hw₁ hnow₁ ⊢
  generalize σ.copyOf (t := .organizations) organization = copy at hcopy hloaded ⊢
  -- the flush, inside the handler of the unique constraint
  have hflush : ∀ R', Harmless P R' →
      wp P tag (fun _ σ' s' => Interferes P tag σ' s' s' ∧ σ'.Locked s'.db (t := .memberships) owner ∧
        σ'.Locked s'.db (t := .organizations) organization ∧
        ((copy = organization → ∃ updatedAt, data.apply rt organization updatedAt = organization) ∧
            σ'.writes = σ.writes ∨
          ∃ row : Organization, row.id = organization.id ∧
            (copy = organization → ∃ updatedAt, row = data.apply rt organization updatedAt) ∧
            σ'.writes = σ.writes.put .organizations organization.id (some row))) R'
        (flushOrganization copy { copy with
          name := data.name.getD copy.name
          slug := (data.slug.map rt.lower).getD copy.slug }) σ₂ s₁ := by
    intro R' hR'
    refine wp_flushOrganization hD hR' (fun hsame => ⟨hnow₁, howner₁, horg₁, Or.inl ⟨fun hcopy' => ?_, hw₁⟩⟩)
      fun old updatedAt σ₃ s₂ hrow hold h₂ hnow₂ hl hw => ?_
    · subst hcopy'
      exact ⟨copy.updatedAt, hsame⟩
    · have horg₂ := (horg₁.frozen h₂.frozen).mono hl
      refine ⟨hnow₂, (howner₁.frozen h₂.frozen).mono hl, horg₂,
        Or.inr ⟨_, hrow.trans hcopy, fun hcopy' => ⟨updatedAt, ?_⟩, by rw [hw, hw₁, hcopy]⟩⟩
      rw [Session.lookup_view_of_nil (by rw [hw₁, hclean]), hcopy] at hold
      obtain rfl : old = organization := Option.some.inj (hold.symm.trans horg₂.current)
      subst hcopy'
      simp only [Organization.merge, OrganizationUpdate.apply, assign_self]
  refine (wp_exceptIntegrityError hR hflush).then ?_
  rintro _ σ₃ s₂ ⟨hnow₂, howner₂, horg₂, hw₂⟩
  rw [hcopy]
  refine wp_refresh hR fun s₃ result h₃ hresult => ?_
  refine wp_writeAudit hD hR fun entry σ₄ s₄ hentry h₄ hnow₄ haudited => ?_
  have howner₄ := ((howner₂.interferes h₃).frozen h₄.frozen).mono haudited.locks
  have horg₄ := ((horg₂.interferes h₃).frozen h₄.frozen).mono haudited.locks
  rcases hw₂ with ⟨hcontents, hw₂⟩ | ⟨row, hrow, hcontents, hw₂⟩
  · -- nothing has changed, and the row is read again as it was locked
    rw [Session.lookup_view_of_nil (by rw [hw₂, hclean])] at hresult
    obtain rfl : result = organization :=
      Option.some.inj (hresult.symm.trans (horg₂.interferes h₃).current)
    refine h result result σ₄ s₄ hnow₄ ⟨⟨owner, howner₄, hmember⟩, horg₄, rfl, rfl, fun hnone => ?_, entry,
      .of_added hentry haudited fun hclean => by rw [hw₂, hclean],
      Or.inl ⟨by rw [haudited.writes, hw₂], rfl⟩⟩
    obtain ⟨updatedAt, hsame⟩ := hcontents (hloaded hnone)
    exact ⟨updatedAt, hsame.symm⟩
  · obtain rfl : result = row := by
      rw [Session.view, h₃.sound.coherent.lookup_apply, hw₂, Overlay.find_put_self] at hresult
      exact (Option.some.inj hresult).symm
    refine h organization result σ₄ s₄ hnow₄ ⟨⟨owner, howner₄, hmember⟩, horg₄, rfl, hrow,
      fun hnone => hcontents (hloaded hnone), entry, .of_added hentry haudited fun hclean => ?_,
      Or.inr (by rw [haudited.writes, hw₂])⟩
    rw [hw₂, Overlay.put_table_ne _ (by decide), hclean]

theorem wp_updateOrganization {organizationId actorId : Uuid} {data : OrganizationUpdate}
    {Q : Organization → Assertion schema Env T} (hD : P.Tolerates Env.Drawn) (hR : Harmless P R)
    (hclean : σ.writes .organizations = []) (hclean' : σ.writes .memberships = [])
    (h : ∀ result σ' s', Interferes P tag σ' s' s' →
      OrganizationUpdated rt organizationId actorId σ σ' s'.db → Q result σ' s') :
    wp P tag Q R (updateOrganization rt organizationId actorId data) σ s :=
  wp_updateOrganization_patched hD hR hclean hclean' fun _ result σ' s' hnow hpatched =>
    h result σ' s' hnow hpatched.updated

/-! ### Deleting -/

/-- The cascades from a deleted organization have run: in a table that was clean, the versions are
deletions of rows of this organization, which are locked. -/
structure CascadedAll (organizationId : Uuid) (tables : List Table) (σ₀ σ : Session schema) (db : Db) :
    Prop where
  locks : σ₀.locks ⊆ σ.locks
  loaded : σ.loaded = σ₀.loaded
  others : ∀ t, t ∉ tables → σ.writes t = σ₀.writes t
  deleted : ∀ t ∈ tables, σ₀.writes t = [] → ∀ id version, σ.writes.find t id = some version →
    version = none ∧ ∃ row : Row t, rowId row = id ∧ tenantOf row = some organizationId ∧
      σ.Locked db (t := t) row

theorem wp_cascade {organizationId : Uuid} {tables : List Table} {Q : Unit → Assertion schema Env T}
    (hR : Harmless P R) (htables : tables.Nodup) (hnow : Interferes P tag σ s s)
    (h : ∀ σ' s', Interferes P tag σ s s' → Interferes P tag σ' s' s' →
      CascadedAll organizationId tables σ σ' s'.db → Q () σ' s') :
    wp P tag Q R (cascade organizationId tables) σ s := by
  induction tables generalizing σ s with
  | nil =>
    exact h σ s hnow hnow ⟨List.Subset.refl _, rfl, fun _ _ => rfl,
      fun _ ht => absurd ht List.not_mem_nil⟩
  | cons t ts ih =>
    obtain ⟨ht, hts⟩ := List.nodup_cons.mp htables
    rw [cascade, Prog.bind_eq, wp_bind]
    refine wp_deleteMatching hR.escapes fun σ₁ s₁ h₁ hdeleted hnow₁ => ?_
    refine ih hts hnow₁ fun σ₂ s₂ h₂ hnow₂ hrest => ?_
    refine h σ₂ s₂ (Interferes.weaken hdeleted.locks h₁ h₂) hnow₂
      ⟨fun _ hmem => hrest.locks (hdeleted.locks hmem), hrest.loaded.trans hdeleted.loaded,
        fun u hu => ?_, fun u hu hclean id version hfind => ?_⟩
    · rw [List.mem_cons, not_or] at hu
      rw [hrest.others u hu.2, hdeleted.others u hu.1]
    · rcases List.mem_cons.mp hu with rfl | hu
      · rw [Overlay.find, hrest.others u ht, ← Overlay.find] at hfind
        obtain ⟨hversion, row, hid, hcond, hlocked⟩ := hdeleted.deleted hclean id version hfind
        exact ⟨hversion, row, hid, by simpa using hcond,
          (hlocked.interferes h₂).mono hrest.locks⟩
      · have hne : u ≠ t := fun heq => ht (heq ▸ hu)
        exact hrest.deleted u hu (by rw [hdeleted.others u hne, hclean]) id version hfind

theorem CascadedAll.interferes {organizationId : Uuid} {tables : List Table} {σ₀ : Session schema}
    {s' : Shared schema Env T} (h : CascadedAll organizationId tables σ₀ σ s.db)
    (hs : Interferes P tag σ s s') : CascadedAll organizationId tables σ₀ σ s'.db := by
  refine ⟨h.locks, h.loaded, h.others, fun t ht hclean id version hfind => ?_⟩
  obtain ⟨hversion, row, hid, hof, hlocked⟩ := h.deleted t ht hclean id version hfind
  exact ⟨hversion, row, hid, hof, hlocked.interferes hs⟩

/-- `delete_organization` has returned. -/
structure OrganizationDeleted (organizationId actorId : Uuid) (σ₀ σ : Session schema) (db : Db) :
    Prop where
  owner : ∃ row : Membership, σ.Locked db (t := .memberships) row ∧
    isMembership organizationId actorId ownerOnly row = true
  organization : ∃ row : Organization, σ.Locked db (t := .organizations) row ∧
    row.id = organizationId
  written : ∃ entry : AuditLog, entry.organizationId = organizationId ∧
    entry.action = "organization.deleted" ∧ ∃ σ₁ : Session schema,
      σ₁.writes = (σ₀.writes.put .auditLogs entry.id (some entry)).put .organizations
        organizationId none ∧ CascadedAll organizationId childTables σ₁ σ db

theorem OrganizationDeleted.later {organizationId actorId : Uuid} {σ₀ : Session schema}
    {s' : Shared schema Env T} (h : OrganizationDeleted organizationId actorId σ₀ σ s.db)
    (hs : Interferes P tag σ s s') : OrganizationDeleted organizationId actorId σ₀ σ s'.db := by
  obtain ⟨⟨owner, howner, hof⟩, ⟨organization, horg, hid⟩, entry, hentry, haction, σ₁, hw, hall⟩ := h
  exact ⟨⟨owner, howner.interferes hs, hof⟩, ⟨organization, horg.interferes hs, hid⟩, entry, hentry,
    haction, σ₁, hw, hall.interferes hs⟩

theorem wp_deleteOrganization {organizationId actorId : Uuid} {Q : Unit → Assertion schema Env T}
    (hD : P.Tolerates Env.Drawn) (hR : Harmless P R) (hclean : σ.writes .organizations = [])
    (hclean' : σ.writes .memberships = [])
    (h : ∀ σ' s', Interferes P tag σ' s' s' →
      OrganizationDeleted organizationId actorId σ σ' s'.db → Q () σ' s') :
    wp P tag Q R (deleteOrganization rt organizationId actorId) σ s := by
  rw [deleteOrganization, claimOrganization]
  simp only [Prog.bind_eq, wp_bind]
  refine wp_scalarJoinForUpdate hR.escapes hclean hclean'
    (fun σ₁ s₁ h₁ _ => hR _ _ _ h₁.inv h₁.integral)
    fun organization owner σ₁ s₁ h₁ hext₁ hcond horg howner => ?_
  simp only [isMemberOrganization, Bool.and_eq_true, decide_eq_true_eq] at hcond
  obtain ⟨⟨⟨hof, hid⟩, huser⟩, hrole⟩ := hcond
  have hcopy : (σ.copyOf (t := .organizations) organization).id = organizationId :=
    (rowId_copyOf σ (t := .organizations) organization).trans hid
  refine wp_writeAudit hD hR fun entry σ₂ s₂ hentry h₂ hnow₂ haudited => ?_
  rw [hcopy]
  have hw₂ : σ₂.writes = σ.writes.put .auditLogs entry.id (some entry) := by
    rw [haudited.writes, Session.writes_attach, hext₁.writes]
  have hclean₂ : σ₂.writes .organizations = [] := by
    rw [hw₂, Overlay.put_table_ne _ (by decide), hclean]
  have horg₂ := (horg.frozen h₂.frozen).mono haudited.locks
  have howner₂ := (howner.frozen h₂.frozen).mono haudited.locks
  refine wp_deleteRow hR.escapes (fun s₃ h₃ hnone => ?_) fun s₃ old h₃ hold => ?_
  · rw [Session.lookup_view_of_nil hclean₂, ← hid] at hnone
    cases (horg₂.interferes h₃).current.symm.trans hnone
  · have hsound := h₃.sound.delete (S := schema) .organizations organizationId
    rw [Session.delete, hold] at hsound
    have hl := σ₂.locks_write (Session.deleteNeeds (S := schema) old) s₃.db .organizations
      organizationId none
    refine wp_cascade hR (by decide) (.refl h₃.inv h₃.integral hsound) fun σ₄ s₄ h₄ hnow₄ hcascaded => ?_
    refine h σ₄ s₄ hnow₄ ⟨⟨owner, ?_, ?_⟩, ⟨organization, ?_, hid⟩, entry, ?_, ?_, _, ?_, hcascaded⟩
    · exact (((howner₂.interferes h₃).mono hl).interferes h₄).mono hcascaded.locks
    · simp [isMembership, hof, hid, huser, hrole]
    · exact (((horg₂.interferes h₃).mono hl).interferes h₄).mono hcascaded.locks
    · rw [hentry]
    · rw [hentry]
    · rw [Session.writes_write, hw₂]

end TenantForge
