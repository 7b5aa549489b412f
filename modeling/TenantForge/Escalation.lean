import TenantForge.Contracts.Frames
import TenantForge.Contracts.History
import TenantForge.Exchanges
import TenantForge.InvitationRequests
import TenantForge.Reference.Runtime
/-!
# No escalation without an owner

While the owners of an organization send no requests to it, and its pending invitations are for members
only, requests that execute one after another change neither its owners nor its administrators, and
nobody is invited for more than membership (`unescalated_of_exchanges`).
-/

namespace TenantForge

open Gregorian ReadCommitted

/-- A membership of an owner or an administrator of the organization. -/
def Privileged (organizationId : Uuid) (m : Membership) : Prop :=
  m.organizationId = organizationId ∧ m.role ≠ .member

/-- The owners and administrators are as before, and nobody was invited for more than membership. -/
structure Unescalated (organizationId : Uuid) (db db' : Db) : Prop where
  members : ∀ m : Membership, Privileged organizationId m → (m ∈ db' .memberships ↔ m ∈ db .memberships)
  invitations : ∀ i : Invitation, i ∈ db' .invitations → i.organizationId = organizationId →
    i.role ≠ .member → i ∈ db .invitations

theorem Unescalated.refl (organizationId : Uuid) (db : Db) : Unescalated organizationId db db :=
  ⟨fun _ _ => Iff.rfl, fun _ hi _ _ => hi⟩

theorem Unescalated.trans {organizationId : Uuid} {db₁ db₂ db₃ : Db}
    (h₁ : Unescalated organizationId db₁ db₂) (h₂ : Unescalated organizationId db₂ db₃) :
    Unescalated organizationId db₁ db₃ :=
  ⟨fun m hm => (h₂.members m hm).trans (h₁.members m hm),
    fun i hi hof hrole => h₁.invitations i (h₂.invitations i hi hof hrole) hof hrole⟩

/-- Whoever accepts a pending invitation of the organization becomes a member. -/
def InvitesMembers (organizationId : Uuid) (db : Db) : Prop :=
  ∀ i : Invitation, i ∈ db .invitations → i.organizationId = organizationId → i.acceptedAt = none →
    i.role = .member

theorem InvitesMembers.later {organizationId : Uuid} {db db' : Db} (h : InvitesMembers organizationId db)
    (hlater : Unescalated organizationId db db') : InvitesMembers organizationId db' := by
  intro i hi hof hpending
  by_contra hrole
  exact hrole (h i (hlater.invitations i hi hof hrole) hof hpending)

/-- A request on the organization that carries the token of one of its owners. -/
def MadeByOwner (rt : Runtime) (organizationId : Uuid) (request : Request) (db : Db) : Prop :=
  ∃ credentials call userId, request = .tenant organizationId credentials call ∧
    Authenticated rt credentials userId ∧
    ∃ m : Membership, m ∈ db .memberships ∧ isMembership organizationId userId ownerOnly m = true

/-! ### Commits -/

section Commits

variable {T : Type} {P : Protocol schema Env T} {tag : T} {rt : Runtime} {σ σ₀ : Session schema} {db : Db}
  {organizationId : Uuid} {s : Shared schema Env T}

/-- A commit that writes one membership, which is privileged neither before nor after. -/
theorem Unescalated.of_single {id : Uuid} {version : Option Membership}
    (hw : σ.writes .memberships = [(id, version)])
    (hold : ∀ m : Membership, m ∈ db .memberships → m.id = id → ¬Privileged organizationId m)
    (hnew : ∀ m, version = some m → ¬Privileged organizationId m)
    (hi : ∀ i : Invitation, i ∈ σ.view db .invitations → i.organizationId = organizationId →
      i.role ≠ .member → i ∈ db .invitations) : Unescalated organizationId db (σ.view db) := by
  refine ⟨fun m hm => (Session.mem_view_single hw db m).trans ⟨?_, fun hmem => ?_⟩, hi⟩
  · rintro (⟨hmem, _⟩ | hversion)
    · exact hmem
    · exact absurd hm (hnew m hversion)
  · exact Or.inl ⟨hmem, fun hid => hold m hmem hid hm⟩

/-- A commit without memberships. -/
theorem Unescalated.of_clean (hw : σ.writes .memberships = [])
    (hi : ∀ i : Invitation, i ∈ σ.view db .invitations → i.organizationId = organizationId →
      i.role ≠ .member → i ∈ db .invitations) : Unescalated organizationId db (σ.view db) :=
  ⟨fun m _ => by rw [Session.view_of_nil hw], hi⟩

theorem invitations_of_clean (hw : σ.writes .invitations = []) (i : Invitation)
    (hi : i ∈ σ.view db .invitations) : i ∈ db .invitations := by
  rwa [Session.view_of_nil hw] at hi

/-- The owner of a new organization. -/
theorem OrganizationCreated.unescalated {actor : User} {organization : Organization} {owner : Membership}
    (hempty : σ₀.writes = .empty) (hne : organization.id ≠ organizationId)
    (h : OrganizationCreated rt P tag actor σ₀ σ s organization owner) :
    Unescalated organizationId s.db (σ.view s.db) := by
  have hvacant := (h.ownerVacant (by rw [hempty]; rfl)).current
  refine .of_single (h.joins hempty) (fun m hm hid _ => Store.lookup_eq_none.mp hvacant m hm hid)
    (fun m hm hprivileged => hne ?_) fun i hi _ _ => invitations_of_clean ?_ i hi
  · cases hm
    rw [← hprivileged.1, h.organizationId]
  · obtain ⟨subscription, current, entry, _, _, _, hw⟩ := h.written
    rw [hw, hempty]
    simp

/-- Who accepts an invitation of the organization becomes a member. -/
theorem InvitationAccepted.unescalated {token : String} {user : User} {row : Invitation}
    {accepted : DateTime} {membership : Membership} (hempty : σ₀.writes = .empty)
    (hloaded : σ₀.loaded .invitations = []) (hinvites : InvitesMembers organizationId s.db)
    (h : InvitationAccepted rt P tag token user σ₀ σ s row accepted membership) :
    Unescalated organizationId s.db (σ.view s.db) := by
  have hcopy := InvitationAccepted.copy row hloaded
  have hvacant := (h.vacant (by rw [hempty]; rfl)).current
  have hmember : row.organizationId = organizationId → row.role = .member := fun hof =>
    hinvites row h.locked.mem hof (hcopy ▸ h.pending)
  refine .of_single (h.joins hempty) (fun m hm hid _ => Store.lookup_eq_none.mp hvacant m hm hid)
    (fun m hm hprivileged => hprivileged.2 ?_) fun i hi hof hrole => ?_
  · cases hm
    rw [h.role, hcopy]
    exact hmember (by rw [← hprivileged.1, h.organizationId, hcopy])
  · rcases (Session.mem_view_single (h.writes_invitations hempty) s.db i).mp hi with ⟨hi, _⟩ | hnew
    · exact hi
    · obtain rfl := Option.some.inj hnew
      exact absurd (hmember hof) hrole

/-- A member is made a member, or another organization's member gets a role. -/
theorem RoleChanged.unescalated {of membershipId actorId : Uuid} {newRole : Role}
    {actorRow targetRow : Membership} (hdb : db.Integral) (hempty : σ₀.writes = .empty)
    (hpermitted : of = organizationId → targetRow.role = .member ∧ newRole = .member)
    (h : RoleChanged rt P tag of membershipId actorId newRole σ₀ σ db actorRow targetRow) :
    Unescalated organizationId db (σ.view db) := by
  have htarget : targetRow.organizationId = of := by
    have := h.locked.targetOf
    simp only [isMembershipId, Bool.and_eq_true, decide_eq_true_eq] at this
    exact this.2
  have hi : ∀ i : Invitation, i ∈ σ.view db .invitations → i.organizationId = organizationId →
      i.role ≠ .member → i ∈ db .invitations :=
    fun i hi _ _ => invitations_of_clean (h.others hempty (by decide) (by decide)) i hi
  rcases h.writes_memberships hempty with ⟨_, hw⟩ | hw
  · exact .of_clean hw hi
  · refine .of_single hw (fun m hm hid hprivileged => ?_) (fun m hm hprivileged => ?_) hi
    · obtain rfl := hdb.eq_of_id (t := .memberships) hm h.locked.targetLocked.mem hid
      exact hprivileged.2 (hpermitted (htarget.symm.trans hprivileged.1)).1
    · cases hm
      exact hprivileged.2 (hpermitted (htarget.symm.trans hprivileged.1)).2

theorem MemberRemoved.unescalated {of membershipId actorId : Uuid} {actorRow targetRow : Membership}
    (hdb : db.Integral) (hempty : σ₀.writes = .empty)
    (hpermitted : of = organizationId → targetRow.role = .member)
    (h : MemberRemoved rt P tag of membershipId actorId σ₀ σ db actorRow targetRow) :
    Unescalated organizationId db (σ.view db) := by
  have htarget : targetRow.organizationId = of := by
    have := h.locked.targetOf
    simp only [isMembershipId, Bool.and_eq_true, decide_eq_true_eq] at this
    exact this.2
  refine .of_single (h.writes_memberships hempty) (fun m hm hid hprivileged => ?_) (fun m hm => ?_)
    fun i hi _ _ => invitations_of_clean (h.others hempty (by decide) (by decide)) i hi
  · obtain rfl := hdb.eq_of_id (t := .memberships) hm h.locked.targetLocked.mem hid
    exact hprivileged.2 (hpermitted (htarget.symm.trans hprivileged.1))
  · cases hm

theorem InvitationIssued.unescalated {of actorId : Uuid} {data : InvitationCreate}
    {actorRow : Membership} {invitation : Invitation} (hempty : σ₀.writes = .empty)
    (hpermitted : of = organizationId → data.role = .member)
    (h : InvitationIssued rt P tag of actorId data σ₀ σ s actorRow invitation) :
    Unescalated organizationId s.db (σ.view s.db) := by
  refine .of_clean (h.others hempty (by decide) (by decide)) fun i hi hof hrole => ?_
  rcases (Session.mem_view_single (h.writes_invitations hempty) s.db i).mp hi with ⟨hi, _⟩ | hnew
  · exact hi
  · obtain rfl := Option.some.inj hnew
    rw [h.role] at hrole
    exact absurd (hpermitted (h.organization.symm.trans hof)) hrole

/-- The rows of another organization stay when an organization is deleted. -/
theorem OrganizationDeleted.unescalated {of actorId : Uuid} (hdb : db.Integral) (hσ : σ.Sound db)
    (hempty : σ₀.writes = .empty) (hne : of ≠ organizationId)
    (h : OrganizationDeleted of actorId σ₀ σ db) : Unescalated organizationId db (σ.view db) := by
  refine ⟨fun m hm => hσ.mem_view.trans ⟨?_, fun hmem => ?_⟩, fun i hi _ _ => ?_⟩
  · rintro (⟨hmem, _⟩ | hfind)
    · exact hmem
    · cases (h.gone hempty (by decide) (by decide) hfind).1
  · cases hfind : σ.writes.find .memberships m.id with
    | none => exact Or.inl ⟨hmem, hfind⟩
    | some version =>
      obtain ⟨_, row, hid, hof, hrow⟩ := h.gone hempty (by decide) (by decide) hfind
      obtain rfl := hdb.eq_of_id (t := .memberships) hrow hmem hid
      exact absurd (Option.some.inj hof |>.symm.trans hm.1) hne
  · rcases hσ.mem_view.mp hi with ⟨hi, _⟩ | hfind
    · exact hi
    · cases (h.gone hempty (by decide) (by decide) hfind).1

end Commits

/-! ### One request -/

section Requests

variable {rt : Runtime} {organizationId of : Uuid} {s₀ s s₁ : Shared schema Env Request}
  {request : Request} {σ σ₀ : Session schema}

/-- The protocol of a request that is alone: it escalates nothing. -/
def escalationProtocol (organizationId : Uuid) (s₀ : Shared schema Env Request) :
    Protocol schema Env Request :=
  .alone Request fun s => Unescalated organizationId s₀.db s.db ∧ s₀.ids.Leads s.ids

theorem escalationProtocol_tolerates :
    (escalationProtocol organizationId s₀).Tolerates Env.Onward where
  env _ _ _ _ hinv _ := ⟨hinv, trivial⟩
  draw _ _ s hinv := ⟨⟨hinv.1, hinv.2.trans (Supply.leads_tail s.ids)⟩, trivial⟩

theorem escalationProtocol_tolerates_drawn :
    (escalationProtocol organizationId s₀).Tolerates Env.Drawn where
  env tag σ s env' hinv hd := escalationProtocol_tolerates.env tag σ s env' hinv hd.onward
  draw := escalationProtocol_tolerates.draw

theorem escalationProtocol_allows
    (hs : Interferes (escalationProtocol organizationId s₀) request σ s₁ s)
    (h : Unescalated organizationId s.db (σ.view s.db)) :
    (escalationProtocol organizationId s₀).Allows request σ s (s.commit request σ) :=
  ⟨⟨hs.inv.1.trans h, hs.inv.2⟩, trivial⟩

theorem unescalated_of_spares {db : Db} (hσ : σ.Spares OutsideMembers) :
    Unescalated organizationId db (σ.view db) :=
  .of_clean (hσ _ fun h => h.1 rfl) fun i hi _ _ => invitations_of_clean (hσ _ fun h => h.2 rfl) i hi

/-- An id that a session draws is not one that was drawn before. -/
theorem Named.ne_of_not_holds {id : Uuid} (hid : ¬s₀.ids.Holds organizationId)
    (h : Named (escalationProtocol organizationId s₀) request id σ s) : id ≠ organizationId := by
  rintro rfl
  obtain ⟨s₁, _, hinv, rfl, _⟩ := h
  exact hid (hinv.2.holds s₁.ids.holds_head)

section Tenant

variable {credentials : Option Credentials} {call : TenantCall} {user : User}
  {membership row : Membership}

theorem isMembership_anyRole {userId : Uuid} {allowed : Role → Bool}
    (h : isMembership organizationId userId allowed row = true) :
    isMembership organizationId userId anyRole row = true := by
  simp only [isMembership, anyRole, Bool.and_eq_true] at h ⊢
  exact ⟨h.1, trivial⟩

theorem owner_of_isMembership {userId : Uuid}
    (h : isMembership organizationId userId ownerOnly row = true) : row.role = .owner := by
  simp only [isMembership, ownerOnly, Bool.and_eq_true, decide_eq_true_eq] at h
  exact h.2

/-- Whoever passed the dependencies is no owner. -/
theorem Entered.not_owner {allowed : Role → Bool}
    (hnot : ¬MadeByOwner rt organizationId (.tenant organizationId credentials call) s₀.db)
    (hentered : Entered rt (escalationProtocol organizationId s₀) request organizationId credentials
      allowed user membership σ₀ s₁)
    (hinv : Unescalated organizationId s₀.db s.db) (hmem : row ∈ s.db .memberships)
    (hof : isMembership organizationId user.id anyRole row = true) : row.role ≠ .owner := by
  intro hrole
  simp only [isMembership, anyRole, Bool.and_true, Bool.and_eq_true, decide_eq_true_eq] at hof
  have hprivileged : Privileged organizationId row := ⟨hof.1, by rw [hrole]; decide⟩
  refine hnot ⟨credentials, call, user.id, rfl, hentered.authenticated, row,
    (hinv.members row hprivileged).mp hmem, ?_⟩
  simp [isMembership, ownerOnly, hof, hrole]

/-- The membership of an administrator does not change, so the loaded copies are the locked rows. -/
theorem Entered.copyOf_eq
    (hentered : Entered rt (escalationProtocol organizationId s₀) request organizationId credentials
      ownerOrAdmin user membership σ₀ s₁)
    (hinv : Unescalated organizationId s₀.db s.db) (hdb : s.db.Integral)
    (hmem : row ∈ s.db .memberships) : σ₀.copyOf (t := .memberships) row = row := by
  obtain ⟨s₂, hinv₂, hmem₂, _⟩ := hentered.seen
  have hmember := hentered.member
  simp only [isMembership, anyRole, Bool.and_true, Bool.and_eq_true, decide_eq_true_eq] at hmember
  have hprivileged : Privileged organizationId membership := by
    refine ⟨hmember.1, fun hrole => ?_⟩
    have hallowed := hentered.allowed
    rw [hrole] at hallowed
    cases hallowed
  have hstays : membership ∈ s.db .memberships :=
    (hinv.members membership hprivileged).mpr ((hinv₂.1.members membership hprivileged).mp hmem₂)
  rw [Session.copyOf, hentered.loaded]
  by_cases hid : membership.id = row.id
  · obtain rfl := hdb.eq_of_id (t := .memberships) hstays hmem hid
    simp
  · simp [rowId, hid]

theorem Entered.targetCopy_eq {actorRow targetRow : Membership}
    (hentered : Entered rt (escalationProtocol organizationId s₀) request organizationId credentials
      ownerOrAdmin user membership σ₀ s₁)
    (hinv : Unescalated organizationId s₀.db s.db) (hdb : s.db.Integral)
    (hactor : actorRow ∈ s.db .memberships) (htarget : targetRow ∈ s.db .memberships) :
    targetCopy σ₀ actorRow targetRow = targetRow := by
  rw [targetCopy, Session.copyOf_attach, hentered.copyOf_eq hinv hdb hactor,
    hentered.copyOf_eq hinv hdb htarget]
  split
  · exact hdb.eq_of_id (t := .memberships) hactor htarget ‹_›
  · rfl

theorem wp_updateMember_unescalated {membershipId : Uuid} {role : Role}
    {Q : Membership → Assertion schema Env Request}
    (hnot : ¬MadeByOwner rt organizationId
      (.tenant of credentials (.updateMember membershipId role)) s₀.db)
    (hentered : Entered rt (escalationProtocol organizationId s₀) request of credentials ownerOrAdmin
      user membership σ s)
    (h : ∀ result σ' s', (∀ s'', Interferes (escalationProtocol organizationId s₀) request σ' s' s'' →
      (escalationProtocol organizationId s₀).Allows request σ' s'' (s''.commit request σ')) →
      Q result σ' s') :
    wp (escalationProtocol organizationId s₀) request Q (fun _ _ _ => True)
      (updateMembership rt of membershipId user.id role) σ s := by
  refine wp_updateMembership escalationProtocol_tolerates_drawn harmless_true
    (by rw [hentered.writes]; rfl) fun actorRow targetRow σ' s' _ hchanged => h _ _ _ fun s'' hs => ?_
  have hlater := hchanged.later hs
  refine escalationProtocol_allows hs
    (hlater.unescalated hs.integral hentered.writes fun hof => ?_)
  subst hof
  have hactor := hlater.locked.actorLocked.mem
  have htarget := hlater.locked.targetLocked.mem
  have hpermitted := hlater.permitted
  rw [actorCopy, hentered.copyOf_eq hs.inv.1 hs.integral hactor,
    hentered.targetCopy_eq hs.inv.1 hs.integral hactor htarget] at hpermitted
  exact (hpermitted.resolve_left
    (hentered.not_owner hnot hs.inv.1 hactor hlater.locked.actorOf)).2

theorem wp_removeMember_unescalated {membershipId : Uuid} {Q : Unit → Assertion schema Env Request}
    (hnot : ¬MadeByOwner rt organizationId (.tenant of credentials (.removeMember membershipId)) s₀.db)
    (hentered : Entered rt (escalationProtocol organizationId s₀) request of credentials ownerOrAdmin
      user membership σ s)
    (h : ∀ result σ' s', (∀ s'', Interferes (escalationProtocol organizationId s₀) request σ' s' s'' →
      (escalationProtocol organizationId s₀).Allows request σ' s'' (s''.commit request σ')) →
      Q result σ' s') :
    wp (escalationProtocol organizationId s₀) request Q (fun _ _ _ => True)
      (removeMembership rt of membershipId user.id) σ s := by
  refine wp_removeMembership escalationProtocol_tolerates_drawn harmless_true
    (by rw [hentered.writes]; rfl) fun actorRow targetRow σ' s' _ hremoved => h _ _ _ fun s'' hs => ?_
  have hlater := hremoved.later hs
  refine escalationProtocol_allows hs
    (hlater.unescalated hs.integral hentered.writes fun hof => ?_)
  subst hof
  have hactor := hlater.locked.actorLocked.mem
  have htarget := hlater.locked.targetLocked.mem
  have hpermitted := hlater.permitted
  rw [actorCopy, hentered.copyOf_eq hs.inv.1 hs.integral hactor,
    hentered.targetCopy_eq hs.inv.1 hs.integral hactor htarget] at hpermitted
  exact (hpermitted.resolve_left
    (hentered.not_owner hnot hs.inv.1 hactor hlater.locked.actorOf)).2

theorem wp_createInvitation_unescalated {data : InvitationCreate}
    (hnot : ¬MadeByOwner rt organizationId (.tenant of credentials (.createInvitation data)) s₀.db)
    (hentered : Entered rt (escalationProtocol organizationId s₀) request of credentials ownerOrAdmin
      user membership σ s) :
    wp (escalationProtocol organizationId s₀) request (fun _ σ' s' =>
        ∀ s'', Interferes (escalationProtocol organizationId s₀) request σ' s' s'' →
          (escalationProtocol organizationId s₀).Allows request σ' s'' (s''.commit request σ') ∧ True)
      (fun _ _ _ => True) (createInvitationRoute rt of user data) σ s := by
  simp only [createInvitationRoute, Prog.bind_eq, wp_bind]
  refine wp_createInvitation escalationProtocol_tolerates_drawn harmless_true
    (by rw [hentered.writes]; rfl) (by rw [hentered.writes]; rfl)
    fun actorRow invitation result σ₁ s₁ _ hissued s₂ h₂ => ?_
  have hlater := hissued.later h₂
  have hallowed := escalationProtocol_allows h₂
    (hlater.unescalated hentered.writes fun hof => by
      subst hof
      have hactor := hlater.actorLocked.mem
      have hpermitted := hlater.permitted
      rw [hentered.copyOf_eq h₂.inv.1 h₂.integral hactor] at hpermitted
      refine (hpermitted.resolve_left (hentered.not_owner hnot h₂.inv.1 hactor ?_)).2
      exact isMembership_anyRole hlater.actorOf)
  refine ⟨hallowed, ?_, trivial⟩
  have hdb := h₂.sound.integral h₂.integral
  rw [wp]
  refine wp_mono ?_ (fun _ _ _ _ => trivial) _ _ _ (wp_within (W := OutsideMembers) (C := False)
    (within_mail fun _ _ h => h) escalationProtocol_tolerates (fun h => h.elim) (fun _ _ => rfl)
    (.refl hallowed.1 hdb (.of_writes_empty hdb rfl)))
  exact fun _ σ₃ s₃ hσ₃ s₄ h₄ =>
    ⟨escalationProtocol_allows h₄ (unescalated_of_spares hσ₃.1), trivial⟩

end Tenant

/-- **The step**: a request that no owner made changes no privileged membership. -/
theorem wp_unescalated (hid : ¬s₀.ids.Holds organizationId)
    (hinvites : InvitesMembers organizationId s₀.db) (hnot : ¬MadeByOwner rt organizationId request s₀.db)
    (hnow : Interferes (escalationProtocol organizationId s₀) request .empty s s) :
    wp (escalationProtocol organizationId s₀) request (fun _ _ _ => True) (fun _ _ _ => True)
      (request.handle rt) .empty s := by
  have hD : (escalationProtocol organizationId s₀).Tolerates Env.Drawn :=
    escalationProtocol_tolerates_drawn
  rw [Request.handle]
  refine wp_getSession harmless_true ?_
  have hordinary : (∀ t ∈ request.tables, OutsideMembers t) →
      wp (escalationProtocol organizationId s₀) request (fun _ σ' s' =>
          ∀ s'', Interferes (escalationProtocol organizationId s₀) request σ' s' s'' →
            (escalationProtocol organizationId s₀).Allows request σ' s'' (s''.commit request σ') ∧ True)
        (fun _ _ _ => True) (request.endpoint rt) .empty s := fun h => by
    refine wp_mono (fun _ σ' s' hσ' s'' hs => ?_) (fun _ _ _ _ => trivial) _ _ _
      (wp_within (W := OutsideMembers) (C := True) (within_endpoint (fun _ _ h => h) h trivial)
        escalationProtocol_tolerates
        (fun _ _ _ hs hσ => escalationProtocol_allows hs (unescalated_of_spares hσ)) (fun _ _ => rfl)
        hnow)
    exact ⟨escalationProtocol_allows hs (unescalated_of_spares hσ'.1), trivial⟩
  cases request with
  | createOrganization credentials data =>
    simp only [Request.endpoint, Prog.bind_eq, Prog.map_eq, wp_bind]
    refine wp_getCurrentUser hD harmless_true hnow fun user σ₁ s₁ huser _ _ => ?_
    refine wp_createOrganization hD harmless_true
      fun organization owner σ₂ s₂ _ hcreated s₃ hs => ?_
    have hlater := hcreated.later (.of_interferes hs)
    exact ⟨escalationProtocol_allows hs
      (hlater.unescalated huser.writes (hlater.organizationNamed.ne_of_not_holds hid)), trivial⟩
  | acceptInvitation credentials token =>
    simp only [Request.endpoint, Prog.bind_eq, Prog.map_eq, wp_bind]
    refine wp_getCurrentUser hD harmless_true hnow fun user σ₁ s₁ huser _ _ => ?_
    refine wp_acceptInvitation hD harmless_true (by rw [huser.writes]; rfl)
      fun row accepted joined σ₂ s₂ _ haccepted s₃ hs => ?_
    have hlater := haccepted.later (.of_interferes hs) (List.Subset.refl _) rfl
    exact ⟨escalationProtocol_allows hs (hlater.unescalated huser.writes
      (huser.loaded _ (by decide)) (hinvites.later hs.inv.1)), trivial⟩
  | tenant of credentials call =>
    cases call with
    | updateMember membershipId role =>
      refine wp_handle_tenant hD harmless_true hnow fun user membership σ₁ s₁ hentered _ => ?_
      simp only [TenantCall.operation, Prog.map_eq, wp_bind]
      exact wp_updateMember_unescalated hnot hentered fun _ _ _ h s'' hs => ⟨h s'' hs, trivial⟩
    | removeMember membershipId =>
      refine wp_handle_tenant hD harmless_true hnow fun user membership σ₁ s₁ hentered _ => ?_
      simp only [TenantCall.operation, Prog.bind_eq, wp_bind]
      exact wp_removeMember_unescalated hnot hentered fun _ _ _ h s'' hs => ⟨h s'' hs, trivial⟩
    | createInvitation data =>
      refine wp_handle_tenant hD harmless_true hnow fun user membership σ₁ s₁ hentered _ => ?_
      exact wp_createInvitation_unescalated hnot hentered
    | deleteOrganization =>
      refine wp_handle_tenant hD harmless_true hnow fun user membership σ₁ s₁ hentered _ => ?_
      simp only [TenantCall.operation, Prog.bind_eq, wp_bind]
      refine wp_deleteOrganization hD harmless_true (by rw [hentered.writes]; rfl)
        (by rw [hentered.writes]; rfl) fun σ₂ s₂ _ hdeleted s₃ hs => ?_
      have hlater := hdeleted.later hs
      refine ⟨escalationProtocol_allows hs
        (hlater.unescalated hs.integral hs.sound hentered.writes ?_), trivial⟩
      rintro rfl
      obtain ⟨row, hlocked, hof⟩ := hlater.owner
      exact hentered.not_owner hnot hs.inv.1 hlocked.mem (isMembership_anyRole hof)
        (owner_of_isMembership hof)
    | _ => exact hordinary (by simp [Request.tables, TenantCall.tables, OutsideMembers])
  | _ => exact hordinary (by simp [Request.tables, OutsideMembers])

end Requests

/-! ### Runs -/

/-- **No escalation without an owner**: over any requests, one after another, none of which an owner of
the organization makes, and after each of them. -/
theorem unescalated_of_exchanges (rt : Runtime) {organizationId : Uuid} {s : Shared schema Env Request}
    {requests : List Request} (hdb : s.db.Integral) (hid : ¬s.ids.Holds organizationId)
    (hinvites : InvitesMembers organizationId s.db)
    (hnot : ∀ e ∈ exchanges rt s requests, ¬MadeByOwner rt organizationId e.request e.before.db) :
    Unescalated organizationId s.db (afterAll rt s requests).db ∧
      ∀ e ∈ exchanges rt s requests, Unescalated organizationId s.db e.after.db := by
  induction requests generalizing s with
  | nil => exact ⟨.refl _ _, fun _ he => nomatch he⟩
  | cons request requests ih =>
    rw [exchanges_cons, List.forall_mem_cons] at hnot
    have hinv : (escalationProtocol organizationId s).inv s := ⟨.refl _ _, .refl _⟩
    obtain ⟨⟨hlater, hids⟩, hdb', _⟩ := Request.perform_of_wp hinv hdb
      (wp_unescalated hid hinvites hnot.1 (.refl hinv hdb (.of_writes_empty hdb rfl)))
    obtain ⟨hend, hrest⟩ := ih hdb' (fun h => hid (hids.holds h)) (hinvites.later hlater) hnot.2
    rw [exchanges_cons, List.forall_mem_cons]
    exact ⟨hlater.trans hend, hlater, fun e he => hlater.trans (hrest e he)⟩

namespace Reference

/-- A test for a request of an owner. -/
def byOwner (organizationId : Uuid) (e : Exchange) : Bool :=
  match e.request with
  | .tenant of (some given) _ => of = organizationId &&
      (e.before.db .memberships).any fun (m : Membership) =>
        decodeAccessToken runtime given.credentials (noon 0) = some m.userId &&
          isMembership organizationId m.userId ownerOnly m
  | _ => false

theorem not_madeByOwner {organizationId : Uuid} {e : Exchange} (h : byOwner organizationId e = false) :
    ¬MadeByOwner runtime organizationId e.request e.before.db := by
  rintro ⟨credentials, call, userId, hrequest, ⟨given, current, rfl, hdecode⟩, m, hmem, hof⟩
  have hdecode : decodeAccessToken runtime given.credentials (noon 0) = some userId := hdecode
  have huser : m.userId = userId := by
    simp only [isMembership, Bool.and_eq_true, decide_eq_true_eq] at hof
    exact hof.1.2
  have hnever : ∀ m : Membership, m ∈ e.before.db .memberships →
      decodeAccessToken runtime given.credentials (noon 0) = some m.userId →
        isMembership organizationId m.userId ownerOnly m = false := by
    simpa [byOwner, hrequest] using h
  have hfalse := hnever m hmem (by rw [hdecode, huser])
  rw [huser, hof] at hfalse
  cases hfalse

/-- An owner, an administrator, a member, and a user who is invited as a member. -/
def administered : Tables where
  users := [user 1, user 2, user 3, user 4]
  organizations := [organization 5]
  memberships := [member 11 1 5 .owner, member 12 2 5 .admin, member 13 3 5 .member]
  invitations := [invitation 21 5 "user-4" "first" 2]

/-- The invited user joins. The administrator tries to promote them, then removes another member and
invites them again. -/
def administration : List Request :=
  [.acceptInvitation (bearer 4) "first", .tenant 5 (bearer 2) (.updateMember 1000 .admin),
    .tenant 5 (bearer 2) (.removeMember 13), .tenant 5 (bearer 2) (.createInvitation ⟨"user-3", .member⟩)]

def administrationStart : Shared schema Env Request := shared Request (fun _ => noon 1) administered

theorem unescalated_of_administration :
    Unescalated 5 administered.db (afterAll runtime administrationStart administration).db ∧
      ∀ e ∈ exchanges runtime administrationStart administration,
        Unescalated 5 administered.db e.after.db :=
  unescalated_of_exchanges runtime (ValidDb.integral (by decide +kernel)) (not_holds_of_lt (by decide))
    (by intro i hi; rw [List.mem_singleton.mp hi]; exact fun _ _ => rfl)
    fun _ he => not_madeByOwner
      ((by decide +kernel : ∀ e ∈ exchanges runtime administrationStart administration,
        byOwner 5 e = false) _ he)

example : ((afterAll runtime administrationStart administration).db .memberships).map
    (fun (m : Membership) => (m.userId, m.role)) = [(1, .owner), (2, .admin), (4, .member)] := by
  decide +kernel

end Reference

end TenantForge
