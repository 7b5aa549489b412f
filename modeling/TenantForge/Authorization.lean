import TenantForge.Contracts.Frames
import TenantForge.Contracts.History
import TenantForge.Reference.Runtime
/-!
# On which role a request is judged

`update_membership`, `remove_membership` and `create_invitation` lock the actor's membership before they
test its role, but the role they test is that of the copy which the route's dependency loaded before.
If nobody demotes the actor between that load and the lock (`Undemoted`), every commit of these requests
is one that the rules allow for the role under the lock (`authorized_of_run`). Without the condition
this fails.
-/

namespace TenantForge

open Gregorian ReadCommitted

/-! ### The rules -/

/-- Owners may give any role; administrators may only keep members members. -/
def MayChange (actorRole targetRole newRole : Role) : Prop :=
  actorRole = .owner ∨ (actorRole = .admin ∧ targetRole = .member ∧ newRole = .member)

/-- Owners may remove anybody, administrators members. -/
def MayRemove (actorRole targetRole : Role) : Prop :=
  actorRole = .owner ∨ (actorRole = .admin ∧ targetRole = .member)

/-- The caller's membership, as it was committed when the transaction was granted its lock. -/
structure ActorLock (rt : Runtime) (c : Commit schema Request) (organizationId : Uuid)
    (credentials : Option Credentials) (actor : Membership) : Prop where
  authenticated : Authenticated rt credentials actor.userId
  organization : actor.organizationId = organizationId
  granted : ∃ held ∈ c.session.locks, held.key = .row .memberships actor.id ∧
    held.mode = .forUpdate ∧ held.seen.lookup .memberships actor.id = some actor

/-- What a commit changes is allowed by the rules for the actor's role under the lock. -/
def Authorized (rt : Runtime) (c : Commit schema Request) : Prop :=
  match c.tag with
  | .tenant organizationId credentials (.updateMember _ _) =>
    ∀ old new : Membership, old ∈ c.before .memberships → new ∈ c.after .memberships →
      old.id = new.id → old.role ≠ new.role →
        ∃ actor, ActorLock rt c organizationId credentials actor ∧
          MayChange actor.role old.role new.role
  | .tenant organizationId credentials (.removeMember _) =>
    ∀ old : Membership, old ∈ c.before .memberships →
      (∀ new : Membership, new ∈ c.after .memberships → new.id ≠ old.id) →
        ∃ actor, ActorLock rt c organizationId credentials actor ∧ MayRemove actor.role old.role
  | .tenant organizationId credentials (.createInvitation _) =>
    ∀ invitation : Invitation, invitation ∈ c.after .invitations →
      invitation ∉ c.before .invitations →
        ∃ actor, ActorLock rt c organizationId credentials actor ∧
          MayInvite actor.role invitation.role
  | _ => True

/-! ### The condition -/

/-- The requests that judge the actor on a loaded copy. -/
def Request.judgesActor : Request → Bool
  | .tenant _ _ (.updateMember _ _) | .tenant _ _ (.removeMember _) => true
  | .tenant _ _ (.createInvitation _) => true
  | _ => false

def Role.rank : Role → Nat
  | .member => 0
  | .admin => 1
  | .owner => 2

/-- The lock of a membership that the session has loaded finds a role no lower than the loaded one. -/
def Undemoted (request : Request) (σ : Session schema) (t : Table) (id : Uuid) (db : Db) : Prop :=
  request.judgesActor = true → t = .memberships → ∀ copy row : Membership,
    copy ∈ σ.loaded .memberships → copy.id = id → db.lookup .memberships id = some row →
      copy.role.rank ≤ row.role.rank

/-- No process is granted the lock of a membership that was demoted since the process loaded it. -/
def GrantsUndemoted (w : World schema Env Exn Request Response) (m : Move) : Prop :=
  ∀ (i : Nat) (th : Thread schema Env Exn Request Response) (t : Table) (id : Uuid) (mode : Mode)
    (next failed : App Response), m = .run i → w.threads[i]? = some th →
    th.prog = some (.lock t id mode next failed) → Undemoted th.tag th.session t id w.shared.db

/-! ### The protocol -/

def roleProtocol (rt : Runtime) : Protocol schema Env Request where
  inv s := SettledKeys s ∧ ∀ c ∈ s.log, Authorized rt c
  rely _ locks s s' := KeepsHistory locks s s'
  guar _ σ s s' := AddsNamed σ s s'
  assume := Undemoted
  rely_refl _ _ _ := .refl
  rely_trans _ _ _ _ _ h₁ h₂ := h₁.trans h₂
  rely_mono _ _ _ _ _ hl h := h.mono hl

section Protocol

variable {rt : Runtime} {tag : Request} {σ σ₀ : Session schema} {s s₀ : Shared schema Env Request}

theorem roleProtocol_remembers : Remembers (roleProtocol rt) :=
  ⟨fun _ h => h.1, fun _ _ _ _ h => h, fun _ _ _ _ h => h⟩

theorem roleProtocol_tolerates : (roleProtocol rt).Tolerates fun _ _ => True where
  env _ _ _ _ h _ := ⟨⟨⟨h.1.stable, h.1.drawn⟩, h.2⟩, .of_same fun _ => Iff.rfl⟩
  draw _ _ s h := ⟨⟨⟨h.1.stable, fun m hm hid =>
    h.1.drawn m hm ((Supply.leads_tail s.ids).holds hid)⟩, h.2⟩, .of_same fun _ => Iff.rfl⟩

theorem roleProtocol_tolerates_drawn : (roleProtocol rt).Tolerates Env.Drawn where
  env tag σ s env' h _ := roleProtocol_tolerates.env tag σ s env' h trivial
  draw := roleProtocol_tolerates.draw

theorem roleProtocol_allows (hs : Interferes (roleProtocol rt) tag σ s₀ s) (hsettled : Settled σ s)
    (h : Authorized rt ⟨tag, σ, s.db⟩) : (roleProtocol rt).Allows tag σ s (s.commit tag σ) := by
  obtain ⟨hkeys, hadds⟩ := hs.inv.1.commit tag (hs.sound.integral hs.integral) hsettled
  exact ⟨⟨hkeys, fun c hc => by
    rcases List.mem_cons.mp hc with rfl | hc
    · exact h
    · exact hs.inv.2 c hc⟩, hadds⟩

/-- A commit that writes neither memberships nor invitations. -/
theorem authorized_of_clean (hm : σ.writes .memberships = []) (hi : σ.writes .invitations = [])
    {db : Db} (hdb : db.Integral) : Authorized rt ⟨tag, σ, db⟩ := by
  have hmembers : Commit.after ⟨tag, σ, db⟩ .memberships = db .memberships :=
    Session.view_of_nil hm db
  have hinvitations : Commit.after ⟨tag, σ, db⟩ .invitations = db .invitations :=
    Session.view_of_nil hi db
  rw [Authorized]
  split
  · intro old new hold hnew hid hrole
    rw [hmembers] at hnew
    exact absurd (congrArg Membership.role (hdb.eq_of_id (t := .memberships) hold hnew hid)) hrole
  · intro old hold hgone
    exact absurd rfl (hgone old (hmembers ▸ hold))
  · intro invitation hnew hold
    rw [hinvitations] at hnew
    exact absurd hnew hold
  · trivial

/-- Under the condition, the loaded role is at most the role under the lock. -/
theorem rank_copyOf_le {row : Membership} (htag : tag.judgesActor = true)
    (h : Assumed (roleProtocol rt) tag σ (t := .memberships) row) :
    (σ.copyOf (t := .memberships) row).role.rank ≤ row.role.rank := by
  obtain ⟨σ', db, hloaded, hlookup, hassume⟩ := h
  rw [Session.copyOf]
  cases hfind : (σ.loaded .memberships).find? fun copy => schema.id copy = schema.id
      (t := .memberships) row with
  | none => exact le_rfl
  | some copy =>
    have hid : rowId (t := .memberships) copy = rowId (t := .memberships) row := by
      simpa using List.find?_some hfind
    refine hassume htag rfl copy row ?_ hid hlookup
    rw [hloaded]
    exact List.mem_of_find?_eq_some hfind

theorem Role.eq_owner_of_rank {role : Role} (h : Role.owner.rank ≤ role.rank) : role = .owner := by
  cases role <;> simp_all [Role.rank]

theorem Role.owner_or_admin_of_rank {role : Role} (h : Role.admin.rank ≤ role.rank) :
    role = .owner ∨ role = .admin := by
  cases role <;> simp_all [Role.rank]

/-- A locked row of the caller is the actor that the commit is judged on. -/
theorem actorLock_of_locked {credentials : Option Credentials} {organizationId userId : Uuid}
    {allowed : Role → Bool} {row : Membership} {db : Db}
    (hauth : Authenticated rt credentials userId)
    (hlocked : σ.Locked db (t := .memberships) row)
    (hof : isMembership organizationId userId allowed row = true) :
    ActorLock rt ⟨tag, σ, db⟩ organizationId credentials row := by
  simp only [isMembership, Bool.and_eq_true, decide_eq_true_eq] at hof
  obtain ⟨held, hmem, hkey, hmode, hseen⟩ := hlocked.held
  exact ⟨by rw [hof.1.2]; exact hauth, hof.1.1, held, hmem, hkey, hmode, hseen⟩

section Change

variable {organizationId membershipId : Uuid} {credentials : Option Credentials} {allowed : Role → Bool}
  {user : User} {membership actorRow targetRow : Membership}

/-- What the copies permit, the locked rows permit: a stale target is the actor itself. -/
theorem mayRemove_of_copies (htag : tag.judgesActor = true) (hs : Interferes (roleProtocol rt) tag σ s s)
    (hentered : Entered rt (roleProtocol rt) tag organizationId credentials allowed user membership σ₀ s₀)
    (hever : EverMember s membership)
    (hlocked : MembershipsLocked (roleProtocol rt) tag organizationId membershipId user.id σ₀ σ s.db
      actorRow targetRow)
    (hpermitted : MayRemove (actorCopy σ₀ actorRow).role (targetCopy σ₀ actorRow targetRow).role) :
    MayRemove actorRow.role targetRow.role := by
  have hrank := rank_copyOf_le htag hlocked.assumed
  rw [actorCopy] at hpermitted
  rcases hpermitted with hactor | ⟨hactor, htarget⟩
  · rw [hactor] at hrank
    exact Or.inl (Role.eq_owner_of_rank hrank)
  · rw [hactor] at hrank
    refine (Role.owner_or_admin_of_rank hrank).imp_right fun hadmin => ⟨hadmin, ?_⟩
    rcases targetCopy_cases roleProtocol_remembers hs.inv hs.integral hentered hever hlocked with
      hfresh | ⟨_, hself⟩
    · rw [← hfresh, htarget]
    · rw [hself, actorCopy, hactor] at htarget
      cases htarget

theorem RoleChanged.authorized {newRole : Role}
    (hs : Interferes (roleProtocol rt)
      (.tenant organizationId credentials (.updateMember membershipId newRole)) σ s s)
    (hentered : Entered rt (roleProtocol rt)
      (.tenant organizationId credentials (.updateMember membershipId newRole)) organizationId
      credentials allowed user membership σ₀ s₀)
    (hever : EverMember s membership)
    (h : RoleChanged rt (roleProtocol rt)
      (.tenant organizationId credentials (.updateMember membershipId newRole)) organizationId
      membershipId user.id newRole σ₀ σ s.db actorRow targetRow) :
    Authorized rt ⟨.tenant organizationId credentials (.updateMember membershipId newRole), σ, s.db⟩ := by
  intro old new hold hnew hid hrole
  refine ⟨actorRow, actorLock_of_locked hentered.authenticated h.locked.actorLocked h.locked.actorOf, ?_⟩
  rcases h.writes_memberships hentered.writes with ⟨_, hw⟩ | hw
  · have hsame : new ∈ s.db .memberships := by
      rw [← Session.view_of_nil hw s.db]
      exact hnew
    exact absurd (congrArg Membership.role (hs.integral.eq_of_id (t := .memberships) hold hsame hid))
      hrole
  · rcases (Overlay.mem_apply_single hw).mp hnew with ⟨hsame, _⟩ | hnew
    · exact absurd (congrArg Membership.role (hs.integral.eq_of_id (t := .memberships) hold hsame hid))
        hrole
    · cases hnew
      obtain rfl := hs.integral.eq_of_id (t := .memberships) hold h.locked.targetLocked.mem hid
      have hremove := mayRemove_of_copies rfl hs hentered hever h.locked
        (h.permitted.imp_right fun hadmin => ⟨hadmin.1, hadmin.2.1⟩)
      rcases hremove with howner | ⟨hadmin, hmember⟩
      · exact Or.inl howner
      · refine Or.inr ⟨hadmin, hmember, ?_⟩
        rcases h.permitted with hactor | ⟨_, _, hnew⟩
        · have hrank := rank_copyOf_le rfl h.locked.assumed
          rw [actorCopy] at hactor
          rw [hactor, hadmin] at hrank
          exact absurd hrank (by decide)
        · exact hnew

theorem MemberRemoved.authorized
    (hs : Interferes (roleProtocol rt)
      (.tenant organizationId credentials (.removeMember membershipId)) σ s s)
    (hentered : Entered rt (roleProtocol rt)
      (.tenant organizationId credentials (.removeMember membershipId)) organizationId credentials
      allowed user membership σ₀ s₀)
    (hever : EverMember s membership)
    (h : MemberRemoved rt (roleProtocol rt)
      (.tenant organizationId credentials (.removeMember membershipId)) organizationId membershipId
      user.id σ₀ σ s.db actorRow targetRow) :
    Authorized rt ⟨.tenant organizationId credentials (.removeMember membershipId), σ, s.db⟩ := by
  intro old hold hgone
  refine ⟨actorRow, actorLock_of_locked hentered.authenticated h.locked.actorLocked h.locked.actorOf, ?_⟩
  by_cases hid : old.id = targetRow.id
  · obtain rfl := hs.integral.eq_of_id (t := .memberships) hold h.locked.targetLocked.mem hid
    exact mayRemove_of_copies rfl hs hentered hever h.locked h.permitted
  · have hstays : old ∈ σ.view s.db .memberships :=
      (Overlay.mem_apply_single (h.writes_memberships hentered.writes)).mpr (Or.inl ⟨hold, hid⟩)
    exact absurd rfl (hgone old hstays)

end Change

theorem InvitationIssued.authorized {organizationId : Uuid} {credentials : Option Credentials}
    {data : InvitationCreate} {user : User} {allowed : Role → Bool} {membership actorRow : Membership}
    {invitation : Invitation}
    (hentered : Entered rt (roleProtocol rt)
      (.tenant organizationId credentials (.createInvitation data)) organizationId credentials allowed
      user membership σ₀ s₀)
    (h : InvitationIssued rt (roleProtocol rt)
      (.tenant organizationId credentials (.createInvitation data)) organizationId user.id data σ₀ σ
      s actorRow invitation) :
    Authorized rt ⟨.tenant organizationId credentials (.createInvitation data), σ, s.db⟩ := by
  intro new hnew hold
  refine ⟨actorRow, actorLock_of_locked hentered.authenticated h.actorLocked h.actorOf, ?_⟩
  obtain ⟨entry, _, hw⟩ := h.written
  have hinvitations : σ.writes .invitations = [(invitation.id, some invitation)] := by
    simp [hw, hentered.writes, Overlay.put_table_self]
  rcases (Overlay.mem_apply_single hinvitations).mp hnew with ⟨hnew, _⟩ | hnew
  · exact absurd hnew hold
  · cases hnew
    have hrank := rank_copyOf_le rfl h.assumed
    rw [h.role]
    rcases h.permitted with hactor | ⟨hactor, hrole⟩
    · rw [hactor] at hrank
      exact Or.inl (Role.eq_owner_of_rank hrank)
    · rw [hactor] at hrank
      exact (Role.owner_or_admin_of_rank hrank).imp_right fun hadmin => ⟨hadmin, hrole⟩

end Protocol

/-! ### The requests -/

section Requests

variable {rt : Runtime} {s : Shared schema Env Request}

theorem allows_of_spares {tag : Request} {σ : Session schema} {s₀ : Shared schema Env Request}
    (hs : Interferes (roleProtocol rt) tag σ s₀ s) (hσ : σ.Spares OutsideMembers) :
    (roleProtocol rt).Allows tag σ s (s.commit tag σ) := by
  have hm : σ.writes .memberships = [] := hσ _ fun h => h.1 rfl
  have hi : σ.writes .invitations = [] := hσ _ fun h => h.2 rfl
  exact roleProtocol_allows hs (settled_of_clean hm) (authorized_of_clean hm hi hs.integral)

/-- A commit of a request whose kind the rules do not speak of. -/
theorem authorized_of_other {request : Request} {σ : Session schema} {db : Db}
    (h : request.judgesActor = false) : Authorized rt ⟨request, σ, db⟩ := by
  cases request with
  | tenant organizationId credentials call =>
    cases call with
    | updateMember | removeMember | createInvitation => cases h
    | _ => trivial
  | _ => trivial

/-- The body of a request is done, and its commit is authorized. -/
def MayCommit (rt : Runtime) (tag : Request) {α : Type} (_ : α) (σ : Session schema)
    (s : Shared schema Env Request) : Prop :=
  ∀ s', Interferes (roleProtocol rt) tag σ s s' →
    (roleProtocol rt).Allows tag σ s' (s'.commit tag σ) ∧ True

section Tenant

variable {organizationId : Uuid} {credentials : Option Credentials} {allowed : Role → Bool}
  {user : User} {membership : Membership} {σ : Session schema}

theorem wp_updateMember_mayCommit {membershipId : Uuid} {role : Role}
    (hentered : Entered rt (roleProtocol rt)
      (.tenant organizationId credentials (.updateMember membershipId role)) organizationId credentials
      allowed user membership σ s) :
    wp (roleProtocol rt) (.tenant organizationId credentials (.updateMember membershipId role))
      (MayCommit rt (.tenant organizationId credentials (.updateMember membershipId role)))
      (fun _ _ _ => True) (updateMembership rt organizationId membershipId user.id role) σ s := by
  have hclean : σ.writes .memberships = [] := by rw [hentered.writes]; rfl
  refine wp_mono ?_ (fun _ _ _ _ => trivial) _ _ _ (wp_remembering roleProtocol_remembers hentered
    (wp_updateMembership (Q := fun _ σ' s' => ∃ actorRow targetRow,
        RoleChanged rt (roleProtocol rt)
          (.tenant organizationId credentials (.updateMember membershipId role)) organizationId
          membershipId user.id role σ σ' s'.db actorRow targetRow)
      roleProtocol_tolerates_drawn harmless_true hclean
      fun actorRow targetRow σ' s' _ hchanged => ⟨actorRow, targetRow, hchanged⟩))
  rintro _ σ' s' ⟨⟨actorRow, targetRow, hchanged⟩, hever⟩ s'' hs
  have hlater := hchanged.later hs
  exact ⟨roleProtocol_allows hs (hlater.settled hentered.writes)
    (hlater.authorized hs.now hentered (hs.rely.kept _ hever)), trivial⟩

theorem wp_removeMember_mayCommit {membershipId : Uuid}
    (hentered : Entered rt (roleProtocol rt)
      (.tenant organizationId credentials (.removeMember membershipId)) organizationId credentials
      allowed user membership σ s) :
    wp (roleProtocol rt) (.tenant organizationId credentials (.removeMember membershipId))
      (MayCommit rt (.tenant organizationId credentials (.removeMember membershipId)))
      (fun _ _ _ => True) (removeMembership rt organizationId membershipId user.id) σ s := by
  have hclean : σ.writes .memberships = [] := by rw [hentered.writes]; rfl
  refine wp_mono ?_ (fun _ _ _ _ => trivial) _ _ _ (wp_remembering roleProtocol_remembers hentered
    (wp_removeMembership (Q := fun _ σ' s' => ∃ actorRow targetRow,
        MemberRemoved rt (roleProtocol rt)
          (.tenant organizationId credentials (.removeMember membershipId)) organizationId membershipId
          user.id σ σ' s'.db actorRow targetRow)
      roleProtocol_tolerates_drawn harmless_true hclean
      fun actorRow targetRow σ' s' _ hremoved => ⟨actorRow, targetRow, hremoved⟩))
  rintro _ σ' s' ⟨⟨actorRow, targetRow, hremoved⟩, hever⟩ s'' hs
  have hlater := hremoved.later hs
  exact ⟨roleProtocol_allows hs (hlater.settled hentered.writes)
    (hlater.authorized hs.now hentered (hs.rely.kept _ hever)), trivial⟩

/-- The first commit of the route is that of the invitation; the last one is empty. -/
theorem wp_createInvitation_mayCommit {data : InvitationCreate}
    (hentered : Entered rt (roleProtocol rt)
      (.tenant organizationId credentials (.createInvitation data)) organizationId credentials allowed
      user membership σ s) :
    wp (roleProtocol rt) (.tenant organizationId credentials (.createInvitation data))
      (MayCommit rt (.tenant organizationId credentials (.createInvitation data))) (fun _ _ _ => True)
      (createInvitationRoute rt organizationId user data) σ s := by
  have hclean : σ.writes .memberships = [] := by rw [hentered.writes]; rfl
  simp only [createInvitationRoute, Prog.bind_eq, wp_bind]
  refine wp_createInvitation roleProtocol_tolerates_drawn harmless_true hclean
    (by rw [hentered.writes]; rfl) fun actorRow invitation rawToken σ₁ s₁ _ hissued => ?_
  refine fun s₂ h₂ => ⟨roleProtocol_allows h₂ (settled_of_clean ?_)
    ((hissued.later h₂).authorized hentered), ?_, trivial⟩
  · obtain ⟨entry, _, hw⟩ := hissued.written
    simp [hw, hclean]
  · have hdb := h₂.sound.integral h₂.integral
    have hmail : (do
        try sendInvitation rt invitation.email invitation.organizationId invitation.id rawToken
        catch exc => if exc = .invitationDeliveryError then pure () else throw exc :
          App Unit).Within OutsideMembers (fun _ _ => True) False :=
      (within_sendInvitation fun _ _ _ => trivial).handle fun exc => by split <;> trivial
    rw [wp]
    refine wp_mono ?_ (fun _ _ _ _ => trivial) _ _ _ (wp_within hmail roleProtocol_tolerates
      (fun h => False.elim h) (fun _ _ => rfl) (.refl ?_ hdb (.of_writes_empty hdb rfl)))
    · exact fun _ σ₃ s₃ hσ₃ s₄ h₄ => ⟨allows_of_spares h₄ hσ₃.1, trivial⟩
    · exact (roleProtocol_allows h₂ (settled_of_clean (by
        obtain ⟨entry, _, hw⟩ := hissued.written
        simp [hw, hclean])) ((hissued.later h₂).authorized hentered)).1

end Tenant

/-- **The step**: each commit of a request is authorized, among any other requests. -/
theorem wp_authorized {request : Request} (hnow : Interferes (roleProtocol rt) request .empty s s) :
    wp (roleProtocol rt) request (fun _ _ _ => True) (fun _ _ _ => True) (request.handle rt) .empty s := by
  have hD : (roleProtocol rt).Tolerates Env.Drawn := roleProtocol_tolerates_drawn
  rw [Request.handle]
  refine wp_getSession harmless_true ?_
  have hordinary : (∀ t ∈ request.tables, OutsideMembers t) →
      wp (roleProtocol rt) request (MayCommit rt request) (fun _ _ _ => True) (request.endpoint rt)
        .empty s := fun h => by
    refine wp_mono (fun _ σ' s' hσ' s'' hs => ?_) (fun _ _ _ _ => trivial) _ _ _
      (wp_within (W := OutsideMembers) (D := fun _ _ => True) (C := True)
        (within_endpoint (fun _ _ _ => trivial) h trivial)
        roleProtocol_tolerates (fun _ _ _ hs hσ => allows_of_spares hs hσ) (fun _ _ => rfl) hnow)
    exact ⟨allows_of_spares hs hσ'.1, trivial⟩
  cases request with
  | createOrganization credentials data =>
    simp only [Request.endpoint, Prog.bind_eq, Prog.map_eq, wp_bind]
    refine wp_getCurrentUser hD harmless_true hnow fun user σ₁ s₁ huser _ _ => ?_
    refine wp_createOrganization hD harmless_true fun organization owner σ₂ s₂ _ hcreated => ?_
    exact fun s₃ hs => ⟨roleProtocol_allows hs (settled_of_joined roleProtocol_remembers
      (hcreated.joins huser.writes) (hcreated.named.later (.of_interferes hs) (List.Subset.refl _)))
      (authorized_of_other rfl), trivial⟩
  | acceptInvitation credentials token =>
    simp only [Request.endpoint, Prog.bind_eq, Prog.map_eq, wp_bind]
    refine wp_getCurrentUser hD harmless_true hnow fun user σ₁ s₁ huser _ _ => ?_
    refine wp_acceptInvitation hD harmless_true (by rw [huser.writes]; rfl)
      fun row accepted joined σ₂ s₂ _ haccepted => ?_
    exact fun s₃ hs => ⟨roleProtocol_allows hs (settled_of_joined roleProtocol_remembers
      (haccepted.joins huser.writes) (haccepted.named.later (.of_interferes hs) (List.Subset.refl _)))
      (authorized_of_other rfl), trivial⟩
  | tenant organizationId credentials call =>
    cases call with
    | updateMember membershipId role =>
      refine wp_handle_tenant hD harmless_true hnow fun user membership σ₁ s₁ hentered _ => ?_
      simp only [TenantCall.operation, Prog.map_eq, wp_bind]
      exact (wp_updateMember_mayCommit hentered).then fun _ _ _ h => h
    | removeMember membershipId =>
      refine wp_handle_tenant hD harmless_true hnow fun user membership σ₁ s₁ hentered _ => ?_
      simp only [TenantCall.operation, Prog.bind_eq, wp_bind]
      exact (wp_removeMember_mayCommit hentered).then fun _ _ _ h => h
    | createInvitation data =>
      refine wp_handle_tenant hD harmless_true hnow fun user membership σ₁ s₁ hentered _ => ?_
      exact wp_createInvitation_mayCommit hentered
    | deleteOrganization =>
      refine wp_handle_tenant hD harmless_true hnow fun user membership σ₁ s₁ hentered _ => ?_
      simp only [TenantCall.operation, Prog.bind_eq, wp_bind]
      refine wp_deleteOrganization hD harmless_true (by rw [hentered.writes]; rfl)
        (by rw [hentered.writes]; rfl) fun σ₂ s₂ _ hdeleted => ?_
      exact fun s₃ hs => ⟨roleProtocol_allows hs
        ((hdeleted.later hs).settled hs.sound hentered.writes) (authorized_of_other rfl), trivial⟩
    | _ => exact hordinary (by simp [Request.tables, TenantCall.tables, OutsideMembers])
  | _ => exact hordinary (by simp [Request.tables, OutsideMembers])

end Requests

theorem roleProtocol_respects (rt : Runtime) (a b : Request) : Respects (roleProtocol rt) a b :=
  fun _ _ _ _ hcompat h => h.keepsHistory hcompat

/-- **Decisions on the locked role**: if no process is granted the lock of a membership that was demoted
since the process loaded it, then every commit is authorized. -/
theorem authorized_of_run (rt : Runtime) {s : Shared schema Env Request} {requests : List Request}
    {w : World schema Env Exn Request Response} (hlog : s.log = [])
    (hids : ∀ m : Membership, m ∈ s.db .memberships → ¬s.ids.Holds m.id) (hdb : s.db.Integral)
    (hrun : World.Run GrantsUndemoted (World.start s requests fun request => request.handle rt) w) :
    ∀ c ∈ w.shared.log, Authorized rt c := by
  have hinv : (roleProtocol rt).inv s := by
    refine ⟨settledKeys_of_log hlog hids hdb, fun c hc => ?_⟩
    rw [hlog] at hc
    cases hc
  have hstart : (World.start s requests fun request => request.handle rt).Ok (roleProtocol rt)
      fun _ _ _ _ => True :=
    .start hinv hdb (.of_forall (roleProtocol_respects rt) requests) fun request _ =>
      wp_authorized (.refl hinv hdb (.of_writes_empty hdb rfl))
  have hmeets : Meets (roleProtocol rt) GrantsUndemoted := by
    intro w i hok th prog hth hprog
    cases prog with
    | lock t id mode next failed => exact hok i th t id mode next failed rfl hth hprog
    | _ => trivial
  exact (hrun.ok hmeets (fun _ _ => stable_true) hstart).inv.2

namespace Reference

instance (request : Request) (σ : Session schema) (t : Table) (id : Uuid) (db : Db) :
    Decidable (Undemoted request σ t id db) :=
  decidable_of_iff (request.judgesActor = true → t = .memberships → ∀ copy ∈ σ.loaded .memberships,
      Membership.id copy = id → ∀ row ∈ (db.lookup .memberships id).toList,
        (Membership.role copy).rank ≤ (Membership.role row).rank)
    ⟨fun h hrequest ht copy row hcopy hid hrow => h hrequest ht copy hcopy hid row (by simp [hrow]),
      fun h hrequest ht copy hcopy hid row hrow =>
        h hrequest ht copy row hcopy hid (by simpa using hrow)⟩

/-- The condition, read off the statement that the process is at. -/
def grantsUndemoted (w : World schema Env Exn Request Response) : Move → Bool
  | .run i => match w.threads[i]? with
    | some th => match th.prog with
      | some (.lock t id _ _ _) => decide (Undemoted th.tag th.session t id w.shared.db)
      | _ => true
    | none => true
  | _ => true

theorem grantsUndemoted_iff (w : World schema Env Exn Request Response) (m : Move) :
    grantsUndemoted w m = true ↔ GrantsUndemoted w m := by
  constructor
  · rintro h i th t id mode next failed rfl hth hprog
    simpa [grantsUndemoted, hth, hprog] using h
  · intro h
    cases m with
    | run i =>
      simp only [grantsUndemoted]
      split
      · rename_i th hth
        split
        · rename_i t id mode next failed hprog
          exact decide_eq_true (h i th t id mode next failed rfl hth hprog)
        · rfl
      · rfl
    | abort i => rfl
    | crash i => rfl

instance (w : World schema Env Exn Request Response) (m : Move) : Decidable (GrantsUndemoted w m) :=
  decidable_of_iff _ (grantsUndemoted_iff w m)

/-- Two owners and a member of one organization. -/
def threeMembers : Tables where
  users := [user 1, user 2, user 3]
  organizations := [organization 5]
  memberships := [member 11 1 5 .owner, member 12 2 5 .owner, member 13 3 5 .member]

/-- The first owner promotes the member, while the second one demotes the first. -/
def promotion : List Request :=
  [.tenant 5 (bearer 1) (.updateMember 13 .admin), .tenant 5 (bearer 2) (.updateMember 11 .member)]

def promotionStart : World schema Env Exn Request Response :=
  World.start (shared Request (fun _ => noon 1) threeMembers) promotion
    fun request => request.handle runtime

/-- One after the other. -/
def promotionThenDemotion : World schema Env Exn Request Response :=
  promotionStart.play GrantsUndemoted (List.replicate 60 (Move.run 0) ++ List.replicate 60 (Move.run 1))

theorem authorized_of_promotionThenDemotion : promotionThenDemotion.shared.log.length = 2 ∧
    ∀ c ∈ promotionThenDemotion.shared.log, Authorized runtime c :=
  ⟨by decide +kernel, authorized_of_run runtime rfl
    (fun m hm => not_holds_of_lt ((by decide : ∀ m ∈ threeMembers.memberships, m.id < 1000) m hm))
    (ValidDb.integral (by decide +kernel)) (World.run_play _ _ _)⟩

/-- A test for a change of a role that the role under the actor's lock does not allow. -/
def exceedsLock (c : Commit schema Request) : Bool :=
  match c.tag with
  | .tenant organizationId (some given) (.updateMember _ _) =>
    (c.before .memberships).any fun (old : Membership) =>
      (c.after .memberships).any fun (new : Membership) =>
        old.id = new.id && old.role ≠ new.role && c.session.locks.all fun held =>
          match held.key with
          | .row .memberships id => match held.seen.lookup .memberships id with
            | some (actor : Membership) => !(actor.organizationId = organizationId &&
                decodeAccessToken runtime given.credentials (noon 0) = some actor.userId &&
                (actor.role = .owner ||
                  actor.role = .admin && old.role = .member && new.role = .member))
            | none => true
          | _ => true
  | _ => false

theorem not_authorized_of_exceedsLock {c : Commit schema Request} (h : exceedsLock c = true) :
    ¬Authorized runtime c := by
  intro hc
  rw [exceedsLock] at h
  split at h
  · rename_i organizationId given membershipId role htag
    rw [Authorized, htag] at hc
    obtain ⟨old, hold, h⟩ := List.any_eq_true.mp h
    obtain ⟨new, hnew, h⟩ := List.any_eq_true.mp h
    simp only [Bool.and_eq_true, decide_eq_true_eq] at h
    obtain ⟨⟨hid, hrole⟩, hlocks⟩ := h
    obtain ⟨actor, hactor, hmay⟩ := hc old new hold hnew hid hrole
    obtain ⟨held, hmem, hkey, -, hseen⟩ := hactor.granted
    obtain ⟨_, current, hgiven, hdecode⟩ := hactor.authenticated
    obtain rfl := Option.some.inj hgiven
    have htest := List.all_eq_true.mp hlocks held hmem
    have hdecode : decodeAccessToken runtime given.credentials (noon 0) = some actor.userId := hdecode
    simp only [hkey, hseen, hactor.organization, hdecode] at htest
    rcases hmay with howner | ⟨hadmin, hold, hnew⟩
    · simp [howner] at htest
    · simp [hadmin, hold, hnew] at htest
  · cases h

/-- The owner has loaded its role before it is demoted, and promotes the member afterwards. -/
def stalePromotion : World schema Env Exn Request Response :=
  promotionStart.playAll (List.replicate 7 (Move.run 0) ++ List.replicate 60 (Move.run 1) ++
    List.replicate 60 (Move.run 0))

theorem stalePromotion_unauthorized :
    promotionStart.Reach stalePromotion ∧ ¬∀ c ∈ stalePromotion.shared.log, Authorized runtime c := by
  refine ⟨World.reach_playAll _ _, fun h => ?_⟩
  have hany : stalePromotion.shared.log.any exceedsLock = true := by decide +kernel
  obtain ⟨c, hc, hexceeds⟩ := List.any_eq_true.mp hany
  exact not_authorized_of_exceedsLock hexceeds (h c hc)

end Reference

end TenantForge
