import TenantForge.Contracts.History
import TenantForge.Reference.Runtime
/-!
# The last owner

Every organization keeps an owner, whatever requests create organizations, accept invitations, change
or remove members and delete organizations at the same time. `ensure_another_owner` locks all owners it
counts, so the one it found is still an owner at the commit; that the guard runs at all whenever an
owner is given up is `targetCopy_cases`, since the role it tests may be a stale copy.
-/

namespace TenantForge

open Gregorian ReadCommitted

/-- Every organization has an owner. -/
def LastOwner (db : Db) : Prop :=
  ∀ organization : Organization, organization ∈ db .organizations →
    ∃ owner : Membership, owner ∈ db .memberships ∧ isOwnerOf organization.id owner = true

/-- The protocol of requests that change owners. -/
def ownerProtocol (T : Type) : Protocol schema Env T where
  inv s := LastOwner s.db ∧ SettledKeys s
  rely _ locks s s' := KeepsHistory locks s s'
  guar _ σ s s' := AddsNamed σ s s'
  assume _ _ _ _ _ := True
  rely_refl _ _ _ := .refl
  rely_trans _ _ _ _ _ h₁ h₂ := h₁.trans h₂
  rely_mono _ _ _ _ _ hl h := h.mono hl

section Protocol

variable {T : Type} {tag : T} {σ : Session schema} {s : Shared schema Env T}

theorem ownerProtocol_remembers : Remembers (ownerProtocol T) :=
  ⟨fun _ h => h.2, fun _ _ _ _ h => h, fun _ _ _ _ h => h⟩

theorem ownerProtocol_tolerates : (ownerProtocol T).Tolerates Env.Drawn where
  env _ _ _ _ h _ := ⟨⟨h.1, h.2.stable, h.2.drawn⟩, .of_same fun _ => Iff.rfl⟩
  draw _ _ s h := ⟨⟨h.1, h.2.stable, fun m hm hid =>
    h.2.drawn m hm ((Supply.leads_tail s.ids).holds hid)⟩, .of_same fun _ => Iff.rfl⟩

theorem ownerProtocol_respects (a b : T) : Respects (ownerProtocol T) a b :=
  fun _ _ _ _ hcompat h => h.keepsHistory hcompat

theorem ownerProtocol_allows {s₀ : Shared schema Env T}
    (hs : Interferes (ownerProtocol T) tag σ s₀ s) (hsettled : Settled σ s)
    (h : LastOwner (σ.view s.db)) : (ownerProtocol T).Allows tag σ s (s.commit tag σ) := by
  obtain ⟨hkeys, hadds⟩ := hs.inv.2.commit tag (hs.sound.integral hs.integral) hsettled
  exact ⟨⟨h, hkeys⟩, hadds⟩

/-! ### The commits -/

/-- Owners are not lost when a membership joins. -/
theorem lastOwner_of_joined {m : Membership} (hm : σ.writes .memberships = [(m.id, some m)])
    (hvacant : σ.Vacant s.db .memberships m.id)
    (howners : ∀ organization : Organization, organization ∈ σ.view s.db .organizations →
      organization ∈ s.db .organizations ∨ isOwnerOf organization.id m = true)
    (h : LastOwner s.db) : LastOwner (σ.view s.db) := by
  have hview : ∀ row : Membership, row ∈ σ.view s.db .memberships ↔
      (row ∈ s.db .memberships ∧ row.id ≠ m.id) ∨ some m = some row :=
    fun row => Overlay.mem_apply_single hm
  intro organization horg
  rcases howners organization horg with horg | howner
  · obtain ⟨owner, howner, hof⟩ := h organization horg
    exact ⟨owner, (hview owner).mpr (Or.inl ⟨howner,
      Store.lookup_eq_none.mp hvacant.current owner howner⟩), hof⟩
  · exact ⟨m, (hview m).mpr (Or.inr rfl), howner⟩

variable {s' : Shared schema Env T} {σ₀ : Session schema}

theorem OrganizationCreated.lastOwner {actor : User} {organization : Organization}
    {owner : Membership} (h : OrganizationCreated rt (ownerProtocol T) tag actor σ₀ σ s organization owner)
    (hclean : σ₀.writes = .empty) (hs : Interferes (ownerProtocol T) tag σ s s') :
    LastOwner (σ.view s'.db) := by
  obtain ⟨subscription, current, entry, _, _, _, hw⟩ := h.written
  refine lastOwner_of_joined (h.joins hclean)
    ((h.ownerVacant (by rw [hclean]; rfl)).frozen hs.frozen) (fun row hrow => ?_) hs.inv.1
  have horg : σ.writes .organizations = [(organization.id, some organization)] := by
    simp [hw, hclean, Overlay.put_table_self]
  rcases (Overlay.mem_apply_single horg).mp hrow with ⟨hrow, _⟩ | hrow
  · exact Or.inl hrow
  · cases hrow
    simp [isOwnerOf, h.organizationId, h.role]

theorem InvitationAccepted.lastOwner {rt : Runtime} {rawToken : String} {user : User}
    {row : Invitation} {accepted : DateTime} {membership : Membership}
    (h : InvitationAccepted rt (ownerProtocol T) tag rawToken user σ₀ σ s row accepted membership)
    (hclean : σ₀.writes = .empty) (hs : Interferes (ownerProtocol T) tag σ s s') :
    LastOwner (σ.view s'.db) := by
  obtain ⟨entry, _, hw⟩ := h.written
  refine lastOwner_of_joined (h.joins hclean) ((h.vacant (by rw [hclean]; rfl)).frozen hs.frozen)
    (fun organization horg => Or.inl ?_) hs.inv.1
  rwa [Session.view_of_nil (by simp [hw, hclean])] at horg

section Change

variable {rt : Runtime} {organizationId membershipId : Uuid} {credentials : Option Credentials}
  {allowed : Role → Bool} {user : User} {membership actorRow targetRow : Membership}
  {s₀ : Shared schema Env T}

/-- Giving up an owner takes another one, since the guard is not fooled by a stale copy. -/
theorem anotherOwner_of_owner (hs : Interferes (ownerProtocol T) tag σ s s)
    (hentered : Entered rt (ownerProtocol T) tag organizationId credentials allowed user membership σ₀ s₀)
    (hever : EverMember s membership)
    (hlocked : MembershipsLocked (ownerProtocol T) tag organizationId membershipId user.id σ₀ σ s.db
      actorRow targetRow)
    (hpermitted : (actorCopy σ₀ actorRow).role = .owner ∨
      ((actorCopy σ₀ actorRow).role = .admin ∧ (targetCopy σ₀ actorRow targetRow).role = .member))
    (hguard : (targetCopy σ₀ actorRow targetRow).role = .owner →
      AnotherOwner organizationId targetRow.id σ s.db) (howner : targetRow.role = .owner) :
    AnotherOwner organizationId targetRow.id σ s.db := by
  refine hguard ?_
  rcases targetCopy_cases ownerProtocol_remembers hs.inv hs.integral hentered hever hlocked with
    hfresh | ⟨_, hself⟩
  · rw [hfresh, howner]
  · rcases hpermitted with hactor | ⟨hactor, htarget⟩
    · rw [hself, hactor]
    · rw [hself, hactor] at htarget
      cases htarget

/-- The version of one member of an organization that has another owner may be anything. -/
theorem lastOwner_of_changed {version : Option Membership}
    (hw : σ.writes .memberships = [(targetRow.id, version)]) (horg : σ.writes .organizations = [])
    (htarget : σ.Locked s.db (t := .memberships) targetRow)
    (howner : targetRow.role = .owner →
      (∃ row, version = some row ∧ isOwnerOf targetRow.organizationId row = true) ∨
      AnotherOwner targetRow.organizationId targetRow.id σ s.db)
    (hdb : s.db.Integral) (h : LastOwner s.db) : LastOwner (σ.view s.db) := by
  have hview : ∀ row : Membership, row ∈ σ.view s.db .memberships ↔
      (row ∈ s.db .memberships ∧ row.id ≠ targetRow.id) ∨ version = some row :=
    fun row => Overlay.mem_apply_single hw
  intro organization hmem
  rw [Session.view_of_nil horg] at hmem
  obtain ⟨owner, hmem, hof⟩ := h organization hmem
  by_cases hid : owner.id = targetRow.id
  · obtain rfl := hdb.eq_of_id (t := .memberships) hmem htarget.mem hid
    simp only [isOwnerOf, Bool.and_eq_true, decide_eq_true_eq] at hof
    rcases howner hof.2 with ⟨row, hsome, hrole⟩ | ⟨other, hlocked, hother, hne⟩
    · exact ⟨row, (hview row).mpr (Or.inr hsome), hof.1 ▸ hrole⟩
    · exact ⟨other, (hview other).mpr (Or.inl ⟨hlocked.mem, hne⟩), hof.1 ▸ hother⟩
  · exact ⟨owner, (hview owner).mpr (Or.inl ⟨hmem, hid⟩), hof⟩

theorem RoleChanged.lastOwner {newRole : Role}
    (h : RoleChanged rt (ownerProtocol T) tag organizationId membershipId user.id newRole σ₀ σ s.db
      actorRow targetRow)
    (hentered : Entered rt (ownerProtocol T) tag organizationId credentials allowed user membership σ₀ s₀)
    (hever : EverMember s membership) (hs : Interferes (ownerProtocol T) tag σ s s) :
    LastOwner (σ.view s.db) := by
  have horg : σ.writes .organizations = [] := by
    obtain ⟨entry, _, hw⟩ := h.written
    rw [hw, hentered.writes]
    split <;> simp
  have htarget := h.locked.targetOf
  simp only [isMembershipId, Bool.and_eq_true, decide_eq_true_eq] at htarget
  rcases h.writes_memberships hentered.writes with ⟨_, hw⟩ | hw
  · rw [LastOwner, Session.view_of_nil horg, Session.view_of_nil hw]
    exact hs.inv.1
  · refine lastOwner_of_changed hw horg h.locked.targetLocked (fun howner => ?_) hs.integral hs.inv.1
    by_cases hnew : newRole = .owner
    · exact Or.inl ⟨_, rfl, by simp [isOwnerOf, hnew]⟩
    · rw [htarget.2]
      exact Or.inr (anotherOwner_of_owner hs hentered hever h.locked
        (h.permitted.imp_right fun hadmin => ⟨hadmin.1, hadmin.2.1⟩)
        (fun hrole => h.anotherOwner hrole hnew) howner)

theorem MemberRemoved.lastOwner
    (h : MemberRemoved rt (ownerProtocol T) tag organizationId membershipId user.id σ₀ σ s.db
      actorRow targetRow)
    (hentered : Entered rt (ownerProtocol T) tag organizationId credentials allowed user membership σ₀ s₀)
    (hever : EverMember s membership) (hs : Interferes (ownerProtocol T) tag σ s s) :
    LastOwner (σ.view s.db) := by
  obtain ⟨entry, _, hw⟩ := h.written
  have htarget := h.locked.targetOf
  simp only [isMembershipId, Bool.and_eq_true, decide_eq_true_eq] at htarget
  refine lastOwner_of_changed (h.writes_memberships hentered.writes) (by simp [hw, hentered.writes])
    h.locked.targetLocked (fun howner => Or.inr ?_) hs.integral hs.inv.1
  rw [htarget.2]
  exact anotherOwner_of_owner hs hentered hever h.locked h.permitted h.anotherOwner howner

end Change

/-- With the organization all its memberships go; the other organizations keep theirs. -/
theorem OrganizationDeleted.lastOwner {organizationId actorId : Uuid}
    (h : OrganizationDeleted organizationId actorId σ₀ σ s.db) (hclean : σ₀.writes = .empty)
    (hs : Interferes (ownerProtocol T) tag σ s s) : LastOwner (σ.view s.db) := by
  intro organization hmem
  rcases (Overlay.mem_apply_single (h.writes_organizations hclean)).mp hmem with ⟨hmem, hne⟩ | hmem
  · obtain ⟨owner, howner, hof⟩ := hs.inv.1 organization hmem
    refine ⟨owner, hs.sound.mem_view.mpr (Or.inl ⟨howner, ?_⟩), hof⟩
    cases hfind : σ.writes.find .memberships (schema.id (t := .memberships) owner) with
    | none => rfl
    | some version =>
      obtain ⟨_, row, hid, hrow, hmem⟩ := h.gone hclean (by decide) (by decide) hfind
      obtain rfl := hs.integral.eq_of_id (t := .memberships) hmem howner hid
      simp only [isOwnerOf, Bool.and_eq_true, decide_eq_true_eq] at hof
      exact absurd (hof.1.symm.trans (Option.some.inj hrow)) hne
  · cases hmem

end Protocol

/-! ### The requests -/

/-- The requests that create or delete organizations, add members, or change or remove them. -/
def Request.changesOwners : Request → Bool
  | .createOrganization _ _ | .acceptInvitation _ _ => true
  | .tenant _ _ (.updateMember _ _) | .tenant _ _ (.removeMember _) => true
  | .tenant _ _ .deleteOrganization => true
  | _ => false

section Requests

variable {T : Type} {tag : T} {rt : Runtime} {organizationId : Uuid}
  {credentials : Option Credentials} {user : User} {membership : Membership}
  {σ : Session schema} {s : Shared schema Env T}

/-- The body of a request is done, and its commit keeps the owners. -/
def Done (tag : T) {α : Type} (_ : α) (σ : Session schema) (s : Shared schema Env T) : Prop :=
  ∀ s', Interferes (ownerProtocol T) tag σ s s' →
    (ownerProtocol T).Allows tag σ s' (s'.commit tag σ) ∧ True

theorem wp_updateMember_done {allowed : Role → Bool} {membershipId : Uuid} {role : Role}
    (hentered : Entered rt (ownerProtocol T) tag organizationId credentials allowed user membership σ s) :
    wp (ownerProtocol T) tag (Done tag) (fun _ _ _ => True)
      (updateMembership rt organizationId membershipId user.id role) σ s := by
  have hclean : σ.writes .memberships = [] := by rw [hentered.writes]; rfl
  refine wp_mono ?_ (fun _ _ _ _ => trivial) _ _ _ (wp_remembering ownerProtocol_remembers hentered
    (wp_updateMembership (Q := fun _ σ' s' => ∃ actorRow targetRow,
        RoleChanged rt (ownerProtocol T) tag organizationId membershipId user.id role σ σ' s'.db actorRow
          targetRow) ownerProtocol_tolerates harmless_true hclean
      fun actorRow targetRow σ' s' _ hchanged => ⟨actorRow, targetRow, hchanged⟩))
  rintro _ σ' s' ⟨⟨actorRow, targetRow, hchanged⟩, hever⟩ s'' hs
  have hlater := hchanged.later hs
  exact ⟨ownerProtocol_allows hs (hlater.settled hentered.writes)
    (hlater.lastOwner hentered (hs.rely.kept _ hever) hs.now), trivial⟩

theorem wp_removeMember_done {allowed : Role → Bool} {membershipId : Uuid}
    (hentered : Entered rt (ownerProtocol T) tag organizationId credentials allowed user membership σ s) :
    wp (ownerProtocol T) tag (Done tag) (fun _ _ _ => True)
      (removeMembership rt organizationId membershipId user.id) σ s := by
  have hclean : σ.writes .memberships = [] := by rw [hentered.writes]; rfl
  refine wp_mono ?_ (fun _ _ _ _ => trivial) _ _ _ (wp_remembering ownerProtocol_remembers hentered
    (wp_removeMembership (Q := fun _ σ' s' => ∃ actorRow targetRow,
        MemberRemoved rt (ownerProtocol T) tag organizationId membershipId user.id σ σ' s'.db actorRow
          targetRow) ownerProtocol_tolerates harmless_true hclean
      fun actorRow targetRow σ' s' _ hremoved => ⟨actorRow, targetRow, hremoved⟩))
  rintro _ σ' s' ⟨⟨actorRow, targetRow, hremoved⟩, hever⟩ s'' hs
  have hlater := hremoved.later hs
  exact ⟨ownerProtocol_allows hs (hlater.settled hentered.writes)
    (hlater.lastOwner hentered (hs.rely.kept _ hever) hs.now), trivial⟩

/-- **The step**: each of these requests keeps an owner in every organization, among any others. -/
theorem wp_changesOwners {request : Request} (hrequest : request.changesOwners = true)
    (hnow : Interferes (ownerProtocol T) tag .empty s s) :
    wp (ownerProtocol T) tag (fun _ _ _ => True) (fun _ _ _ => True) (request.handle rt) .empty s := by
  have hD := ownerProtocol_tolerates (T := T)
  rw [Request.handle]
  refine wp_getSession harmless_true ?_
  cases request with
  | createOrganization credentials data =>
    simp only [Request.endpoint, Prog.bind_eq, Prog.map_eq, wp_bind]
    refine wp_getCurrentUser hD harmless_true hnow fun user σ₁ s₁ huser _ _ => ?_
    refine wp_createOrganization hD harmless_true fun organization owner σ₂ s₂ _ hcreated => ?_
    exact fun s₃ hs => ⟨ownerProtocol_allows hs (settled_of_joined ownerProtocol_remembers
      (hcreated.joins huser.writes) (hcreated.named.later (.of_interferes hs) (List.Subset.refl _)))
      (hcreated.lastOwner huser.writes hs), trivial⟩
  | acceptInvitation credentials token =>
    simp only [Request.endpoint, Prog.bind_eq, Prog.map_eq, wp_bind]
    refine wp_getCurrentUser hD harmless_true hnow fun user σ₁ s₁ huser _ _ => ?_
    refine wp_acceptInvitation hD harmless_true (by rw [huser.writes]; rfl)
      fun row accepted joined σ₂ s₂ _ haccepted => ?_
    exact fun s₃ hs => ⟨ownerProtocol_allows hs (settled_of_joined ownerProtocol_remembers
      (haccepted.joins huser.writes) (haccepted.named.later (.of_interferes hs) (List.Subset.refl _)))
      (haccepted.lastOwner huser.writes hs), trivial⟩
  | tenant organizationId credentials call =>
    refine wp_handle_tenant hD harmless_true hnow fun user membership σ₁ s₁ hentered _ => ?_
    cases call with
    | updateMember membershipId role =>
      simp only [TenantCall.operation, Prog.map_eq, wp_bind]
      exact (wp_updateMember_done hentered).then fun _ _ _ hdone => hdone
    | removeMember membershipId =>
      simp only [TenantCall.operation, Prog.bind_eq, wp_bind]
      exact (wp_removeMember_done hentered).then fun _ _ _ hdone => hdone
    | deleteOrganization =>
      simp only [TenantCall.operation, Prog.bind_eq, wp_bind]
      refine wp_deleteOrganization hD harmless_true (by rw [hentered.writes]; rfl)
        (by rw [hentered.writes]; rfl) fun σ₂ s₂ _ hdeleted => ?_
      exact fun s₃ hs => ⟨ownerProtocol_allows hs
        ((hdeleted.later hs).settled hs.sound hentered.writes)
        ((hdeleted.later hs).lastOwner hentered.writes hs.now), trivial⟩
    | _ => cases hrequest
  | _ => cases hrequest

end Requests

/-- **Every organization keeps an owner**: in every state that any interleaving of these requests
reaches, aborts and crashes included. -/
theorem lastOwner_of_reach (rt : Runtime) {s : Shared schema Env Request} {requests : List Request}
    {w : World schema Env Exn Request Response} (hlog : s.log = [])
    (hids : ∀ m : Membership, m ∈ s.db .memberships → ¬s.ids.Holds m.id) (hdb : s.db.Integral)
    (hinit : LastOwner s.db) (hrequests : ∀ request ∈ requests, request.changesOwners = true)
    (hreach : (World.start s requests fun request => request.handle rt).Reach w) :
    LastOwner w.shared.db := by
  have hinv : (ownerProtocol Request).inv s := ⟨hinit, settledKeys_of_log hlog hids hdb⟩
  have hstart : (World.start s requests fun request => request.handle rt).Ok (ownerProtocol Request)
      fun _ _ _ _ => True :=
    .start hinv hdb (.of_forall ownerProtocol_respects requests) fun request hrequest =>
      wp_changesOwners (hrequests request hrequest)
        (.refl hinv hdb (.of_writes_empty hdb rfl))
  exact (hreach.ok (fun _ _ _ _ _ _ _ => by
    cases ‹Prog schema Env Exn Response› <;> trivial) (fun _ _ => stable_true) hstart).inv.1

namespace Reference

/-- Two owners of one organization. -/
def twoOwners : Tables where
  users := [user 1, user 2]
  organizations := [organization 5]
  memberships := [member 11 1 5 .owner, member 12 2 5 .owner]

/-- Each of them gives up the role. -/
def resignations : List Request :=
  [.tenant 5 (bearer 1) (.updateMember 11 .member), .tenant 5 (bearer 2) (.updateMember 12 .member)]

/-- Both have passed their dependencies before one of them goes on to its end, then the other. -/
def resignTogether : World schema Env Exn Request Response :=
  (World.start (shared Request (fun _ => noon 1) twoOwners) resignations
    fun request => request.handle runtime).playAll
    (List.replicate 7 (Move.run 0) ++ List.replicate 7 (Move.run 1) ++ List.replicate 40 (Move.run 0) ++
      List.replicate 40 (Move.run 1))

theorem lastOwner_of_resignations : LastOwner resignTogether.shared.db :=
  lastOwner_of_reach runtime rfl
    (fun m hm => not_holds_of_lt ((by decide : ∀ m ∈ twoOwners.memberships, m.id < 1000) m hm))
    (ValidDb.integral (by decide +kernel))
    (fun organization h => ⟨member 11 1 5 .owner, List.mem_cons_self, by
      obtain rfl := List.mem_singleton.mp h
      decide⟩)
    (by simp [resignations, Request.changesOwners]) (World.reach_playAll _ _)

example : (resignTogether.shared.db .memberships).map Membership.role = [.owner, .member] := by
  decide +kernel

end Reference

end TenantForge
