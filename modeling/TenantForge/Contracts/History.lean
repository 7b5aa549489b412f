import TenantForge.Contracts.Invitations
import TenantForge.Contracts.Memberships
import TenantForge.Contracts.Organizations
import TenantForge.Contracts.Requests
/-!
# The history of memberships

A request decides about rows that it loaded before it locked them. What makes this sound is that a
primary key never changes hands: every membership that was ever committed under an id belonged to the
same user and the same organization (`SettledKeys`), because a new membership takes an id that its
transaction drew (`AddsNamed`). `targetCopy_cases` draws the conclusion for `update_membership` and
`remove_membership`: the copy of the target is its locked row, or it is the actor's own copy.
-/

namespace TenantForge

open Gregorian ReadCommitted

variable {T : Type}

/-- The membership is committed now, or it was before some commit. -/
def EverMember (s : Shared schema Env T) (m : Membership) : Prop :=
  m ∈ s.db .memberships ∨ ∃ c ∈ s.log, m ∈ c.before .memberships

/-- An id belongs to one user and one organization, and was drawn before. -/
structure SettledKeys (s : Shared schema Env T) : Prop where
  stable : ∀ a b, EverMember s a → EverMember s b → a.id = b.id →
    a.userId = b.userId ∧ a.organizationId = b.organizationId
  drawn : ∀ m, EverMember s m → ¬s.ids.Holds m.id

/-- The history grows, but not by the names that are held. -/
structure KeepsHistory (locks : List (Held schema)) (s s' : Shared schema Env T) : Prop where
  kept : ∀ m, EverMember s m → EverMember s' m
  unseen : ∀ held ∈ locks, ∀ id, held.key = .name id → (∀ m, EverMember s m → m.id ≠ id) →
    ∀ m, EverMember s' m → m.id ≠ id

/-- What is new in the history has a name that the session drew. -/
structure AddsNamed (σ : Session schema) (s s' : Shared schema Env T) : Prop where
  kept : ∀ m, EverMember s m → EverMember s' m
  named : ∀ m, EverMember s' m → (∃ old, EverMember s old ∧ old.id = m.id) ∨
    ∃ held ∈ σ.locks, held.key = .name m.id ∧ held.mode = .forUpdate

namespace KeepsHistory

variable {locks locks' : List (Held schema)} {s s₁ s₂ : Shared schema Env T}

theorem refl : KeepsHistory locks s s := ⟨fun _ h => h, fun _ _ _ _ h => h⟩

theorem trans (h₁ : KeepsHistory locks s s₁) (h₂ : KeepsHistory locks s₁ s₂) :
    KeepsHistory locks s s₂ :=
  ⟨fun m h => h₂.kept m (h₁.kept m h), fun held hmem id hkey h =>
    h₂.unseen held hmem id hkey (h₁.unseen held hmem id hkey h)⟩

theorem mono (hl : locks ⊆ locks') (h : KeepsHistory locks' s s₁) : KeepsHistory locks s s₁ :=
  ⟨h.kept, fun held hmem => h.unseen held (hl hmem)⟩

end KeepsHistory

/-- Names that one session adds are names that no other session holds. -/
theorem AddsNamed.keepsHistory {σ : Session schema} {locks : List (Held schema)}
    {s s' : Shared schema Env T} (h : AddsNamed σ s s') (hcompat : Compatible σ.locks locks) :
    KeepsHistory locks s s' := by
  refine ⟨h.kept, fun held hmem id hkey hunseen m hm hid => ?_⟩
  rcases h.named m hm with ⟨old, hold, holdId⟩ | ⟨own, hown, hownKey, hmode⟩
  · exact hunseen old hold (holdId.trans hid)
  · have := hcompat own hown held hmem (by rw [hownKey, hkey, hid])
    simp [hmode] at this

/-- A step that commits nothing. -/
theorem AddsNamed.of_same {σ : Session schema} {s s' : Shared schema Env T}
    (h : ∀ m, EverMember s' m ↔ EverMember s m) : AddsNamed σ s s' :=
  ⟨fun m hm => (h m).mpr hm, fun m hm => Or.inl ⟨m, (h m).mp hm, rfl⟩⟩

theorem everMember_commit {tag : T} {σ : Session schema} {s : Shared schema Env T} {m : Membership} :
    EverMember (s.commit tag σ) m ↔ EverMember s m ∨ m ∈ σ.view s.db .memberships := by
  simp only [EverMember, Shared.commit, List.mem_cons, exists_eq_or_imp]
  exact or_comm

/-- A membership that a commit may make: a committed one with the same key, or one with a new name. -/
def Settles (σ : Session schema) (s : Shared schema Env T) (m : Membership) : Prop :=
  (∃ old, old ∈ s.db .memberships ∧ old.id = m.id ∧ old.userId = m.userId ∧
    old.organizationId = m.organizationId) ∨
  ((∀ a, EverMember s a → a.id ≠ m.id) ∧ ¬s.ids.Holds m.id ∧
    ∃ held ∈ σ.locks, held.key = .name m.id ∧ held.mode = .forUpdate)

theorem SettledKeys.commit {σ : Session schema} {s : Shared schema Env T} (h : SettledKeys s)
    (tag : T) (hview : (σ.view s.db).Integral)
    (hrows : ∀ m ∈ σ.view s.db .memberships, Settles σ s m) :
    SettledKeys (s.commit tag σ) ∧ AddsNamed σ s (s.commit tag σ) := by
  -- every member of the new history has an old one with its key, or is a new row
  have hcases : ∀ m, EverMember (s.commit tag σ) m →
      (∃ old, EverMember s old ∧ old.id = m.id ∧ old.userId = m.userId ∧
        old.organizationId = m.organizationId) ∨
      (m ∈ σ.view s.db .memberships ∧ (∀ a, EverMember s a → a.id ≠ m.id) ∧ ¬s.ids.Holds m.id ∧
        ∃ held ∈ σ.locks, held.key = .name m.id ∧ held.mode = .forUpdate) := by
    intro m hm
    rcases everMember_commit.mp hm with hm | hm
    · exact Or.inl ⟨m, hm, rfl, rfl, rfl⟩
    · rcases hrows m hm with ⟨old, hold, hkey⟩ | hnew
      · exact Or.inl ⟨old, Or.inl hold, hkey⟩
      · exact Or.inr ⟨hm, hnew⟩
  refine ⟨⟨fun a b ha hb hid => ?_, fun m hm => ?_⟩,
    fun m hm => everMember_commit.mpr (Or.inl hm), fun m hm => ?_⟩
  · rcases hcases a ha with ⟨a₀, ha₀, haid, hauser, haorg⟩ | ⟨ha, hanew, _⟩ <;>
      rcases hcases b hb with ⟨b₀, hb₀, hbid, hbuser, hborg⟩ | ⟨hb, hbnew, _⟩
    · obtain ⟨huser, horg⟩ := h.stable a₀ b₀ ha₀ hb₀ (haid.trans (hid.trans hbid.symm))
      exact ⟨hauser.symm.trans (huser.trans hbuser), haorg.symm.trans (horg.trans hborg)⟩
    · exact absurd (haid.trans hid) (hbnew a₀ ha₀)
    · exact absurd (hbid.trans hid.symm) (hanew b₀ hb₀)
    · obtain rfl := hview.eq_of_id (t := .memberships) ha hb hid
      exact ⟨rfl, rfl⟩
  · rcases hcases m hm with ⟨old, hold, hid, _⟩ | ⟨_, _, hdrawn, _⟩
    · exact hid ▸ h.drawn old hold
    · exact hdrawn
  · rcases hcases m hm with ⟨old, hold, hid, _⟩ | ⟨_, _, _, hname⟩
    · exact Or.inl ⟨old, hold, hid⟩
    · exact Or.inr hname

/-- At the beginning, the history is the committed table. -/
theorem settledKeys_of_log {s : Shared schema Env T} (hlog : s.log = [])
    (hids : ∀ m : Membership, m ∈ s.db .memberships → ¬s.ids.Holds m.id) (hdb : s.db.Integral) :
    SettledKeys s := by
  have hever : ∀ m, EverMember s m → m ∈ s.db .memberships := fun m hm => by
    simpa [EverMember, hlog] using hm
  refine ⟨fun a b ha hb hid => ?_, fun m hm => hids m (hever m hm)⟩
  rw [hdb.eq_of_id (t := .memberships) (hever a ha) (hever b hb) hid]
  exact ⟨rfl, rfl⟩

/-! ### Protocols that keep the history -/

/-- The invariant and the rely of the protocol keep the history of memberships. -/
structure Remembers (P : Protocol schema Env T) : Prop where
  settled : ∀ s, P.inv s → SettledKeys s
  rely : ∀ tag locks s s', P.rely tag locks s s' → KeepsHistory locks s s'
  guar : ∀ tag σ s s', P.guar tag σ s s' → AddsNamed σ s s'

variable {P : Protocol schema Env T} {tag : T} {σ : Session schema} {s s' : Shared schema Env T}

theorem Later.keepsHistory (hP : Remembers P) {locks : List (Held schema)}
    (h : Later P tag locks s s') : KeepsHistory locks s s' := by
  induction h with
  | refl => exact .refl
  | others _ _ hrely _ _ ih => exact ih.trans (hP.rely _ _ _ _ hrely)
  | drawn _ _ ih => exact ⟨ih.kept, ih.unseen⟩
  | named _ ih => exact ⟨ih.kept, ih.unseen⟩

/-- A name that the session drew is new to the history, and will not be drawn again. -/
theorem Named.unseen (hP : Remembers P) {id : Uuid} (h : Named P tag id σ s) :
    (∀ m, EverMember s m → m.id ≠ id) ∧ ¬s.ids.Holds id ∧
      ∃ held ∈ σ.locks, held.key = .name id ∧ held.mode = .forUpdate := by
  obtain ⟨s₁, locks, hinv, rfl, ⟨held, hmem, hkey, hmode⟩, hsub, hlater⟩ := h
  have hold : ∀ m, EverMember s₁.draw m → m.id ≠ s₁.ids.head := fun m hm hid =>
    (hP.settled s₁ hinv).drawn m hm (hid ▸ s₁.ids.holds_head)
  exact ⟨(hlater.keepsHistory hP).unseen held hmem _ hkey hold, hlater.ids.not_holds_head,
    held, hsub hmem, hkey, hmode⟩

/-- A request of a tenant route goes on with a membership that was committed once. -/
theorem wp_remembering {rt : Runtime} (hP : Remembers P) {organizationId : Uuid}
    {credentials : Option Credentials} {allowed : Role → Bool} {user : User} {membership : Membership}
    {α : Type} {Q : α → Assertion schema Env T} {R : Exn → Assertion schema Env T} {p : App α}
    (h : Entered rt P tag organizationId credentials allowed user membership σ s)
    (hwp : wp P tag Q R p σ s) :
    wp P tag (fun value σ' s' => Q value σ' s' ∧ EverMember s' membership)
      (fun error σ' s' => R error σ' s' ∧ EverMember s' membership) p σ s := by
  obtain ⟨s₀, _, hmem, hlater⟩ := h.seen
  exact wp_keep (fun _ _ _ hrely => (hP.rely _ _ _ _ hrely).kept _)
    (fun _ _ _ hguar => (hP.guar _ _ _ _ hguar).kept _)
    ((hlater.keepsHistory hP).kept _ (Or.inl hmem)) hwp

section Target

variable {organizationId membershipId : Uuid} {credentials : Option Credentials}
  {allowed : Role → Bool} {user : User} {membership actorRow targetRow : Membership} {rt : Runtime}
  {σ₀ : Session schema} {s₀ : Shared schema Env T}

/-- In the session of a tenant route, the copy of the target is its locked row, unless the target is the
actor itself; then it is the copy on which the actor is judged. -/
theorem targetCopy_cases (hP : Remembers P) (hinv : P.inv s) (hdb : s.db.Integral)
    (hentered : Entered rt P tag organizationId credentials allowed user membership σ₀ s₀)
    (hever : EverMember s membership)
    (hlocked : MembershipsLocked P tag organizationId membershipId user.id σ₀ σ s.db actorRow targetRow) :
    targetCopy σ₀ actorRow targetRow = targetRow ∨
      (targetRow = actorRow ∧ targetCopy σ₀ actorRow targetRow = actorCopy σ₀ actorRow) := by
  have hactor := hlocked.actorOf
  have hmember := hentered.member
  have htarget := hlocked.targetOf
  simp only [isMembership, isMembershipId, anyRole, Bool.and_true, Bool.and_eq_true,
    decide_eq_true_eq] at hactor hmember htarget
  have hcopy : targetCopy σ₀ actorRow targetRow = if actorRow.id = targetRow.id then
      actorCopy σ₀ actorRow else σ₀.copyOf (t := .memberships) targetRow :=
    σ₀.copyOf_attach (S := schema) (t := .memberships) actorRow targetRow
  by_cases hid : actorRow.id = targetRow.id
  · rw [if_pos hid] at hcopy
    exact Or.inr ⟨hdb.eq_of_id (t := .memberships) hlocked.targetLocked.mem hlocked.actorLocked.mem
      hid.symm, hcopy⟩
  · rw [if_neg hid, Session.copyOf, hentered.loaded] at hcopy
    refine Or.inl (hcopy.trans ?_)
    by_cases hstale : membership.id = targetRow.id
    · -- the id of the actor's old membership would now be somebody else's
      obtain ⟨huser, _⟩ := (hP.settled s hinv).stable _ _ hever (Or.inl hlocked.targetLocked.mem) hstale
      have hsame := hdb.unique .memberships targetRow hlocked.targetLocked.mem actorRow
        hlocked.actorLocked.mem (.member user.id organizationId)
        (by simp [uniqueValues, ← huser, hmember, htarget]) (by simp [uniqueValues, hactor])
      exact absurd hsame.symm hid
    · simp [rowId, hstale]

end Target

/-! ### What the operations commit -/

theorem Membership.settles_of_mem {m : Membership} (h : m ∈ s.db .memberships) : Settles σ s m :=
  Or.inl ⟨m, h, rfl, rfl, rfl⟩

/-- Every membership that the commit of a session would leave has a settled key. -/
def Settled (σ : Session schema) (s : Shared schema Env T) : Prop :=
  ∀ m ∈ σ.view s.db .memberships, Settles σ s m

theorem settled_of_clean (hclean : σ.writes .memberships = []) : Settled σ s := fun m hm => by
  rw [Session.view_of_nil hclean] at hm
  exact Membership.settles_of_mem hm

/-- A membership that joins a clean table under a name of its own. -/
theorem settled_of_joined (hP : Remembers P) {m : Membership}
    (hm : σ.writes .memberships = [(m.id, some m)]) (hnamed : Named P tag m.id σ s) : Settled σ s := by
  intro row hrow
  rcases (Overlay.mem_apply_single hm).mp hrow with ⟨hrow, _⟩ | hrow
  · exact Membership.settles_of_mem hrow
  · cases hrow
    obtain ⟨hunseen, hdrawn, hname⟩ := hnamed.unseen hP
    exact Or.inr ⟨hunseen, hdrawn, hname⟩

/-- A version of one member that keeps its key. -/
theorem settled_of_changed {target : Membership} {version : Option Membership}
    (hw : σ.writes .memberships = [(target.id, version)]) (htarget : target ∈ s.db .memberships)
    (hversion : ∀ row, version = some row → row.id = target.id ∧ row.userId = target.userId ∧
      row.organizationId = target.organizationId) : Settled σ s := by
  intro row hrow
  rcases (Overlay.mem_apply_single hw).mp hrow with ⟨hrow, _⟩ | hrow
  · exact Membership.settles_of_mem hrow
  · obtain ⟨hid, huser, hof⟩ := hversion row hrow
    exact Or.inl ⟨target, htarget, hid.symm, huser.symm, hof.symm⟩

section Commits

variable {σ₀ : Session schema}

theorem OrganizationCreated.joins {actor : User} {organization : Organization} {owner : Membership}
    (h : OrganizationCreated rt P tag actor σ₀ σ s organization owner) (hclean : σ₀.writes = .empty) :
    σ.writes .memberships = [(owner.id, some owner)] := by
  obtain ⟨subscription, current, entry, _, _, _, hw⟩ := h.written
  simp [hw, hclean, Overlay.put_table_self]

theorem InvitationAccepted.joins {rt : Runtime} {rawToken : String} {user : User} {row : Invitation}
    {accepted : DateTime} {membership : Membership}
    (h : InvitationAccepted rt P tag rawToken user σ₀ σ s row accepted membership)
    (hclean : σ₀.writes = .empty) : σ.writes .memberships = [(membership.id, some membership)] := by
  obtain ⟨entry, _, hw⟩ := h.written
  simp [hw, hclean, Overlay.put_table_self]

theorem RoleChanged.writes_memberships {organizationId membershipId actorId : Uuid} {newRole : Role}
    {db : Db} {actorRow targetRow : Membership} (hclean : σ₀.writes = .empty)
    (h : RoleChanged rt P tag organizationId membershipId actorId newRole σ₀ σ db actorRow targetRow) :
    (newRole = (targetCopy σ₀ actorRow targetRow).role ∧ σ.writes .memberships = []) ∨
      σ.writes .memberships = [(targetRow.id, some { targetRow with role := newRole })] := by
  obtain ⟨entry, _, hw⟩ := h.written
  rw [hclean] at hw
  by_cases hsame : newRole = (targetCopy σ₀ actorRow targetRow).role
  · rw [if_pos hsame] at hw
    exact Or.inl ⟨hsame, by simp [hw]⟩
  · rw [if_neg hsame] at hw
    exact Or.inr (by simp [hw, Overlay.put_table_self])

theorem RoleChanged.settled {organizationId membershipId actorId : Uuid} {newRole : Role}
    {actorRow targetRow : Membership} (hclean : σ₀.writes = .empty)
    (h : RoleChanged rt P tag organizationId membershipId actorId newRole σ₀ σ s.db actorRow targetRow) :
    Settled σ s := by
  rcases h.writes_memberships hclean with ⟨_, hw⟩ | hw
  · exact settled_of_clean hw
  · refine settled_of_changed hw h.locked.targetLocked.mem fun row hrow => ?_
    cases hrow
    exact ⟨rfl, rfl, rfl⟩

theorem MemberRemoved.writes_memberships {organizationId membershipId actorId : Uuid} {db : Db}
    {actorRow targetRow : Membership} (hclean : σ₀.writes = .empty)
    (h : MemberRemoved rt P tag organizationId membershipId actorId σ₀ σ db actorRow targetRow) :
    σ.writes .memberships = [(targetRow.id, none)] := by
  obtain ⟨entry, _, hw⟩ := h.written
  simp [hw, hclean, Overlay.put_table_self]

theorem MemberRemoved.settled {organizationId membershipId actorId : Uuid}
    {actorRow targetRow : Membership} (hclean : σ₀.writes = .empty)
    (h : MemberRemoved rt P tag organizationId membershipId actorId σ₀ σ s.db actorRow targetRow) :
    Settled σ s :=
  settled_of_changed (h.writes_memberships hclean) h.locked.targetLocked.mem
    fun _ hrow => nomatch hrow

theorem OrganizationDeleted.writes_organizations {organizationId actorId : Uuid} {db : Db}
    (h : OrganizationDeleted organizationId actorId σ₀ σ db) (hclean : σ₀.writes = .empty) :
    σ.writes .organizations = [(organizationId, none)] := by
  obtain ⟨entry, _, _, σ₁, hw, hcascaded⟩ := h.written
  rw [hcascaded.others .organizations (by decide), hw, hclean, Overlay.put_table_of_nil]
  simp

/-- What goes with an organization are rows of its own. -/
theorem OrganizationDeleted.gone {organizationId actorId : Uuid} {db : Db}
    (h : OrganizationDeleted organizationId actorId σ₀ σ db) (hclean : σ₀.writes = .empty) {t : Table}
    (ht : t ∈ childTables) (hne : t ≠ .auditLogs) {id : Uuid} {version : Option (Row t)}
    (hfind : σ.writes.find t id = some version) :
    version = none ∧ ∃ row : Row t, rowId row = id ∧ tenantOf row = some organizationId ∧ row ∈ db t := by
  obtain ⟨entry, _, _, σ₁, hw, hcascaded⟩ := h.written
  have horg : t ≠ .organizations := by rintro rfl; revert ht; decide
  obtain ⟨hversion, row, hid, hof, hlocked⟩ := hcascaded.deleted t ht
    (by rw [hw, hclean, Overlay.put_table_ne _ horg, Overlay.put_table_ne _ hne, Overlay.empty_table])
    id version hfind
  exact ⟨hversion, row, hid, hof, hlocked.mem⟩

theorem OrganizationDeleted.settled {organizationId actorId : Uuid} (hσ : σ.Sound s.db)
    (h : OrganizationDeleted organizationId actorId σ₀ σ s.db) (hclean : σ₀.writes = .empty) :
    Settled σ s := by
  intro m hm
  rcases hσ.mem_view.mp hm with ⟨hm, _⟩ | hfind
  · exact Membership.settles_of_mem hm
  · cases (h.gone hclean (by decide) (by decide) hfind).1

end Commits

end TenantForge
