import TenantForge.Contracts.Frames
import TenantForge.Contracts.History
import TenantForge.ReadCommitted.CommitsLast
/-!
# Requests on invitations

The requests that issue and accept invitations, and those that change or remove members, running side by
side.

`InvitationEffect` lists what such a request can commit. New invitations come under the lock of their
organization only, new members under a lock that keeps others from holding it
(`InvitationEffect.guarded`); so an invariant of the commits holds in every interleaving
(`invitations_of_run`).
-/

namespace TenantForge

open Gregorian ReadCommitted

/-- The requests that issue or accept invitations, or change members. -/
def Request.onInvitations : Request → Bool
  | .acceptInvitation _ _ => true
  | .tenant _ _ (.createInvitation _) | .tenant _ _ (.updateMember _ _)
  | .tenant _ _ (.removeMember _) => true
  | _ => false

/-! ### The protocol -/

/-- No new invitation of the organization is pending. -/
def NoNewInvitations (organizationId : Uuid) (db db' : Db) : Prop :=
  ∀ i : Invitation, i ∈ db' .invitations → i.organizationId = organizationId → i.acceptedAt = none →
    i ∈ db .invitations

def IsMember (userId organizationId : Uuid) (db : Db) : Prop :=
  ∃ m : Membership, m ∈ db .memberships ∧ m.userId = userId ∧ m.organizationId = organizationId

/-- The organization has no new member. -/
def NoNewMembers (organizationId : Uuid) (db db' : Db) : Prop :=
  ∀ userId, IsMember userId organizationId db' → IsMember userId organizationId db

/-- A commit that ends a user's membership. -/
def Leaves {T : Type} (userId organizationId : Uuid) (c : Commit schema T) : Prop :=
  IsMember userId organizationId c.before ∧ ¬IsMember userId organizationId c.after

/-- The clock goes forward, the users stay, and the commits since then end no membership of `keeps`. -/
structure Proceeds {T : Type} (keeps : Uuid → Uuid → Prop) (s s' : Shared schema Env T) : Prop where
  clock : s.env.Onward s'.env
  users : s'.db .users = s.db .users
  log : ∃ recent, s'.log = recent ++ s.log ∧ ∀ c ∈ recent, ∀ userId organizationId,
    keeps userId organizationId → ¬Leaves userId organizationId c

theorem Proceeds.refl {T : Type} {keeps : Uuid → Uuid → Prop} (s : Shared schema Env T) :
    Proceeds keeps s s :=
  ⟨.refl _, rfl, [], rfl, fun _ h => nomatch h⟩

theorem Proceeds.trans {T : Type} {keeps : Uuid → Uuid → Prop} {s₁ s₂ s₃ : Shared schema Env T}
    (h₁ : Proceeds keeps s₁ s₂) (h₂ : Proceeds keeps s₂ s₃) : Proceeds keeps s₁ s₃ := by
  obtain ⟨recent₁, hlog₁, hkept₁⟩ := h₁.log
  obtain ⟨recent₂, hlog₂, hkept₂⟩ := h₂.log
  refine ⟨h₁.clock.trans h₂.clock, h₂.users.trans h₁.users, recent₂ ++ recent₁, ?_, fun c hc => ?_⟩
  · rw [hlog₂, hlog₁, List.append_assoc]
  · rcases List.mem_append.mp hc with hc | hc
    · exact hkept₂ c hc
    · exact hkept₁ c hc

/-- Invitations are issued under the lock of their organization, members join under some lock of it, and
memberships end under their locks. -/
def invitationProtocol
    (assume : Numbered → Session schema → (t : Table) → Row t → Shared schema Env Numbered → Prop)
    (inv : Shared schema Env Numbered → Prop) : Protocol schema Env Numbered where
  inv := inv
  rely _ locks s s' := Proceeds (fun userId organizationId => HoldsMember userId organizationId locks) s s' ∧
    (∀ organizationId, UsesOrganization organizationId locks →
      NoNewInvitations organizationId s.db s'.db) ∧
    ∀ organizationId, HoldsOrganization organizationId locks → NoNewMembers organizationId s.db s'.db
  guar _ σ s s' := Proceeds (fun userId organizationId => ¬HoldsMember userId organizationId σ.locks) s s' ∧
    (∀ organizationId, HoldsOrganization organizationId σ.locks ∨
      NoNewInvitations organizationId s.db s'.db) ∧
    ∀ organizationId, UsesOrganization organizationId σ.locks ∨ NoNewMembers organizationId s.db s'.db
  assume _ _ _ _ _ := True
  assumeInsert := assume
  rely_refl _ _ s := ⟨.refl s, fun _ _ _ hi _ _ => hi, fun _ _ _ h => h⟩
  rely_trans _ _ s₁ s₂ s₃ h₁ h₂ := ⟨h₁.1.trans h₂.1,
    fun organizationId huses i hi hof hpending =>
      h₁.2.1 organizationId huses i (h₂.2.1 organizationId huses i hi hof hpending) hof hpending,
    fun organizationId hheld userId h =>
      h₁.2.2 organizationId hheld userId (h₂.2.2 organizationId hheld userId h)⟩
  rely_mono _ locks locks' s s' hl h := by
    obtain ⟨⟨hclock, husers, recent, hlog, hkept⟩, hinvitations, hmembers⟩ := h
    exact ⟨⟨hclock, husers, recent, hlog, fun c hc userId organizationId hheld =>
        hkept c hc userId organizationId (hheld.mono hl)⟩,
      fun organizationId huses => hinvitations organizationId (huses.mono hl),
      fun organizationId hheld => hmembers organizationId (hheld.mono hl)⟩

section Protocol

variable {assume : Numbered → Session schema → (t : Table) → Row t → Shared schema Env Numbered → Prop}
  {inv : Shared schema Env Numbered → Prop}

theorem invitationProtocol_respects (a b : Numbered) :
    Respects (invitationProtocol assume inv) a b := by
  rintro σ locks s s' hcompat ⟨⟨hclock, husers, recent, hlog, hkept⟩, hinvitations, hmembers⟩
  refine ⟨⟨hclock, husers, recent, hlog, fun c hc userId organizationId hheld => ?_⟩,
    fun organizationId huses => ?_, fun organizationId hheld => ?_⟩
  · exact hkept c hc userId organizationId fun hown => hown.not_both hheld hcompat
  · exact (hinvitations organizationId).resolve_left fun hown => hown.not_uses huses hcompat
  · exact (hmembers organizationId).resolve_left fun hown => hheld.not_uses hown hcompat.symm

theorem Later.proceeds {tag : Numbered} {locks : List (Held schema)} {s s' : Shared schema Env Numbered}
    (h : Later (invitationProtocol assume inv) tag locks s s') :
    Proceeds (fun userId organizationId => HoldsMember userId organizationId locks) s s' := by
  induction h with
  | refl => exact .refl _
  | others _ _ hrely _ _ ih => exact ih.trans hrely.1
  | drawn _ hd ih => exact ih.trans ⟨hd.onward, rfl, [], rfl, fun _ hc => nomatch hc⟩
  | named _ ih => exact ih.trans ⟨.refl _, rfl, [], rfl, fun _ hc => nomatch hc⟩

theorem Later.noNewInvitations {tag : Numbered} {locks : List (Held schema)}
    {s s' : Shared schema Env Numbered} {organizationId : Uuid}
    (h : Later (invitationProtocol assume inv) tag locks s s')
    (huses : UsesOrganization organizationId locks) : NoNewInvitations organizationId s.db s'.db := by
  induction h with
  | refl => exact fun _ hi _ _ => hi
  | others _ _ hrely _ _ ih =>
    exact fun i hi hof hpending => ih i (hrely.2.1 organizationId huses i hi hof hpending) hof hpending
  | drawn _ _ ih => exact ih
  | named _ ih => exact ih

theorem Later.noNewMembers {tag : Numbered} {locks : List (Held schema)}
    {s s' : Shared schema Env Numbered} {organizationId : Uuid}
    (h : Later (invitationProtocol assume inv) tag locks s s')
    (hheld : HoldsOrganization organizationId locks) : NoNewMembers organizationId s.db s'.db := by
  induction h with
  | refl => exact fun _ hm => hm
  | others _ _ hrely _ _ ih => exact fun userId hm => ih userId (hrely.2.2 organizationId hheld userId hm)
  | drawn _ _ ih => exact ih
  | named _ ih => exact ih

/-- An invariant that neither time nor the queue nor a new id ends. -/
structure Timeless (inv : Shared schema Env Numbered → Prop) : Prop where
  env : ∀ s env', inv s → s.env.Onward env' → inv { s with env := env' }
  draw : ∀ s, inv s → inv s.draw

theorem Timeless.tolerates (h : Timeless inv) :
    (invitationProtocol assume inv).Tolerates Env.Onward where
  env _ _ _ _ hinv hd := ⟨h.env _ _ hinv hd,
    ⟨hd, rfl, [], rfl, fun _ hc => nomatch hc⟩, fun _ => Or.inr fun _ hi _ _ => hi,
    fun _ => Or.inr fun _ hm => hm⟩
  draw _ _ _ hinv := ⟨h.draw _ hinv,
    ⟨.refl _, rfl, [], rfl, fun _ hc => nomatch hc⟩, fun _ => Or.inr fun _ hi _ _ => hi,
    fun _ => Or.inr fun _ hm => hm⟩

theorem Timeless.tolerates_drawn (h : Timeless inv) :
    (invitationProtocol assume inv).Tolerates Env.Drawn where
  env tag σ s env' hinv hd := h.tolerates.env tag σ s env' hinv hd.onward
  draw := h.tolerates.draw

end Protocol

/-! ### What a request commits -/

/-- The session of a request at its commit. An idle commit follows that of an invitation. -/
inductive InvitationEffect (rt : Runtime) (P : Protocol schema Env Numbered) :
    Numbered → Session schema → Shared schema Env Numbered → Prop where
  | invited {organizationId credentials data number actorId σ₀ σ s actorRow invitation} :
      σ₀.writes = .empty →
      InvitationIssued rt P (.tenant organizationId credentials (.createInvitation data), number)
        organizationId actorId data σ₀ σ s actorRow invitation →
      InvitationEffect rt P (.tenant organizationId credentials (.createInvitation data), number) σ s
  | accepted {credentials token number user σ₀ σ s row accepted membership} :
      σ₀.writes = .empty → σ₀.loaded .invitations = [] → user ∈ s.db .users →
      InvitationAccepted rt P (.acceptInvitation credentials token, number) token user σ₀ σ s row
        accepted membership →
      InvitationEffect rt P (.acceptInvitation credentials token, number) σ s
  | roleChanged {organizationId credentials membershipId role number actorId σ₀ σ s actorRow targetRow} :
      σ₀.writes = .empty →
      RoleChanged rt P (.tenant organizationId credentials (.updateMember membershipId role), number)
        organizationId membershipId actorId role σ₀ σ s.db actorRow targetRow →
      InvitationEffect rt P
        (.tenant organizationId credentials (.updateMember membershipId role), number) σ s
  | removed {organizationId credentials membershipId number actorId σ₀ σ s actorRow targetRow} :
      σ₀.writes = .empty →
      MemberRemoved rt P (.tenant organizationId credentials (.removeMember membershipId), number)
        organizationId membershipId actorId σ₀ σ s.db actorRow targetRow →
      InvitationEffect rt P
        (.tenant organizationId credentials (.removeMember membershipId), number) σ s
  | idle {job σ s} : σ.writes = .empty → InvitationEffect rt P job σ s

variable {rt : Runtime} {P : Protocol schema Env Numbered} {σ σ₀ : Session schema}
  {s : Shared schema Env Numbered} {job : Numbered}

/-! ### What the effects write -/

theorem InvitationIssued.writes_invitations {T : Type} {P : Protocol schema Env T} {tag : T}
    {s : Shared schema Env T} {organizationId actorId : Uuid} {data : InvitationCreate}
    {actorRow : Membership} {invitation : Invitation} (hclean : σ₀.writes = .empty)
    (h : InvitationIssued rt P tag organizationId actorId data σ₀ σ s actorRow invitation) :
    σ.writes .invitations = [(invitation.id, some invitation)] := by
  obtain ⟨entry, _, hw⟩ := h.written
  simp [hw, hclean, Overlay.put_table_self]

theorem InvitationIssued.others {T : Type} {P : Protocol schema Env T} {tag : T}
    {s : Shared schema Env T} {organizationId actorId : Uuid} {data : InvitationCreate}
    {actorRow : Membership} {invitation : Invitation} (hclean : σ₀.writes = .empty)
    (h : InvitationIssued rt P tag organizationId actorId data σ₀ σ s actorRow invitation) {t : Table}
    (hi : t ≠ .invitations) (ha : t ≠ .auditLogs) : σ.writes t = [] := by
  obtain ⟨entry, _, hw⟩ := h.written
  rw [hw, Overlay.put_table_ne _ ha, Overlay.put_table_ne _ hi, hclean]
  rfl

section Accepted

variable {T : Type} {P : Protocol schema Env T} {tag : T} {s : Shared schema Env T} {token : String}
  {user : User} {row : Invitation} {accepted : DateTime} {membership : Membership}

theorem InvitationAccepted.writes_invitations (hclean : σ₀.writes = .empty)
    (h : InvitationAccepted rt P tag token user σ₀ σ s row accepted membership) :
    σ.writes .invitations = [(row.id, some { row with acceptedAt := some accepted })] := by
  obtain ⟨entry, _, hw⟩ := h.written
  simp [hw, hclean, Overlay.put_table_self]

theorem InvitationAccepted.others (hclean : σ₀.writes = .empty)
    (h : InvitationAccepted rt P tag token user σ₀ σ s row accepted membership) {t : Table}
    (hi : t ≠ .invitations) (hm : t ≠ .memberships) (ha : t ≠ .auditLogs) : σ.writes t = [] := by
  obtain ⟨entry, _, hw⟩ := h.written
  rw [hw, Overlay.put_table_ne _ ha, Overlay.put_table_ne _ hm, Overlay.put_table_ne _ hi, hclean]
  rfl

/-- The copy of the invitation is its locked row. -/
theorem InvitationAccepted.copy (row : Invitation) (hloaded : σ₀.loaded .invitations = []) :
    σ₀.copyOf (t := .invitations) row = row := by
  rw [Session.copyOf, hloaded]
  rfl

end Accepted

theorem RoleChanged.others {T : Type} {P : Protocol schema Env T} {tag : T}
    {organizationId membershipId actorId : Uuid} {newRole : Role} {db : Db}
    {actorRow targetRow : Membership} (hclean : σ₀.writes = .empty)
    (h : RoleChanged rt P tag organizationId membershipId actorId newRole σ₀ σ db actorRow targetRow)
    {t : Table} (hm : t ≠ .memberships) (ha : t ≠ .auditLogs) : σ.writes t = [] := by
  obtain ⟨entry, _, hw⟩ := h.written
  rw [hw, Overlay.put_table_ne _ ha]
  split
  · rw [hclean]; rfl
  · rw [Overlay.put_table_ne _ hm, hclean]; rfl

theorem MemberRemoved.others {T : Type} {P : Protocol schema Env T} {tag : T}
    {organizationId membershipId actorId : Uuid} {db : Db} {actorRow targetRow : Membership}
    (hclean : σ₀.writes = .empty)
    (h : MemberRemoved rt P tag organizationId membershipId actorId σ₀ σ db actorRow targetRow)
    {t : Table} (hm : t ≠ .memberships) (ha : t ≠ .auditLogs) : σ.writes t = [] := by
  obtain ⟨entry, _, hw⟩ := h.written
  rw [hw, Overlay.put_table_ne _ hm, Overlay.put_table_ne _ ha, hclean]
  rfl

/-! ### What the others may see -/

theorem isMember_congr {db db' : Db} (h : db' .memberships = db .memberships) {userId organizationId : Uuid} :
    IsMember userId organizationId db' ↔ IsMember userId organizationId db := by
  rw [IsMember, IsMember, h]

theorem noNewInvitations_of_clean {db : Db} (hw : σ.writes .invitations = []) (organizationId : Uuid) :
    NoNewInvitations organizationId db (σ.view db) := fun i hi _ _ => by
  rwa [Session.view_of_nil hw] at hi

/-- Acceptance closes one invitation, and opens none. -/
theorem InvitationAccepted.noNewInvitations {T : Type} {P : Protocol schema Env T} {tag : T}
    {s : Shared schema Env T} {token : String} {user : User} {row : Invitation} {accepted : DateTime}
    {membership : Membership} (hclean : σ₀.writes = .empty)
    (h : InvitationAccepted rt P tag token user σ₀ σ s row accepted membership) (organizationId : Uuid) :
    NoNewInvitations organizationId s.db (σ.view s.db) := by
  intro i hi _ hpending
  rcases (Overlay.mem_apply_single (h.writes_invitations hclean)).mp hi with ⟨hi, _⟩ | hnew
  · exact hi
  · cases hnew
    cases hpending

theorem noNewMembers_of_clean (db : Db) (hw : σ.writes .memberships = []) (organizationId : Uuid) :
    NoNewMembers organizationId db (σ.view db) := fun _ hmember =>
  (isMember_congr (Session.view_of_nil hw db)).mp hmember

/-- A changed role makes nobody a member. -/
theorem RoleChanged.noNewMembers {T : Type} {P : Protocol schema Env T} {tag : T}
    {organizationId membershipId actorId : Uuid} {newRole : Role} {db : Db}
    {actorRow targetRow : Membership} (hclean : σ₀.writes = .empty)
    (h : RoleChanged rt P tag organizationId membershipId actorId newRole σ₀ σ db actorRow targetRow)
    (of : Uuid) : NoNewMembers of db (σ.view db) := by
  rcases h.writes_memberships hclean with ⟨_, hw⟩ | hw
  · exact noNewMembers_of_clean _ hw of
  · rintro userId ⟨m, hm, huser, hof⟩
    rcases (Overlay.mem_apply_single hw).mp hm with ⟨hm, _⟩ | hnew
    · exact ⟨m, hm, huser, hof⟩
    · cases hnew
      exact ⟨targetRow, h.locked.targetLocked.mem, huser, hof⟩

theorem MemberRemoved.noNewMembers {T : Type} {P : Protocol schema Env T} {tag : T}
    {organizationId membershipId actorId : Uuid} {db : Db} {actorRow targetRow : Membership}
    (hclean : σ₀.writes = .empty)
    (h : MemberRemoved rt P tag organizationId membershipId actorId σ₀ σ db actorRow targetRow) (of : Uuid) :
    NoNewMembers of db (σ.view db) := by
  rintro userId ⟨m, hm, huser, hof⟩
  rcases (Overlay.mem_apply_single (h.writes_memberships hclean)).mp hm with ⟨hm, _⟩ | hnew
  · exact ⟨m, hm, huser, hof⟩
  · cases hnew

/-- A removed member makes room for its own place only. -/
theorem MemberRemoved.isMember {T : Type} {P : Protocol schema Env T} {tag : T}
    {organizationId membershipId actorId : Uuid} {db : Db} {actorRow targetRow : Membership}
    (hdb : db.Integral) (hclean : σ₀.writes = .empty)
    (h : MemberRemoved rt P tag organizationId membershipId actorId σ₀ σ db actorRow targetRow)
    {userId of : Uuid} (hmember : IsMember userId of db) :
    IsMember userId of (σ.view db) ∨ HoldsMember userId of σ.locks := by
  obtain ⟨m, hm, rfl, rfl⟩ := hmember
  by_cases hid : m.id = targetRow.id
  · obtain rfl := hdb.eq_of_id (t := .memberships) hm h.locked.targetLocked.mem hid
    exact Or.inr (h.keyed (by rw [hclean]; rfl))
  · exact Or.inl ⟨m, (Overlay.mem_apply_single (h.writes_memberships hclean)).mpr (Or.inl ⟨hm, hid⟩),
      rfl, rfl⟩

namespace InvitationEffect

theorem users (h : InvitationEffect rt P job σ s) : σ.writes .users = [] := by
  cases h with
  | invited hclean h => exact h.others hclean (by decide) (by decide)
  | accepted hclean _ _ h => exact h.others hclean (by decide) (by decide) (by decide)
  | roleChanged hclean h => exact h.others hclean (by decide) (by decide)
  | removed hclean h => exact h.others hclean (by decide) (by decide)
  | idle hw => rw [hw]; rfl

/-- A commit ends memberships whose place it has locked, and no others. -/
theorem stays (hdb : s.db.Integral) (h : InvitationEffect rt P job σ s) {userId organizationId : Uuid}
    (hmember : IsMember userId organizationId s.db) :
    IsMember userId organizationId (σ.view s.db) ∨ HoldsMember userId organizationId σ.locks := by
  have hclean : ∀ {σ : Session schema}, σ.writes .memberships = [] →
      IsMember userId organizationId (σ.view s.db) := fun hw =>
    (isMember_congr (Session.view_of_nil hw s.db)).mpr hmember
  cases h with
  | invited hempty h => exact Or.inl (hclean (h.others hempty (by decide) (by decide)))
  | accepted hempty _ _ h =>
    obtain ⟨m, hm, huser, hof⟩ := hmember
    have hvacant := (h.vacant (by rw [hempty]; rfl)).current
    exact Or.inl ⟨m, (Overlay.mem_apply_single (h.joins hempty)).mpr
      (Or.inl ⟨hm, Store.lookup_eq_none.mp hvacant m hm⟩), huser, hof⟩
  | @roleChanged _ _ _ role _ _ _ _ _ _ targetRow hempty h =>
    refine Or.inl ?_
    rcases h.writes_memberships hempty with ⟨_, hw⟩ | hw
    · exact hclean hw
    · obtain ⟨m, hm, rfl, rfl⟩ := hmember
      by_cases hid : m.id = targetRow.id
      · obtain rfl := hdb.eq_of_id (t := .memberships) hm h.locked.targetLocked.mem hid
        exact ⟨{ m with role }, (Overlay.mem_apply_single hw).mpr (Or.inr rfl), rfl, rfl⟩
      · exact ⟨m, (Overlay.mem_apply_single hw).mpr (Or.inl ⟨hm, hid⟩), rfl, rfl⟩
  | removed hempty h => exact h.isMember hdb hempty hmember
  | idle hw => exact Or.inl (hclean (by rw [hw]; rfl))

/-- Only an organization that the session holds gets new pending invitations. -/
theorem noNewInvitations (h : InvitationEffect rt P job σ s) (organizationId : Uuid) :
    HoldsOrganization organizationId σ.locks ∨ NoNewInvitations organizationId s.db (σ.view s.db) := by
  cases h with
  | @invited of _ _ _ _ _ _ _ _ invitation hempty h =>
    by_cases hof : organizationId = of
    · obtain ⟨locks, hheld, hl, _⟩ := h.vetted hempty
      exact Or.inl (hof ▸ hheld.mono hl)
    · refine Or.inr fun i hi hi' _ => ?_
      rcases (Overlay.mem_apply_single (h.writes_invitations hempty)).mp hi with ⟨hi, _⟩ | hnew
      · exact hi
      · cases hnew
        exact absurd (hi'.symm.trans h.organization) hof
  | accepted hempty _ _ h => exact Or.inr (h.noNewInvitations hempty _)
  | roleChanged hempty h =>
    exact Or.inr (noNewInvitations_of_clean (h.others hempty (by decide) (by decide)) _)
  | removed hempty h =>
    exact Or.inr (noNewInvitations_of_clean (h.others hempty (by decide) (by decide)) _)
  | idle hw => exact Or.inr (noNewInvitations_of_clean (by rw [hw]; rfl) _)

/-- Only an organization that the session uses gets new members. -/
theorem noNewMembers (h : InvitationEffect rt P job σ s) (organizationId : Uuid) :
    UsesOrganization organizationId σ.locks ∨ NoNewMembers organizationId s.db (σ.view s.db) := by
  cases h with
  | invited hempty h =>
    exact Or.inr (noNewMembers_of_clean _ (h.others hempty (by decide) (by decide)) _)
  | @accepted _ _ _ _ _ _ _ _ _ membership hempty _ _ h =>
    by_cases hof : organizationId = membership.organizationId
    · obtain ⟨locks, σ₁, huses, _, hl, _⟩ := h.inserted
      exact Or.inl (hof ▸ huses.mono hl)
    · refine Or.inr fun userId hmember => ?_
      obtain ⟨m, hm, huser, hm'⟩ := hmember
      rcases (Overlay.mem_apply_single (h.joins hempty)).mp hm with ⟨hm, _⟩ | hnew
      · exact ⟨m, hm, huser, hm'⟩
      · cases hnew
        exact absurd hm'.symm hof
  | roleChanged hempty h => exact Or.inr (h.noNewMembers hempty _)
  | removed hempty h => exact Or.inr (h.noNewMembers hempty _)
  | idle hw => exact Or.inr (noNewMembers_of_clean _ (by rw [hw]; rfl) _)

theorem guarded {inv : Shared schema Env Numbered → Prop}
    {assume : Numbered → Session schema → (t : Table) → Row t → Shared schema Env Numbered → Prop}
    (hdb : s.db.Integral) (h : InvitationEffect rt P job σ s) :
    (invitationProtocol assume inv).guar job σ s (s.commit job σ) := by
  refine ⟨⟨.refl _, Session.view_of_nil h.users s.db, [⟨job, σ, s.db⟩], rfl,
    fun c hc userId organizationId hfree hleaves => ?_⟩, h.noNewInvitations, h.noNewMembers⟩
  obtain rfl := List.mem_singleton.mp hc
  exact (h.stays hdb hleaves.1).elim hleaves.2 hfree

end InvitationEffect

/-! ### The requests -/

/-- **The step**: a request among others, whose effect may be committed. -/
theorem wp_invitationRequest
    {assume : Numbered → Session schema → (t : Table) → Row t → Shared schema Env Numbered → Prop}
    {inv : Shared schema Env Numbered → Prop} (htimeless : Timeless inv)
    (hjob : job.1.onInvitations = true)
    (hnow : Interferes (invitationProtocol assume inv) job .empty s s)
    (hallows : ∀ σ s, Interferes (invitationProtocol assume inv) job σ s s →
      InvitationEffect rt (invitationProtocol assume inv) job σ s →
      (invitationProtocol assume inv).Allows job σ s (s.commit job σ)) :
    wp (invitationProtocol assume inv) job (fun _ _ _ => True) (fun _ _ _ => True) (job.1.handle rt)
      .empty s := by
  have hD : (invitationProtocol assume inv).Tolerates Env.Drawn := htimeless.tolerates_drawn
  obtain ⟨request, number⟩ := job
  rw [Request.handle]
  refine wp_getSession harmless_true ?_
  cases request with
  | acceptInvitation credentials token =>
    simp only [Request.endpoint, Prog.bind_eq, Prog.map_eq, wp_bind]
    refine wp_getCurrentUser hD harmless_true hnow fun user σ₁ s₁ huser _ _ => ?_
    obtain ⟨s₀, _, hmem, hlater⟩ := huser.seen
    have hwp : wp (invitationProtocol assume inv) (.acceptInvitation credentials token, number)
        (fun _ σ' s' => ∃ row accepted membership, InvitationAccepted rt (invitationProtocol assume inv)
          (.acceptInvitation credentials token, number) token user σ₁ σ' s' row accepted membership)
        (fun _ _ _ => True) (acceptInvitation rt token user) σ₁ s₁ :=
      wp_acceptInvitation hD harmless_true (by rw [huser.writes]; rfl)
      (fun row accepted membership σ' s' _ h =>
        ⟨row, accepted, membership, h⟩)
    -- the user stays while the request goes on
    have hstays : ∀ keeps (s s' : Shared schema Env Numbered), Proceeds keeps s s' →
        user ∈ s.db .users → user ∈ s'.db .users := fun _ _ _ h hmem => h.users ▸ hmem
    have hkept := wp_keep (P := invitationProtocol assume inv) (fun _ _ _ h => hstays _ _ _ h.1)
      (fun _ _ _ h => hstays _ _ _ h.1) (hstays _ _ _ hlater.proceeds hmem) hwp
    refine wp_mono ?_ (fun _ _ _ _ => trivial) _ _ _ hkept
    rintro _ σ₂ s₂ ⟨⟨row, accepted, membership, haccepted⟩, hstored⟩ s₃ hs
    have hlast := haccepted.later (.of_interferes hs) (List.Subset.refl _) rfl
    exact ⟨hallows σ₂ s₃ hs.now (.accepted huser.writes (huser.loaded _ (by decide))
      (hstays _ _ _ hs.rely.1 hstored) hlast), trivial⟩
  | tenant organizationId credentials call =>
    cases call with
    | createInvitation data =>
      refine wp_handle_tenant hD harmless_true hnow fun user membership σ₁ s₁ hentered _ => ?_
      simp only [TenantCall.operation, createInvitationRoute, Prog.bind_eq, wp_bind]
      refine wp_createInvitation hD harmless_true (by rw [hentered.writes]; rfl)
        (by rw [hentered.writes]; rfl) fun actorRow invitation result σ₂ s₂ _ hissued => ?_
      intro s₃ h₃
      have hallowed := hallows σ₂ s₃ h₃.now (.invited hentered.writes (hissued.later h₃))
      refine ⟨hallowed, ?_, trivial⟩
      have hdb := h₃.sound.integral h₃.integral
      rw [wp]
      refine wp_mono ?_ (fun _ _ _ _ => trivial) _ _ _ (wp_within (W := fun _ => False) (C := False)
        (within_mail fun _ _ h => h) htimeless.tolerates (fun h => h.elim) (fun _ _ => rfl)
        (.refl hallowed.1 hdb (.of_writes_empty hdb rfl)))
      rintro _ σ₄ s₄ ⟨hspares, _⟩ s₅ h₅
      refine ⟨hallows σ₄ s₅ h₅.now (.idle ?_), trivial⟩
      funext t
      exact hspares t fun h => h
    | updateMember membershipId role =>
      refine wp_handle_tenant hD harmless_true hnow fun user membership σ₁ s₁ hentered _ => ?_
      simp only [TenantCall.operation, Prog.map_eq, wp_bind]
      refine wp_updateMembership hD harmless_true (by rw [hentered.writes]; rfl)
        fun actorRow targetRow σ₂ s₂ _ hchanged => ?_
      exact fun s₃ hs => ⟨hallows σ₂ s₃ hs.now (.roleChanged hentered.writes (hchanged.later hs)), trivial⟩
    | removeMember membershipId =>
      refine wp_handle_tenant hD harmless_true hnow fun user membership σ₁ s₁ hentered _ => ?_
      simp only [TenantCall.operation, Prog.bind_eq, wp_bind]
      refine wp_removeMembership hD harmless_true (by rw [hentered.writes]; rfl)
        fun actorRow targetRow σ₂ s₂ _ hremoved => ?_
      exact fun s₃ hs => ⟨hallows σ₂ s₃ hs.now (.removed hentered.writes (hremoved.later hs)), trivial⟩
    | _ => cases hjob
  | _ => cases hjob

/-! ### Whole runs -/

/-- The moves grant inserts only where the protocol assumes it. -/
def GrantsInserts
    (assume : Numbered → Session schema → (t : Table) → Row t → Shared schema Env Numbered → Prop)
    (w : World schema Env Exn Numbered Response) (m : Move) : Prop :=
  ∀ (i : Nat) (th : Thread schema Env Exn Numbered Response) (t : Table) (row : Row t)
    (next : Bool → App Response) (failed : App Response), m = .run i → w.threads[i]? = some th →
    th.prog = some (.insert (t := t) row next failed) → assume th.tag th.session t row w.shared

/-- **Invariants of the commits hold in every interleaving** that meets the condition on inserts, aborts
and crashes included. -/
theorem invitations_of_run (rt : Runtime)
    {assume : Numbered → Session schema → (t : Table) → Row t → Shared schema Env Numbered → Prop}
    {inv : Shared schema Env Numbered → Prop} (htimeless : Timeless inv) {requests : List Request}
    {w : World schema Env Exn Numbered Response}
    (hrequests : ∀ request ∈ requests, request.onInvitations = true)
    (hstep : ∀ job σ s, job.1 ∈ requests → s.db.Integral → σ.Sound s.db → inv s →
      InvitationEffect rt (invitationProtocol assume inv) job σ s → inv (s.commit job σ))
    (hinv : inv s) (hdb : s.db.Integral)
    (hrun : World.Run (GrantsInserts assume) (startNumbered rt s requests) w) :
    inv w.shared ∧ w.shared.db.Integral := by
  have hstart : (startNumbered rt s requests).Ok (invitationProtocol assume inv)
      fun _ _ _ _ => True := by
    refine .start hinv hdb (.of_forall invitationProtocol_respects _) fun job hmem => ?_
    have hjob : job.1 ∈ requests := List.fst_mem_of_mem_zipIdx hmem
    refine wp_invitationRequest htimeless (hrequests _ hjob) (.refl hinv hdb (.of_writes_empty hdb rfl))
      fun σ s hs heffect => ?_
    exact ⟨hstep job σ s hjob hs.integral hs.sound hs.inv heffect, heffect.guarded hs.integral⟩
  have hmeets : Meets (invitationProtocol assume inv) (GrantsInserts (assume)) := by
    intro w i hok th prog hth hprog
    cases prog with
    | insert row next failed => exact hok i th _ row next failed rfl hth hprog
    | _ => trivial
  have hok := hrun.ok hmeets (fun _ _ => stable_true) hstart
  exact ⟨hok.inv, hok.integral⟩

/-- A condition that always holds. -/
theorem run_of_reach {w w' : World schema Env Exn Numbered Response} (h : w.Reach w') :
    World.Run (GrantsInserts fun _ _ _ _ _ => True) w w' :=
  h.mono fun _ _ _ _ _ _ _ _ _ _ _ _ => trivial

end TenantForge
