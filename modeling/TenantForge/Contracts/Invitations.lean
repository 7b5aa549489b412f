import TenantForge.Contracts.Audit
import TenantForge.Contracts.Locks
import TenantForge.Services.Invitations
/-!
# Contracts of the invitation operations
-/

namespace TenantForge

open Gregorian ReadCommitted

variable {T : Type} {P : Protocol schema Env T} {tag : T} {R : Exn → Assertion schema Env T}
  {σ : Session schema} {s : Shared schema Env T} {rt : Runtime}

/-! ### Inviting -/

/-- The roles that `ensure_invitation_role` lets an actor give. -/
def MayInvite (actorRole invitedRole : Role) : Prop :=
  actorRole = .owner ∨ (actorRole = .admin ∧ invitedRole = .member)

theorem wp_ensureInvitationRole {actorRole invitedRole : Role} {Q : Unit → Assertion schema Env T}
    (hthrow : ∀ error, R error σ s) (h : MayInvite actorRole invitedRole → Q () σ s) :
    wp P tag Q R (ensureInvitationRole actorRole invitedRole) σ s := by
  rw [ensureInvitationRole]
  split
  · exact h (Or.inl ‹_›)
  · split
    · exact h (Or.inr ‹_›)
    · exact hthrow _

/-- `create_invitation` has returned. What it found of the organization's members and invitations, it
found while it held the organization. -/
structure InvitationIssued (rt : Runtime) (P : Protocol schema Env T) (tag : T)
    (organizationId actorId : Uuid) (data : InvitationCreate) (σ₀ σ : Session schema)
    (s : Shared schema Env T) (actorRow : Membership) (invitation : Invitation) : Prop where
  actorLocked : σ.Locked s.db (t := .memberships) actorRow
  actorOf : isMembership organizationId actorId ownerOrAdmin actorRow = true
  assumed : Assumed P tag σ₀ (t := .memberships) actorRow
  permitted : MayInvite (σ₀.copyOf (t := .memberships) actorRow).role data.role
  organization : invitation.organizationId = organizationId
  email : invitation.email = data.email
  role : invitation.role = data.role
  pending : invitation.acceptedAt = none
  vacant : σ₀.writes .invitations = [] → σ.Vacant s.db .invitations invitation.id
  reading : Found P tag [] (fun s => ∃ n < s.env.ticks, s.env.clock n = invitation.createdAt) s
  vetted : σ₀.writes = .empty → ∃ locks, HoldsOrganization organizationId locks ∧ locks ⊆ σ.locks ∧
    Found P tag locks (fun s => memberHasEmail rt organizationId data.email s.db = false) s ∧
    Found P tag locks (fun s => (s.db .invitations).any
      (isActiveInvitation rt organizationId data.email invitation.createdAt) = false) s
  written : ∃ entry : AuditLog,
    Recorded organizationId (some actorId) "member.invited" (rt.uuidText invitation.id) σ₀ σ s.db entry ∧
    σ.writes = (σ₀.writes.put .invitations invitation.id (some invitation)).put .auditLogs entry.id
      (some entry)

theorem InvitationIssued.later {organizationId actorId : Uuid} {data : InvitationCreate}
    {σ₀ : Session schema} {s' : Shared schema Env T} {actorRow : Membership} {invitation : Invitation}
    (h : InvitationIssued rt P tag organizationId actorId data σ₀ σ s actorRow invitation)
    (hs : Interferes P tag σ s s') :
    InvitationIssued rt P tag organizationId actorId data σ₀ σ s' actorRow invitation :=
  { h with
    actorLocked := h.actorLocked.interferes hs
    vacant := fun hclean => (h.vacant hclean).frozen hs.frozen
    reading := h.reading.later (.of_interferes hs) (List.nil_subset _)
    vetted := fun hempty => by
      obtain ⟨locks, hheld, hl, hmember, hactive⟩ := h.vetted hempty
      exact ⟨locks, hheld, hl, hmember.later (.of_interferes hs) hl,
        hactive.later (.of_interferes hs) hl⟩
    written := by
      obtain ⟨entry, hrecorded, hw⟩ := h.written
      exact ⟨entry, hrecorded.later (.of_interferes hs) (List.Subset.refl _), hw⟩ }

/-- The organization's row is locked from here on. -/
theorem wp_lockOrganization {organizationId : Uuid} {Q : Unit → Assertion schema Env T}
    (hR : Harmless P R) (hclean : σ.writes .organizations = [])
    (h : ∀ σ' s', Interferes P tag σ s s' → σ.Extends σ' → HoldsOrganization organizationId σ'.locks →
      Q () σ' s') :
    wp P tag Q R (lockOrganization organizationId) σ s := by
  simp only [lockOrganization, Prog.bind_eq, wp_bind]
  refine wp_selectForUpdate (S := schema) (t := .organizations) hR.escapes
    fun rows σ' s' hs hext hrows => ?_
  refine wp_raiseIf (fun _ => hR _ _ _ hs.inv hs.integral) fun hfound => ?_
  cases rows with
  | nil => exact absurd rfl hfound
  | cons row rows =>
    obtain ⟨hcond, hlocked, _⟩ := hrows hclean row List.mem_cons_self
    have hid : row.id = organizationId := of_decide_eq_true hcond
    exact h σ' s' hs hext (hid ▸ holdsOrganization_of_locked hlocked)

theorem wp_createInvitation {organizationId actorId : Uuid} {data : InvitationCreate}
    {Q : Invitation × String → Assertion schema Env T} (hD : P.Tolerates Env.Drawn)
    (hR : Harmless P R) (hclean : σ.writes .memberships = []) (horg : σ.writes .organizations = [])
    (h : ∀ actorRow invitation rawToken σ' s', Interferes P tag σ' s' s' →
      InvitationIssued rt P tag organizationId actorId data σ σ' s' actorRow invitation →
      Q (invitation, rawToken) σ' s') :
    wp P tag Q R (createInvitation rt organizationId actorId data) σ s := by
  rw [createInvitation]
  simp only [lockActor, Prog.bind_eq, wp_bind]
  refine wp_lockOrganization hR horg fun σ₁ s₁ h₁ hext₁ hheld => ?_
  refine wp_scalarForUpdate (S := schema) (t := .memberships) hR.escapes
    (by rw [hext₁.writes, hclean])
    (fun σ₂ s₂ h₂ _ => hR _ _ _ h₂.inv h₂.integral)
    fun actorRow σ₂ s₂ h₂ hext₂ hactor hlocked hassumed => ?_
  have hcopy : σ₁.copyOf (t := .memberships) actorRow = σ.copyOf (t := .memberships) actorRow :=
    hext₁.copyOf (S := schema) (t := .memberships) actorRow
  have hassumed' : Assumed P tag σ (t := .memberships) actorRow := by
    obtain ⟨σ₀, db₀, hloaded, hrest⟩ := hassumed
    exact ⟨σ₀, db₀, hloaded.trans hext₁.loaded, hrest⟩
  have hw₂ : (σ₂.attach (t := .memberships) actorRow).writes = σ.writes := by
    rw [Session.writes_attach, hext₂.writes, hext₁.writes]
  rw [hcopy]
  refine wp_ensureInvitationRole (fun error => hR _ _ _ h₂.inv h₂.integral) fun hpermitted => ?_
  refine wp_now hD fun s₃ _ h₃ hnow₃ => ?_
  -- the state right after the reading of the clock
  generalize hs₃ : ({ s₃ with env := { s₃.env with ticks := s₃.env.ticks + 1 } } :
    Shared schema Env T) = s₃' at h₃ hnow₃ ⊢
  have hreading : ∃ n < s₃'.env.ticks, s₃'.env.clock n = s₃.env.clock s₃.env.ticks := by
    rw [← hs₃]
    exact ⟨_, Nat.lt_succ_self _, rfl⟩
  generalize s₃.env.clock s₃.env.ticks = current at hreading ⊢
  refine wp_query hR.escapes fun s₄ h₄ => ?_
  refine wp_raiseIf (fun _ => hR _ _ _ h₄.inv h₄.integral) fun hmember => ?_
  refine wp_query hR.escapes fun s₅ h₅ => ?_
  refine wp_raiseIf (fun _ => hR _ _ _ h₅.inv h₅.integral) fun hactive => ?_
  refine wp_tokenUrlsafe hD fun token s₆ h₆ hnow₆ _ => ?_
  refine wp_orRaise (fun _ => hR _ _ _ hnow₆.inv hnow₆.integral) fun expiresAt _ => ?_
  refine wp_uuid4 hD fun id σ₇ s₇ hext₇ h₇ _ _ => ?_
  refine wp_addRow hR fun σ₈ s₈ h₈ _ hadded hnow₈ => ?_
  refine wp_refresh hR fun s₉ row h₉ hrow => ?_
  -- the row that is read again is the new one
  have hrow : row = ⟨id, organizationId, data.email, data.role, rt.hashToken token, expiresAt, none,
      actorId, current⟩ := by
    rw [Session.view, h₉.sound.coherent.lookup_apply, hadded.writes] at hrow
    simpa [rowId] using hrow.symm
  refine wp_writeAudit hD hR fun entry σ₁₀ s₁₀ hentry h₁₀ hnow₁₀ haudited => ?_
  generalize hσ₂ : σ₂.attach (t := .memberships) actorRow = σ₂' at *
  -- the locks of the organization and of the actor last from their grants to the end
  have hl₂ : σ₂.locks = σ₂'.locks := by rw [← hσ₂]; rfl
  have hlater₅ : Later P tag σ₂'.locks s₅ s₇ := h₆.trans h₇
  have hlater₄ : Later P tag σ₂'.locks s₄ s₇ := (Later.of_interferes h₅).trans hlater₅
  have hlater₃ : Later P tag σ₂'.locks s₃' s₇ := (Later.of_interferes h₄).trans hlater₄
  have hlater : Later P tag σ₂'.locks s₂ s₇ := h₃.trans hlater₃
  have hlater' : Later P tag σ₇.locks s₇ s₁₀ :=
    (Later.of_interferes h₈).trans (((Later.of_interferes h₉).trans h₁₀).mono hadded.locks)
  have hl : σ₇.locks ⊆ σ₁₀.locks := fun _ hmem => haudited.locks (hadded.locks hmem)
  have hlocked₇ : σ₇.Locked s₇.db (t := .memberships) actorRow :=
    (hlocked.frozen (hl₂ ▸ hlater.frozen)).mono (hl₂ ▸ hext₇.locks)
  have hw₇ : σ₇.writes = σ.writes := by rw [hext₇.writes, hw₂]
  have hlater₁₀ : Later P tag σ₂'.locks s₇ s₁₀ := hlater'.mono hext₇.locks
  subst hrow
  refine h actorRow _ _ σ₁₀ s₁₀ hnow₁₀ {
      actorLocked := (hlocked₇.frozen hlater'.frozen).mono hl
      actorOf := hactor
      assumed := hassumed'
      permitted := hpermitted
      organization := rfl
      email := rfl
      role := rfl
      pending := rfl
      vacant := fun hclean' => ?_
      reading := ⟨s₃', hnow₃.inv, hreading, (hlater₃.trans hlater₁₀).mono (List.nil_subset _)⟩
      vetted := fun hempty => ?_
      written := ⟨entry, .of_added hentry haudited fun hclean' => ?_, ?_⟩ }
  · exact ((hadded.vacant (by rw [hw₇, hclean'])).frozen
      ((Later.of_interferes h₉).trans h₁₀).frozen).mono haudited.locks
  · have hview : ∀ db : Db, σ₂'.view db = db := fun db => by
      rw [Session.view, hw₂, hempty, Overlay.apply_empty]
    rw [hview] at hmember hactive
    exact ⟨σ₂'.locks, hheld.mono (hl₂ ▸ hext₂.locks), fun _ hmem => hl (hext₇.locks hmem),
      ⟨s₄, h₄.inv, by simpa using hmember, hlater₄.trans hlater₁₀⟩,
      ⟨s₅, h₅.inv, by simpa using hactive, hlater₅.trans hlater₁₀⟩⟩
  · rw [hadded.writes, Overlay.put_table_ne _ (by decide), hw₇, hclean']
  · rw [haudited.writes, hadded.writes, hw₇]; rfl

/-! ### Accepting -/

/-- `accept_invitation` has returned. The invitation's row is locked; its copy is what the session had
loaded. The organization and the new member's place have been locked since the membership was
inserted. -/
structure InvitationAccepted (rt : Runtime) (P : Protocol schema Env T) (tag : T) (rawToken : String)
    (user : User) (σ₀ σ : Session schema) (s : Shared schema Env T) (row : Invitation)
    (accepted : DateTime) (membership : Membership) : Prop where
  locked : σ.Locked s.db (t := .invitations) row
  token : row.tokenHash = rt.hashToken rawToken
  pending : (σ₀.copyOf (t := .invitations) row).acceptedAt = none
  email : rt.lower (σ₀.copyOf (t := .invitations) row).email = rt.lower user.email
  organizationId : membership.organizationId = (σ₀.copyOf (t := .invitations) row).organizationId
  role : membership.role = (σ₀.copyOf (t := .invitations) row).role
  userId : membership.userId = user.id
  named : Named P tag membership.id σ s
  vacant : σ₀.writes .memberships = [] → σ.Vacant s.db .memberships membership.id
  inserted : ∃ locks σ₁, UsesOrganization membership.organizationId locks ∧
    HoldsMember membership.userId membership.organizationId locks ∧ locks ⊆ σ.locks ∧
    Found P tag locks (fun s => P.assumeInsert tag σ₁ .memberships membership s ∧
      s.db.lookup .invitations row.id = some row) s
  written : ∃ entry : AuditLog,
    Recorded (σ₀.copyOf (t := .invitations) row).organizationId (some user.id) "invitation.accepted"
      (rt.uuidText row.id) σ₀ σ s.db entry ∧
    σ.writes = ((σ₀.writes.put .invitations row.id
      (some { row with acceptedAt := some accepted })).put .memberships membership.id
        (some membership)).put .auditLogs entry.id (some entry)

theorem InvitationAccepted.later {rawToken : String} {user : User} {σ₀ σ' : Session schema}
    {s' : Shared schema Env T} {row : Invitation} {accepted : DateTime} {membership : Membership}
    (h : InvitationAccepted rt P tag rawToken user σ₀ σ s row accepted membership)
    (hs : Later P tag σ.locks s s') (hl : σ.locks ⊆ σ'.locks) (hw : σ'.writes = σ.writes) :
    InvitationAccepted rt P tag rawToken user σ₀ σ' s' row accepted membership :=
  { h with
    locked := (h.locked.frozen hs.frozen).mono hl
    named := h.named.later hs hl
    vacant := fun hclean => ((h.vacant hclean).frozen hs.frozen).mono hl
    inserted := by
      obtain ⟨locks, σ₁, huses, hmember, hsub, hfound⟩ := h.inserted
      exact ⟨locks, σ₁, huses, hmember, fun _ hmem => hl (hsub hmem), hfound.later hs hsub⟩
    written := by
      obtain ⟨entry, hrecorded, hwrites⟩ := h.written
      exact ⟨entry, hrecorded.later hs hl, hw.trans hwrites⟩ }

theorem wp_acceptInvitation {rawToken : String} {user : User}
    {Q : Membership → Assertion schema Env T} (hD : P.Tolerates Env.Drawn) (hR : Harmless P R)
    (hclean : σ.writes .invitations = [])
    (h : ∀ row accepted membership σ' s', Interferes P tag σ' s' s' →
      InvitationAccepted rt P tag rawToken user σ σ' s' row accepted membership → Q membership σ' s') :
    wp P tag Q R (acceptInvitation rt rawToken user) σ s := by
  rw [acceptInvitation]
  simp only [Prog.bind_eq, wp_bind]
  refine wp_now hD fun s₁ _ h₁ hnow₁ => ?_
  refine wp_scalarForUpdate hR.escapes hclean (fun σ₂ s₂ h₂ _ => hR _ _ _ h₂.inv h₂.integral)
    fun row σ₂ s₂ h₂ hext₂ htoken hlocked _ => ?_
  have hid : (σ.copyOf (t := .invitations) row).id = row.id := rowId_copyOf σ (t := .invitations) row
  refine wp_raiseIf (fun _ => hR _ _ _ h₂.inv h₂.integral) fun hpending => ?_
  refine wp_raiseIf (fun _ => hR _ _ _ h₂.inv h₂.integral) fun _ => ?_
  refine wp_raiseIf (fun _ => hR _ _ _ h₂.inv h₂.integral) fun hemail => ?_
  refine wp_query hR.escapes fun s₃ h₃ => ?_
  refine wp_raiseIf (fun _ => hR _ _ _ h₃.inv h₃.integral) fun _ => ?_
  generalize hcopy : σ.copyOf (t := .invitations) row = copy at hid hpending hemail ⊢
  have hlocked₂ : (σ₂.attach (t := .invitations) row).Locked s₂.db (t := .invitations) row :=
    hlocked.mono (List.Subset.refl _)
  have hlocked₃ := hlocked₂.interferes h₃
  have hw₂ : (σ₂.attach (t := .invitations) row).writes = σ.writes := by
    rw [Session.writes_attach, hext₂.writes]
  generalize s₁.env.clock s₁.env.ticks = accepted
  -- the flush of the invitation and of the membership
  have hflush : ∀ R', Harmless P R' → wp P tag (fun membershipId σ' s' => ∃ membership : Membership,
      membership.id = membershipId ∧ Interferes P tag σ' s' s' ∧
      σ'.Locked s'.db (t := .invitations) row ∧ membership.organizationId = copy.organizationId ∧
      membership.role = copy.role ∧ membership.userId = user.id ∧ Named P tag membership.id σ' s' ∧
      (σ.writes .memberships = [] → σ'.Vacant s'.db .memberships membership.id) ∧
      (∃ σ₁, UsesOrganization membership.organizationId σ'.locks ∧
        HoldsMember membership.userId membership.organizationId σ'.locks ∧
        P.assumeInsert tag σ₁ .memberships membership s') ∧
      σ'.writes = (σ.writes.put .invitations row.id
        (some { row with acceptedAt := some accepted })).put .memberships membership.id
          (some membership)) R'
      ((flushUpdate .invitations copy.id fun (row : Invitation) =>
          { row with acceptedAt := some accepted }).bind fun _ => uuid4.bind fun id =>
        databaseNow.bind fun joinedAt =>
          (addRow .memberships ⟨id, user.id, copy.organizationId, copy.role, joinedAt⟩).bind
            fun _ => Prog.pure id) (σ₂.attach (t := .invitations) row) s₃ := by
    intro R' hR'
    simp only [wp_bind, hid]
    refine wp_flushUpdate hR' fun s₄ σ₄ old h₄ hold _ hσ₄ hnow₄ => ?_
    have hcurrent := (hlocked₃.interferes h₄).current
    rw [Session.lookup_view_of_nil (by rw [hw₂, hclean])] at hold
    obtain rfl : old = row := Option.some.inj (hold.symm.trans hcurrent)
    have hl₄ : (σ₂.attach (t := .invitations) old).locks ⊆ σ₄.locks := by
      rw [hσ₄]; exact Session.locks_write _ _ _ _ _ _
    have hw₄ : σ₄.writes = σ.writes.put .invitations old.id
        (some { old with acceptedAt := some accepted }) := by
      rw [hσ₄, Session.writes_write, hw₂]
    refine wp_uuid4 hD fun id σ₅ s₅ hext₅ h₅ _ hnamed => ?_
    refine wp_databaseNow hD fun joinedAt s₆ h₆ _ => ?_
    refine wp_addRow hR' fun σ₇ s₇ h₇ hassumed hadded hnow₇ => ?_
    have hlater : Later P tag σ₅.locks s₅ s₇ := h₆.trans (.of_interferes h₇)
    obtain ⟨held, hheld, hkey⟩ := hadded.parents (.organizations, copy.organizationId)
      (by simp [foreignKeys])
    refine ⟨⟨id, user.id, copy.organizationId, copy.role, joinedAt⟩, rfl, hnow₇, ?_, rfl, rfl, rfl,
      hnamed.later hlater hadded.locks, fun hclean' => hadded.vacant ?_,
      ⟨σ₅, ⟨held, hheld, hkey⟩, hadded.indexed _ (by simp [uniqueValues]), hassumed⟩, ?_⟩
    · exact ((((hlocked₃.interferes h₄).mono hl₄).frozen h₅.frozen).mono hext₅.locks).frozen
        hlater.frozen |>.mono hadded.locks
    · rw [hext₅.writes, hw₄, Overlay.put_table_ne _ (by decide), hclean']
    · rw [hadded.writes, hext₅.writes, hw₄]; rfl
  refine (wp_exceptIntegrityError hR hflush).then ?_
  rintro _ σ₃ s₄ ⟨membership, rfl, hnow₄, hlocked₄, hof, hrole, huser, hnamed, hvacant,
    ⟨σ₁, huses, hmember, hassumed⟩, hw⟩
  refine wp_refresh hR fun s₅ result h₅ hresult => ?_
  obtain rfl : result = membership := by
    rw [Session.view, h₅.sound.coherent.lookup_apply, hw] at hresult
    simpa [rowId] using hresult.symm
  refine wp_writeAudit hD hR fun entry σ₅ s₆ hentry h₆ hnow₆ haudited => ?_
  have hlater : Later P tag σ₃.locks s₄ s₆ := (Later.of_interferes h₅).trans h₆
  refine h row accepted result σ₅ s₆ hnow₆ {
    locked := (hlocked₄.frozen hlater.frozen).mono haudited.locks
    token := of_decide_eq_true htoken
    pending := by simpa [hcopy] using hpending
    email := by simpa [hcopy] using hemail
    organizationId := by rw [hcopy, hof]
    role := by rw [hcopy, hrole]
    userId := huser
    named := hnamed.later hlater haudited.locks
    vacant := fun hclean' => ((hvacant hclean').frozen hlater.frozen).mono haudited.locks
    inserted := ⟨σ₃.locks, σ₁, huses, hmember, haudited.locks,
      s₄, hnow₄.inv, ⟨hassumed, hlocked₄.current⟩, hlater⟩
    written := ⟨entry, ?_, ?_⟩ }
  · rw [hcopy, ← hid]
    refine .of_added hentry haudited fun hclean' => ?_
    rw [hw, Overlay.put_table_ne _ (by decide), Overlay.put_table_ne _ (by decide), hclean']
  · rw [haudited.writes, hw]

end TenantForge
