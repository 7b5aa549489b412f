import TenantForge.Contracts.Audit
import TenantForge.Contracts.Locks
import TenantForge.Services.Organizations
/-!
# Contracts of the membership operations

What `update_membership` and `remove_membership` have done when they return normally. A row is what
the database held when its lock was granted; a copy is what the session's identity map returned for
it, and may be older.
-/

namespace TenantForge

open Gregorian ReadCommitted

variable {T : Type} {P : Protocol schema Env T} {tag : T} {R : Exn → Assertion schema Env T}
  {σ : Session schema} {s : Shared schema Env T} {rt : Runtime}

/-- The copy on which the actor's role is judged. -/
def actorCopy (σ₀ : Session schema) (actorRow : Membership) : Membership :=
  σ₀.copyOf (t := .memberships) actorRow

/-- The copy on which the target's role is judged: the actor's row was loaded before. -/
def targetCopy (σ₀ : Session schema) (actorRow targetRow : Membership) : Membership :=
  (σ₀.attach (t := .memberships) actorRow).copyOf (t := .memberships) targetRow

theorem targetCopy_id (σ₀ : Session schema) (actorRow targetRow : Membership) :
    (targetCopy σ₀ actorRow targetRow).id = targetRow.id :=
  rowId_copyOf (σ₀.attach (t := .memberships) actorRow) (t := .memberships) targetRow

/-- The actor's row and the target's row are locked. -/
structure MembershipsLocked (P : Protocol schema Env T) (tag : T)
    (organizationId membershipId actorId : Uuid) (σ₀ σ : Session schema) (db : Db)
    (actorRow targetRow : Membership) : Prop where
  actorLocked : σ.Locked db (t := .memberships) actorRow
  actorOf : isMembership organizationId actorId anyRole actorRow = true
  assumed : Assumed P tag σ₀ (t := .memberships) actorRow
  targetLocked : σ.Locked db (t := .memberships) targetRow
  targetOf : isMembershipId organizationId membershipId targetRow = true

theorem MembershipsLocked.later {organizationId membershipId actorId : Uuid} {σ₀ σ σ' : Session schema}
    {s s' : Shared schema Env T} {actorRow targetRow : Membership}
    (h : MembershipsLocked P tag organizationId membershipId actorId σ₀ σ s.db actorRow targetRow)
    (hs : Later P tag σ.locks s s') (hl : σ.locks ⊆ σ'.locks) :
    MembershipsLocked P tag organizationId membershipId actorId σ₀ σ' s'.db actorRow targetRow where
  actorLocked := (h.actorLocked.frozen hs.frozen).mono hl
  actorOf := h.actorOf
  assumed := h.assumed
  targetLocked := (h.targetLocked.frozen hs.frozen).mono hl
  targetOf := h.targetOf

section Locking

variable {organizationId membershipId actorId : Uuid}

theorem wp_lockMemberships {Q : Membership → Membership → Assertion schema Env T} (hR : Harmless P R)
    (hclean : σ.writes .memberships = [])
    (h : ∀ actorRow targetRow σ' s', Interferes P tag σ' s' s' → σ'.writes = σ.writes →
      MembershipsLocked P tag organizationId membershipId actorId σ σ' s'.db actorRow targetRow →
      Q (actorCopy σ actorRow) (targetCopy σ actorRow targetRow) σ' s') :
    wp P tag (fun actor => wp P tag (Q actor) R (lockMembership organizationId membershipId)) R
      (lockActorMembership organizationId actorId) σ s := by
  simp only [lockActorMembership, lockMembership, Prog.bind_eq, wp_bind]
  refine wp_scalarForUpdate hR.escapes hclean (fun σ₁ s₁ h₁ _ => hR _ _ _ h₁.inv h₁.integral)
    fun actorRow σ₁ s₁ h₁ hext₁ hactor hactorLocked hassumed => ?_
  have hclean₁ : (σ₁.attach (t := .memberships) actorRow).writes .memberships = [] := by
    rw [Session.writes_attach, hext₁.writes, hclean]
  refine wp_scalarForUpdate hR.escapes hclean₁ (fun σ₂ s₂ h₂ _ => hR _ _ _ h₂.inv h₂.integral)
    fun targetRow σ₂ s₂ h₂ hext₂ htarget htargetLocked _ => ?_
  have hcopy : (σ₁.attach (t := .memberships) actorRow).copyOf (t := .memberships) targetRow =
      targetCopy σ actorRow targetRow := by
    rw [targetCopy, Session.copyOf, Session.copyOf, Session.attach, Session.attach, hext₁.loaded]
  rw [hcopy]
  refine h actorRow targetRow _ s₂ ((h₂.extend hext₂).attach _) ?_
    ⟨(hactorLocked.interferes h₂.detach).mono hext₂.locks, hactor, hassumed,
      htargetLocked.mono (List.Subset.refl _), htarget⟩
  rw [Session.writes_attach, hext₂.writes, Session.writes_attach, hext₁.writes]

theorem wp_ensureAnotherOwner {excluded : Uuid} {Q : Unit → Assertion schema Env T}
    (hR : Harmless P R) (hclean : σ.writes .memberships = [])
    (h : ∀ other σ' s', Interferes P tag σ s s' → σ.Extends σ' →
      σ'.Locked s'.db (t := .memberships) other → isOwnerOf organizationId other = true →
      other.id ≠ excluded → Q () σ' s') :
    wp P tag Q R (ensureAnotherOwner organizationId excluded) σ s := by
  simp only [ensureAnotherOwner, Prog.bind_eq, wp_bind]
  refine wp_selectForUpdate (S := schema) (t := .memberships) hR.escapes
    fun rows σ' s' hs hext hrows => ?_
  refine wp_raiseIf (fun _ => hR _ _ _ hs.inv hs.integral) fun hany => ?_
  obtain ⟨other, hmem, hother⟩ := List.any_eq_true.mp (Bool.not_eq_false _ ▸ hany)
  obtain ⟨hcond, hlocked, _⟩ := hrows hclean other hmem
  exact h other σ' s' hs hext hlocked hcond (by simpa using hother)

end Locking

/-! ### Changing a role -/

/-- Some other owner of the organization is locked. -/
def AnotherOwner (organizationId excluded : Uuid) (σ : Session schema) (db : Db) : Prop :=
  ∃ other : Membership, σ.Locked db (t := .memberships) other ∧
    isOwnerOf organizationId other = true ∧ other.id ≠ excluded

theorem AnotherOwner.later {organizationId excluded : Uuid} {σ σ' : Session schema}
    {s s' : Shared schema Env T} (h : AnotherOwner organizationId excluded σ s.db)
    (hs : Later P tag σ.locks s s') (hl : σ.locks ⊆ σ'.locks) :
    AnotherOwner organizationId excluded σ' s'.db := by
  obtain ⟨other, hlocked, hother⟩ := h
  exact ⟨other, (hlocked.frozen hs.frozen).mono hl, hother⟩

/-- The guard that both operations put before giving up an owner. -/
theorem wp_ownerGuard {organizationId membershipId actorId : Uuid} {actorRow targetRow : Membership}
    {σ₀ : Session schema} {c : Prop} [Decidable c] (hR : Harmless P R)
    (hclean : σ.writes .memberships = []) (hnow : Interferes P tag σ s s)
    (hlocked : MembershipsLocked P tag organizationId membershipId actorId σ₀ σ s.db actorRow targetRow) :
    wp P tag (fun _ σ' s' => Interferes P tag σ' s' s' ∧ σ'.writes = σ.writes ∧
        MembershipsLocked P tag organizationId membershipId actorId σ₀ σ' s'.db actorRow targetRow ∧
        (c → AnotherOwner organizationId (targetCopy σ₀ actorRow targetRow).id σ' s'.db)) R
      (runIf c (ensureAnotherOwner organizationId (targetCopy σ₀ actorRow targetRow).id)) σ s := by
  refine wp_runIf (fun _ => ?_) fun hc => ⟨hnow, rfl, hlocked, fun h => absurd h hc⟩
  refine wp_ensureAnotherOwner hR hclean fun other σ' s' hs hext hother howner hne => ?_
  exact ⟨hs.extend hext, hext.writes, hlocked.later (.of_interferes hs) hext.locks,
    fun _ => ⟨other, hother, howner, hne⟩⟩

/-- `update_membership` has returned. -/
structure RoleChanged (rt : Runtime) (P : Protocol schema Env T) (tag : T)
    (organizationId membershipId actorId : Uuid) (newRole : Role) (σ₀ σ : Session schema) (db : Db)
    (actorRow targetRow : Membership) : Prop where
  locked : MembershipsLocked P tag organizationId membershipId actorId σ₀ σ db actorRow targetRow
  permitted : (actorCopy σ₀ actorRow).role = .owner ∨
    ((actorCopy σ₀ actorRow).role = .admin ∧ (targetCopy σ₀ actorRow targetRow).role = .member ∧
      newRole = .member)
  anotherOwner : (targetCopy σ₀ actorRow targetRow).role = .owner → newRole ≠ .owner →
    AnotherOwner organizationId targetRow.id σ db
  written : ∃ entry : AuditLog,
    Recorded organizationId (some actorId) "member.role_changed" (rt.uuidText targetRow.id) σ₀ σ db
      entry ∧
    σ.writes = (if newRole = (targetCopy σ₀ actorRow targetRow).role then σ₀.writes
      else σ₀.writes.put .memberships targetRow.id (some { targetRow with role := newRole })).put
        .auditLogs entry.id (some entry)

theorem RoleChanged.later {organizationId membershipId actorId : Uuid} {newRole : Role}
    {σ₀ : Session schema} {s' : Shared schema Env T} {actorRow targetRow : Membership}
    (h : RoleChanged rt P tag organizationId membershipId actorId newRole σ₀ σ s.db actorRow targetRow)
    (hs : Interferes P tag σ s s') :
    RoleChanged rt P tag organizationId membershipId actorId newRole σ₀ σ s'.db actorRow targetRow where
  locked := h.locked.later (.of_interferes hs) (List.Subset.refl _)
  permitted := h.permitted
  anotherOwner hrole hnew := (h.anotherOwner hrole hnew).later (.of_interferes hs) (List.Subset.refl _)
  written := by
    obtain ⟨entry, hrecorded, hw⟩ := h.written
    exact ⟨entry, hrecorded.later (.of_interferes hs) (List.Subset.refl _), hw⟩

theorem wp_updateMembership {organizationId membershipId actorId : Uuid} {newRole : Role}
    {Q : Membership → Assertion schema Env T} (hD : P.Tolerates Env.Drawn) (hR : Harmless P R)
    (hclean : σ.writes .memberships = [])
    (h : ∀ actorRow targetRow σ' s', Interferes P tag σ' s' s' →
      RoleChanged rt P tag organizationId membershipId actorId newRole σ σ' s'.db actorRow targetRow →
      Q { targetCopy σ actorRow targetRow with role := newRole } σ' s') :
    wp P tag Q R (updateMembership rt organizationId membershipId actorId newRole) σ s := by
  rw [updateMembership]
  simp only [Prog.bind_eq, wp_bind]
  refine wp_lockMemberships hR hclean fun actorRow targetRow σ₁ s₁ hnow₁ hw₁ hlocked₁ => ?_
  refine wp_raiseIf (fun _ => hR _ _ _ hnow₁.inv hnow₁.integral) fun hadmin => ?_
  refine wp_raiseIf (fun _ => hR _ _ _ hnow₁.inv hnow₁.integral) fun hrole => ?_
  refine (wp_ownerGuard (c := (targetCopy σ actorRow targetRow).role = .owner ∧ newRole ≠ .owner) hR
    (by rw [hw₁, hclean]) hnow₁ hlocked₁).then ?_
  rintro _ σ₂ s₂ ⟨hnow₂, hw₂, hlocked₂, howner₂⟩
  have hw₀ : σ₂.writes = σ.writes := hw₂.trans hw₁
  have hid := targetCopy_id σ actorRow targetRow
  -- the update, if there is one, finds the locked row
  have hflush : wp P tag (fun _ σ₃ s₃ => Interferes P tag σ₃ s₃ s₃ ∧
      Later P tag σ₂.locks s₂ s₃ ∧ σ₂.locks ⊆ σ₃.locks ∧ σ₃.writes =
        if newRole = (targetCopy σ actorRow targetRow).role then σ.writes
        else σ.writes.put .memberships targetRow.id (some { targetRow with role := newRole })) R
      (runIf (newRole ≠ (targetCopy σ actorRow targetRow).role)
        (flushUpdate .memberships (targetCopy σ actorRow targetRow).id
          fun (row : Membership) => { row with role := newRole })) σ₂ s₂ := by
    refine wp_runIf (fun hsame => ?_) fun hsame => ?_
    · rw [hid]
      refine wp_flushUpdate hR fun s₃ σ₃ old h₃ hold _ hσ₃ hnow₃ => ?_
      have hcurrent := (hlocked₂.targetLocked.interferes h₃).current
      rw [Session.lookup_view_of_nil (by rw [hw₀, hclean])] at hold
      obtain rfl : old = targetRow := Option.some.inj (hold.symm.trans hcurrent)
      refine ⟨hnow₃, .of_interferes h₃, ?_, ?_⟩
      · rw [hσ₃]; exact Session.locks_write _ _ _ _ _ _
      · rw [hσ₃, if_neg hsame, Session.writes_write, hw₀]
    · exact ⟨hnow₂, .refl, List.Subset.refl _, by rw [if_pos (not_not.mp hsame), hw₀]⟩
  refine hflush.then ?_
  rintro _ σ₃ s₃ ⟨hnow₃, h₃, hl₃, hw₃⟩
  refine wp_writeAudit hD hR fun entry σ₄ s₄ hentry h₄ hnow₄ haudited => ?_
  have hl : σ₂.locks ⊆ σ₄.locks := fun _ hmem => haudited.locks (hl₃ hmem)
  have hlater : Later P tag σ₂.locks s₂ s₄ := h₃.trans (h₄.mono hl₃)
  refine h actorRow targetRow σ₄ s₄ hnow₄ ⟨hlocked₂.later hlater hl, ?_, ?_, entry,
    hid ▸ .of_added hentry haudited fun hclean' => ?_, ?_⟩
  · by_cases hactor : (actorCopy σ actorRow).role = .admin
    · rw [not_and_or, not_or, not_not, not_not] at hadmin
      exact Or.inr ⟨hactor, hadmin.resolve_left (not_not.mpr hactor)⟩
    · exact Or.inl (not_not.mp fun hne => hrole ⟨hactor, hne⟩)
  · intro htarget hnew
    exact hid ▸ (howner₂ ⟨htarget, hnew⟩).later hlater hl
  · rw [hw₃]
    split
    · exact hclean'
    · rw [Overlay.put_table_ne _ (by decide), hclean']
  · rw [haudited.writes, hw₃]

/-! ### Removing a member -/

/-- `remove_membership` has returned. -/
structure MemberRemoved (rt : Runtime) (P : Protocol schema Env T) (tag : T)
    (organizationId membershipId actorId : Uuid) (σ₀ σ : Session schema) (db : Db)
    (actorRow targetRow : Membership) : Prop where
  locked : MembershipsLocked P tag organizationId membershipId actorId σ₀ σ db actorRow targetRow
  permitted : (actorCopy σ₀ actorRow).role = .owner ∨
    ((actorCopy σ₀ actorRow).role = .admin ∧ (targetCopy σ₀ actorRow targetRow).role = .member)
  anotherOwner : (targetCopy σ₀ actorRow targetRow).role = .owner →
    AnotherOwner organizationId targetRow.id σ db
  keyed : σ₀.writes .memberships = [] → HoldsMember targetRow.userId targetRow.organizationId σ.locks
  written : ∃ entry : AuditLog,
    Recorded organizationId (some actorId) "member.removed" (rt.uuidText targetRow.id) σ₀ σ db entry ∧
    σ.writes = (σ₀.writes.put .auditLogs entry.id (some entry)).put .memberships targetRow.id none

theorem MemberRemoved.later {organizationId membershipId actorId : Uuid}
    {σ₀ : Session schema} {s' : Shared schema Env T} {actorRow targetRow : Membership}
    (h : MemberRemoved rt P tag organizationId membershipId actorId σ₀ σ s.db actorRow targetRow)
    (hs : Interferes P tag σ s s') :
    MemberRemoved rt P tag organizationId membershipId actorId σ₀ σ s'.db actorRow targetRow where
  locked := h.locked.later (.of_interferes hs) (List.Subset.refl _)
  permitted := h.permitted
  anotherOwner hrole := (h.anotherOwner hrole).later (.of_interferes hs) (List.Subset.refl _)
  keyed := h.keyed
  written := by
    obtain ⟨entry, hrecorded, hw⟩ := h.written
    exact ⟨entry, hrecorded.later (.of_interferes hs) (List.Subset.refl _), hw⟩

theorem wp_removeMembership {organizationId membershipId actorId : Uuid}
    {Q : Unit → Assertion schema Env T} (hD : P.Tolerates Env.Drawn) (hR : Harmless P R)
    (hclean : σ.writes .memberships = [])
    (h : ∀ actorRow targetRow σ' s', Interferes P tag σ' s' s' →
      MemberRemoved rt P tag organizationId membershipId actorId σ σ' s'.db actorRow targetRow →
      Q () σ' s') :
    wp P tag Q R (removeMembership rt organizationId membershipId actorId) σ s := by
  rw [removeMembership]
  simp only [Prog.bind_eq, wp_bind]
  refine wp_lockMemberships hR hclean fun actorRow targetRow σ₁ s₁ hnow₁ hw₁ hlocked₁ => ?_
  refine wp_raiseIf (fun _ => hR _ _ _ hnow₁.inv hnow₁.integral) fun hadmin => ?_
  refine wp_raiseIf (fun _ => hR _ _ _ hnow₁.inv hnow₁.integral) fun hrole => ?_
  refine (wp_ownerGuard (c := (targetCopy σ actorRow targetRow).role = .owner) hR
    (by rw [hw₁, hclean]) hnow₁ hlocked₁).then ?_
  rintro _ σ₂ s₂ ⟨hnow₂, hw₂, hlocked₂, howner₂⟩
  have hw₀ : σ₂.writes = σ.writes := hw₂.trans hw₁
  have hid := targetCopy_id σ actorRow targetRow
  refine wp_writeAudit hD hR fun entry σ₃ s₃ hentry h₃ hnow₃ haudited => ?_
  have hlocked₃ := hlocked₂.later h₃ haudited.locks
  have hclean₃ : σ₃.writes .memberships = [] := by
    rw [haudited.writes, Overlay.put_table_ne _ (by decide), hw₀, hclean]
  rw [hid]
  refine wp_deleteRow hR.escapes (fun s₄ h₄ hnone => ?_) fun s₄ old h₄ hold => ?_
  · rw [Session.lookup_view_of_nil hclean₃] at hnone
    have := (hlocked₃.targetLocked.interferes h₄).current.symm.trans hnone
    cases this
  · have hsound := h₄.sound.delete (S := schema) .memberships targetRow.id
    rw [Session.delete, hold] at hsound
    have hl := σ₃.locks_write (Session.deleteNeeds (S := schema) old) s₄.db .memberships
      targetRow.id none
    have hlater : Later P tag σ₂.locks s₂ s₄ :=
      h₃.trans ((Later.of_interferes h₄).mono haudited.locks)
    have hl' : σ₂.locks ⊆ _ := fun _ hmem => hl (haudited.locks hmem)
    refine h actorRow targetRow _ s₄ (.refl h₄.inv h₄.integral hsound)
      ⟨hlocked₂.later hlater hl', ?_, ?_, fun _ => ?_, entry,
        ((hid ▸ .of_added hentry haudited fun hclean' => by rw [hw₀, hclean'] :
          Recorded organizationId (some actorId) "member.removed" (rt.uuidText targetRow.id) σ σ₃ s₃.db
            entry).later (.of_interferes h₄) hl), ?_⟩
    · by_cases hactor : (actorCopy σ actorRow).role = .owner
      · exact Or.inl hactor
      · have hactor' : (actorCopy σ actorRow).role = .admin :=
          not_not.mp fun hne => hrole ⟨hactor, hne⟩
        exact Or.inr ⟨hactor', not_not.mp fun hne => hadmin ⟨hactor', hne⟩⟩
    · intro htarget
      exact hid ▸ (howner₂ htarget).later hlater hl'
    · have hcurrent := (hlocked₃.targetLocked.interferes h₄).current
      rw [Session.lookup_view_of_nil hclean₃] at hold
      obtain rfl : old = targetRow := Option.some.inj (hold.symm.trans hcurrent)
      refine Session.mem_hold_index (uniqueValues (t := .memberships) old) (fun need hneed => ?_)
        List.mem_cons_self
      exact List.mem_cons_of_mem _ hneed
    · rw [Session.writes_write, haudited.writes, hw₀]

end TenantForge
