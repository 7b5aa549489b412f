import TenantForge.AppRules
/-!
# Locks on organizations

Sessions that are about to change what an organization has agreed to hold its row. Inserting a child row
takes a weaker lock on it, which still keeps others from holding it.
-/

namespace TenantForge

open Gregorian ReadCommitted

variable {organizationId : Uuid} {locks locks' : List (Held schema)}

/-- The session holds the organization's row. -/
def HoldsOrganization (organizationId : Uuid) (locks : List (Held schema)) : Prop :=
  ∃ held ∈ locks, held.key = .row .organizations organizationId ∧ held.mode = .forUpdate

theorem HoldsOrganization.mono (h : HoldsOrganization organizationId locks) (hl : locks ⊆ locks') :
    HoldsOrganization organizationId locks' := by
  obtain ⟨held, hmem, hrest⟩ := h
  exact ⟨held, hl hmem, hrest⟩

theorem holdsOrganization_of_locked {σ : Session schema} {organization : Organization} {db : Db}
    (h : σ.Locked db (t := .organizations) organization) :
    HoldsOrganization organization.id σ.locks := by
  obtain ⟨held, hmem, hkey, hmode, _⟩ := h.held
  exact ⟨held, hmem, hkey, hmode⟩

/-- The session has some lock on the organization's row. -/
def UsesOrganization (organizationId : Uuid) (locks : List (Held schema)) : Prop :=
  ∃ held ∈ locks, held.key = .row .organizations organizationId

theorem UsesOrganization.mono (h : UsesOrganization organizationId locks) (hl : locks ⊆ locks') :
    UsesOrganization organizationId locks' := by
  obtain ⟨held, hmem, hkey⟩ := h
  exact ⟨held, hl hmem, hkey⟩

theorem HoldsOrganization.uses (h : HoldsOrganization organizationId locks) :
    UsesOrganization organizationId locks := by
  obtain ⟨held, hmem, hkey, _⟩ := h
  exact ⟨held, hmem, hkey⟩

/-- An organization that one session holds is not used by another one. -/
theorem HoldsOrganization.not_uses (h : HoldsOrganization organizationId locks)
    (h' : UsesOrganization organizationId locks') (hcompat : Compatible locks locks') : False := by
  obtain ⟨held, hmem, hkey, hmode⟩ := h
  obtain ⟨held', hmem', hkey'⟩ := h'
  have hconflict := hcompat held hmem held' hmem' (hkey.trans hkey'.symm)
  simp [hmode] at hconflict

/-- Two sessions do not hold the same organization. -/
theorem HoldsOrganization.not_both (h : HoldsOrganization organizationId locks)
    (h' : HoldsOrganization organizationId locks') (hcompat : Compatible locks locks') : False :=
  h.not_uses h'.uses hcompat

/-- The session has locked the place of this user in the unique index of memberships. -/
def HoldsMember (userId organizationId : Uuid) (locks : List (Held schema)) : Prop :=
  ∃ held ∈ locks, held.key = .index .memberships (.member userId organizationId) ∧
    held.mode = .forUpdate

theorem HoldsMember.mono {userId : Uuid} (h : HoldsMember userId organizationId locks)
    (hl : locks ⊆ locks') : HoldsMember userId organizationId locks' := by
  obtain ⟨held, hmem, hrest⟩ := h
  exact ⟨held, hl hmem, hrest⟩

theorem HoldsMember.not_both {userId : Uuid} (h : HoldsMember userId organizationId locks)
    (h' : HoldsMember userId organizationId locks') (hcompat : Compatible locks locks') : False := by
  obtain ⟨held, hmem, hkey, hmode⟩ := h
  obtain ⟨held', hmem', hkey', _⟩ := h'
  have hconflict := hcompat held hmem held' hmem' (hkey.trans hkey'.symm)
  simp [hmode] at hconflict

end TenantForge
