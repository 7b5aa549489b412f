import TenantForge.InvitationRequests
import TenantForge.Reference.Runtime
/-!
# At most one active invitation

No constraint of the database keeps two invitations for one address from being open at the same time.
`create_invitation` sees to it: it holds the organization while it reads the clock, looks for an open
invitation and adds its own; and acceptance only closes invitations.
-/

namespace TenantForge

open Gregorian ReadCommitted

/-- Some reading of the clock has reached the time. -/
def Passed {T : Type} (t : DateTime) (s : Shared schema Env T) : Prop :=
  ∃ n < s.env.ticks, t ≤ s.env.clock n

theorem Passed.onward {T : Type} {t : DateTime} {s s' : Shared schema Env T} (h : Passed t s)
    (hclock : s.env.Onward s'.env) : Passed t s' := by
  obtain ⟨n, hn, hle⟩ := h
  exact ⟨n, Nat.lt_of_lt_of_le hn hclock.ticks, hclock.clock ▸ hle⟩

/-- The invitation is not accepted, and no reading of the clock has reached its end. -/
structure Invitation.Active {T : Type} (i : Invitation) (organizationId : Uuid) (email : String)
    (s : Shared schema Env T) : Prop where
  stored : i ∈ s.db .invitations
  organization : i.organizationId = organizationId
  email : i.email = email
  pending : i.acceptedAt = none
  unexpired : ¬Passed i.expiresAt s

/-- For each organization and each address in lower case, at most one invitation is active. -/
def OneActive {T : Type} (rt : Runtime) (s : Shared schema Env T) : Prop :=
  ∀ organizationId email, rt.sqlLower email = email → ∀ i j : Invitation,
    i.Active organizationId email s → j.Active organizationId email s → i = j

/-- What is active later was active before, if no new invitation is pending. -/
theorem Invitation.Active.earlier {T : Type} {i : Invitation} {organizationId : Uuid} {email : String}
    {s s' : Shared schema Env T} (h : i.Active organizationId email s')
    (hclock : s.env.Onward s'.env) (hnew : NoNewInvitations organizationId s.db s'.db) :
    i.Active organizationId email s :=
  ⟨hnew i h.stored h.organization h.pending, h.organization, h.email, h.pending,
    fun hpassed => h.unexpired (hpassed.onward hclock)⟩

theorem OneActive.later {T : Type} {rt : Runtime} {s s' : Shared schema Env T} (h : OneActive rt s)
    (hclock : s.env.Onward s'.env) (hnew : ∀ organizationId, NoNewInvitations organizationId s.db s'.db) :
    OneActive rt s' := fun organizationId email hemail i j hi hj =>
  h organizationId email hemail i j (hi.earlier hclock (hnew _)) (hj.earlier hclock (hnew _))

theorem oneActive_timeless {rt : Runtime} : Timeless (OneActive rt) where
  env _ _ h hd := h.later hd fun _ _ hi _ _ => hi
  draw _ h := h.later (.refl _) fun _ _ hi _ _ => hi

section Commits

variable {rt : Runtime} {σ σ₀ : Session schema} {s : Shared schema Env Numbered} {job : Numbered}
  {assume : Numbered → Session schema → (t : Table) → Row t → Shared schema Env Numbered → Prop}
  {inv : Shared schema Env Numbered → Prop}

/-- While an invitation is issued, no other one for its address is active. -/
theorem InvitationIssued.unrivalled {organizationId actorId : Uuid} {data : InvitationCreate}
    {actorRow : Membership} {invitation i : Invitation} (hempty : σ₀.writes = .empty)
    (h : InvitationIssued rt (invitationProtocol assume inv) job organizationId actorId data σ₀ σ s
      actorRow invitation) (hemail : rt.sqlLower data.email = data.email) :
    ¬i.Active organizationId data.email s := by
  intro hi
  obtain ⟨locks, hheld, -, -, s₁, -, hnone, hlater⟩ := h.vetted hempty
  obtain ⟨s₂, -, ⟨n, hn, hread⟩, hlater₂⟩ := h.reading
  have hstored := hlater.noNewInvitations hheld.uses i hi.stored hi.organization hi.pending
  have hinactive := List.any_eq_false.mp hnone i hstored
  simp only [isActiveInvitation, hi.organization, hi.email, hemail, hi.pending, Option.isNone_none,
    decide_true, Bool.and_self, Bool.true_and, decide_eq_true_eq, not_lt] at hinactive
  exact hi.unexpired (Passed.onward ⟨n, hn, hread ▸ hinactive⟩ hlater₂.proceeds.clock)

/-- **The step**: a commit leaves at most one invitation active. -/
theorem InvitationEffect.oneActive
    (h : InvitationEffect rt (invitationProtocol assume inv) job σ s) (hone : OneActive rt s) :
    OneActive rt (s.commit job σ) := by
  cases h with
  | @invited of credentials data number _ _ _ _ _ invitation hempty h =>
    -- an active invitation is an old one, or the new one, which has no rival
    have hcases : ∀ {organizationId email} {i : Invitation}, rt.sqlLower email = email →
        i.Active organizationId email
            (s.commit (.tenant of credentials (.createInvitation data), number) σ) → i.Active organizationId email s ∨
          i = invitation ∧ ∀ j : Invitation, ¬j.Active organizationId email s := by
      intro organizationId email i hemail hi
      rcases (Overlay.mem_apply_single (h.writes_invitations hempty)).mp hi.stored with ⟨hold, _⟩ | hnew
      · exact Or.inl ⟨hold, hi.organization, hi.email, hi.pending, hi.unexpired⟩
      · obtain rfl := Option.some.inj hnew
        refine Or.inr ⟨rfl, fun j => ?_⟩
        rw [← hi.organization, h.organization, ← hi.email, h.email]
        exact h.unrivalled hempty (by rw [← h.email, hi.email, hemail])
    intro organizationId email hemail i j hi hj
    rcases hcases hemail hi with hi | ⟨rfl, hi⟩ <;> rcases hcases hemail hj with hj | ⟨rfl, hj⟩
    · exact hone organizationId email hemail i j hi hj
    · exact absurd hi (hj i)
    · exact absurd hj (hi j)
    · rfl
  | accepted hempty _ _ h => exact hone.later (.refl _) (h.noNewInvitations hempty)
  | roleChanged hempty h =>
    exact hone.later (.refl _)
      (noNewInvitations_of_clean (h.others hempty (by decide) (by decide)))
  | removed hempty h =>
    exact hone.later (.refl _)
      (noNewInvitations_of_clean (h.others hempty (by decide) (by decide)))
  | idle hw => exact hone.later (.refl _) (noNewInvitations_of_clean (by rw [hw]; rfl))

end Commits

/-! ### Runs -/

/-- A test for an invitation that is open at a time. -/
def isOpenInvitation (organizationId : Uuid) (email : String) (t : DateTime) (i : Invitation) : Bool :=
  i.organizationId = organizationId && i.email = email && i.acceptedAt.isNone && t < i.expiresAt

/-- Rows of which any two are equal are at most one row. -/
theorem countP_le_one {db : Db} (hdb : db.Integral) {t : Table} {test : Row t → Bool}
    (h : ∀ a b : Row t, a ∈ db t → b ∈ db t → test a = true → test b = true → a = b) :
    (db t).countP test ≤ 1 := by
  have hnodup : ((db t).filter test).Nodup := (List.Nodup.of_map _ (hdb.nodup t)).filter test
  have hmem : ∀ row ∈ (db t).filter test, row ∈ db t ∧ test row = true := fun _ => List.mem_filter.mp
  rw [List.countP_eq_length_filter]
  match (db t).filter test, hnodup, hmem with
  | [], _, _ => exact Nat.zero_le 1
  | [_], _, _ => exact Nat.le_refl 1
  | a :: b :: _, hnodup, hmem =>
    obtain ⟨ha, hatest⟩ := hmem a (by simp)
    obtain ⟨hb, hbtest⟩ := hmem b (by simp)
    simp [h a b ha hb hatest hbtest] at hnodup

/-- **At most one active invitation** at every present time, whatever requests run at the same time. -/
theorem oneActive_of_reach (rt : Runtime) {s : Shared schema Env Numbered} {requests : List Request}
    {w : World schema Env Exn Numbered Response} (hdb : s.db.Integral) (hone : OneActive rt s)
    (hrequests : ∀ request ∈ requests, request.onInvitations = true)
    (hreach : (startNumbered rt s requests).Reach w) {t : DateTime}
    (ht : ∀ n < w.shared.env.ticks, w.shared.env.clock n ≤ t) (organizationId : Uuid) {email : String}
    (hemail : rt.sqlLower email = email) :
    (w.shared.db .invitations).countP (isOpenInvitation organizationId email t) ≤ 1 := by
  obtain ⟨hinv, hdb'⟩ := invitations_of_run rt oneActive_timeless hrequests
    (fun _ _ _ _ _ _ hinv heffect => heffect.oneActive hinv) hone hdb (run_of_reach hreach)
  have hactive : ∀ i : Invitation, i ∈ w.shared.db .invitations →
      isOpenInvitation organizationId email t i = true → i.Active organizationId email w.shared := by
    intro i hi hopen
    simp only [isOpenInvitation, Bool.and_eq_true, decide_eq_true_eq, Option.isNone_iff_eq_none] at hopen
    obtain ⟨⟨⟨hof, hemail⟩, hpending⟩, hlt⟩ := hopen
    refine ⟨hi, hof, hemail, hpending, ?_⟩
    rintro ⟨n, hn, hle⟩
    exact absurd hlt (not_lt.mpr (hle.trans (ht n hn)))
  exact countP_le_one (t := .invitations) hdb' fun a b ha hb hopenA hopenB =>
    hinv organizationId email hemail a b (hactive a ha hopenA) (hactive b hb hopenB)

namespace Reference

/-- Two owners, and an invitation that expires on the third day. -/
def invitingOwners : Tables where
  users := [user 1, user 2, user 3]
  organizations := [organization 5]
  memberships := [member 11 1 5 .owner, member 12 2 5 .owner]
  invitations := [invitation 21 5 "user-3" "first" 2]

/-- Both owners invite the user again, who accepts the first invitation. -/
def invitationRace : List Request :=
  [.tenant 5 (bearer 1) (.createInvitation ⟨"user-3", .member⟩),
    .tenant 5 (bearer 2) (.createInvitation ⟨"user-3", .admin⟩), .acceptInvitation (bearer 3) "first"]

def invitationRaceStart : World schema Env Exn Numbered Response :=
  startNumbered runtime (shared Numbered daily invitingOwners) invitationRace

/-- The owners take turns, statement by statement; the acceptance comes too late. -/
def inviteTogether : World schema Env Exn Numbered Response :=
  invitationRaceStart.playAll ((List.replicate 60 [Move.run 0, .run 1]).flatten ++
    List.replicate 60 (Move.run 2))

theorem oneActive_invitingOwners : OneActive runtime (shared Numbered daily invitingOwners) := by
  intro organizationId email _ i j hi hj
  rw [List.mem_singleton.mp hi.stored, List.mem_singleton.mp hj.stored]

theorem oneActive_of_inviteTogether :
    (inviteTogether.shared.db .invitations).countP (isOpenInvitation 5 "user-3" (noon 8)) ≤ 1 :=
  oneActive_of_reach (w := inviteTogether) runtime (ValidDb.integral (by decide +kernel))
    oneActive_invitingOwners (by simp [invitationRace, Request.onInvitations])
    (World.reach_playAll invitationRaceStart _) (by decide +kernel) 5 (by decide +kernel)

example : (inviteTogether.shared.db .invitations).length = 2 := by decide +kernel

end Reference

end TenantForge
