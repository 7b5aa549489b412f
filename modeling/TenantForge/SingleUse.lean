import TenantForge.InvitationRequests
import TenantForge.Reference.Runtime
/-!
# Invitations are for one use

A commit of `accept_invitation` marks one pending invitation and inserts the one membership that it
offers. An accepted invitation stays as it is, so no invitation makes a second member.
-/

namespace TenantForge

open Gregorian ReadCommitted

/-- The membership is what the invitation offers, to the user with its address. -/
structure Offers (rt : Runtime) (i : Invitation) (m : Membership) (db : Db) : Prop where
  organization : m.organizationId = i.organizationId
  role : m.role = i.role
  user : ∃ user : User, user ∈ db .users ∧ user.id = m.userId ∧ rt.lower user.email = rt.lower i.email

/-- The commit accepts the invitation, which was pending before. -/
structure Accepts {T : Type} (i : Invitation) (c : Commit schema T) : Prop where
  before : i ∈ c.before .invitations
  pending : i.acceptedAt = none
  after : ∃ t, { i with acceptedAt := some t } ∈ c.after .invitations

/-- The commit inserts the membership. -/
structure Inserts {T : Type} (m : Membership) (c : Commit schema T) : Prop where
  before : ∀ m' : Membership, m' ∈ c.before .memberships → m'.id ≠ m.id
  after : m ∈ c.after .memberships

/-- A commit keeps accepted invitations, and pending ones unless it accepts them; it inserts a membership
exactly when it accepts an invitation, and then the one on offer. -/
structure SingleUse {T : Type} (rt : Runtime) (c : Commit schema T) : Prop where
  accepted : ∀ i : Invitation, i ∈ c.before .invitations → i.acceptedAt.isSome = true →
    i ∈ c.after .invitations
  pending : ∀ i : Invitation, i ∈ c.before .invitations → i.acceptedAt = none →
    i ∈ c.after .invitations ∨ Accepts i c
  accepts : ∀ i, Accepts i c → ∃ m, Inserts m c ∧ Offers rt i m c.before
  inserts : ∀ m, Inserts m c → ∃ i, Accepts i c ∧ Offers rt i m c.before
  oneInvitation : ∀ i j, Accepts i c → Accepts j c → i = j
  oneMembership : ∀ m m', Inserts m c → Inserts m' c → m = m'

/-- A test for a commit that accepts the invitation with this key. -/
def accepts {T : Type} (id : Uuid) (c : Commit schema T) : Bool :=
  ((c.before .invitations).any fun (i : Invitation) => i.id = id && i.acceptedAt.isNone) &&
    (c.after .invitations).any fun (i : Invitation) => i.id = id && i.acceptedAt.isSome

section Commits

variable {rt : Runtime} {σ σ₀ : Session schema} {s : Shared schema Env Numbered} {job : Numbered}
  {P : Protocol schema Env Numbered}

/-- A commit that leaves the invitations and the keys of the memberships as they are. -/
theorem singleUse_of_kept (hdb : s.db.Integral) (hi : σ.view s.db .invitations = s.db .invitations)
    (hm : ∀ m : Membership, m ∈ σ.view s.db .memberships →
      ∃ old : Membership, old ∈ s.db .memberships ∧ old.id = m.id) :
    SingleUse rt ⟨job, σ, s.db⟩ := by
  have hnone : ∀ i, ¬Accepts i (⟨job, σ, s.db⟩ : Commit schema Numbered) := by
    rintro i ⟨hbefore, hpending, t, hafter⟩
    rw [Commit.after, hi] at hafter
    have hsame := hdb.eq_of_id (t := .invitations) hbefore hafter rfl
    rw [hsame] at hpending
    cases hpending
  have hinserts : ∀ m, ¬Inserts m (⟨job, σ, s.db⟩ : Commit schema Numbered) := by
    rintro m ⟨hbefore, hafter⟩
    obtain ⟨old, hold, hid⟩ := hm m hafter
    exact hbefore old hold hid
  exact ⟨fun i h _ => (by rw [Commit.after, hi]; exact h), fun i h _ => Or.inl (by rw [Commit.after, hi]; exact h),
    fun i h => absurd h (hnone i), fun m h => absurd h (hinserts m), fun i _ h => absurd h (hnone i),
    fun m _ h => absurd h (hinserts m)⟩

/-- The commit of an acceptance accepts the locked row and inserts the new membership, no more. -/
theorem InvitationAccepted.singleUse (job : Numbered) {tag : Numbered} {token : String} {user : User}
    {row : Invitation} {accepted : DateTime} {membership : Membership} (hdb : s.db.Integral)
    (hempty : σ₀.writes = .empty) (hloaded : σ₀.loaded .invitations = []) (huser : user ∈ s.db .users)
    (h : InvitationAccepted rt P tag token user σ₀ σ s row accepted membership) :
    SingleUse rt ⟨job, σ, s.db⟩ := by
  have hcopy := InvitationAccepted.copy row hloaded
  have hrow : row ∈ s.db .invitations := h.locked.mem
  have hpending : row.acceptedAt = none := hcopy ▸ h.pending
  have hvacant := (h.vacant (by rw [hempty]; rfl)).current
  have hinvitations := Session.mem_view_single (h.writes_invitations hempty) s.db
  have hmembers := Session.mem_view_single (h.joins hempty) s.db
  have hoffers : Offers rt row membership s.db := by
    refine ⟨by rw [h.organizationId, hcopy], by rw [h.role, hcopy], user, huser, h.userId.symm, ?_⟩
    rw [← h.email, hcopy]
  have haccepts : ∀ i, Accepts i (⟨job, σ, s.db⟩ : Commit schema Numbered) ↔ i = row := by
    intro i
    constructor
    · rintro ⟨hbefore, hnone, t, hafter⟩
      rcases (hinvitations _).mp hafter with ⟨hold, _⟩ | hnew
      · have hsame := hdb.eq_of_id (t := .invitations) hbefore hold rfl
        rw [hsame] at hnone
        cases hnone
      · have hid := congrArg Invitation.id (Option.some.inj hnew)
        exact hdb.eq_of_id (t := .invitations) hbefore hrow hid.symm
    · rintro rfl
      exact ⟨hrow, hpending, accepted, (hinvitations _).mpr (Or.inr rfl)⟩
  have hinserts : ∀ m, Inserts m (⟨job, σ, s.db⟩ : Commit schema Numbered) ↔ m = membership := by
    intro m
    constructor
    · rintro ⟨hbefore, hafter⟩
      rcases (hmembers _).mp hafter with ⟨hold, _⟩ | hnew
      · exact absurd rfl (hbefore m hold)
      · exact (Option.some.inj hnew).symm
    · rintro rfl
      exact ⟨Store.lookup_eq_none.mp hvacant, (hmembers _).mpr (Or.inr rfl)⟩
  refine ⟨fun i hi hdone => ?_, fun i hi _ => ?_, fun i hi => ?_, fun m hm => ?_, fun i j hi hj => ?_,
    fun m m' hm hm' => ?_⟩
  · refine (hinvitations _).mpr (Or.inl ⟨hi, fun hid => ?_⟩)
    rw [hdb.eq_of_id (t := .invitations) hi hrow hid, hpending] at hdone
    cases hdone
  · by_cases hid : i.id = row.id
    · exact Or.inr ((haccepts i).mpr (hdb.eq_of_id (t := .invitations) hi hrow hid))
    · exact Or.inl ((hinvitations _).mpr (Or.inl ⟨hi, hid⟩))
  · exact ⟨membership, (hinserts _).mpr rfl, (haccepts i).mp hi ▸ hoffers⟩
  · exact ⟨row, (haccepts _).mpr rfl, (hinserts m).mp hm ▸ hoffers⟩
  · rw [(haccepts i).mp hi, (haccepts j).mp hj]
  · rw [(hinserts m).mp hm, (hinserts m').mp hm']

/-- A new pending invitation changes nothing for the others. -/
theorem InvitationIssued.singleUse {tag : Numbered} {organizationId actorId : Uuid}
    {data : InvitationCreate} {actorRow : Membership} {invitation : Invitation} (hdb : s.db.Integral)
    (hempty : σ₀.writes = .empty)
    (h : InvitationIssued rt P tag organizationId actorId data σ₀ σ s actorRow invitation) :
    SingleUse rt ⟨job, σ, s.db⟩ := by
  have hmembers : σ.view s.db .memberships = s.db .memberships :=
    Session.view_of_nil (h.others hempty (by decide) (by decide)) s.db
  have hinvitations := Session.mem_view_single (h.writes_invitations hempty) s.db
  have hvacant := (h.vacant (by rw [hempty]; rfl)).current
  have hkept : ∀ i : Invitation, i ∈ s.db .invitations → i ∈ σ.view s.db .invitations := fun i hi =>
    (hinvitations i).mpr (Or.inl ⟨hi, Store.lookup_eq_none.mp hvacant i hi⟩)
  have hnone : ∀ i, ¬Accepts i (⟨job, σ, s.db⟩ : Commit schema Numbered) := by
    rintro i ⟨hbefore, hpending, t, hafter⟩
    rcases (hinvitations _).mp hafter with ⟨hold, _⟩ | hnew
    · have hsame := hdb.eq_of_id (t := .invitations) hbefore hold rfl
      rw [hsame] at hpending
      cases hpending
    · have hnew := congrArg Invitation.acceptedAt (Option.some.inj hnew)
      rw [h.pending] at hnew
      cases hnew
  have hinserts : ∀ m, ¬Inserts m (⟨job, σ, s.db⟩ : Commit schema Numbered) := by
    rintro m ⟨hbefore, hafter⟩
    rw [Commit.after, hmembers] at hafter
    exact hbefore m hafter rfl
  exact ⟨fun i hi _ => hkept i hi, fun i hi _ => Or.inl (hkept i hi), fun i hi => absurd hi (hnone i),
    fun m hm => absurd hm (hinserts m), fun i _ hi => absurd hi (hnone i),
    fun m _ hm => absurd hm (hinserts m)⟩

theorem InvitationEffect.singleUse (hdb : s.db.Integral) (h : InvitationEffect rt P job σ s) :
    SingleUse rt ⟨job, σ, s.db⟩ := by
  have hself : ∀ m : Membership, m ∈ s.db .memberships →
      ∃ old : Membership, old ∈ s.db .memberships ∧ old.id = m.id := fun m hm => ⟨m, hm, rfl⟩
  cases h with
  | invited hempty h => exact h.singleUse hdb hempty
  | accepted hempty hloaded huser h => exact h.singleUse _ hdb hempty hloaded huser
  | @roleChanged _ _ _ _ _ _ _ _ _ _ targetRow hempty h =>
    refine singleUse_of_kept hdb (Session.view_of_nil (h.others hempty (by decide) (by decide)) _)
      fun m hm => ?_
    rcases h.writes_memberships hempty with ⟨_, hw⟩ | hw
    · exact hself m (Session.view_of_nil hw s.db ▸ hm)
    · rcases (Overlay.mem_apply_single hw).mp hm with ⟨hm, _⟩ | hnew
      · exact hself m hm
      · have hid := congrArg Membership.id (Option.some.inj hnew)
        exact ⟨targetRow, h.locked.targetLocked.mem, hid⟩
  | removed hempty h =>
    refine singleUse_of_kept hdb (Session.view_of_nil (h.others hempty (by decide) (by decide)) _)
      fun m hm => ?_
    rcases (Overlay.mem_apply_single (h.writes_memberships hempty)).mp hm with ⟨hm, _⟩ | hnew
    · exact hself m hm
    · cases hnew
  | idle hw =>
    refine singleUse_of_kept hdb (Session.view_of_nil (by rw [hw]; rfl) _) fun m hm => hself m ?_
    rwa [Session.view_of_nil (by rw [hw]; rfl)] at hm

end Commits

/-! ### The history of the acceptances -/

/-- Every commit is for one use, each invitation is accepted at most once, and what was accepted stays. -/
structure UsedOnce (rt : Runtime) (s : Shared schema Env Numbered) : Prop where
  commits : ∀ c ∈ s.log, SingleUse rt c
  once : ∀ id, s.log.countP (accepts id) ≤ 1
  kept : ∀ c ∈ s.log, ∀ i : Invitation, i ∈ c.after .invitations → i.acceptedAt.isSome = true →
    i ∈ s.db .invitations

theorem usedOnce_timeless {rt : Runtime} : Timeless (UsedOnce rt) where
  env _ _ h _ := ⟨h.commits, h.once, h.kept⟩
  draw _ h := ⟨h.commits, h.once, h.kept⟩

section History

variable {rt : Runtime} {s : Shared schema Env Numbered} {job : Numbered} {σ : Session schema}

/-- What an acceptance was found to do. -/
theorem accepts_spec {T : Type} {c : Commit schema T} {id : Uuid} (h : accepts id c = true) :
    (∃ i : Invitation, i ∈ c.before .invitations ∧ i.id = id ∧ i.acceptedAt = none) ∧
      ∃ i : Invitation, i ∈ c.after .invitations ∧ i.id = id ∧ i.acceptedAt.isSome = true := by
  simpa only [accepts, Bool.and_eq_true, List.any_eq_true, decide_eq_true_eq,
    Option.isNone_iff_eq_none] using h

/-- **The step**: a commit accepts no invitation that was accepted before. -/
theorem UsedOnce.commit (h : UsedOnce rt s) (hdb : s.db.Integral)
    (hsingle : SingleUse rt ⟨job, σ, s.db⟩) : UsedOnce rt (s.commit job σ) := by
  have hfirst : ∀ id, accepts id (⟨job, σ, s.db⟩ : Commit schema Numbered) = true →
      s.log.countP (accepts id) = 0 := by
    intro id haccepts
    obtain ⟨⟨i, hi, hid, hpending⟩, _⟩ := accepts_spec haccepts
    rw [List.countP_eq_zero]
    intro c hc hbefore
    obtain ⟨_, j, hj, hjd, hsome⟩ := accepts_spec hbefore
    rw [hdb.eq_of_id (t := .invitations) (h.kept c hc j hj hsome) hi (hjd.trans hid.symm),
      hpending] at hsome
    cases hsome
  refine ⟨fun c hc => ?_, fun id => ?_, fun c hc i hi hsome => ?_⟩
  · rcases List.mem_cons.mp hc with rfl | hc
    · exact hsingle
    · exact h.commits c hc
  · rw [Shared.commit_log, List.countP_cons]
    split
    · rw [hfirst id ‹_›]
    · exact h.once id
  · rcases List.mem_cons.mp hc with rfl | hc
    · exact hi
    · exact hsingle.accepted i (h.kept c hc i hi hsome) hsome

end History

/-! ### Runs -/

/-- A user is a member of an organization at most once. -/
def OneMembership (db : Db) : Prop :=
  ∀ m m' : Membership, m ∈ db .memberships → m' ∈ db .memberships → m.userId = m'.userId →
    m.organizationId = m'.organizationId → m = m'

theorem oneMembership_of_integral {db : Db} (hdb : db.Integral) : OneMembership db := by
  intro m m' hm hm' huser hof
  refine hdb.eq_of_id (t := .memberships) hm hm' ?_
  refine hdb.unique .memberships m hm m' hm' (.member m.userId m.organizationId) ?_ ?_
  · simp [uniqueValues]
  · simp [uniqueValues, huser, hof]

theorem commitsLast_acceptInvitation (rt : Runtime) (credentials : Option Credentials)
    (token : String) : ((Request.acceptInvitation credentials token).handle rt).CommitsLast := by
  refine commitsLast_getSession (W := fun _ => True) (D := fun _ _ => True) ?_
  exact (within_getCurrentUser fun _ _ _ => trivial).bind fun user =>
    (within_acceptInvitation (fun _ _ _ => trivial) trivial trivial trivial).bind fun _ => trivial

/-- **Invitations are single-use**, and make exactly the membership on offer, whatever requests run at
the same time; an acceptance that fails commits nothing. -/
theorem singleUse_of_reach (rt : Runtime) {s : Shared schema Env Numbered} {requests : List Request}
    {w : World schema Env Exn Numbered Response} (hlog : s.log = []) (hdb : s.db.Integral)
    (hrequests : ∀ request ∈ requests, request.onInvitations = true)
    (hreach : (startNumbered rt s requests).Reach w) :
    UsedOnce rt w.shared ∧ OneMembership w.shared.db ∧
      ∀ th ∈ w.threads, ∀ credentials token error, th.tag.1 = .acceptInvitation credentials token →
        th.prog = some (.throw error) → ∀ c ∈ w.shared.log, c.tag ≠ th.tag := by
  have hinv : UsedOnce rt s := by
    constructor <;> simp [hlog]
  obtain ⟨hused, hdb'⟩ := invitations_of_run rt usedOnce_timeless hrequests
    (fun _ _ _ _ hdb _ hinv heffect => hinv.commit hdb (heffect.singleUse hdb)) hinv hdb
    (run_of_reach hreach)
  refine ⟨hused, oneMembership_of_integral hdb', fun th hth credentials token error htag hfailed => ?_⟩
  have huncommitted := World.uncommitted_of_reach (nodup_zipIdx requests) hlog hreach th hth
    (by rw [htag]; exact commitsLast_acceptInvitation rt credentials token)
  rcases huncommitted with ⟨value, hpure⟩ | ⟨hnone, _⟩
  · rw [hpure] at hfailed
    cases hfailed
  · exact hnone

namespace Reference

/-- An owner, and two invitations for one user. -/
def invitedTwice : Tables where
  users := [user 1, user 3]
  organizations := [organization 5]
  memberships := [member 11 1 5 .owner]
  invitations := [invitation 21 5 "user-3" "first" 20, invitation 22 5 "user-3" "second" 20]

/-- The user accepts both, one of them twice at the same time. -/
def acceptances : List Request :=
  [.acceptInvitation (bearer 3) "first", .acceptInvitation (bearer 3) "first",
    .acceptInvitation (bearer 3) "second"]

def acceptTogether : World schema Env Exn Numbered Response :=
  (startNumbered runtime (shared Numbered (fun _ => noon 1) invitedTwice) acceptances).playAll
    (List.replicate 60 [Move.run 0, .run 1, .run 2]).flatten

theorem singleUse_of_acceptances : UsedOnce runtime acceptTogether.shared ∧
    OneMembership acceptTogether.shared.db ∧ ∀ th ∈ acceptTogether.threads, ∀ credentials token error,
      th.tag.1 = .acceptInvitation credentials token → th.prog = some (.throw error) →
        ∀ c ∈ acceptTogether.shared.log, c.tag ≠ th.tag :=
  singleUse_of_reach (w := acceptTogether) runtime rfl (ValidDb.integral (by decide +kernel))
    (by simp [acceptances, Request.onInvitations]) (World.reach_playAll _ _)

example : acceptTogether.shared.log.length = 1 ∧
    (acceptTogether.shared.db .memberships).length = 2 := by decide +kernel

end Reference

end TenantForge
