import TenantForge.ActiveInvitations
import TenantForge.SingleUse
/-!
# Members who left

When a user has accepted an invitation, no other one of the organization for the user's address should
be open, so that a removed member needs a new invitation. `accept_invitation` reads its clock before it
waits for the invitation and for the organization; so a second invitation may be issued meanwhile, at a
time when the first one has expired. If no acceptance inserts its membership after a reading of the
clock that has reached the invitation's end (`Timely`), this cannot happen (`closing_of_run`).
-/

namespace TenantForge

open Gregorian ReadCommitted

/-! ### The property -/

/-- A commit that makes the user a member. -/
def Joins {T : Type} (userId organizationId : Uuid) (c : Commit schema T) : Prop :=
  ¬IsMember userId organizationId c.before ∧ IsMember userId organizationId c.after

/-- The invitation of the organization is for the user's address, and not accepted. -/
structure Invitation.Awaits (rt : Runtime) (i : Invitation) (userId organizationId : Uuid) (db : Db) :
    Prop where
  stored : i ∈ db .invitations
  organization : i.organizationId = organizationId
  pending : i.acceptedAt = none
  user : ∃ user : User, user ∈ db .users ∧ user.id = userId ∧ rt.lower i.email = rt.lower user.email

/-- A commit `r` of the log ends the membership that an older one began. -/
def Left {T : Type} (userId organizationId : Uuid) (log : List (Commit schema T)) (r : Commit schema T) :
    Prop :=
  Leaves userId organizationId r ∧ ∃ recent past, log = recent ++ r :: past ∧
    ∃ a ∈ past, Joins userId organizationId a

/-- Who has joined and is a member finds no open invitation; who has left joins again by an invitation
that was not there at that time. -/
structure Closing {T : Type} (rt : Runtime) (s : Shared schema Env T) : Prop where
  joined : ∀ c ∈ s.log, ∀ userId organizationId, Joins userId organizationId c →
    IsMember userId organizationId s.db → ∀ i : Invitation, i.Awaits rt userId organizationId s.db →
      Passed i.expiresAt s
  rejoined : ∀ recent c older, s.log = recent ++ c :: older → ∀ userId organizationId r,
    Left userId organizationId older r → Joins userId organizationId c → ∀ i, Accepts i c →
      ∀ old : Invitation, old ∈ r.after .invitations → old.id ≠ i.id

/-- No reading of the clock has reached the end of the invitation when its membership is inserted. -/
def Timely (rt : Runtime) (job : Numbered) (_ : Session schema) (t : Table) (_ : Row t)
    (s : Shared schema Env Numbered) : Prop :=
  ∀ credentials token, job.1 = .acceptInvitation credentials token → t = .memberships →
    ∀ i : Invitation, i ∈ s.db .invitations → i.tokenHash = rt.hashToken token → ¬Passed i.expiresAt s

theorem Left.cons {T : Type} {userId organizationId : Uuid} {log : List (Commit schema T)}
    {c r : Commit schema T} (h : Left userId organizationId (c :: log) r) :
    (r = c ∧ ∃ a ∈ log, Joins userId organizationId a) ∨ Left userId organizationId log r := by
  obtain ⟨hleaves, recent, past, hlog, hjoined⟩ := h
  cases recent with
  | nil =>
    cases hlog
    exact Or.inl ⟨rfl, hjoined⟩
  | cons first recent =>
    cases hlog
    exact Or.inr ⟨hleaves, recent, past, rfl, hjoined⟩

/-- Commits that end no membership of the user change nothing about who left. -/
theorem Left.of_append {T : Type} {userId organizationId : Uuid} {recent log : List (Commit schema T)}
    {r : Commit schema T} (hrecent : ∀ c ∈ recent, ¬Leaves userId organizationId c)
    (h : Left userId organizationId (recent ++ log) r) : Left userId organizationId log r := by
  induction recent with
  | nil => exact h
  | cons c recent ih =>
    rcases Left.cons h with ⟨rfl, _⟩ | h
    · exact absurd h.1 (hrecent r List.mem_cons_self)
    · exact ih (fun c hc => hrecent c (List.mem_cons_of_mem _ hc)) h

/-! ### The invariant -/

/-- Addresses are in lower case, invitations are never deleted, and the ones that a member found when it
left have expired since, unless they were accepted. -/
structure Departures (rt : Runtime) (s : Shared schema Env Numbered) : Prop where
  users : ∀ user : User, user ∈ s.db .users → rt.lower user.email = user.email
  emails : ∀ i : Invitation, i ∈ s.db .invitations → rt.lower i.email = i.email
  oneActive : OneActive rt s
  kept : ∀ r ∈ s.log, ∀ old : Invitation, old ∈ r.after .invitations →
    ∃ i : Invitation, i ∈ s.db .invitations ∧ i.id = old.id
  left : ∀ userId organizationId r, Left userId organizationId s.log r →
    ∀ i : Invitation, i.Awaits rt userId organizationId s.db →
      (∃ old : Invitation, old ∈ r.after .invitations ∧ old.id = i.id) → Passed i.expiresAt s
  closing : Closing rt s

theorem Departures.onward {rt : Runtime} {s s' : Shared schema Env Numbered} (h : Departures rt s)
    (hdb : s'.db = s.db) (hlog : s'.log = s.log) (hclock : s.env.Onward s'.env) : Departures rt s' where
  users := hdb ▸ h.users
  emails := hdb ▸ h.emails
  oneActive := h.oneActive.later hclock fun _ i hi _ _ => hdb ▸ hi
  kept := by rw [hdb, hlog]; exact h.kept
  left userId organizationId r hleft i hi hold :=
    (h.left userId organizationId r (hlog ▸ hleft) i (hdb ▸ hi) hold).onward hclock
  closing := by
    refine ⟨fun c hc userId organizationId hjoins hmember i hi => ?_, hlog ▸ h.closing.rejoined⟩
    exact (h.closing.joined c (hlog ▸ hc) userId organizationId hjoins (hdb ▸ hmember) i
      (hdb ▸ hi)).onward hclock

theorem departures_timeless {rt : Runtime} : Timeless (Departures rt) where
  env _ _ h hd := h.onward rfl rfl hd
  draw _ h := h.onward rfl rfl (.refl _)

section Commits

variable {rt : Runtime} {σ σ₀ : Session schema} {s : Shared schema Env Numbered} {job : Numbered}

/-- An invitation that is new in a commit, and for nobody who is a member. -/
def NewFor (rt : Runtime) (i : Invitation) (db db' : Db) : Prop :=
  (∀ j : Invitation, j ∈ db .invitations → j.id ≠ i.id) ∧ ∀ userId organizationId,
    i.Awaits rt userId organizationId db' → ¬IsMember userId organizationId db ∧
      ¬IsMember userId organizationId db'

/-- Who joins finds every other invitation expired, and accepts one that was not there when it left. -/
def Welcomes (rt : Runtime) (job : Numbered) (σ : Session schema) (s : Shared schema Env Numbered) : Prop :=
  ∀ userId organizationId, Joins userId organizationId (⟨job, σ, s.db⟩ : Commit schema Numbered) →
    (∀ i : Invitation, i.Awaits rt userId organizationId (σ.view s.db) → Passed i.expiresAt s) ∧
    ∀ r, Left userId organizationId s.log r → ∀ i, Accepts i (⟨job, σ, s.db⟩ : Commit schema Numbered) →
      ∀ old : Invitation, old ∈ r.after .invitations → old.id ≠ i.id

/-- **The step**: a commit whose new invitations are for no member, and that welcomes who joins. -/
theorem Departures.commit (h : Departures rt s) (husers : σ.view s.db .users = s.db .users)
    (hemails : ∀ i : Invitation, i ∈ σ.view s.db .invitations → rt.lower i.email = i.email)
    (hone : OneActive rt (s.commit job σ))
    (hids : ∀ i : Invitation, i ∈ s.db .invitations → ∃ j : Invitation,
      j ∈ σ.view s.db .invitations ∧ j.id = i.id)
    (hnew : ∀ i : Invitation, i ∈ σ.view s.db .invitations → i.acceptedAt = none →
      i ∈ s.db .invitations ∨ NewFor rt i s.db (σ.view s.db))
    (hwelcomes : Welcomes rt job σ s) : Departures rt (s.commit job σ) := by
  -- an invitation that was pending before awaits the same user
  have hearlier : ∀ {userId organizationId} {i : Invitation}, i ∈ s.db .invitations →
      i.Awaits rt userId organizationId (σ.view s.db) → i.Awaits rt userId organizationId s.db :=
    fun hold hi => ⟨hold, hi.organization, hi.pending, husers ▸ hi.user⟩
  refine ⟨?_, hemails, hone, fun r hr old hold => ?_, fun userId organizationId r hleft i hi hold => ?_,
    fun c hc userId organizationId hjoins hmember i hi => ?_,
    fun recent c older hlog userId organizationId r hleft hjoins i haccepts => ?_⟩
  · rw [Shared.commit_db, husers]
    exact h.users
  · rcases List.mem_cons.mp hr with rfl | hr
    · exact ⟨old, hold, rfl⟩
    · obtain ⟨i, hi, hid⟩ := h.kept r hr old hold
      obtain ⟨j, hj, hjd⟩ := hids i hi
      exact ⟨j, hj, hjd.trans hid⟩
  · rcases hleft.cons with ⟨rfl, a, ha, hjoined⟩ | hleft'
    · rcases hnew i hi.stored hi.pending with hstored | ⟨_, hnone⟩
      · exact h.closing.joined a ha userId organizationId hjoined hleft.1.1 i (hearlier hstored hi)
      · exact absurd hleft.1.1 (hnone userId organizationId hi).1
    · rcases hnew i hi.stored hi.pending with hstored | ⟨hfresh, _⟩
      · exact h.left userId organizationId r hleft' i (hearlier hstored hi) hold
      · obtain ⟨old, hold, hid⟩ := hold
        obtain ⟨recent, past, hlog, _⟩ := hleft'.2
        obtain ⟨j, hj, hjd⟩ := h.kept r (hlog ▸ by simp) old hold
        exact absurd (hjd.trans hid) (hfresh j hj)
  · by_cases hbefore : IsMember userId organizationId s.db
    · rcases hnew i hi.stored hi.pending with hstored | ⟨_, hnone⟩
      · rcases List.mem_cons.mp hc with rfl | hc
        · exact absurd hbefore hjoins.1
        · exact h.closing.joined c hc userId organizationId hjoins hbefore i (hearlier hstored hi)
      · exact absurd hbefore (hnone userId organizationId hi).1
    · exact (hwelcomes userId organizationId ⟨hbefore, hmember⟩).1 i hi
  · cases recent with
    | nil =>
      cases hlog
      exact (hwelcomes userId organizationId hjoins).2 r hleft i haccepts
    | cons first recent =>
      rw [Shared.commit_log, List.cons_append, List.cons.injEq] at hlog
      exact h.closing.rejoined recent c older hlog.2 userId organizationId r hleft hjoins i haccepts

/-- A commit that changes neither invitations nor users, and makes no member. -/
theorem Departures.commit_of_quiet (h : Departures rt s) (husers : σ.view s.db .users = s.db .users)
    (hi : σ.writes .invitations = [])
    (hm : ∀ organizationId, NoNewMembers organizationId s.db (σ.view s.db)) :
    Departures rt (s.commit job σ) := by
  have hsame : σ.view s.db .invitations = s.db .invitations := Session.view_of_nil hi s.db
  refine h.commit husers (hsame ▸ h.emails)
    (h.oneActive.later (.refl _) (noNewInvitations_of_clean hi))
    (fun i hi => ⟨i, hsame ▸ hi, rfl⟩) (fun i hi _ => Or.inl (hsame ▸ hi)) fun userId organizationId hj => ?_
  exact absurd (hm organizationId userId hj.2) hj.1

/-- A new invitation is for nobody who is a member. -/
theorem InvitationIssued.newFor {organizationId actorId : Uuid} {data : InvitationCreate}
    {actorRow : Membership} {invitation : Invitation} (hinv : Departures rt s)
    (hsql : ∀ text, rt.sqlLower (rt.lower text) = rt.lower text) (hdata : rt.lower data.email = data.email)
    (hempty : σ₀.writes = .empty)
    (h : InvitationIssued rt (invitationProtocol (Timely rt) (Departures rt)) job organizationId actorId
      data σ₀ σ s actorRow invitation) :
    NewFor rt invitation s.db (σ.view s.db) := by
  have hvacant := (h.vacant (by rw [hempty]; rfl)).current
  have husers : σ.view s.db .users = s.db .users :=
    Session.view_of_nil (h.others hempty (by decide) (by decide)) s.db
  have hmembers : σ.view s.db .memberships = s.db .memberships :=
    Session.view_of_nil (h.others hempty (by decide) (by decide)) s.db
  refine ⟨Store.lookup_eq_none.mp hvacant, fun userId of hi => ?_⟩
  suffices hnone : ¬IsMember userId of s.db from ⟨hnone, mt (isMember_congr hmembers).mp hnone⟩
  intro hmember
  obtain ⟨user, huser, rfl, haddress⟩ := hi.user
  obtain rfl : organizationId = of := h.organization.symm.trans hi.organization
  obtain ⟨locks, hheld, -, ⟨s₁, -, hnone, hlater⟩, -⟩ := h.vetted hempty
  -- the user has the invited address, and was a member when `create_invitation` looked
  rw [husers] at huser
  have hemail : user.email = data.email := by
    rw [← hinv.users user huser, ← haddress, h.email, hdata]
  obtain ⟨m, hm, huserId, hof⟩ := hlater.noNewMembers hheld user.id hmember
  have huser₁ : user ∈ s₁.db .users := hlater.proceeds.users ▸ huser
  have hfound := List.any_eq_false.mp hnone m hm
  simp only [hof, decide_true, Bool.true_and, List.any_eq_true, not_exists, not_and] at hfound
  refine hfound user huser₁ ?_
  have hlower : rt.sqlLower data.email = data.email := by rw [← hdata, hsql]
  simp [huserId, hemail, hlower]

/-- **Who joins is welcome**: at the insertion of the membership the accepted invitation was still open, so
every other one had expired, and so had those that the user found when it left. -/
theorem InvitationAccepted.welcomes {credentials : Option Credentials} {number : Nat} {token : String}
    {user : User} {row : Invitation} {accepted : DateTime} {membership : Membership}
    (hinv : Departures rt s) (hdb : s.db.Integral)
    (hsql : ∀ text, rt.sqlLower (rt.lower text) = rt.lower text) (hempty : σ₀.writes = .empty)
    (hloaded : σ₀.loaded .invitations = []) (huser : user ∈ s.db .users)
    (h : InvitationAccepted rt (invitationProtocol (Timely rt) (Departures rt))
      (.acceptInvitation credentials token, number) token user σ₀ σ s row accepted membership) :
    Welcomes rt job σ s := by
  have hcopy := InvitationAccepted.copy row hloaded
  have hvacant := (h.vacant (by rw [hempty]; rfl)).current
  have husers : σ.view s.db .users = s.db .users :=
    Session.view_of_nil (h.others hempty (by decide) (by decide) (by decide)) s.db
  have haccepts := (h.singleUse job hdb hempty hloaded huser).oneInvitation
  obtain ⟨locks, σ₁, huses, hplace, -, s₁, hinv₁, ⟨htimely, hrow₁⟩, hlater⟩ := h.inserted
  have hstored₁ : row ∈ s₁.db .invitations := Store.lookup_mem hrow₁
  have hopen : ¬Passed row.expiresAt s₁ := htimely credentials token rfl rfl row hstored₁ h.token
  have hpending : row.acceptedAt = none := hcopy ▸ h.pending
  have hrow : Accepts row (⟨job, σ, s.db⟩ : Commit schema Numbered) :=
    ⟨h.locked.mem, hpending, accepted,
      (Overlay.mem_apply_single (h.writes_invitations hempty)).mpr (Or.inr rfl)⟩
  rintro userId organizationId ⟨hnot, m, hm, rfl, rfl⟩
  -- the only new member is the one that the session inserted
  have hnewMember : m = membership := by
    rcases (Overlay.mem_apply_single (h.joins hempty)).mp hm with ⟨hm, _⟩ | hnew
    · exact absurd ⟨m, hm, rfl, rfl⟩ hnot
    · exact (Option.some.inj hnew).symm
  subst hnewMember
  have hof : row.organizationId = m.organizationId := by rw [h.organizationId, hcopy]
  refine ⟨fun i hi => ?_, fun r hleft i hi old hold hid => ?_⟩
  · obtain ⟨other, hother, hotherId, haddress⟩ := hi.user
    rw [husers] at hother
    obtain rfl := hdb.eq_of_id (t := .users) hother huser (hotherId.trans h.userId)
    have hstored : i ∈ s.db .invitations :=
      h.noNewInvitations hempty m.organizationId i hi.stored hi.organization hi.pending
    have hearlier : i ∈ s₁.db .invitations :=
      hlater.noNewInvitations huses i hstored hi.organization hi.pending
    have hemail : i.email = row.email := by
      rw [← hinv.emails i hstored, haddress, ← h.email, hcopy, hinv.emails row h.locked.mem]
    by_contra hunpassed
    have hsame : i = row := by
      refine hinv₁.oneActive m.organizationId row.email ?_ i row
        ⟨hearlier, hi.organization, hemail, hi.pending,
          fun hpassed => hunpassed (hpassed.onward hlater.proceeds.clock)⟩
        ⟨hstored₁, hof, rfl, hpending, hopen⟩
      rw [← hinv₁.emails row hstored₁, hsql]
    rcases (Overlay.mem_apply_single (h.writes_invitations hempty)).mp hi.stored with ⟨_, hne⟩ | hnew
    · exact hne (congrArg Invitation.id hsame)
    · have hsome := congrArg Invitation.acceptedAt (Option.some.inj hnew)
      rw [hi.pending] at hsome
      cases hsome
  · obtain rfl := haccepts i row hi hrow
    obtain ⟨recent, hlog, hkept⟩ := hlater.proceeds.log
    rw [hlog] at hleft
    have hleft₁ := hleft.of_append fun c hc => hkept c hc _ _ hplace
    refine hopen (hinv₁.left _ _ r hleft₁ i ⟨hstored₁, hof, hpending, user, ?_, h.userId.symm, ?_⟩
      ⟨old, hold, hid⟩)
    · exact hlater.proceeds.users ▸ huser
    · rw [← h.email, hcopy]

/-- **The step** for the requests. -/
theorem InvitationEffect.departures (hinv : Departures rt s) (hdb : s.db.Integral)
    (hsql : ∀ text, rt.sqlLower (rt.lower text) = rt.lower text)
    (hdata : ∀ organizationId credentials data, job.1 = .tenant organizationId credentials
      (.createInvitation data) → rt.lower data.email = data.email)
    (h : InvitationEffect rt (invitationProtocol (Timely rt) (Departures rt)) job σ s) :
    Departures rt (s.commit job σ) := by
  have hone := h.oneActive hinv.oneActive
  have husers : σ.view s.db .users = s.db .users := Session.view_of_nil h.users s.db
  cases h with
  | @invited organizationId credentials data number _ _ _ _ _ invitation hempty h =>
    have hemail := hdata organizationId credentials data rfl
    have hnewFor := h.newFor hinv hsql hemail hempty
    have hcases := Session.mem_view_single (h.writes_invitations hempty) s.db
    have hmembers := fun of => noNewMembers_of_clean s.db
      (h.others hempty (t := .memberships) (by decide) (by decide)) of
    refine hinv.commit husers (fun i hi => ?_) hone
      (fun i hi => ⟨i, (hcases i).mpr (Or.inl ⟨hi, hnewFor.1 i hi⟩), rfl⟩) (fun i hi _ => ?_)
      fun userId of hjoins => absurd (hmembers of userId hjoins.2) hjoins.1
    · rcases (hcases i).mp hi with ⟨hi, _⟩ | hnew
      · exact hinv.emails i hi
      · obtain rfl := Option.some.inj hnew
        rw [h.email, hemail]
    · rcases (hcases i).mp hi with ⟨hi, _⟩ | hnew
      · exact Or.inl hi
      · obtain rfl := Option.some.inj hnew
        exact Or.inr hnewFor
  | @accepted _ _ _ _ _ _ _ row accepted _ hempty hloaded huser h =>
    have hcases := Session.mem_view_single (h.writes_invitations hempty) s.db
    refine hinv.commit husers (fun i hi => ?_) hone (fun i hi => ?_)
      (fun i hi hpending => Or.inl (h.noNewInvitations hempty _ i hi rfl hpending))
      (h.welcomes hinv hdb hsql hempty hloaded huser)
    · rcases (hcases i).mp hi with ⟨hi, _⟩ | hnew
      · exact hinv.emails i hi
      · obtain rfl := Option.some.inj hnew
        exact hinv.emails row h.locked.mem
    · by_cases hid : i.id = row.id
      · exact ⟨{ row with acceptedAt := some accepted }, (hcases _).mpr (Or.inr rfl), hid.symm⟩
      · exact ⟨i, (hcases i).mpr (Or.inl ⟨hi, hid⟩), rfl⟩
  | roleChanged hempty h =>
    exact hinv.commit_of_quiet husers (h.others hempty (by decide) (by decide)) (h.noNewMembers hempty)
  | removed hempty h =>
    exact hinv.commit_of_quiet husers (h.others hempty (by decide) (by decide)) (h.noNewMembers hempty)
  | idle hw =>
    exact hinv.commit_of_quiet husers (by rw [hw]; rfl) (noNewMembers_of_clean _ (by rw [hw]; rfl))

end Commits

/-! ### Runs -/

/-- The addresses that the requests' schemas let pass are in lower case. -/
def Request.lowered (rt : Runtime) : Request → Prop
  | .tenant _ _ (.createInvitation data) => rt.lower data.email = data.email
  | _ => True

/-- **A removed member needs a new invitation**, if no acceptance inserts its membership after a reading of
the clock that has reached the invitation's end. -/
theorem closing_of_run (rt : Runtime) {s : Shared schema Env Numbered} {requests : List Request}
    {w : World schema Env Exn Numbered Response}
    (hsql : ∀ text, rt.sqlLower (rt.lower text) = rt.lower text) (hlog : s.log = [])
    (hdb : s.db.Integral) (hone : OneActive rt s)
    (husers : ∀ user : User, user ∈ s.db .users → rt.lower user.email = user.email)
    (hemails : ∀ i : Invitation, i ∈ s.db .invitations → rt.lower i.email = i.email)
    (hrequests : ∀ request ∈ requests, request.onInvitations = true)
    (hlowered : ∀ request ∈ requests, request.lowered rt)
    (hrun : World.Run (GrantsInserts (Timely rt)) (startNumbered rt s requests) w) :
    Closing rt w.shared := by
  have hinv : Departures rt s := by
    refine ⟨husers, hemails, hone, ?_, fun _ _ _ hleft => ?_, ?_, fun recent c older hs => ?_⟩
    · simp [hlog]
    · obtain ⟨_, recent, past, hs, _⟩ := hleft
      simp [hlog] at hs
    · simp [hlog]
    · simp [hlog] at hs
  refine (invitations_of_run rt departures_timeless hrequests
    (fun job σ s hjob hdb _ hinv heffect => ?_) hinv hdb hrun).1.closing
  refine heffect.departures hinv hdb hsql fun organizationId credentials data hdata => ?_
  have hlower := hlowered job.1 hjob
  rw [hdata] at hlower
  exact hlower

namespace Reference

instance (userId organizationId : Uuid) (db : Db) : Decidable (IsMember userId organizationId db) :=
  inferInstanceAs (Decidable (∃ m ∈ (db .memberships : List Membership),
    m.userId = userId ∧ m.organizationId = organizationId))

instance {T : Type} (userId organizationId : Uuid) (c : Commit schema T) :
    Decidable (Joins userId organizationId c) :=
  inferInstanceAs (Decidable (¬_ ∧ _))

instance {T : Type} (t : DateTime) (s : Shared schema Env T) : Decidable (Passed t s) :=
  inferInstanceAs (Decidable (∃ n < s.env.ticks, t ≤ s.env.clock n))

/-- The condition, read off the statement that the process is at. -/
def grantsTimely (w : World schema Env Exn Numbered Response) : Move → Bool
  | .run i => match w.threads[i]? with
    | some th => match th.prog, th.tag.1 with
      | some (@Prog.insert _ _ _ _ .memberships _ _ _), .acceptInvitation _ token =>
        (w.shared.db .invitations).all fun (i : Invitation) =>
          i.tokenHash ≠ runtime.hashToken token || decide (¬Passed i.expiresAt w.shared)
      | _, _ => true
    | none => true
  | _ => true

theorem grantsInserts_of_grantsTimely (w : World schema Env Exn Numbered Response) (m : Move)
    (h : grantsTimely w m = true) : GrantsInserts (Timely runtime) w m := by
  rintro i th t row next failed rfl hth hprog credentials token hjob rfl i hi htoken
  simp only [grantsTimely, hth, hprog, hjob, List.all_eq_true] at h
  simpa [htoken] using h i hi

/-- An owner, and a user whose invitation expires on the third day. -/
def invitedOnce : Tables where
  users := [user 1, user 3]
  organizations := [organization 5]
  memberships := [member 11 1 5 .owner]
  invitations := [invitation 21 5 "user-3" "first" 2]

theorem oneActive_invitedOnce (clock : Nat → DateTime) :
    OneActive runtime (shared Numbered clock invitedOnce) := by
  intro organizationId email _ i j hi hj
  rw [List.mem_singleton.mp hi.stored, List.mem_singleton.mp hj.stored]

/-- The user joins, is removed, is invited again and joins again. -/
def rejoining : List Request :=
  [.acceptInvitation (bearer 3) "first", .tenant 5 (bearer 1) (.removeMember 1000),
    .tenant 5 (bearer 1) (.createInvitation ⟨"user-3", .member⟩), .acceptInvitation (bearer 3) "0"]

def rejoin : World schema Env Exn Numbered Response :=
  (startNumbered runtime (shared Numbered (fun _ => noon 1) invitedOnce) rejoining).play
    (fun w m => grantsTimely w m = true)
    ((List.range 4).flatMap fun i => List.replicate 60 (.run i))

theorem closing_of_rejoining : Closing runtime rejoin.shared :=
  closing_of_run (w := rejoin) runtime (fun text => lower_lower text) rfl
    (ValidDb.integral (by decide +kernel)) (oneActive_invitedOnce _)
    (by decide +kernel) (by decide +kernel) (by simp [rejoining, Request.onInvitations])
    (by simpa [rejoining, Request.lowered] using (by decide +kernel : runtime.lower "user-3" = "user-3"))
    ((World.run_play _ _ _).mono grantsInserts_of_grantsTimely)

example : rejoin.shared.log.length = 5 ∧ IsMember 3 5 rejoin.shared.db := by decide +kernel

/-- The acceptance reads its clock before the invitation expires; it waits while a second one is issued. -/
def lateAcceptance : World schema Env Exn Numbered Response :=
  (startNumbered runtime (shared Numbered daily invitedOnce) [.acceptInvitation (bearer 3) "first",
    .tenant 5 (bearer 1) (.createInvitation ⟨"user-3", .member⟩)]).playAll
    (List.replicate 5 (Move.run 0) ++ List.replicate 60 (Move.run 1) ++ List.replicate 60 (Move.run 0))

theorem lateAcceptance_unclosed : ¬Closing runtime lateAcceptance.shared := by
  have hfacts : (∃ c ∈ lateAcceptance.shared.log, Joins 3 5 c) ∧
      IsMember 3 5 lateAcceptance.shared.db ∧
      (∃ user ∈ (lateAcceptance.shared.db .users : List User), user.id = 3 ∧
        runtime.lower "user-3" = runtime.lower user.email) ∧
      ∃ i ∈ (lateAcceptance.shared.db .invitations : List Invitation), i.organizationId = 5 ∧
        i.acceptedAt = none ∧ i.email = "user-3" ∧ ¬Passed i.expiresAt lateAcceptance.shared := by
    decide +kernel
  obtain ⟨⟨c, hc, hjoins⟩, hmember, huser, i, hi, hof, hpending, hemail, hopen⟩ := hfacts
  intro h
  exact hopen (h.joined c hc 3 5 hjoins hmember i ⟨hi, hof, hpending, hemail ▸ huser⟩)

end Reference

end TenantForge
