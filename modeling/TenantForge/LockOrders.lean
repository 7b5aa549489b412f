import TenantForge.ReadCommitted.Climbing
import TenantForge.RowVersions
/-!
# The order of the locks

Every request takes the locks of its statements in a fixed order of their classes (`Request.lockSequence`), and
so does the worker. The orders of two requests can be in conflict: `create_invitation` locks the organization
and then the membership of the actor, and `create_api_key` locks the membership and then, for its foreign keys,
the organization. Such a pair can be deadlocked, and so can two requests that lock several memberships. But wherever
the orders of all requests at work agree with one ranking of the classes, no interleaving ends in a deadlock, and
all of them can be completed (`never_deadlocked`).
-/

namespace TenantForge

open Gregorian ReadCommitted Prog

/-- Locks on the rows of a table, and on the values of a unique index. -/
inductive LockClass where
  | row (t : Table)
  | email
  | refreshToken
  | slug
  | member
  | invitationToken
  | apiKey
  | subscriber
  | externalSubscription
  | webhook
  | name
  deriving DecidableEq

def lockClass : Key schema → LockClass
  | .row t _ => .row t
  | .index _ (.email _) => .email
  | .index _ (.refreshToken _) => .refreshToken
  | .index _ (.slug _) => .slug
  | .index _ (.member _ _) => .member
  | .index _ (.invitationToken _) => .invitationToken
  | .index _ (.apiKey _) => .apiKey
  | .index _ (.subscriber _) => .subscriber
  | .index _ (.externalSubscription _) => .externalSubscription
  | .index _ (.webhook _ _) => .webhook
  | .name _ => .name

/-- Users are locked by the foreign keys of other rows only. -/
def lockOrder (rank : LockClass → Nat) : LockOrder schema LockClass := ⟨(· = .users), lockClass, rank⟩

/-! ### The sequences -/

/-- The classes of the locks that a request may have to wait for, one list for each of its statements. A process
does not wait for what it holds already, for users, whose rows are only locked in key-share mode, and for the
rows that it inserts; but a new organization is listed, as foreign keys can name it. -/
def TenantCall.lockSequence : TenantCall → List (List LockClass)
  | .getOrganization | .listMembers | .listApiKeys | .listProjects | .getProject _ | .readUsage
  | .readSubscription | .readAuditLog _ _ => []
  | .updateOrganization _ => [[.row .organizations], [.row .memberships], [.slug]]
  -- several memberships, one after the other
  | .deleteOrganization => [[.row .organizations], [.row .memberships], [.row .memberships]]
  | .updateMember _ _ | .removeMember _ => [[.row .memberships], [.row .memberships]]
  | .createInvitation _ => [[.row .organizations], [.row .memberships], [.invitationToken]]
  | .createApiKey _ => [[.row .memberships], [.apiKey, .row .organizations]]
  | .revokeApiKey _ => [[.row .memberships], [.row .apiKeys], [.row .organizations]]
  | .createProject _ => [[.row .organizations]]
  | .updateProject _ _ | .deleteProject _ => [[.row .projects], [.row .organizations]]
  -- the subscription is there, or it is created
  | .changePlan _ _ => [[.row .organizations], [.row .subscriptions, .subscriber]]

def Request.lockSequence : Request → List (List LockClass)
  | .tenant _ _ call => call.lockSequence
  | .createUsageEvent _ _ _ => [[.row .apiKeys], [.row .organizations]]
  | .createOrganization _ _ => [[.row .organizations, .slug], [.member], [.subscriber]]
  | .acceptInvitation _ _ => [[.row .invitations], [.member, .row .organizations]]
  | .billingWebhook _ => [[.webhook]]
  | .register _ _ => [[.email]]
  | .login _ _ => [[.refreshToken]]
  | .refresh _ => [[.row .refreshTokens], [.refreshToken]]
  | .logout _ => [[.row .refreshTokens]]
  | .listOrganizations _ | .me _ => []

def Party.lockSequence : Party → List (List LockClass)
  | .session request => request.lockSequence
  | .worker _ _ =>
    [[.row .webhookEvents], [.row .organizations], [.row .subscriptions], [.subscriber], [.externalSubscription]]

/-- Every statement's locks rank above those of the statements before it. -/
def Climbing (rank : LockClass → Nat) (sequence : List (List LockClass)) : Prop :=
  sequence.Pairwise fun before after => ∀ lower ∈ before, ∀ upper ∈ after, rank lower < rank upper

instance (rank : LockClass → Nat) (sequence : List (List LockClass)) : Decidable (Climbing rank sequence) :=
  inferInstanceAs (Decidable (List.Pairwise _ _))

/-! ### Statements -/

section Climbs

variable {rank : LockClass → Nat} {levels levels' : List LockClass} {g : Grip schema}
  {R : Exn → Grip schema → Prop} {α : Type} {rt : Runtime}

theorem plain_raiseIf {condition : Prop} [Decidable condition] {error : Exn} :
    (raiseIf condition error).Plain := by
  rw [raiseIf]
  split <;> trivial

theorem plain_orRaise {result : Option α} {error : Exn} : (orRaise result error).Plain := by
  cases result <;> trivial

theorem plain_now : now.Plain := fun _ => trivial

theorem plain_nowOr {at? : Option DateTime} : (nowOr at?).Plain := by
  cases at? <;> first | trivial | exact plain_now

theorem plain_refresh {t : Table} {id : Uuid} : (refresh t id).Plain :=
  (plain_query _).bind fun row => by cases row <;> trivial

theorem climbs_raiseIf {condition : Prop} [Decidable condition] {error : Exn} {Q : Unit → Grip schema → Prop}
    (hR : R error g) (hQ : ¬condition → Q () g) : (raiseIf condition error).Climbs (lockOrder rank) Q R g := by
  rw [raiseIf]
  split
  · exact hR
  · exact hQ ‹_›

theorem climbs_orRaise {result : Option α} {error : Exn} {Q : α → Grip schema → Prop} (hR : R error g)
    (hQ : ∀ value, result = some value → Q value g) :
    (orRaise result error).Climbs (lockOrder rank) Q R g := by
  cases result with
  | none => exact hR
  | some value => exact hQ value rfl

theorem climbs_runIf {condition : Prop} [Decidable condition] {body : App Unit} {Q : Unit → Grip schema → Prop}
    (hbody : body.Climbs (lockOrder rank) Q R g) (hQ : Q () g) :
    (runIf condition body).Climbs (lockOrder rank) Q R g := by
  rw [runIf]
  split
  · exact hbody
  · exact hQ

theorem climbs_act {β : Type} {f : Env → β × Env} {Q : β → Grip schema → Prop} (h : ∀ value, Q value g) :
    (Prog.act f : App β).Climbs (lockOrder rank) Q R g := fun _ => h _

theorem climbs_now {Q : DateTime → Grip schema → Prop} (h : ∀ t, Q t g) : now.Climbs (lockOrder rank) Q R g :=
  fun _ => h _

theorem climbs_databaseNow {Q : DateTime → Grip schema → Prop} (h : ∀ t, Q t g) :
    databaseNow.Climbs (lockOrder rank) Q R g := fun _ => h _

theorem climbs_nowOr {at? : Option DateTime} {Q : DateTime → Grip schema → Prop} (h : ∀ t, Q t g) :
    (nowOr at?).Climbs (lockOrder rank) Q R g := by
  cases at? with
  | none => exact climbs_now h
  | some t => exact h t

theorem climbs_tokenUrlsafe {Q : String → Grip schema → Prop} (h : ∀ token, Q token g) :
    tokenUrlsafe.Climbs (lockOrder rank) Q R g := fun _ => h _

theorem climbs_uuid4 {Q : Uuid → Grip schema → Prop} (hwithin : g.Within (lockOrder rank) levels)
    (h : ∀ id g', g.Leads (lockOrder rank) levels g' → g'.Names id → Q id g') :
    uuid4.Climbs (lockOrder rank) Q R g :=
  fun id => h id _ (.draw hwithin id) List.mem_cons_self

/-- What a foreign key needs: a user that the process has seen, or a lock on the row, or no lock that ranks
above it. -/
inductive Entitled (rank : LockClass → Nat) (levels : List LockClass) (g : Grip schema) : Table × Uuid → Prop where
  | user {id : Uuid} : g.known id → Entitled rank levels g (.users, id)
  | held {t : Table} {id : Uuid} {mode : Mode} : t ≠ .users → (.row t id, mode) ∈ g.held →
      Entitled rank levels g (t, id)
  | above {t : Table} {id : Uuid} : t ≠ .users → (∀ lower ∈ levels, rank lower < rank (.row t)) →
      Entitled rank levels g (t, id)

theorem Entitled.leads {g' : Grip schema} {parent : Table × Uuid} (h : Entitled rank levels g parent)
    (hg : g.Leads (lockOrder rank) levels g') : Entitled rank levels g' parent := by
  cases h with
  | user hknown => exact .user (hg.known _ hknown)
  | held ht hheld => exact .held ht (hg.held hheld)
  | above ht hrank => exact .above ht hrank

theorem Mode.covers_keyShare (m : Mode) : m.Covers .keyShare := by
  intro other hother
  cases other <;> cases m <;> first | rfl | cases hother

theorem Entitled.affords {parent : Table × Uuid} (h : Entitled rank levels g parent)
    (hwithin : g.Within (lockOrder rank) levels) :
    (lockOrder rank).Affords g (.row parent.1 parent.2, .keyShare) := by
  cases h with
  | user hknown => exact .shared rfl hknown
  | @held t id mode ht hheld => exact .covered ht hheld (Mode.covers_keyShare mode)
  | above ht hrank => exact hwithin.affords ht hrank

/-- The classes of the locks that the insertion of a row takes, but for those that need no rank. -/
def insertClasses {t : Table} (row : Row t) : List LockClass :=
  (if t = .organizations then [.row .organizations] else []) ++
    ((uniqueValues row).map (fun u => lockClass (.index t u)) ++
      ((foreignKeys row).filter fun parent => parent.1 ≠ .users).map fun parent => .row parent.1)

theorem not_referenced {t : Table} (husers : t ≠ .users) (horganizations : t ≠ .organizations) :
    ¬schema.Referenced t := by
  rintro ⟨t', row, parent, hparent, rfl⟩
  change parent ∈ foreignKeys row at hparent
  cases t' <;> simp only [foreignKeys, List.mem_cons, List.not_mem_nil, or_false, List.mem_map] at hparent
  all_goals grind

theorem forall_insertNeeds {t : Table} {row : Row t} {p : Key schema × Mode → Prop}
    (hrow : p (.row t (rowId row), .forUpdate)) (hindex : ∀ u ∈ uniqueValues row, p (.index t u, .forUpdate))
    (hparents : ∀ parent ∈ foreignKeys row, p (.row parent.1 parent.2, .keyShare)) :
    ∀ need ∈ Session.insertNeeds (S := schema) row, p need := by
  intro need hneed
  rcases List.mem_append.mp hneed with hneed | hneed
  · rcases List.mem_cons.mp hneed with rfl | hneed
    · exact hrow
    · obtain ⟨u, hu, rfl⟩ := List.mem_map.mp hneed
      exact hindex u hu
  · obtain ⟨parent, hparent, rfl⟩ := List.mem_map.mp hneed
    exact hparents parent hparent

theorem climbs_addRow {t : Table} {row : Row t} {Q : Unit → Grip schema → Prop} (hR : ∀ error g, R error g)
    (hwithin : g.Within (lockOrder rank) levels) (hname : g.Names (rowId row))
    (hindex : ∀ u ∈ uniqueValues row, ∀ lower ∈ levels, rank lower < rank (lockClass (.index t u)))
    (hparents : ∀ parent ∈ foreignKeys row, Entitled rank levels g parent)
    (h : ∀ g', g.Leads (lockOrder rank) (insertClasses row ++ levels) g' →
      (.row t (rowId row), .forUpdate) ∈ g'.held →
      (∀ parent ∈ foreignKeys row, (.row parent.1 parent.2, .keyShare) ∈ g'.held) → Q () g') :
    (addRow t row).Climbs (lockOrder rank) Q R g := by
  rw [addRow, Prog.bind_eq, climbs_bind]
  refine climbs_insertRow (hR _ _) hname (forall_insertNeeds (.fresh hname) (fun u hu => ?_) fun parent hparent =>
    (hparents parent hparent).affords hwithin) (h _ (.take hwithin (List.subset_append_right _ _)
      (forall_insertNeeds ?_ (fun u hu => ?_) fun parent hparent => ?_)) ?_ fun parent hparent => ?_) (hR _ _)
  · exact hwithin.affords id (hindex u hu)
  · by_cases husers : t = .users
    · exact Or.inl husers
    · by_cases horganizations : t = .organizations
      · subst horganizations
        exact Or.inr (Or.inr (List.mem_append_left _ List.mem_cons_self))
      · exact Or.inr (Or.inl ⟨not_referenced husers horganizations, hname⟩)
  · exact Or.inr (Or.inr (List.mem_append_left _ (List.mem_append_right _ (List.mem_append_left _
      (List.mem_map_of_mem hu)))))
  · by_cases husers : parent.1 = .users
    · exact Or.inl husers
    · refine Or.inr (Or.inr (List.mem_append_left _ (List.mem_append_right _ (List.mem_append_right _
        (List.mem_map.mpr ⟨parent, ?_, rfl⟩)))))
      exact List.mem_filter.mpr ⟨hparent, decide_eq_true husers⟩
  · exact List.mem_append_left _ (List.mem_append_left _ List.mem_cons_self)
  · exact List.mem_append_left _ (List.mem_append_right _ (List.mem_map.mpr ⟨parent, hparent, rfl⟩))

theorem climbs_flushUpdate {t : Table} {id : Uuid} {set : Row t → Row t} {Q : Unit → Grip schema → Prop}
    (hR : ∀ error g, R error g) (hwithin : g.Within (lockOrder rank) levels) (hsub : levels ⊆ levels')
    (hneeds : ∀ old, rowId old = id → ∀ need ∈ Session.updateNeeds (S := schema) old (set old),
      (lockOrder rank).Affords g need ∧ lockClass need.1 ∈ levels')
    (h : ∀ g', g.Leads (lockOrder rank) levels' g' → Q () g') :
    (flushUpdate t id set).Climbs (lockOrder rank) Q R g := by
  rw [flushUpdate, Prog.bind_eq, climbs_bind]
  exact climbs_updateRow (hR _ _) (fun old hold need hneed => (hneeds old hold need hneed).1)
    (fun old hold => h _ (.take hwithin hsub fun need hneed => Or.inr (Or.inr (hneeds old hold need hneed).2)))
    (hR _ _) (hR _ _)

theorem changedIndex_of_eq {t : Table} {old new : Row t} (h : uniqueValues new = uniqueValues old) :
    Session.changedIndex (S := schema) old new = [] := by
  refine List.filter_eq_nil_iff.mpr fun u hu => ?_
  rw [show schema.index new = schema.index old from h] at hu ⊢
  simpa using hu

/-- An update that keeps the unique values locks the row alone. -/
theorem climbs_flushUpdate_keep {t : Table} {id : Uuid} {set : Row t → Row t} {Q : Unit → Grip schema → Prop}
    (hkeep : ∀ old, uniqueValues (set old) = uniqueValues old) (ht : t ≠ .users) (hR : ∀ error g, R error g)
    (hwithin : g.Within (lockOrder rank) levels)
    (hrow : (.row t id, .forUpdate) ∈ g.held ∨ ∀ lower ∈ levels, rank lower < rank (.row t))
    (h : ∀ g', g.Leads (lockOrder rank) (.row t :: levels) g' → Q () g') :
    (flushUpdate t id set).Climbs (lockOrder rank) Q R g := by
  refine climbs_flushUpdate hR hwithin (List.subset_cons_self _ _) (fun old hold need hneed => ?_) h
  rw [Session.updateNeeds, changedIndex_of_eq (hkeep old)] at hneed
  obtain rfl := List.mem_singleton.mp hneed
  refine ⟨?_, List.mem_cons_self⟩
  rw [show schema.id old = id from hold]
  rcases hrow with hheld | hrank
  · exact .covered ht hheld (Mode.forUpdate_covers _)
  · exact hwithin.affords ht hrank

/-- An update under a lock of its row waits for the unique values that change. -/
theorem climbs_flushUpdate_index {t : Table} {id : Uuid} {set : Row t → Row t} {index : LockClass}
    {Q : Unit → Grip schema → Prop}
    (hindex : ∀ old, ∀ u ∈ Session.changedIndex (S := schema) old (set old), lockClass (.index t u) = index)
    (ht : t ≠ .users) (hR : ∀ error g, R error g) (hwithin : g.Within (lockOrder rank) levels)
    (hrow : (.row t id, .forUpdate) ∈ g.held) (hrank : ∀ lower ∈ levels, rank lower < rank index)
    (h : ∀ g', g.Leads (lockOrder rank) (.row t :: index :: levels) g' → Q () g') :
    (flushUpdate t id set).Climbs (lockOrder rank) Q R g := by
  refine climbs_flushUpdate hR hwithin
    (fun _ hmem => List.mem_cons_of_mem _ (List.mem_cons_of_mem _ hmem)) (fun old hold need hneed => ?_) h
  rcases List.mem_cons.mp hneed with rfl | hneed
  · rw [show schema.id old = id from hold]
    exact ⟨.covered ht hrow (Mode.forUpdate_covers _), List.mem_cons_self⟩
  · obtain ⟨u, hu, rfl⟩ := List.mem_map.mp hneed
    refine ⟨hwithin.affords not_false fun lower hlower => ?_, ?_⟩
    · rw [show (lockOrder rank).level (.index t u) = index from hindex old u hu]
      exact hrank lower hlower
    · rw [hindex old u hu]
      exact List.mem_cons_of_mem _ List.mem_cons_self

theorem climbs_exceptIntegrityError {error : Exn} {body : App α} {Q : α → Grip schema → Prop}
    (hR : ∀ error g, R error g) (h : body.Climbs (lockOrder rank) Q R g) :
    (exceptIntegrityError error body).Climbs (lockOrder rank) Q R g := by
  rw [exceptIntegrityError, Prog.tryCatch_eq, climbs_handle]
  refine climbs_mono (fun _ _ hQ => hQ) (fun exc g' _ => ?_) body g h
  split
  · exact hR _ _
  · exact hR _ _

theorem climbs_writeAudit {organizationId : Uuid} {actorUserId : Option Uuid}
    {action resourceType resourceId : String} {metadata : List (String × Value)} {ipAddress : Option String}
    {Q : AuditLog → Grip schema → Prop} (hR : ∀ error g, R error g)
    (hwithin : g.Within (lockOrder rank) levels)
    (horganization : Entitled rank levels g (.organizations, organizationId))
    (hactor : ∀ user ∈ actorUserId, g.known user)
    (h : ∀ entry g', g.Leads (lockOrder rank) (.row .organizations :: levels) g' → Q entry g') :
    (writeAudit organizationId actorUserId action resourceType resourceId metadata ipAddress).Climbs
      (lockOrder rank) Q R g := by
  simp only [writeAudit, Prog.bind_eq, climbs_bind]
  refine climbs_uuid4 hwithin fun id g₁ h₁ hname => climbs_databaseNow fun createdAt => ?_
  refine climbs_addRow (t := .auditLogs) hR h₁.within hname (fun u hu => absurd hu List.not_mem_nil) ?_
    fun g₂ h₂ _ _ => ?_
  · refine List.forall_mem_cons.mpr ⟨horganization.leads h₁, fun parent hparent => ?_⟩
    obtain ⟨user, huser, rfl⟩ := List.mem_map.mp hparent
    exact .user (h₁.known _ (hactor user (Option.mem_toList.mp huser)))
  · cases actorUserId with
    | none => exact h _ g₂ (h₁.trans h₂)
    | some user => exact h _ g₂ (h₁.trans h₂)

/-! ### Services -/

/-- The program climbs, whatever it holds at the end. -/
abbrev Rises (rank : LockClass → Nat) (p : App α) (g : Grip schema) : Prop :=
  p.Climbs (lockOrder rank) (fun _ _ => True) (fun _ _ => True) g

theorem not_shared {t : Table} (ht : t ≠ .users) : ¬(lockOrder rank).shared t := ht

/-- Nobody needs a rank to be the first. -/
theorem above_nil {level : LockClass} : ∀ lower ∈ ([] : List LockClass), rank lower < rank level :=
  fun _ h => absurd h List.not_mem_nil

theorem within_nil (h : g.held = []) : g.Within (lockOrder rank) [] := by
  intro held hheld
  rw [h] at hheld
  cases hheld

/-- In every store, at most one row of the table qualifies. -/
def AtMostOne (t : Table) (cond : Row t → Bool) : Prop :=
  ∀ db : Db, db.Integral → ∀ a ∈ db t, ∀ b ∈ db t, cond a = true → cond b = true → rowId a = rowId b

theorem atMostOne_of_id {t : Table} {cond : Row t → Bool} {id : Uuid}
    (h : ∀ row, cond row = true → rowId row = id) : AtMostOne t cond :=
  fun _ _ a _ b _ ha hb => (h a ha).trans (h b hb).symm

theorem atMostOne_of_index {t : Table} {cond : Row t → Bool} {u : UniqueValue}
    (h : ∀ row, cond row = true → u ∈ uniqueValues row) : AtMostOne t cond :=
  fun _ hdb a ha b hb hca hcb => hdb.unique t a ha b hb u (h a hca) (h b hcb)

theorem atMostOne_organization {organizationId : Uuid} :
    AtMostOne .organizations (isOrganization organizationId) :=
  atMostOne_of_id fun _ hrow => of_decide_eq_true hrow

theorem atMostOne_membership {organizationId userId : Uuid} {allowed : Role → Bool} :
    AtMostOne .memberships (isMembership organizationId userId allowed) := by
  refine atMostOne_of_index (u := .member userId organizationId) fun row hrow => ?_
  simp only [isMembership, Bool.and_eq_true, decide_eq_true_eq] at hrow
  simp [uniqueValues, hrow.1.1, hrow.1.2]

theorem atMostOne_apiKey {organizationId keyId : Uuid} :
    AtMostOne .apiKeys (isApiKeyId organizationId keyId) := by
  have hid : ∀ row : ApiKey, isApiKeyId organizationId keyId row = true → row.id = keyId := by
    intro row hrow
    simp only [isApiKeyId, Bool.and_eq_true, decide_eq_true_eq] at hrow
    exact hrow.1
  exact atMostOne_of_id hid

theorem atMostOne_subscription {organizationId : Uuid} :
    AtMostOne .subscriptions (isSubscriptionOf organizationId) := by
  refine atMostOne_of_index (u := .subscriber organizationId) fun row hrow => ?_
  rw [← show Subscription.organizationId row = organizationId from of_decide_eq_true hrow]
  exact List.mem_cons_self

theorem atMostOne_invitation {tokenHash : String} : AtMostOne .invitations (hasToken tokenHash) := by
  refine atMostOne_of_index (u := .invitationToken tokenHash) fun row hrow => ?_
  rw [← show Invitation.tokenHash row = tokenHash from of_decide_eq_true hrow]
  exact List.mem_cons_self

theorem atMostOne_refreshToken {tokenHash : String} : AtMostOne .refreshTokens (hasTokenHash tokenHash) := by
  refine atMostOne_of_index (u := .refreshToken tokenHash) fun row hrow => ?_
  rw [← show RefreshToken.tokenHash row = tokenHash from of_decide_eq_true hrow]
  exact List.mem_cons_self

theorem atMostOne_webhookEvent {eventId : Uuid} : AtMostOne .webhookEvents (hasEventId eventId) :=
  atMostOne_of_id fun _ hrow => of_decide_eq_true hrow

/-- `FOR UPDATE` of a row that a key or a unique value names. -/
theorem climbs_lockRow {t : Table} {cond : Row t → Bool} {Q : Option (Row t) → Grip schema → Prop}
    (hunique : AtMostOne t cond) (ht : t ≠ .users) (hR : ∀ error g, R error g)
    (hwithin : g.Within (lockOrder rank) levels) (hrank : ∀ lower ∈ levels, rank lower < rank (.row t))
    (hnone : ∀ g', g.Leads (lockOrder rank) (.row t :: levels) g' → Q none g')
    (hsome : ∀ row copy g', g.Leads (lockOrder rank) (.row t :: levels) g' → cond row = true →
      rowId copy = rowId row → (.row t (rowId copy), .forUpdate) ∈ g'.held → Q (some copy) g') :
    (Prog.scalarForUpdate (S := schema) t cond : App (Option (Row t))).Climbs (lockOrder rank) Q R g := by
  refine climbs_scalarForUpdate hunique (not_shared ht) hR hwithin (fun _ => rfl) hrank hnone
    fun row copy g' hg' hcond hid _ hheld => hsome row copy g' hg' hcond hid ?_
  rw [show rowId copy = schema.id row from hid]
  exact hheld

/-- The lock or the exception. -/
theorem climbs_lockOrRaise {t : Table} {cond : Row t → Bool} {error : Exn} {Q : Row t → Grip schema → Prop}
    (hunique : AtMostOne t cond) (ht : t ≠ .users) (hR : ∀ error g, R error g)
    (hwithin : g.Within (lockOrder rank) levels) (hrank : ∀ lower ∈ levels, rank lower < rank (.row t))
    (h : ∀ row copy g', g.Leads (lockOrder rank) (.row t :: levels) g' → cond row = true →
      rowId copy = rowId row → (.row t (rowId copy), .forUpdate) ∈ g'.held → Q copy g') :
    (Prog.scalarForUpdate (S := schema) t cond : App (Option (Row t))).Climbs (lockOrder rank)
      (fun found => (orRaise found error).Climbs (lockOrder rank) Q R) R g :=
  climbs_lockRow hunique ht hR hwithin hrank (fun _ _ => hR _ _) h

/-- The lock on the organization of a path. -/
theorem climbs_lockPath {organizationId : Uuid} {error : Exn} {Q : Organization → Grip schema → Prop}
    (hR : ∀ error g, R error g) (hwithin : g.Within (lockOrder rank) levels)
    (hrank : ∀ lower ∈ levels, rank lower < rank (.row .organizations))
    (h : ∀ organization g', g.Leads (lockOrder rank) (.row .organizations :: levels) g' →
      (.row .organizations organizationId, .forUpdate) ∈ g'.held → Q organization g') :
    (Prog.scalarForUpdate (S := schema) .organizations (isOrganization organizationId) : App _).Climbs
      (lockOrder rank) (fun found => (orRaise found error).Climbs (lockOrder rank) Q R) R g := by
  refine climbs_lockOrRaise atMostOne_organization (by decide) hR hwithin hrank
    fun row organization g' hg' hrow hid hheld => h organization g' hg' ?_
  rw [← show row.id = organizationId from of_decide_eq_true hrow, show row.id = rowId organization from hid.symm]
  exact hheld

theorem rises_refresh {t : Table} {id : Uuid} (hwithin : g.Within (lockOrder rank) levels) :
    Rises rank (refresh t id) g :=
  plain_refresh.climbs (fun _ _ => trivial) hwithin fun _ _ _ => trivial

theorem rises_createProject {organizationId actorId : Uuid} {data : ProjectCreate} (hactor : g.known actorId)
    (hheld : g.held = []) : Rises rank (createProject rt organizationId actorId data) g := by
  simp only [Rises, createProject, Prog.bind_eq, climbs_bind]
  refine (plain_query _).climbs (fun _ _ => trivial) (within_nil hheld) fun allowed g₁ h₁ =>
    climbs_raiseIf trivial fun _ => climbs_uuid4 h₁.within fun id g₂ h₂ hname => climbs_databaseNow fun createdAt => ?_
  have hactor₂ : g₂.known actorId := h₂.known _ (h₁.known _ hactor)
  refine climbs_addRow (t := .projects) (fun _ _ => trivial) h₂.within hname
    (fun u hu => absurd hu List.not_mem_nil) ?_ fun g₃ h₃ _ hparents => ?_
  · exact List.forall_mem_cons.mpr ⟨.above (by simp) above_nil, List.forall_mem_singleton.mpr (.user hactor₂)⟩
  · refine plain_refresh.climbs (fun _ _ => trivial) h₃.within fun project g₄ h₄ => ?_
    refine climbs_writeAudit (fun _ _ => trivial) h₄.within
      (.held (by simp) (h₄.held (hparents _ List.mem_cons_self))) (fun user huser => ?_) fun _ _ _ => trivial
    exact Option.some.inj huser ▸ h₄.known _ (h₃.known _ hactor₂)

theorem climbs_lockProject {organizationId projectId actorId : Uuid} {Q : Project → Grip schema → Prop}
    (hheld : g.held = []) (hR : ∀ error g, R error g)
    (h : ∀ project : Project, ∀ g', g.Leads (lockOrder rank) [.row .projects] g' →
      (.row .projects project.id, .forUpdate) ∈ g'.held → Q project g') :
    (lockProject organizationId projectId actorId).Climbs (lockOrder rank) Q R g := by
  simp only [lockProject, Prog.bind_eq, ← Prog.bind_assoc]
  rw [climbs_bind, climbs_bind]
  refine climbs_lockFound (S := schema) (t := .projects) (fun db _ id hid => ?_) (not_shared (by decide)) hR
    (within_nil hheld) (fun _ => rfl) above_nil fun rows g₁ h₁ hrows => ?_
  · have hproject : ∀ id ∈ ((db .projects).filter fun (row : Project) =>
        isProjectId organizationId projectId row && isMember organizationId actorId db).map Project.id,
        (∃ row ∈ db .projects, schema.id row = id) ∧ id = projectId := by
      intro id hid
      obtain ⟨row, hrow, rfl⟩ := List.mem_map.mp hid
      obtain ⟨hmem, hcond⟩ := List.mem_filter.mp hrow
      simp only [isProjectId, Bool.and_eq_true, decide_eq_true_eq] at hcond
      exact ⟨⟨row, hmem, rfl⟩, hcond.1.1⟩
    exact ⟨(hproject id hid).1, fun id' hid' => (hproject id' hid').2.trans (hproject id hid).2.symm⟩
  · refine climbs_first (S := schema) (t := .projects) (fun _ => by exact hR _ _) fun row hrow copy hid _ => ?_
    refine h copy _ (h₁.trans (.attach h₁.within _)) ?_
    rw [show copy.id = schema.id row from hid]
    exact (hrows row hrow).2.2

theorem climbs_flushProject {loaded changed : Project} {Q : Unit → Grip schema → Prop} (hR : ∀ error g, R error g)
    (hwithin : g.Within (lockOrder rank) levels)
    (hrow : (.row .projects loaded.id, .forUpdate) ∈ g.held ∨ ∀ lower ∈ levels, rank lower < rank (.row .projects))
    (h : ∀ g', g.Leads (lockOrder rank) (.row .projects :: levels) g' → Q () g') :
    (flushProject loaded changed).Climbs (lockOrder rank) Q R g := by
  refine climbs_runIf ?_ (h g (.mono (.refl hwithin) (List.subset_cons_self _ _)))
  rw [Prog.bind_eq, climbs_bind]
  exact climbs_databaseNow fun updatedAt =>
    climbs_flushUpdate_keep (fun _ => rfl) (by simp) hR hwithin hrow h

theorem rises_updateProject {organizationId projectId actorId : Uuid} {data : ProjectUpdate}
    (hactor : g.known actorId) (hheld : g.held = [])
    (horg : rank (.row .projects) < rank (.row .organizations)) :
    Rises rank (updateProject rt organizationId projectId actorId data) g := by
  simp only [Rises, updateProject, Prog.bind_eq, climbs_bind]
  refine climbs_lockProject hheld (fun _ _ => trivial) fun project g₁ h₁ hproject => ?_
  refine climbs_flushProject (fun _ _ => trivial) h₁.within (Or.inl hproject) fun g₂ h₂ => ?_
  refine plain_refresh.climbs (fun _ _ => trivial) h₂.within fun _ g₃ h₃ => ?_
  refine climbs_writeAudit (fun _ _ => trivial) h₃.within (.above (by simp) (by simp [horg]))
    (fun user huser => ?_) fun _ _ _ => trivial
  exact Option.some.inj huser ▸ h₃.known _ (h₂.known _ (h₁.known _ hactor))

theorem rises_deleteProject {organizationId projectId actorId : Uuid} (hactor : g.known actorId)
    (hheld : g.held = []) (horg : rank (.row .projects) < rank (.row .organizations)) :
    Rises rank (deleteProject rt organizationId projectId actorId) g := by
  simp only [Rises, deleteProject, Prog.bind_eq, climbs_bind]
  refine climbs_lockProject hheld (fun _ _ => trivial) fun project g₁ h₁ hproject => ?_
  refine climbs_writeAudit (fun _ _ => trivial) h₁.within (.above (by simp) (by simp [horg]))
    (fun user huser => Option.some.inj huser ▸ h₁.known _ hactor) fun _ g₂ h₂ => ?_
  refine climbs_deleteRow (S := schema) (t := .projects) trivial (fun old hold need hneed => ?_)
    (fun _ _ => trivial) trivial
  -- the row is locked already, and projects have no unique values
  obtain rfl := List.mem_singleton.mp hneed
  rw [hold]
  exact .covered (not_shared (by decide)) (h₂.held hproject) (.refl _)

/-! ### Organizations -/

theorem isMemberOrganization_unique {organizationId userId : Uuid} {allowed : Role → Bool} (db : Db)
    (hdb : db.Integral) (a : Organization) (_ : a ∈ db .organizations) (a' : Membership)
    (ha' : a' ∈ db .memberships) (b : Organization) (_ : b ∈ db .organizations) (b' : Membership)
    (hb' : b' ∈ db .memberships) (ha : isMemberOrganization organizationId userId allowed a a' = true)
    (hb : isMemberOrganization organizationId userId allowed b b' = true) : a.id = b.id ∧ a'.id = b'.id := by
  simp only [isMemberOrganization, Bool.and_eq_true, decide_eq_true_eq] at ha hb
  obtain ⟨⟨⟨haorg, haid⟩, hauser⟩, -⟩ := ha
  obtain ⟨⟨⟨hborg, hbid⟩, hbuser⟩, -⟩ := hb
  refine ⟨haid.trans hbid.symm, hdb.unique .memberships a' ha' b' hb' (.member userId organizationId) ?_ ?_⟩
  · simp [uniqueValues, hauser, haorg, haid]
  · simp [uniqueValues, hbuser, hborg, hbid]

theorem climbs_flushOrganization {loaded changed : Organization} {Q : Unit → Grip schema → Prop}
    (hR : ∀ error g, R error g) (hwithin : g.Within (lockOrder rank) levels)
    (hrow : (.row .organizations loaded.id, .forUpdate) ∈ g.held) (hslug : ∀ lower ∈ levels, rank lower < rank .slug)
    (h : ∀ g', g.Leads (lockOrder rank) (.row .organizations :: .slug :: levels) g' → Q () g') :
    (flushOrganization loaded changed).Climbs (lockOrder rank) Q R g := by
  refine climbs_runIf ?_ (h g (.mono (.refl hwithin) fun _ hmem =>
    List.mem_cons_of_mem _ (List.mem_cons_of_mem _ hmem)))
  rw [Prog.bind_eq, climbs_bind]
  refine climbs_databaseNow fun updatedAt => climbs_flushUpdate_index (t := .organizations) (fun old u hu => ?_)
    (by decide) hR hwithin hrow hslug h
  rcases List.mem_append.mp (List.mem_filter.mp hu).1 with hu | hu
  all_goals
    obtain rfl := List.mem_singleton.mp hu
    rfl

theorem rises_updateOrganization {organizationId actorId : Uuid} {data : OrganizationUpdate}
    (hactor : g.known actorId) (hheld : g.held = [])
    (hmember : rank (.row .organizations) < rank (.row .memberships))
    (hslug : rank (.row .memberships) < rank .slug) :
    Rises rank (updateOrganization rt organizationId actorId data) g := by
  simp only [Rises, updateOrganization, Prog.bind_eq, climbs_bind]
  refine climbs_scalarJoinForUpdate (S := schema) (t := .organizations) isMemberOrganization_unique
    (not_shared (by decide)) (not_shared (by decide)) (fun _ _ => trivial) (within_nil hheld) (fun _ => rfl)
    (fun _ => rfl) above_nil (fun lower hlower => ?_) (fun _ _ => trivial)
    fun organization owner copy g₁ h₁ hcond hid horg => ?_
  · rw [List.mem_singleton.mp hlower]
    exact hmember
  · have horg' : (.row .organizations copy.id, .forUpdate) ∈ g₁.held := by
      rw [show copy.id = schema.id organization from hid]
      exact horg
    have hpath : (.row .organizations organizationId, .forUpdate) ∈ g₁.held := by
      simp only [isMemberOrganization, Bool.and_eq_true, decide_eq_true_eq] at hcond
      rw [← hcond.1.1.2]
      exact horg
    refine climbs_exceptIntegrityError (fun _ _ => trivial) (climbs_flushOrganization (fun _ _ => trivial) h₁.within
      horg' (by simp [hslug, hmember.trans hslug]) fun g₂ h₂ => ?_)
    refine plain_refresh.climbs (fun _ _ => trivial) h₂.within fun _ g₃ h₃ => ?_
    refine climbs_writeAudit (fun _ _ => trivial) h₃.within (.held (by simp) (h₃.held (h₂.held hpath)))
      (fun user huser => ?_) fun _ _ _ => trivial
    exact Option.some.inj huser ▸ h₃.known _ (h₂.known _ (h₁.known _ hactor))

/-! ### Invitations and keys -/

/-- The row of the path's organization, if it is there. -/
theorem climbs_lockOrganization {organizationId : Uuid} {Q : Unit → Grip schema → Prop} (hR : ∀ error g, R error g)
    (hwithin : g.Within (lockOrder rank) levels)
    (hrank : ∀ lower ∈ levels, rank lower < rank (.row .organizations))
    (h : ∀ g', g.Leads (lockOrder rank) (.row .organizations :: levels) g' →
      (.row .organizations organizationId, .forUpdate) ∈ g'.held → Q () g') :
    (lockOrganization organizationId).Climbs (lockOrder rank) Q R g := by
  rw [lockOrganization, Prog.bind_eq, climbs_bind]
  refine climbs_selectForUpdate (S := schema) (t := .organizations) atMostOne_organization
    (not_shared (by decide)) hR hwithin (fun _ => rfl) hrank fun rows g₁ h₁ hrows =>
      climbs_raiseIf (hR _ _) fun hsome => h g₁ h₁ ?_
  cases rows with
  | nil => exact absurd rfl hsome
  | cons row rows =>
    obtain ⟨hcond, -, hheld⟩ := hrows row List.mem_cons_self
    rw [← show row.id = organizationId from of_decide_eq_true hcond]
    exact hheld

theorem climbs_ensureInvitationRole {actorRole invitedRole : Role} {Q : Unit → Grip schema → Prop}
    (hR : ∀ error g, R error g) (h : Q () g) :
    (ensureInvitationRole actorRole invitedRole).Climbs (lockOrder rank) Q R g := by
  rw [ensureInvitationRole]
  split
  · exact h
  · split
    · exact h
    · exact hR _ _

theorem rises_createInvitation {organizationId actorId : Uuid} {data : InvitationCreate}
    (hactor : g.known actorId) (hheld : g.held = [])
    (hmember : rank (.row .organizations) < rank (.row .memberships))
    (htoken : rank (.row .memberships) < rank .invitationToken) :
    Rises rank (createInvitation rt organizationId actorId data) g := by
  simp only [Rises, createInvitation, lockActor, Prog.bind_eq, climbs_bind]
  refine climbs_lockOrganization (fun _ _ => trivial) (within_nil hheld) above_nil fun g₁ h₁ horg => ?_
  refine climbs_lockOrRaise atMostOne_membership (by decide) (fun _ _ => trivial) h₁.within (by simp [hmember])
    fun _ actor g₂ h₂ _ _ _ => ?_
  refine climbs_ensureInvitationRole (fun _ _ => trivial) (climbs_now fun current => ?_)
  refine (plain_query _).climbs (fun _ _ => trivial) h₂.within fun _ g₃ h₃ => climbs_raiseIf trivial fun _ => ?_
  refine (plain_query _).climbs (fun _ _ => trivial) h₃.within fun _ g₄ h₄ => climbs_raiseIf trivial fun _ => ?_
  refine climbs_tokenUrlsafe fun rawToken => climbs_orRaise trivial fun expiresAt _ =>
    climbs_uuid4 h₄.within fun id g₅ h₅ hname => ?_
  have h₂₅ := h₃.trans (h₄.trans h₅)
  have hactor₅ : g₅.known actorId := h₂₅.known _ (h₂.known _ (h₁.known _ hactor))
  refine climbs_addRow (t := .invitations) (fun _ _ => trivial) h₅.within hname (fun u hu => ?_)
    (List.forall_mem_cons.mpr ⟨.held (by simp) (h₂₅.held (h₂.held horg)),
      List.forall_mem_singleton.mpr (.user hactor₅)⟩) fun g₆ h₆ _ hparents => ?_
  · obtain rfl := List.mem_singleton.mp hu
    simp [lockClass, htoken, hmember.trans htoken]
  · refine plain_refresh.climbs (fun _ _ => trivial) h₆.within fun _ g₇ h₇ => ?_
    refine climbs_writeAudit (fun _ _ => trivial) h₇.within
      (.held (by simp) (h₇.held (hparents _ List.mem_cons_self))) (fun user huser => ?_) fun _ _ _ => trivial
    exact Option.some.inj huser ▸ h₇.known _ (h₆.known _ hactor₅)

theorem rises_createApiKey {organizationId actorId : Uuid} {name : String} (hactor : g.known actorId)
    (hheld : g.held = []) (hkey : rank (.row .memberships) < rank .apiKey)
    (horg : rank (.row .memberships) < rank (.row .organizations)) :
    Rises rank (createApiKey rt organizationId actorId name) g := by
  simp only [Rises, createApiKey, lockOwner, generateApiKey, Prog.bind_eq, climbs_bind]
  refine climbs_lockOrRaise atMostOne_membership (by decide) (fun _ _ => trivial) (within_nil hheld) above_nil
    fun _ actor g₁ h₁ _ _ _ => ?_
  refine climbs_tokenUrlsafe fun token => climbs_uuid4 h₁.within fun id g₂ h₂ hname => climbs_databaseNow
    fun createdAt => ?_
  have hactor₂ : g₂.known actorId := h₂.known _ (h₁.known _ hactor)
  refine climbs_addRow (t := .apiKeys) (fun _ _ => trivial) h₂.within hname (fun u hu => ?_)
    (List.forall_mem_cons.mpr ⟨.above (by simp) (by simp [horg]), List.forall_mem_singleton.mpr (.user hactor₂)⟩)
    fun g₃ h₃ _ hparents => ?_
  · obtain rfl := List.mem_singleton.mp hu
    simp [lockClass, hkey]
  · refine plain_refresh.climbs (fun _ _ => trivial) h₃.within fun _ g₄ h₄ => ?_
    refine climbs_writeAudit (fun _ _ => trivial) h₄.within
      (.held (by simp) (h₄.held (hparents _ List.mem_cons_self))) (fun user huser => ?_) fun _ _ _ => trivial
    exact Option.some.inj huser ▸ h₄.known _ (h₃.known _ hactor₂)

theorem rises_revokeApiKey {organizationId keyId actorId : Uuid} (hactor : g.known actorId) (hheld : g.held = [])
    (hkey : rank (.row .memberships) < rank (.row .apiKeys))
    (horg : rank (.row .apiKeys) < rank (.row .organizations)) :
    Rises rank (revokeApiKey rt organizationId keyId actorId) g := by
  simp only [Rises, revokeApiKey, lockOwner, Prog.bind_eq, climbs_bind]
  refine climbs_lockOrRaise atMostOne_membership (by decide) (fun _ _ => trivial) (within_nil hheld) above_nil
    fun _ actor g₁ h₁ _ _ _ => ?_
  refine climbs_lockOrRaise atMostOne_apiKey (by decide) (fun _ _ => trivial) h₁.within (by simp [hkey])
    fun _ apiKey g₂ h₂ _ _ hlocked => climbs_runIf ?_ trivial
  simp only [climbs_bind]
  refine climbs_now fun revokedAt => climbs_flushUpdate_keep (t := .apiKeys) (fun _ => rfl) (by decide)
    (fun _ _ => trivial) h₂.within (Or.inl hlocked) fun g₃ h₃ => ?_
  refine climbs_writeAudit (fun _ _ => trivial) h₃.within (.above (by simp) (by simp [horg, hkey.trans horg]))
    (fun user huser => ?_) fun _ _ _ => trivial
  exact Option.some.inj huser ▸ h₃.known _ (h₂.known _ (h₁.known _ hactor))

/-! ### Subscriptions and usage -/

theorem climbs_createDefaultSubscription {organizationId : Uuid} {at? : Option DateTime}
    {Q : Subscription → Grip schema → Prop} (hR : ∀ error g, R error g)
    (hwithin : g.Within (lockOrder rank) levels)
    (horganization : Entitled rank levels g (.organizations, organizationId))
    (hrank : ∀ lower ∈ levels, rank lower < rank .subscriber)
    (h : ∀ subscription g',
      g.Leads (lockOrder rank) ([.subscriber, .row .organizations] ++ levels) g' →
      (.row .subscriptions subscription.id, .forUpdate) ∈ g'.held → Q subscription g') :
    (createDefaultSubscription organizationId at?).Climbs (lockOrder rank) Q R g := by
  simp only [createDefaultSubscription, Prog.bind_eq, climbs_bind]
  refine climbs_nowOr fun current => climbs_orRaise (hR _ _) fun period _ =>
    climbs_uuid4 hwithin fun id g₁ h₁ hname => climbs_databaseNow fun createdAt => ?_
  refine climbs_addRow (t := .subscriptions) hR h₁.within hname (fun u hu => ?_)
    (List.forall_mem_singleton.mpr (horganization.leads h₁)) fun g₂ h₂ hrow _ => h _ g₂ (h₁.trans h₂) hrow
  obtain rfl := List.mem_singleton.mp hu
  exact hrank

/-- The subscription is there, or was just created. -/
theorem climbs_getOrCreateSubscription {organizationId : Uuid} {at? : Option DateTime}
    {Q : Subscription → Grip schema → Prop} (hheld : g.held = []) (hR : ∀ error g, R error g)
    (hrank : rank (.row .organizations) < rank .subscriber)
    (h : ∀ subscription g' levels', g.Leads (lockOrder rank) levels' g' →
      (.row .organizations organizationId, .forUpdate) ∈ g'.held →
      ((.row .subscriptions subscription.id, .forUpdate) ∈ g'.held ∨ levels' = [.row .organizations]) →
      Q subscription g') :
    (getOrCreateSubscription organizationId at?).Climbs (lockOrder rank) Q R g := by
  simp only [getOrCreateSubscription, Prog.bind_eq, climbs_bind]
  refine climbs_lockPath hR (within_nil hheld) above_nil fun _ g₁ h₁ horg => ?_
  refine (plain_scalar (S := schema) (t := .subscriptions)).climbs hR h₁.within fun found g₂ h₂ => ?_
  have horg₂ : (.row .organizations organizationId, .forUpdate) ∈ g₂.held := h₂.held horg
  cases found with
  | some subscription => exact h subscription g₂ _ (h₁.trans h₂) horg₂ (Or.inr rfl)
  | none =>
    exact climbs_createDefaultSubscription hR h₂.within (.held (by simp) horg₂) (by simp [hrank])
      fun subscription g₃ h₃ hrow => h subscription g₃ _ (h₁.trans (h₂.trans h₃)) (h₃.held horg₂) (Or.inl hrow)

/-- Only a new external id is waited for. -/
theorem changedIndex_subscription (loaded changed old : Subscription) (updatedAt : DateTime) :
    ∀ u ∈ Session.changedIndex (S := schema) (t := .subscriptions) old (loaded.merge changed old updatedAt),
      lockClass (.index .subscriptions u) = .externalSubscription := by
  intro u hu
  obtain ⟨hmem, hchanged⟩ := List.mem_filter.mp hu
  simp only [decide_eq_true_eq] at hchanged
  have hsubscriber : u ≠ .subscriber old.organizationId := by
    rintro rfl
    exact hchanged ⟨List.mem_cons_self, List.mem_cons_self⟩
  rcases List.mem_append.mp hmem with hmem | hmem
  all_goals
    rcases List.mem_cons.mp hmem with hu | hu
    · exact absurd hu hsubscriber
    · obtain ⟨id, -, rfl⟩ := List.mem_map.mp hu
      rfl

theorem climbs_flushSubscription {loaded changed : Subscription} {Q : Unit → Grip schema → Prop}
    (hR : ∀ error g, R error g) (hwithin : g.Within (lockOrder rank) levels)
    (hrow : (.row .subscriptions loaded.id, .forUpdate) ∈ g.held)
    (hrank : ∀ lower ∈ levels, rank lower < rank .externalSubscription)
    (h : ∀ g', g.Leads (lockOrder rank) (.row .subscriptions :: .externalSubscription :: levels) g' → Q () g') :
    (flushSubscription loaded changed).Climbs (lockOrder rank) Q R g := by
  refine climbs_runIf ?_ (h g (.mono (.refl hwithin) fun _ hmem =>
    List.mem_cons_of_mem _ (List.mem_cons_of_mem _ hmem)))
  rw [Prog.bind_eq, climbs_bind]
  exact climbs_databaseNow fun updatedAt => climbs_flushUpdate_index (t := .subscriptions)
    (fun old => changedIndex_subscription loaded changed old updatedAt) (by decide) hR hwithin hrow hrank h

/-- A change that keeps the external id. -/
theorem climbs_flushSubscription_keep {loaded changed : Subscription} {Q : Unit → Grip schema → Prop}
    (hkeep : changed.externalSubscriptionId = loaded.externalSubscriptionId)
    (hR : ∀ error g, R error g) (hwithin : g.Within (lockOrder rank) levels)
    (hrow : (.row .subscriptions loaded.id, .forUpdate) ∈ g.held ∨
      ∀ lower ∈ levels, rank lower < rank (.row .subscriptions))
    (h : ∀ g', g.Leads (lockOrder rank) (.row .subscriptions :: levels) g' → Q () g') :
    (flushSubscription loaded changed).Climbs (lockOrder rank) Q R g := by
  refine climbs_runIf ?_ (h g (.mono (.refl hwithin) (List.subset_cons_self _ _)))
  rw [Prog.bind_eq, climbs_bind]
  refine climbs_databaseNow fun updatedAt => climbs_flushUpdate_keep (t := .subscriptions) (fun old => ?_)
    (by decide) hR hwithin hrow h
  simp [uniqueValues, Subscription.merge, assign, hkeep]

theorem rises_changePlan {organizationId actorUserId : Uuid} {plan : Plan} {ipAddress : Option String}
    {at? : Option DateTime} (hactor : g.known actorUserId) (hheld : g.held = [])
    (hsubscriber : rank (.row .organizations) < rank .subscriber)
    (hrow : rank (.row .organizations) < rank (.row .subscriptions)) :
    Rises rank (changePlan rt organizationId plan actorUserId ipAddress at?) g := by
  simp only [Rises, changePlan, Prog.bind_eq, climbs_bind]
  refine climbs_getOrCreateSubscription hheld (fun _ _ => trivial) hsubscriber
    fun subscription g₁ levels₁ h₁ horg hsubscription => ?_
  refine climbs_nowOr fun current => climbs_orRaise trivial fun period _ => ?_
  refine climbs_flushSubscription_keep rfl (fun _ _ => trivial) h₁.within (hsubscription.imp_right ?_)
    fun g₂ h₂ => ?_
  · rintro rfl
    simp [hrow]
  · refine climbs_runIf ?_ ?_
    · simp only [climbs_bind]
      refine climbs_writeAudit (fun _ _ => trivial) h₂.within (.held (by simp) (h₂.held horg)) (fun user huser => ?_)
        fun _ g₃ h₃ => rises_refresh (t := .subscriptions) h₃.within
      exact Option.some.inj huser ▸ h₂.known _ (h₁.known _ hactor)
    · exact rises_refresh (t := .subscriptions) h₂.within

theorem rises_recordUsage {organizationId : Uuid} {metric : String} {quantity : Int} {at? : Option DateTime}
    (hwithin : g.Within (lockOrder rank) levels)
    (hrank : ∀ lower ∈ levels, rank lower < rank (.row .organizations)) :
    Rises rank (recordUsage organizationId metric quantity at?) g := by
  simp only [Rises, recordUsage, chargeUsage, Prog.bind_eq, climbs_bind]
  refine climbs_raiseIf trivial fun _ => climbs_lockPath (fun _ _ => trivial) hwithin hrank
    fun _ g₁ h₁ horg => ?_
  refine (plain_scalar (S := schema) (t := .subscriptions)).climbs (fun _ _ => trivial) h₁.within
    fun _ g₂ h₂ => climbs_nowOr fun current => climbs_orRaise trivial fun period _ => ?_
  refine (plain_query _).climbs (fun _ _ => trivial) h₂.within fun used g₃ h₃ => ?_
  have hadd : ∀ createdAt, Rises rank (do
      let id ← uuid4
      let event : UsageEvent := { id, organizationId, metric, quantity, createdAt }
      addRow .usageEvents event
      Pure.pure event) g₃ := by
    intro createdAt
    simp only [Rises, Prog.bind_eq, climbs_bind]
    refine climbs_uuid4 h₃.within fun id g₄ h₄ hname => climbs_addRow (t := .usageEvents) (fun _ _ => trivial)
      h₄.within hname (fun u hu => absurd hu List.not_mem_nil) (List.forall_mem_singleton.mpr ?_)
      fun _ _ _ _ => trivial
    exact .held (by simp) (h₄.held (h₃.held (h₂.held horg)))
  refine climbs_runIf ?_ (climbs_nowOr hadd)
  rw [quotaExceeded, Prog.bind_eq, climbs_bind]
  exact climbs_nowOr fun _ => trivial

/-! ### Creating organizations, joining them -/

theorem rises_createOrganization {actor : User} {data : OrganizationCreate} (hactor : g.known actor.id)
    (hheld : g.held = [])
    (hmember : ∀ lower ∈ [LockClass.row .organizations, .slug], rank lower < rank .member)
    (hsubscriber : ∀ lower ∈ [LockClass.member, .row .organizations, .slug], rank lower < rank .subscriber) :
    Rises rank (createOrganization rt actor data) g := by
  simp only [Rises, createOrganization, Prog.bind_eq, climbs_bind]
  refine (plain_query _).climbs (fun _ _ => trivial) (within_nil hheld) fun _ g₁ h₁ => climbs_raiseIf trivial fun _ =>
    climbs_uuid4 h₁.within fun id g₂ h₂ hname => climbs_databaseNow fun createdAt => ?_
  refine climbs_exceptIntegrityError (fun _ _ => trivial) ?_
  simp only [climbs_bind]
  refine climbs_addRow (t := .organizations) (fun _ _ => trivial) h₂.within hname (fun _ _ => above_nil)
    (fun parent hparent => absurd hparent List.not_mem_nil) fun g₃ h₃ horg _ => ?_
  refine climbs_uuid4 h₃.within fun membershipId g₄ h₄ hname' => climbs_databaseNow fun joinedAt => ?_
  have hactor₄ : g₄.known actor.id := h₄.known _ (h₃.known _ (h₂.known _ (h₁.known _ hactor)))
  refine climbs_addRow (t := .memberships) (fun _ _ => trivial) h₄.within hname' (fun u hu => ?_)
    (List.forall_mem_cons.mpr ⟨.user hactor₄, List.forall_mem_singleton.mpr (.held (by simp) (h₄.held horg))⟩)
    fun g₅ h₅ _ _ => ?_
  · obtain rfl := List.mem_singleton.mp hu
    exact hmember
  · have horg₅ := h₅.held (h₄.held horg)
    refine climbs_createDefaultSubscription (fun _ _ => trivial) h₅.within (.held (by simp) horg₅) ?_
      fun subscription g₆ h₆ _ => ?_
    · simpa [insertClasses, uniqueValues, foreignKeys, lockClass] using hsubscriber
    · refine plain_refresh.climbs (fun _ _ => trivial) h₆.within fun _ g₇ h₇ => ?_
      refine climbs_writeAudit (fun _ _ => trivial) h₇.within (.held (by simp) (h₇.held (h₆.held horg₅)))
        (fun user huser => ?_) fun _ _ _ => trivial
      exact Option.some.inj huser ▸ h₇.known _ (h₆.known _ (h₅.known _ hactor₄))

theorem rises_acceptInvitation {rawToken : String} {user : User} (huser : g.known user.id) (hheld : g.held = [])
    (hmember : rank (.row .invitations) < rank .member)
    (horg : rank (.row .invitations) < rank (.row .organizations)) :
    Rises rank (acceptInvitation rt rawToken user) g := by
  simp only [Rises, acceptInvitation, Prog.bind_eq, climbs_bind]
  refine climbs_now fun current => climbs_lockOrRaise atMostOne_invitation (by decide) (fun _ _ => trivial)
    (within_nil hheld) above_nil fun _ invitation g₁ h₁ _ _ hlocked => climbs_raiseIf trivial fun _ =>
      climbs_raiseIf trivial fun _ => climbs_raiseIf trivial fun _ => ?_
  refine (plain_query _).climbs (fun _ _ => trivial) h₁.within fun _ g₂ h₂ => climbs_raiseIf trivial fun _ =>
    climbs_exceptIntegrityError (fun _ _ => trivial) ?_
  simp only [climbs_bind]
  refine climbs_flushUpdate_keep (t := .invitations) (fun _ => rfl) (by decide) (fun _ _ => trivial) h₂.within
    (Or.inl (h₂.held hlocked)) fun g₃ h₃ => ?_
  refine climbs_uuid4 h₃.within fun id g₄ h₄ hname => climbs_databaseNow fun joinedAt => ?_
  have huser₄ : g₄.known user.id := h₄.known _ (h₃.known _ (h₂.known _ (h₁.known _ huser)))
  refine climbs_addRow (t := .memberships) (fun _ _ => trivial) h₄.within hname (fun u hu => ?_)
    (List.forall_mem_cons.mpr ⟨.user huser₄, List.forall_mem_singleton.mpr (.above (by simp) (by simp [horg]))⟩)
    fun g₅ h₅ _ hparents => ?_
  · obtain rfl := List.mem_singleton.mp hu
    simp [lockClass, hmember]
  · refine plain_refresh.climbs (fun _ _ => trivial) h₅.within fun _ g₆ h₆ => ?_
    refine climbs_writeAudit (fun _ _ => trivial) h₆.within
      (.held (by simp) (h₆.held (hparents _ (List.mem_cons_of_mem _ List.mem_cons_self)))) (fun actor hactor => ?_)
      fun _ _ _ => trivial
    exact Option.some.inj hactor ▸ h₆.known _ (h₅.known _ huser₄)

theorem Rises.map {β : Type} {p : App α} {f : α → β} (h : Rises rank p g) : Rises rank (f <$> p) g := by
  rw [Rises, Prog.map_eq, climbs_bind]
  exact h

/-- What is raised or returned after the last lock makes no difference. -/
theorem Rises.andThen {β : Type} {p : App α} {f : α → App β} (h : Rises rank p g)
    (hf : ∀ value g, Rises rank (f value) g) : Rises rank (p >>= f) g := by
  rw [Rises, Prog.bind_eq, climbs_bind]
  exact climbs_mono (fun value g' _ => hf value g') (fun _ _ _ => trivial) p g h

/-! ### Accounts -/

theorem rises_registerUser {email password : String} (hheld : g.held = []) :
    Rises rank (registerUser rt email password) g := by
  simp only [Rises, registerUser, Prog.bind_eq, climbs_bind]
  refine (plain_query _).climbs (fun _ _ => trivial) (within_nil hheld) fun _ g₁ h₁ => climbs_raiseIf trivial fun _ =>
    climbs_uuid4 h₁.within fun id g₂ h₂ hname => climbs_databaseNow fun createdAt => ?_
  exact climbs_exceptIntegrityError (fun _ _ => trivial) (climbs_addRow (t := .users) (fun _ _ => trivial) h₂.within
    hname (fun _ _ => above_nil) (fun parent hparent => absurd hparent List.not_mem_nil)
    fun g₃ h₃ _ _ => rises_refresh (t := .users) h₃.within)

theorem rises_issueTokens {user : User} (huser : g.known user.id) (hwithin : g.Within (lockOrder rank) levels)
    (hrank : ∀ lower ∈ levels, rank lower < rank .refreshToken) : Rises rank (issueTokens rt user) g := by
  simp only [Rises, issueTokens, createAccessToken, Prog.bind_eq, climbs_bind]
  refine climbs_raiseIf trivial fun _ => climbs_now fun current => climbs_tokenUrlsafe fun refreshToken =>
    climbs_orRaise trivial fun expiresAt _ => climbs_now fun issuedAt => climbs_uuid4 hwithin fun jti g₁ h₁ _ => ?_
  refine climbs_uuid4 h₁.within fun id g₂ h₂ hname => climbs_addRow (t := .refreshTokens) (fun _ _ => trivial)
    h₂.within hname (fun u hu => ?_) (List.forall_mem_singleton.mpr (.user (h₂.known _ (h₁.known _ huser))))
    fun _ _ _ _ => trivial
  obtain rfl := List.mem_singleton.mp hu
  exact hrank

/-- The user that a query finds is known. -/
theorem climbs_findUser {cond : User → Bool} {Q : Option User → Grip schema → Prop} (hR : ∀ error g, R error g)
    (hwithin : g.Within (lockOrder rank) levels) (hnone : ∀ g', g.Leads (lockOrder rank) levels g' → Q none g')
    (hsome : ∀ (user : User) g', g.Leads (lockOrder rank) levels g' → g'.known user.id → Q (some user) g') :
    (Prog.scalar (S := schema) .users cond : App (Option User)).Climbs (lockOrder rank) Q R g := by
  refine climbs_scalar (S := schema) (t := .users) (hR _ _) (fun db => hnone _ (.learn hwithin db))
    fun db row hrow _ copy hid _ => hsome copy _ ?_ ?_
  · have hlearnt := Grip.Leads.learn hwithin db
    exact hlearnt.trans (.attach hlearnt.within _)
  · exact Or.inr ⟨.users, row, hrow, hid.symm⟩

theorem rises_login {email password : String} (hheld : g.held = []) :
    Rises rank ((Request.login email password).endpoint rt) g := by
  simp only [Rises, Request.endpoint, authenticateUser, Prog.bind_eq, climbs_bind]
  exact climbs_findUser (fun _ _ => trivial) (within_nil hheld) (fun _ _ => trivial) fun user g₁ h₁ huser =>
    climbs_raiseIf trivial fun _ => (rises_issueTokens huser h₁.within above_nil).map

theorem rises_rotateRefreshToken {rawToken : String} (hheld : g.held = [])
    (hrank : rank (.row .refreshTokens) < rank .refreshToken) :
    Rises rank (rotateRefreshToken rt rawToken) g := by
  simp only [Rises, rotateRefreshToken, Prog.bind_eq, climbs_bind]
  refine climbs_now fun current => climbs_lockOrRaise atMostOne_refreshToken (by decide) (fun _ _ => trivial)
    (within_nil hheld) above_nil fun _ token g₁ h₁ _ _ hlocked => climbs_raiseIf trivial fun _ =>
      climbs_raiseIf trivial fun _ => ?_
  refine climbs_findUser (fun _ _ => trivial) h₁.within (fun _ _ => trivial) fun user g₂ h₂ huser =>
    climbs_raiseIf trivial fun _ => ?_
  exact climbs_flushUpdate_keep (t := .refreshTokens) (fun _ => rfl) (by decide) (fun _ _ => trivial) h₂.within
    (Or.inl (h₂.held hlocked)) fun g₃ h₃ => rises_issueTokens (h₃.known _ huser) h₃.within (by simp [hrank])

theorem rises_revokeRefreshToken {rawToken : String} (hheld : g.held = []) :
    Rises rank (revokeRefreshToken rt rawToken) g := by
  simp only [Rises, revokeRefreshToken, Prog.bind_eq, climbs_bind]
  refine climbs_lockOrRaise atMostOne_refreshToken (by decide) (fun _ _ => trivial) (within_nil hheld) above_nil
    fun _ token g₁ h₁ _ _ hlocked => climbs_runIf ?_ trivial
  rw [climbs_bind]
  exact climbs_now fun revokedAt => climbs_flushUpdate_keep (t := .refreshTokens) (fun _ => rfl) (by decide)
    (fun _ _ => trivial) h₁.within (Or.inl hlocked) fun _ _ => trivial

/-! ### Webhooks -/

theorem plain_validateWebhook {event : BillingWebhook} : (validateWebhook rt event).Plain := by
  have hsubscription : ∀ object, (validateSubscription rt object).Plain := by
    intro object
    refine plain_raiseIf.bind fun _ => plain_raiseIf.bind fun _ => plain_raiseIf.bind fun _ => Plain.bind ?_ fun _ =>
      plain_raiseIf.bind fun _ => plain_raiseIf
    rw [runIf]
    split
    · exact plain_now.bind fun _ => plain_orRaise.bind fun _ => plain_now.bind fun _ => plain_orRaise.bind fun _ =>
        plain_raiseIf
    · trivial
  refine plain_raiseIf.bind fun _ => plain_orRaise.bind fun object => plain_raiseIf.bind fun _ => Plain.bind ?_ fun _ =>
    trivial
  rw [runIf]
  split
  · exact hsubscription object
  · trivial

theorem climbs_storeWebhookEvent {event : BillingWebhook} {Q : WebhookEvent × Bool → Grip schema → Prop}
    (hwithin : g.Within (lockOrder rank) []) (hR : ∀ error g, R error g) (h : ∀ stored g', Q stored g') :
    (storeWebhookEvent event).Climbs (lockOrder rank) Q R g := by
  rw [storeWebhookEvent, Prog.bind_eq, climbs_bind]
  refine (plain_scalar (S := schema) (t := .webhookEvents)).climbs hR hwithin fun found g₁ h₁ => ?_
  cases found with
  | some existing => exact h _ _
  | none =>
    simp only [Prog.bind_eq, climbs_bind]
    refine climbs_uuid4 h₁.within fun id g₂ h₂ hname => climbs_databaseNow fun receivedAt => ?_
    refine climbs_insertRow (S := schema) (t := .webhookEvents) (hR _ _) hname
      (forall_insertNeeds (.fresh hname) (fun u hu => h₂.within.affords not_false above_nil) fun parent hparent =>
        absurd hparent List.not_mem_nil) (h _ _) ?_
    simp only [Bool.false_eq_true, if_false, climbs_bind]
    exact (plain_scalar (S := schema) (t := .webhookEvents)).climbs hR h₂.within fun found g₃ h₃ =>
      climbs_orRaise (hR _ _) fun _ _ => h _ _

theorem climbs_lockedSubscription {organizationId : Uuid} {Q : Subscription → Grip schema → Prop}
    (hR : ∀ error g, R error g) (hwithin : g.Within (lockOrder rank) levels)
    (horg : ∀ lower ∈ levels, rank lower < rank (.row .organizations))
    (hrow : ∀ lower ∈ .row .organizations :: levels, rank lower < rank (.row .subscriptions))
    (hsubscriber : ∀ lower ∈ .row .subscriptions :: .row .organizations :: levels, rank lower < rank .subscriber)
    (h : ∀ subscription g',
      g.Leads (lockOrder rank) ([.row .subscriptions, .subscriber, .row .organizations] ++ levels) g' →
      (.row .organizations organizationId, .forUpdate) ∈ g'.held →
      (.row .subscriptions subscription.id, .forUpdate) ∈ g'.held → Q subscription g') :
    (lockedSubscription organizationId).Climbs (lockOrder rank) Q R g := by
  simp only [lockedSubscription, Prog.bind_eq, climbs_bind]
  refine climbs_lockPath hR hwithin horg fun _ g₁ h₁ horg₁ => ?_
  refine climbs_lockRow atMostOne_subscription (by decide) hR h₁.within hrow (fun g₂ h₂ => ?_)
    fun _ subscription g₂ h₂ _ _ hlocked => ?_
  · refine climbs_createDefaultSubscription hR h₂.within (.held (by simp) (h₂.held horg₁)) hsubscriber
      fun subscription g₃ h₃ hlocked => h subscription g₃ ((h₁.trans (h₂.trans h₃)).mono ?_)
        (h₃.held (h₂.held horg₁)) hlocked
    intro level hlevel
    simp only [List.cons_append, List.nil_append, List.mem_cons] at hlevel ⊢
    tauto
  · refine h subscription g₂ ((h₁.trans h₂).mono ?_) (h₂.held horg₁) hlocked
    intro level hlevel
    simp only [List.cons_append, List.nil_append, List.mem_cons] at hlevel ⊢
    tauto

theorem climbs_ofExcept {result : Except Exn α} {Q : α → Grip schema → Prop} (hR : ∀ error g, R error g)
    (hQ : ∀ value, Q value g) : (ofExcept result).Climbs (lockOrder rank) Q R g := by
  cases result with
  | ok value => exact hQ value
  | error error => exact hR error g

theorem rises_processWebhookEvent {webhookEventId : String} {at? : Option DateTime} (hheld : g.held = [])
    (horg : rank (.row .webhookEvents) < rank (.row .organizations))
    (hrow : ∀ lower ∈ [LockClass.row .organizations, .row .webhookEvents], rank lower < rank (.row .subscriptions))
    (hsubscriber : ∀ lower ∈ [LockClass.row .subscriptions, .row .organizations, .row .webhookEvents],
      rank lower < rank .subscriber)
    (hexternal : ∀ lower ∈ [LockClass.row .subscriptions, .subscriber, .row .organizations, .row .webhookEvents],
      rank lower < rank .externalSubscription) :
    Rises rank (processWebhookEvent rt webhookEventId at?) g := by
  simp only [Rises, processWebhookEvent, Prog.bind_eq, climbs_bind]
  refine climbs_orRaise trivial fun eventId _ => climbs_lockOrRaise atMostOne_webhookEvent (by decide)
    (fun _ _ => trivial) (within_nil hheld) above_nil fun _ event g₁ h₁ _ _ hlocked => ?_
  split
  · trivial
  · simp only [processRow, applyRow, settleEvent, Prog.bind_eq, climbs_bind]
    refine climbs_orRaise trivial fun parsedEvent _ => plain_validateWebhook.climbs (fun _ _ => trivial) h₁.within
      fun object g₂ h₂ => climbs_orRaise trivial fun organizationId _ => ?_
    refine climbs_lockedSubscription (fun _ _ => trivial) h₂.within (by simp [horg]) hrow hsubscriber
      fun subscription g₃ h₃ horg₃ hrow₃ => ?_
    refine climbs_nowOr fun current => climbs_orRaise trivial fun period _ =>
      climbs_ofExcept (fun _ _ => trivial) fun changed => ?_
    refine climbs_flushSubscription (fun _ _ => trivial) h₃.within hrow₃ hexternal fun g₄ h₄ => ?_
    refine climbs_writeAudit (fun _ _ => trivial) h₄.within (.held (by simp) (h₄.held horg₃))
      (fun user huser => by cases huser) fun _ g₅ h₅ => climbs_nowOr fun processedAt => ?_
    exact climbs_flushUpdate_keep (t := .webhookEvents) (fun _ => rfl) (by decide) (fun _ _ => trivial) h₅.within
      (Or.inl (h₅.held (h₄.held (h₃.held (h₂.held hlocked))))) fun _ _ => trivial

theorem rises_markWebhookFailed {webhookEventId : String} (hheld : g.held = []) :
    Rises rank (markWebhookFailed rt webhookEventId) g := by
  simp only [Rises, markWebhookFailed, Prog.bind_eq, climbs_bind]
  refine climbs_orRaise trivial fun eventId _ => climbs_lockRow atMostOne_webhookEvent (by decide)
    (fun _ _ => trivial) (within_nil hheld) above_nil (fun _ _ => trivial)
    fun _ event g₁ h₁ _ _ hlocked => climbs_runIf ?_ trivial
  exact climbs_flushUpdate_keep (t := .webhookEvents) (fun _ => rfl) (by decide) (fun _ _ => trivial) h₁.within
    (Or.inl hlocked) fun _ _ => trivial

/-! ### Requests -/

theorem climbs_enforceRateLimit {identifier : String} {Q : Unit → Grip schema → Prop} (hR : ∀ error g, R error g)
    (h : Q () g) : (enforceRateLimit identifier).Climbs (lockOrder rank) Q R g := by
  rw [enforceRateLimit, Prog.bind_eq, climbs_bind]
  refine climbs_act fun verdict => ?_
  cases verdict with
  | none => exact h
  | some retryAfter => exact hR _ _

theorem climbs_getCurrentUser {credentials : Option Credentials} {Q : User → Grip schema → Prop}
    (hR : ∀ error g, R error g)
    (h : ∀ (user : User) (g' : Grip schema), g'.held = g.held → g'.known user.id →
      (∀ t, g'.attached t → g.attached t ∨ t = .users) → Q user g') :
    (getCurrentUser rt credentials).Climbs (lockOrder rank) Q R g := by
  simp only [getCurrentUser, Prog.bind_eq, climbs_bind]
  refine climbs_orRaise (hR _ _) fun _ _ => climbs_now fun current => climbs_orRaise (hR _ _) fun userId _ => ?_
  refine climbs_scalar (S := schema) (t := .users) (hR _ _) (fun _ => hR _ _) fun db row hrow _ user hid _ => ?_
  exact climbs_enforceRateLimit hR (h user _ rfl (Or.inr ⟨.users, row, hrow, hid.symm⟩) fun _ ht => ht)

/-- The caller is a member, and nothing is locked yet. -/
theorem climbs_enter {organizationId : Uuid} {credentials : Option Credentials} {call : TenantCall}
    (hheld : g.held = []) (hfresh : ¬g.attached .memberships)
    (h : ∀ user membership (g' : Grip schema), g'.held = [] → g'.known user.id → g'.known membership.userId →
      Rises rank (call.operation rt organizationId user membership) g') :
    Rises rank (call.handle rt organizationId credentials) g := by
  simp only [Rises, TenantCall.handle, getCurrentMembership, Prog.bind_eq, climbs_bind]
  refine climbs_getCurrentUser (fun _ _ => trivial) fun user g₁ h₁ huser hattached => ?_
  refine climbs_scalar (S := schema) (t := .memberships) trivial (fun _ => trivial)
    fun db row _ hcond membership _ hcopy => climbs_raiseIf trivial fun _ => ?_
  refine h user membership _ (h₁.trans hheld) (Or.inl huser) ?_
  have hloaded : ¬(g₁.learn db).attached .memberships := by
    intro hmemberships
    rcases hattached _ hmemberships with hmemberships | husers
    · exact hfresh hmemberships
    · cases husers
  obtain rfl := hcopy hloaded
  simp only [isMembership, Bool.and_eq_true, decide_eq_true_eq] at hcond
  rw [hcond.1.2]
  exact Or.inl huser

theorem rises_of_plain {p : App α} (hp : p.Plain) (hheld : g.held = []) : Rises rank p g :=
  hp.climbs (fun _ _ => trivial) (within_nil hheld) fun _ _ _ => trivial

theorem rises_redisCommand {β : Type} {command : Env → β × Env} : Rises rank (redisCommand command) g := by
  rw [Rises, redisCommand, Prog.bind_eq, climbs_bind]
  exact climbs_act fun answer => climbs_orRaise trivial fun _ _ => trivial

theorem rises_enqueue {type : String} {payload : List (String × Value)} :
    Rises rank (RedisJobQueue.enqueue rt type payload) g := by
  simp only [Rises, RedisJobQueue.enqueue, Job.create, Prog.bind_eq, climbs_bind]
  refine climbs_raiseIf trivial fun _ => fun id => climbs_now fun createdAt => ?_
  exact climbs_mono (fun _ _ _ => trivial) (fun _ _ _ => trivial) _ _ rises_redisCommand

/-- A handler that rises wherever it is called. -/
theorem Rises.caught {p : App α} {handler : Exn → App α} (h : Rises rank p g)
    (hhandler : ∀ exc g, Rises rank (handler exc) g) : Rises rank (tryCatch p handler) g := by
  rw [Rises, Prog.tryCatch_eq, climbs_handle]
  exact climbs_mono (fun _ _ _ => trivial) (fun exc g' _ => hhandler exc g') p g h

theorem rises_sendInvitation {email token : String} {organizationId invitationId : Uuid} :
    Rises rank (sendInvitation rt email organizationId invitationId token) g := by
  rw [sendInvitation, Rises, Prog.bind_eq, climbs_bind]
  refine climbs_raiseIf trivial fun _ => ?_
  refine Rises.caught (rises_enqueue.andThen fun _ _ => trivial) fun exc g => ?_
  split <;> trivial

theorem Rises.commit {f : Unit → App α} (h : Rises rank (f ()) g.release) :
    Rises rank (Prog.commitTransaction >>= f) g := ⟨h, trivial⟩

theorem Rises.thenCommit {p : App α} (h : Rises rank p g) :
    Rises rank (p >>= fun _ => Prog.commitTransaction) g :=
  h.andThen fun _ _ => by exact ⟨trivial, trivial⟩

/-- After the commit only Redis is talked to. -/
theorem rises_createInvitationRoute {organizationId : Uuid} {user : User} {data : InvitationCreate}
    (h : Rises rank (createInvitation rt organizationId user.id data) g) :
    Rises rank (createInvitationRoute rt organizationId user data) g := by
  refine h.andThen fun created g₁ => Rises.commit (Rises.andThen (rises_sendInvitation.caught fun exc g => ?_)
    fun _ _ => by trivial)
  split <;> trivial

theorem rises_operation {organizationId : Uuid} {user : User} {membership : Membership} {call : TenantCall}
    (huser : g.known user.id) (hmember : g.known membership.userId) (hheld : g.held = [])
    (hrank : Climbing rank call.lockSequence) :
    Rises rank (call.operation rt organizationId user membership) g := by
  cases call with
  | getOrganization =>
    exact (rises_of_plain ((plain_query _).bind fun _ => (plain_first _).bind fun _ => plain_orRaise) hheld).map
  | listMembers =>
    exact (rises_of_plain ((plain_query _).bind fun _ => (plain_attachAll _).bind fun _ => by trivial) hheld).map
  | listApiKeys =>
    exact (rises_of_plain ((plain_query _).bind fun _ => plain_attachAll _) hheld).andThen fun _ _ => trivial
  | listProjects => exact (rises_of_plain ((plain_query _).bind fun _ => plain_attachAll _) hheld).map
  | getProject projectId =>
    exact (rises_of_plain ((plain_query _).bind fun _ => (plain_first _).bind fun _ => plain_orRaise) hheld).map
  | readUsage =>
    exact (rises_of_plain ((plain_query _).bind fun _ => plain_raiseIf.bind fun _ => plain_scalar.bind fun _ =>
      plain_nowOr.bind fun _ => plain_orRaise.bind fun _ => (plain_query _).bind fun _ => by trivial) hheld).map
  | readSubscription => exact (rises_of_plain (plain_scalar.bind fun _ => plain_orRaise) hheld).map
  | readAuditLog limit offset =>
    exact (rises_of_plain ((plain_query _).bind fun _ => plain_attachAll _) hheld).map
  | updateOrganization data =>
    simp [TenantCall.lockSequence, Climbing] at hrank
    exact (rises_updateOrganization huser hheld (by omega) (by omega)).map
  -- a class does not rank above itself
  | deleteOrganization | updateMember membershipId role | removeMember membershipId =>
    simp [TenantCall.lockSequence, Climbing] at hrank
  | createInvitation data =>
    simp [TenantCall.lockSequence, Climbing] at hrank
    exact rises_createInvitationRoute (rises_createInvitation huser hheld (by omega) (by omega))
  | createApiKey name =>
    simp [TenantCall.lockSequence, Climbing] at hrank
    exact (rises_createApiKey huser hheld (by omega) (by omega)).andThen fun _ _ => trivial
  | revokeApiKey keyId =>
    simp [TenantCall.lockSequence, Climbing] at hrank
    exact (rises_revokeApiKey huser hheld (by omega) (by omega)).andThen fun _ _ => trivial
  | createProject data => exact (rises_createProject huser hheld).map
  | updateProject projectId data =>
    simp [TenantCall.lockSequence, Climbing] at hrank
    exact (rises_updateProject huser hheld (by omega)).map
  | deleteProject projectId =>
    simp [TenantCall.lockSequence, Climbing] at hrank
    exact (rises_deleteProject huser hheld (by omega)).andThen fun _ _ => trivial
  | changePlan plan ipAddress =>
    simp [TenantCall.lockSequence, Climbing] at hrank
    rw [TenantCall.operation, Rises, requireDevelopmentBilling, Prog.bind_eq, climbs_bind]
    exact climbs_raiseIf trivial fun _ => (rises_changePlan hmember hheld (by omega) (by omega)).map

theorem climbs_authenticateApiKey {rawKey : String} {Q : ApiKeyPrincipal → Grip schema → Prop}
    (hheld : g.held = []) (hR : ∀ error g, R error g)
    (h : ∀ principal g', g.Leads (lockOrder rank) [.row .apiKeys] g' → Q principal g') :
    (authenticateApiKey rt rawKey).Climbs (lockOrder rank) Q R g := by
  simp only [authenticateApiKey, Prog.bind_eq, climbs_bind]
  refine climbs_raiseIf (hR _ _) fun _ => ?_
  refine (plain_scalar (S := schema) (t := .apiKeys)).climbs hR (within_nil hheld) fun found g₁ h₁ =>
    climbs_orRaise (hR _ _) fun apiKey _ => climbs_now fun usedAt => climbs_runIf ?_ ?_
  · exact climbs_flushUpdate_keep (t := .apiKeys) (fun _ => rfl) (by decide) hR h₁.within (Or.inr above_nil)
      fun g₂ h₂ => h _ g₂ (h₁.trans h₂)
  · exact h _ g₁ (h₁.mono (List.nil_subset _))

theorem rises_createUsageEvent {organizationId : Uuid} {rawKey : Option String} {quantity : Int}
    (hheld : g.held = []) (hrank : rank (.row .apiKeys) < rank (.row .organizations)) :
    Rises rank (createUsageEvent rt organizationId rawKey quantity) g := by
  simp only [Rises, createUsageEvent, getApiKeyPrincipal, Prog.bind_eq, climbs_bind]
  refine climbs_orRaise trivial fun key _ => climbs_authenticateApiKey hheld (fun _ _ => trivial)
    fun principal g₁ h₁ => climbs_enforceRateLimit (fun _ _ => trivial) (climbs_raiseIf trivial fun _ => ?_)
  exact (rises_recordUsage h₁.within (by simp [hrank])).map

theorem rises_billingWebhook {delivery : Delivery} (hheld : g.held = []) :
    Rises rank (billingWebhook rt delivery) g := by
  simp only [Rises, billingWebhook, Prog.bind_eq, climbs_bind]
  refine climbs_ofExcept (fun _ _ => trivial) fun _ => climbs_orRaise trivial fun event _ => ?_
  refine plain_validateWebhook.climbs (fun _ _ => trivial) (within_nil hheld) fun _ g₁ h₁ => ?_
  refine climbs_storeWebhookEvent h₁.within (fun _ _ => trivial) fun stored g₂ => ⟨?_, trivial⟩
  refine climbs_runIf ?_ trivial
  exact rises_enqueue.andThen fun _ _ => trivial

theorem rises_endpoint {request : Request} (hheld : g.held = []) (hfresh : ¬g.attached .memberships)
    (hrank : Climbing rank request.lockSequence) : Rises rank (request.endpoint rt) g := by
  have hcurrent : ∀ {β : Type} (credentials : Option Credentials) (f : User → App β),
      (∀ user (g' : Grip schema), g'.held = [] → g'.known user.id → Rises rank (f user) g') →
      Rises rank ((getCurrentUser rt credentials).bind f) g := by
    intro β credentials f hf
    rw [Rises, climbs_bind]
    exact climbs_getCurrentUser (fun _ _ => trivial) fun user g' hg' huser _ => hf user g' (hg'.trans hheld) huser
  cases request with
  | tenant organizationId credentials call =>
    exact climbs_enter hheld hfresh fun user membership g' hg' huser hmember =>
      rises_operation huser hmember hg' hrank
  | createUsageEvent organizationId rawKey quantity =>
    simp [Request.lockSequence, Climbing] at hrank
    exact rises_createUsageEvent hheld (by omega)
  | createOrganization credentials data =>
    simp [Request.lockSequence, Climbing] at hrank
    exact hcurrent credentials _ fun user g' hg' huser =>
      (rises_createOrganization huser hg' (by simp; omega) (by simp; omega)).map
  | listOrganizations credentials =>
    exact hcurrent credentials _ fun user g' hg' _ =>
      (rises_of_plain ((plain_query _).bind fun _ => plain_attachAll _) hg').map
  | acceptInvitation credentials token =>
    simp [Request.lockSequence, Climbing] at hrank
    exact hcurrent credentials _ fun user g' hg' huser =>
      (rises_acceptInvitation huser hg' (by omega) (by omega)).map
  | billingWebhook delivery => exact rises_billingWebhook hheld
  | register email password => exact (rises_registerUser hheld).andThen fun _ _ => trivial
  | login email password => exact rises_login hheld
  | refresh refreshToken =>
    simp [Request.lockSequence, Climbing] at hrank
    exact (rises_rotateRefreshToken hheld hrank).map
  | logout refreshToken => exact (rises_revokeRefreshToken hheld).andThen fun _ _ => trivial
  | me credentials => exact hcurrent credentials _ fun _ _ _ _ => trivial

/-! ### Processes -/

/-- The program holds nothing at its end, if it held nothing before. -/
def Rests (rank : LockClass → Nat) (p : App α) : Prop := ∀ g, g.held = [] → p.Ascends (lockOrder rank) g

theorem Rests.bind {β : Type} {p : App α} {f : α → App β} (hp : Rests rank p) (hf : ∀ value, Rests rank (f value)) :
    Rests rank (p.bind f) := by
  intro g hheld
  rw [Prog.Ascends, climbs_bind]
  exact climbs_mono (fun value g' hg' => hf value g' hg') (fun _ _ hg' => hg') p g (hp g hheld)

theorem Rests.handle {p : App α} {handler : Exn → App α} (hp : Rests rank p)
    (hhandler : ∀ exc, Rests rank (handler exc)) : Rests rank (p.handle handler) := by
  intro g hheld
  rw [Prog.Ascends, climbs_handle]
  exact climbs_mono (fun _ _ hg' => hg') (fun exc g' hg' => hhandler exc g' hg') p g (hp g hheld)

theorem rests_pure {value : α} : Rests rank (.pure value) := fun _ hheld => hheld

theorem rests_throw {error : Exn} : Rests rank (.throw error : App α) := fun _ hheld => hheld

theorem rests_act {β : Type} {f : Env → β × Env} : Rests rank (Prog.act f) := fun _ hheld _ => hheld

theorem rests_orRaise {result : Option α} {error : Exn} : Rests rank (orRaise result error) := by
  cases result with
  | none => exact rests_throw
  | some value => exact rests_pure

theorem rests_raiseIf {condition : Prop} [Decidable condition] {error : Exn} :
    Rests rank (raiseIf condition error) := by
  rw [raiseIf]
  split
  · exact rests_throw
  · exact rests_pure

theorem rests_ofExcept {result : Except Exn α} : Rests rank (ofExcept result) := by
  cases result with
  | ok value => exact rests_pure
  | error error => exact rests_throw

/-- A transaction that is committed or rolled back. -/
theorem ascends_getSession {body : App α} (h : Rises rank body g) :
    (getSession body).Ascends (lockOrder rank) g := by
  rw [Prog.Ascends, getSession, Prog.tryCatch_eq, climbs_handle, Prog.bind_eq, climbs_bind]
  exact climbs_mono (fun _ _ _ => ⟨rfl, rfl⟩) (fun _ _ _ => rfl) body g h

theorem rests_sessionScope {body : App α} (h : ∀ g, g.held = [] → Rises rank body g) :
    Rests rank (sessionScope body) := by
  intro g hheld
  rw [Prog.Ascends, sessionScope, Prog.tryCatch_eq, climbs_handle, Prog.bind_eq, climbs_bind]
  exact climbs_mono (fun _ _ _ => rfl) (fun _ _ _ => rfl) body g (h g hheld)

theorem rests_required {payload : List (String × Value)} {key : String} : Rests rank (required payload key) := by
  rw [required]
  split
  all_goals first | exact rests_throw | exact rests_pure

theorem rests_handler (hrank : Climbing rank (Party.worker 0 0).lockSequence) {type : String} {handler : JobHandler}
    (h : buildHandlers rt type = some handler) (payload : List (String × Value)) : Rests rank (handler payload) := by
  simp [Party.lockSequence, Climbing] at hrank
  unfold buildHandlers at h
  split at h
  · rw [← Option.some.inj h]
    exact rests_required.bind fun _ => rests_required.bind fun _ => rests_required.bind fun _ => rests_pure
  · split at h
    · rw [← Option.some.inj h]
      refine rests_required.bind fun value => Rests.handle ?_ fun exc => ?_
      · exact rests_sessionScope fun g hheld => (rises_processWebhookEvent hheld (by omega) (by simp; omega)
          (by simp; omega) (by simp; omega)).thenCommit
      · exact (rests_sessionScope fun g hheld => (rises_markWebhookFailed hheld).thenCommit).bind fun _ =>
          rests_throw
    · split at h
      · rw [← Option.some.inj h]
        refine Rests.bind ?_ fun _ => rests_pure
        exact rests_required.bind fun _ => rests_orRaise.bind fun _ => rests_act.bind fun _ =>
          rests_ofExcept.bind fun _ => rests_ofExcept.bind fun _ => rests_raiseIf.bind fun _ =>
            rests_sessionScope fun g hheld => rises_of_plain (plain_query _) hheld
      · cases h

theorem rests_composes : Composes fun α (p : App α) => Rests rank p where
  pure _ := rests_pure
  throw _ := rests_throw
  act _ := rests_act
  bind := Rests.bind
  handle := Rests.handle

theorem rests_runForever (hrank : Climbing rank (Party.worker 0 0).lockSequence) (fuel polls : Nat) :
    Rests rank ((defaultWorker rt).runForever rt fuel polls) := by
  refine composed_runForever (K := fun _ p => Rests rank p) (fun type handler hhandler payload => ?_)
    rests_composes fuel polls
  exact rests_handler hrank hhandler payload

theorem ascends_party {party : Party} (hrank : Climbing rank party.lockSequence) :
    (party.program rt).Ascends (lockOrder rank) .start := by
  cases party with
  | session request =>
    rw [Party.program, Prog.map_eq, Prog.Ascends, climbs_bind]
    exact ascends_getSession (rises_endpoint rfl not_false hrank)
  | worker fuel polls => exact ((rests_runForever hrank fuel polls).bind fun _ => rests_pure) _ rfl

end Climbs

/-! ### Whole runs -/

/-- Where the lock sequences of all parties climb in one ranking, no reachable state is a deadlock, and all can be
run to their ends without an abort. -/
theorem never_deadlocked_of_climbing {rt : Runtime} (rank : LockClass → Nat) {s : Shared schema Env Party}
    {parties : List Party} {w : World schema Env Exn Party (Option Response)} (hdb : s.db.Integral)
    (hids : ∀ t id, s.ids.Holds id → s.db.lookup t id = none)
    (hrank : ∀ party ∈ parties, Climbing rank party.lockSequence)
    (hreach : (startParties rt s parties).Reach w) :
    ¬w.Deadlocked ∧
      ∃ w', World.Run (fun _ m => ∃ i, m = .run i) w w' ∧ ∀ th ∈ w'.threads, th.Finished := by
  obtain ⟨horderly, hok⟩ := World.orderly_of_reach (O := lockOrder rank) hdb
    (fun t row hrow hholds => Store.lookup_eq_none.mp (hids t _ hholds) row hrow rfl)
    (fun party hparty => ascends_party (hrank party hparty)) hreach
  exact ⟨horderly.not_deadlocked hok, horderly.completes hok⟩

/-- The ways in which a request can lock memberships. -/
inductive MemberLocks where
  | none
  | several
  | afterOrganization
  | beforeOrganization
  deriving DecidableEq

def Party.memberLocks : Party → MemberLocks
  | .session (.tenant _ _ .deleteOrganization) | .session (.tenant _ _ (.updateMember _ _))
  | .session (.tenant _ _ (.removeMember _)) => .several
  | .session (.tenant _ _ (.updateOrganization _)) | .session (.tenant _ _ (.createInvitation _)) =>
    .afterOrganization
  | .session (.tenant _ _ (.createApiKey _)) | .session (.tenant _ _ (.revokeApiKey _)) => .beforeOrganization
  | _ => .none

/-- A ranking with memberships below organizations, or above them. -/
def membersRanked (below : Bool) : LockClass → Nat
  | .row .memberships => if below then 0 else 3
  | .row .apiKeys => 1
  | .row .organizations => 2
  | .slug => 4
  | .row .subscriptions => 4
  | .member => 5
  | .subscriber => 6
  | .row _ => 0
  | _ => 7

theorem climbing_membersRanked {party : Party} {below : Bool} (hseveral : party.memberLocks ≠ .several)
    (habove : below = true → party.memberLocks ≠ .afterOrganization)
    (hbelow : below = false → party.memberLocks ≠ .beforeOrganization) :
    Climbing (membersRanked below) party.lockSequence := by
  cases party with
  | worker fuel polls => simp [Party.lockSequence, Climbing, membersRanked]
  | session request =>
    cases request with
    | tenant organizationId credentials call =>
      cases call with
      | deleteOrganization | updateMember | removeMember => exact absurd rfl hseveral
      | updateOrganization | createInvitation =>
        cases below with
        | true => exact absurd rfl (habove rfl)
        | false => simp [Party.lockSequence, Request.lockSequence, TenantCall.lockSequence, Climbing, membersRanked]
      | createApiKey | revokeApiKey =>
        cases below with
        | true => simp [Party.lockSequence, Request.lockSequence, TenantCall.lockSequence, Climbing, membersRanked]
        | false => exact absurd rfl (hbelow rfl)
      | _ => simp [Party.lockSequence, Request.lockSequence, TenantCall.lockSequence, Climbing, membersRanked]
    | _ => simp [Party.lockSequence, Request.lockSequence, Climbing, membersRanked]

/-- Requests and workers that can deadlock over a consistent database. -/
def CanDeadlock (parties : List Party) : Prop :=
  ∃ (rt : Runtime) (s : Shared schema Env Party) (w : World schema Env Exn Party (Option Response)),
    s.db.Integral ∧ (∀ t id, s.ids.Holds id → s.db.lookup t id = none) ∧ (startParties rt s parties).Reach w ∧
      w.Deadlocked

namespace Reference

def ownedOrganization : Tables :=
  { users := [user 1], organizations := [organization 15], memberships := [member 31 1 15 .owner],
    apiKeys := [⟨61, 15, "Key", "tf_live_secret", "tf_live_", 1, none, noon 0, none⟩] }

/-- The second request takes its first locks, the first one runs until it waits, and then so does the
second. -/
def crossing : List Move :=
  List.replicate 8 (Move.run 1) ++ List.replicate 20 (Move.run 0) ++ List.replicate 20 (Move.run 1)

/-- An owner invites somebody and creates a key. -/
def oppositeOrders : List Party :=
  [.session (.tenant 15 (bearer 1) (.createInvitation ⟨"b@example.com", .member⟩)),
    .session (.tenant 15 (bearer 1) (.createApiKey "Key"))]

/-- The second request holds the membership when the first one takes the organization. -/
theorem canDeadlock_oppositeOrders : CanDeadlock oppositeOrders :=
  ⟨runtime, shared Party daily ownedOrganization,
    (startParties runtime (shared Party daily ownedOrganization) oppositeOrders).playAll crossing,
    ValidDb.integral (by decide +kernel), lookup_of_holds (by decide +kernel), World.reach_playAll _ _,
    World.deadlocked_of_waiting (by decide +kernel) (by decide +kernel)⟩

def coOwned : Tables :=
  { users := [user 1, user 2], organizations := [organization 15],
    memberships := [member 31 1 15 .owner, member 32 2 15 .owner] }

/-- Two owners demote each other. -/
def demotions : List Party :=
  [.session (.tenant 15 (bearer 1) (.updateMember 32 .admin)),
    .session (.tenant 15 (bearer 2) (.updateMember 31 .admin))]

/-- Each holds one of the two memberships. -/
theorem canDeadlock_demotions : CanDeadlock demotions :=
  ⟨runtime, shared Party daily coOwned,
    (startParties runtime (shared Party daily coOwned) demotions).playAll crossing,
    ValidDb.integral (by decide +kernel), lookup_of_holds (by decide +kernel), World.reach_playAll _ _,
    World.deadlocked_of_waiting (by decide +kernel) (by decide +kernel)⟩

end Reference

/-- **No deadlock**: any number of requests and workers, in any interleaving, unless some request locks several
memberships, or some lock a membership after an organization and others in the opposite order. From every
reachable state all can be run to their ends without an abort. Neither of the two conditions can be left out. -/
theorem never_deadlocked :
    (∀ (rt : Runtime) (s : Shared schema Env Party) (parties : List Party)
      (w : World schema Env Exn Party (Option Response)), s.db.Integral →
      (∀ t id, s.ids.Holds id → s.db.lookup t id = none) →
      (∀ party ∈ parties, party.memberLocks ≠ .several) →
      ((∀ party ∈ parties, party.memberLocks ≠ .afterOrganization) ∨
        ∀ party ∈ parties, party.memberLocks ≠ .beforeOrganization) →
      (startParties rt s parties).Reach w →
      ¬w.Deadlocked ∧
        ∃ w', World.Run (fun _ m => ∃ i, m = .run i) w w' ∧ ∀ th ∈ w'.threads, th.Finished) ∧
    (∃ parties, (∀ party ∈ parties, party.memberLocks ≠ .several) ∧ CanDeadlock parties) ∧
    ∃ parties, ((∀ party ∈ parties, party.memberLocks ≠ .afterOrganization) ∨
        ∀ party ∈ parties, party.memberLocks ≠ .beforeOrganization) ∧ CanDeadlock parties := by
  refine ⟨?_, ⟨_, by decide, Reference.canDeadlock_oppositeOrders⟩,
    _, Or.inl (by decide), Reference.canDeadlock_demotions⟩
  intro rt s parties w hdb hids hseveral horder hreach
  rcases horder with habove | hbelow
  · exact never_deadlocked_of_climbing (membersRanked true) hdb hids (fun party hparty =>
      climbing_membersRanked (hseveral party hparty) (fun _ => habove party hparty) (fun h => by cases h)) hreach
  · exact never_deadlocked_of_climbing (membersRanked false) hdb hids (fun party hparty =>
      climbing_membersRanked (hseveral party hparty) (fun h => by cases h) fun _ => hbelow party hparty) hreach

namespace Reference

/-- An owner invites somebody and renames the organization, a key reports usage, and a worker polls. -/
def busyMorning : List Party :=
  [.session (.tenant 15 (bearer 1) (.createInvitation ⟨"b@example.com", .member⟩)),
    .session (.tenant 15 (bearer 1) (.updateOrganization ⟨some "Renamed", some "renamed"⟩)),
    .session (.createUsageEvent 15 (some "tf_live_secret") 2), .worker 1 1]

/-- Half of the way. -/
def morning : World schema Env Exn Party (Option Response) :=
  (startParties runtime (shared Party daily ownedOrganization) busyMorning).playAll
    (List.replicate 15 [Move.run 0, .run 1, .run 2, .run 3]).flatten

theorem never_deadlocked_morning :
    ¬morning.Deadlocked ∧
      ∃ w', World.Run (fun _ m => ∃ i, m = .run i) morning w' ∧ ∀ th ∈ w'.threads, th.Finished :=
  never_deadlocked.1 runtime _ busyMorning morning (ValidDb.integral (by decide +kernel))
    (lookup_of_holds (by decide +kernel)) (by decide) (Or.inr (by decide)) (World.reach_playAll _ _)

end Reference

end TenantForge
