import TenantForge.Reference.Webhooks
import TenantForge.Transactions
/-!
# The audit trail of a subscription

Replaying an organization's `subscription.changed` entries from plan FREE and status ACTIVE yields the
stored plan and status, as long as no `change_plan` reactivates a subscription without changing its
plan: such a call sets the status but writes no entry (`SilentReactivation`). `determines_iff` says
that a commit keeps the law exactly when it is no such call.
-/

namespace TenantForge

open Gregorian ReadCommitted

/-! ### Replaying -/

/-- The `subscription.changed` entries of an organization, in the order of their commits. -/
def auditTrail (organizationId : Uuid) (db : Db) : List AuditLog :=
  (ofTenant organizationId .auditLogs db).filter fun (entry : AuditLog) =>
    entry.action = "subscription.changed"

def planDetail (key : String) (entry : AuditLog) : Option Plan :=
  match Value.get? entry.details key with
  | some (.str text) => Plan.ofValue? text
  | _ => none

def statusDetail (key : String) (entry : AuditLog) : Option SubscriptionStatus :=
  match Value.get? entry.details key with
  | some (.str text) => SubscriptionStatus.ofValue? text
  | _ => none

/-- Entries of webhooks record the status as well. -/
def recordsStatus (entry : AuditLog) : Bool := Value.has entry.details "to_status"

/-- A webhook entry sets plan and status, and an entry of `change_plan` sets the plan and the status
ACTIVE. -/
def replayEntry (state : Plan × SubscriptionStatus) (entry : AuditLog) : Plan × SubscriptionStatus :=
  ((planDetail "to_plan" entry).getD state.1,
    if recordsStatus entry then (statusDetail "to_status" entry).getD state.2 else .active)

def replay (entries : List AuditLog) : Plan × SubscriptionStatus :=
  entries.foldl replayEntry (.free, .active)

/-- The entry's `from` values are this state. -/
def StartsFrom (state : Plan × SubscriptionStatus) (entry : AuditLog) : Prop :=
  planDetail "from_plan" entry = some state.1 ∧
    (recordsStatus entry = true → statusDetail "from_status" entry = some state.2)

/-- The stored plan and status; an organization without a subscription would get the defaults. -/
def storedState (subscription : Option Subscription) : Plan × SubscriptionStatus :=
  match subscription with
  | some subscription => (subscription.plan, subscription.status)
  | none => (.free, .active)

/-- The trail determines the subscription, and each entry starts from the replayed values before it. -/
structure Determines (organizationId : Uuid) (db : Db) : Prop where
  replayed : replay (auditTrail organizationId db) = storedState (subscriptionOf organizationId db)
  chained : ∀ earlier entry later, auditTrail organizationId db = earlier ++ entry :: later →
    StartsFrom (replay earlier) entry

/-- A `change_plan` to the plan that a subscription has already, while its status is not ACTIVE. -/
def SilentReactivation (organizationId : Uuid) (c : Commit schema Transaction) : Prop :=
  ∃ plan actorUserId ipAddress at?, c.tag = .changePlan organizationId plan actorUserId ipAddress at? ∧
    ∃ subscription, subscriptionOf organizationId c.before = some subscription ∧
      subscription.plan = plan ∧ subscription.status ≠ .active

/-! ### Entries -/

theorem Plan.ofValue?_value (plan : Plan) : Plan.ofValue? plan.value = some plan := by
  cases plan <;> decide

theorem SubscriptionStatus.ofValue?_value (status : SubscriptionStatus) :
    SubscriptionStatus.ofValue? status.value = some status := by
  cases status <;> decide

section Entries

variable {rt : Runtime} {organizationId : Uuid} {before changed : Subscription} {id : Uuid}
  {createdAt : DateTime} {state : Plan × SubscriptionStatus}

theorem replayEntry_plan {plan : Plan} {actorUserId : Uuid} {ipAddress : Option String} :
    replayEntry state (planEntry rt organizationId plan actorUserId ipAddress before id createdAt) =
      (plan, .active) := by
  simp [replayEntry, planEntry, planDetail, recordsStatus, Value.get?, Value.has, Plan.ofValue?_value]

theorem startsFrom_plan {plan : Plan} {actorUserId : Uuid} {ipAddress : Option String} :
    StartsFrom state (planEntry rt organizationId plan actorUserId ipAddress before id createdAt) ↔
      before.plan = state.1 := by
  simp [StartsFrom, planEntry, planDetail, recordsStatus, Value.get?, Value.has, Plan.ofValue?_value]

theorem replayEntry_webhook {event : WebhookEvent} :
    replayEntry state (webhookEntry rt organizationId event before changed id createdAt) =
      (changed.plan, changed.status) := by
  simp [replayEntry, webhookEntry, webhookDetails, planDetail, statusDetail, recordsStatus, Value.get?,
    Value.has, Plan.ofValue?_value, SubscriptionStatus.ofValue?_value]

theorem startsFrom_webhook {event : WebhookEvent} :
    StartsFrom state (webhookEntry rt organizationId event before changed id createdAt) ↔
      before.plan = state.1 ∧ before.status = state.2 := by
  simp [StartsFrom, webhookEntry, webhookDetails, planDetail, statusDetail, recordsStatus, Value.get?,
    Value.has, Plan.ofValue?_value, SubscriptionStatus.ofValue?_value]

end Entries

/-! ### One commit -/

variable {rt : Runtime} {P : Protocol schema Env Transaction} {σ : Session schema}
  {s : Shared schema Env Transaction} {organizationId other : Uuid} {db db' : Db}

theorem Determines.congr (h : Determines other db)
    (hsub : subscriptionOf other db' = subscriptionOf other db)
    (htrail : auditTrail other db' = auditTrail other db) : Determines other db' := by
  refine ⟨?_, ?_⟩
  · rw [htrail, hsub, h.replayed]
  · rw [htrail]
    exact h.chained

/-- The law is kept by an entry that starts from the stored values and leads to the new ones. -/
theorem Determines.append {entry : AuditLog} (h : Determines organizationId db)
    (htrail : auditTrail organizationId db' = auditTrail organizationId db ++ [entry])
    (hfrom : StartsFrom (storedState (subscriptionOf organizationId db)) entry)
    (hto : replayEntry (storedState (subscriptionOf organizationId db)) entry =
      storedState (subscriptionOf organizationId db')) : Determines organizationId db' := by
  refine ⟨?_, fun earlier entry' later hsplit => ?_⟩
  · rw [← h.replayed, replay] at hto
    rw [htrail, replay, List.foldl_append, List.foldl_cons, List.foldl_nil, hto]
  · rw [htrail] at hsplit
    rcases List.eq_nil_or_concat later with rfl | ⟨rest, last, rfl⟩
    · obtain ⟨hearlier, hentry⟩ := List.append_inj' hsplit rfl
      obtain rfl := (List.cons.inj hentry).1
      rw [← hearlier, h.replayed]
      exact hfrom
    · rw [List.concat_eq_append, ← List.cons_append, ← List.append_assoc] at hsplit
      exact h.chained earlier entry' rest (List.append_inj' hsplit rfl).1

theorem auditTrail_of_clean (hw : σ.writes .auditLogs = []) :
    auditTrail other (σ.view db) = auditTrail other db := by
  rw [auditTrail, ofTenant_view_of_clean hw, auditTrail]

theorem subscriptionOf_of_clean (hw : σ.writes .subscriptions = []) :
    subscriptionOf other (σ.view db) = subscriptionOf other db := by
  rw [subscriptionOf, ofTenant_view_of_clean hw, subscriptionOf]

/-- A new entry extends the trail of its own organization, if it is about the subscription. -/
theorem auditTrail_of_inserted (other : Uuid) {id : Uuid} {entry : AuditLog}
    (hw : σ.writes .auditLogs = [(id, some entry)]) (hvacant : σ.Vacant db .auditLogs id)
    (hid : entry.id = id) :
    auditTrail other (σ.view db) = auditTrail other db ++
      if entry.organizationId = other ∧ entry.action = "subscription.changed" then [entry] else [] := by
  subst hid
  have hview : σ.view db .auditLogs = db .auditLogs ++ [entry] :=
    Session.view_of_insert (S := schema) (t := .auditLogs) hw hvacant.current
  simp only [auditTrail, ofTenant, hview, List.filter_append, List.filter_cons, List.filter_nil, tenantOf,
    Option.some.injEq, decide_eq_true_eq]
  by_cases hof : entry.organizationId = other <;> by_cases haction : entry.action = "subscription.changed" <;>
    simp [hof, haction]

theorem Flushed.plan_status {before changed after : Subscription} (h : Flushed before changed after) :
    after.plan = changed.plan ∧ after.status = changed.status := by
  rcases h with ⟨rfl, rfl⟩ | ⟨_, updatedAt, rfl⟩
  · exact ⟨rfl, rfl⟩
  · exact ⟨rfl, rfl⟩

/-- What a transaction starts from is the stored state. -/
theorem IsOrigin.storedState {at? : Option DateTime} {before : Subscription}
    (h : IsOrigin organizationId at? db before) :
    storedState (subscriptionOf organizationId db) = (before.plan, before.status) := by
  rcases h with hstored | ⟨hnone, current, hdefault, _⟩
  · rw [hstored, TenantForge.storedState]
  · rw [hnone, TenantForge.storedState, hdefault.plan, hdefault.status]

/-- A new organization has no trail yet. -/
theorem OrganizationCreated.determines {tag : Transaction} {actor : User} {organization : Organization}
    {owner : Membership} (h : OrganizationCreated rt P tag actor .empty σ s organization owner)
    (hdb : s.db.Integral) (hσ : σ.Sound s.db) (hinv : Determines other s.db) :
    Determines other (σ.view s.db) := by
  obtain ⟨subscription, current, entry, hdefault, hrecorded, hvacant, hw⟩ := h.written
  have hsub : σ.writes .subscriptions = [(subscription.id, some subscription)] := by
    simp [hw, Overlay.put_table_self]
  have hentry : σ.writes .auditLogs = [(entry.id, some entry)] := by
    simp [hw, Overlay.put_table_self]
  have htrail : auditTrail other (σ.view s.db) = auditTrail other s.db := by
    rw [auditTrail_of_inserted other hentry (hrecorded.vacant rfl) rfl, if_neg (by simp [hrecorded.records.action]), List.append_nil]
  by_cases hother : other = organization.id
  · subst hother
    -- the new subscription is the only one, so there was none before
    have hview : σ.view s.db .subscriptions = s.db .subscriptions ++ [subscription] :=
      Session.view_of_insert (S := schema) (t := .subscriptions) hsub (hvacant rfl).current
    have hnew : subscriptionOf organization.id (σ.view s.db) = some subscription :=
      subscriptionOf_of_mem (hσ.integral hdb) (hview ▸ List.mem_append_right _ List.mem_cons_self)
        (by simp [isSubscriptionOf, hdefault.organizationId])
    have hnone : subscriptionOf organization.id s.db = none := by
      refine subscriptionOf_eq_none fun row hrow => ?_
      simp only [isSubscriptionOf, decide_eq_false_iff_not]
      intro hrowOf
      obtain rfl := eq_of_subscriptionOf (hσ.integral hdb) hnew
        (hview ▸ List.mem_append_left _ hrow) hrowOf
      exact Store.lookup_eq_none.mp (hvacant rfl).current row hrow rfl
    refine ⟨?_, ?_⟩
    · rw [htrail, hinv.replayed, hnone, hnew, storedState, storedState, hdefault.plan, hdefault.status]
    · rw [htrail]
      exact hinv.chained
  · refine hinv.congr ?_ htrail
    rw [subscriptionOf, ofTenant_view_of_inserted hdb hσ hother hsub (hvacant rfl)
      (by simp [tenantOf, hdefault.organizationId]), ← subscriptionOf]

/-- A call that keeps the plan is a silent reactivation unless the status was ACTIVE. -/
theorem IsOrigin.silent_iff {plan : Plan} {actorUserId : Uuid} {ipAddress : Option String}
    {at? : Option DateTime} {before : Subscription} (h : IsOrigin organizationId at? db before) :
    SilentReactivation organizationId
        ⟨.changePlan organizationId plan actorUserId ipAddress at?, σ, db⟩ ↔
      before.plan = plan ∧ before.status ≠ .active := by
  constructor
  · rintro ⟨plan', _, _, _, htag, subscription, hstored, hplan, hstatus⟩
    cases htag
    rcases h with hbefore | ⟨hnone, _⟩
    · obtain rfl := Option.some.inj (hbefore.symm.trans hstored)
      exact ⟨hplan, hstatus⟩
    · cases hnone.symm.trans hstored
  · rintro ⟨hplan, hstatus⟩
    rcases h with hbefore | ⟨_, current, hdefault, _⟩
    · exact ⟨plan, actorUserId, ipAddress, at?, rfl, before, hbefore, hplan, hstatus⟩
    · exact absurd hdefault.status hstatus

/-- **A commit keeps the law unless it is a silent reactivation.** -/
theorem PlanChanged.determines_iff {plan : Plan} {actorUserId : Uuid} {ipAddress : Option String}
    {at? : Option DateTime} {before after : Subscription}
    (h : PlanChanged rt organizationId plan actorUserId ipAddress at? .empty σ db before after)
    (hdb : db.Integral) (hσ : σ.Sound db) (hinv : Determines organizationId db) :
    Determines organizationId (σ.view db) ↔ ¬SilentReactivation organizationId
      ⟨.changePlan organizationId plan actorUserId ipAddress at?, σ, db⟩ := by
  obtain ⟨current, period, _, _, hflushed⟩ := h.flushed
  obtain ⟨hplan, hstatus⟩ := hflushed.plan_status
  have hafter : storedState (subscriptionOf organizationId (σ.view db)) = (plan, .active) := by
    rw [h.sees.subscriptionOf_view hdb hσ, storedState, hplan, hstatus]
  rw [h.origin.silent_iff]
  rcases h.audited with ⟨hsame, hw⟩ | ⟨hdiff, id, createdAt, hw, hvacant⟩
  · -- without an entry the replayed status is the old one
    have htrail : auditTrail organizationId (σ.view db) = auditTrail organizationId db :=
      auditTrail_of_clean hw
    have hreplay : replay (auditTrail organizationId (σ.view db)) = (before.plan, before.status) := by
      rw [htrail, hinv.replayed, h.origin.storedState]
    constructor
    · rintro hview ⟨_, hinactive⟩
      have hstate := hview.replayed
      rw [hreplay, hafter] at hstate
      exact hinactive (Prod.mk.inj hstate).2
    · intro hnot
      have hactive : before.status = .active := by
        by_contra hinactive
        exact hnot ⟨hsame, hinactive⟩
      refine ⟨by rw [hreplay, hafter, hsame, hactive], ?_⟩
      rw [htrail]
      exact hinv.chained
  · rw [Overlay.put_table_of_nil rfl] at hw
    have htrail := auditTrail_of_inserted organizationId hw (hvacant rfl) rfl
    rw [if_pos ⟨rfl, rfl⟩] at htrail
    refine iff_of_true (hinv.append htrail ?_ ?_) fun hsilent => hdiff hsilent.1
    · rw [startsFrom_plan, h.origin.storedState]
    · rw [replayEntry_plan, hafter]

theorem PlanChanged.determines_other {plan : Plan} {actorUserId : Uuid} {ipAddress : Option String}
    {at? : Option DateTime} {before after : Subscription}
    (h : PlanChanged rt organizationId plan actorUserId ipAddress at? .empty σ db before after)
    (hdb : db.Integral) (hσ : σ.Sound db) (hne : other ≠ organizationId) (hinv : Determines other db) :
    Determines other (σ.view db) := by
  refine hinv.congr ?_ ?_
  · rw [subscriptionOf, h.sees.ofTenant_view hdb hσ hne, ← subscriptionOf]
  · rcases h.audited with ⟨_, hw⟩ | ⟨_, id, createdAt, hw, hvacant⟩
    · exact auditTrail_of_clean hw
    · rw [Overlay.put_table_of_nil rfl] at hw
      refine (auditTrail_of_inserted other hw (hvacant rfl) rfl).trans ?_
      rw [if_neg fun hof => hne hof.1.symm, List.append_nil]

theorem WebhookProcessed.determines {webhookEventId : String} {at? : Option DateTime}
    {event : WebhookEvent} {before changed after : Subscription}
    (h : WebhookProcessed rt webhookEventId at? .empty σ db event organizationId before changed after)
    (hdb : db.Integral) (hσ : σ.Sound db) (hinv : Determines other db) :
    Determines other (σ.view db) := by
  obtain ⟨id, createdAt, hw, hvacant⟩ := h.audited
  obtain ⟨hplan, hstatus⟩ := h.flushed.plan_status
  rw [Overlay.put_table_of_nil rfl] at hw
  have htrail := auditTrail_of_inserted other hw (hvacant rfl) rfl
  by_cases hother : other = organizationId
  · subst hother
    rw [if_pos ⟨rfl, rfl⟩] at htrail
    refine hinv.append htrail ?_ ?_
    · rw [startsFrom_webhook, h.origin.storedState]
      exact ⟨rfl, rfl⟩
    · rw [replayEntry_webhook, h.sees.subscriptionOf_view hdb hσ, storedState, hplan, hstatus]
  · refine hinv.congr ?_ (htrail.trans ?_)
    · rw [subscriptionOf, h.sees.ofTenant_view hdb hσ hother, ← subscriptionOf]
    · rw [if_neg fun hof => hother hof.1.symm, List.append_nil]

/-- A commit that touches neither table. -/
theorem Determines.of_clean (hinv : Determines other db) (hsub : σ.writes .subscriptions = [])
    (haudit : σ.writes .auditLogs = []) : Determines other (σ.view db) :=
  hinv.congr (subscriptionOf_of_clean hsub) (auditTrail_of_clean haudit)

theorem Effect.determines_iff {transaction : Transaction} (h : Effect rt P transaction σ s)
    (hkeeps : transaction.deletes = false) (hdb : s.db.Integral) (hσ : σ.Sound s.db)
    (hinv : Determines other s.db) :
    Determines other (σ.view s.db) ↔ ¬SilentReactivation other ⟨transaction, σ, s.db⟩ := by
  -- only `change_plan` can be silent
  have hother : (∀ organizationId plan actorUserId ipAddress at?,
      transaction ≠ .changePlan organizationId plan actorUserId ipAddress at?) →
      Determines other (σ.view s.db) →
      (Determines other (σ.view s.db) ↔ ¬SilentReactivation other ⟨transaction, σ, s.db⟩) :=
    fun hne hview => iff_of_true hview fun ⟨_, _, _, _, htag, _⟩ => hne _ _ _ _ _ htag
  cases h with
  | created h => exact hother (by simp) (h.determines hdb hσ hinv)
  | deleted h => cases hkeeps
  | @planChanged organizationId _ _ _ _ _ _ _ _ h =>
    by_cases hof : other = organizationId
    · subst hof
      exact h.determines_iff hdb hσ hinv
    · refine iff_of_true (h.determines_other hdb hσ hof hinv) ?_
      rintro ⟨_, _, _, _, htag, _⟩
      cases htag
      exact hof rfl
  | recorded h => exact hother (by simp) (hinv.of_clean (h.others (by decide)) (h.others (by decide)))
  | processed h => exact hother (by simp) (h.determines hdb hσ hinv)
  | stored h =>
    refine hother (by simp) (hinv.of_clean ?_ ?_) <;>
      rw [h.writes, Overlay.put_table_ne _ (by decide)] <;> rfl
  | marked h =>
    refine hother (by simp) (hinv.of_clean ?_ ?_) <;>
      rw [h.writes, Overlay.put_table_ne _ (by decide)] <;> rfl
  | idle hwebhook hw =>
    refine hother (fun _ _ _ _ _ heq => ?_) (hinv.of_clean (by rw [hw]; rfl) (by rw [hw]; rfl))
    rw [heq] at hwebhook
    cases hwebhook

/-! ### Runs -/

/-- The commits so far kept the law exactly if none of them was a silent reactivation. -/
structure Trailed (s : Shared schema Env Transaction) : Prop where
  last : ∀ organizationId, (∀ c ∈ s.log, Determines organizationId c.after) →
    Determines organizationId s.db
  exact : ∀ organizationId, (∀ c ∈ s.log, Determines organizationId c.after) ↔
    ∀ c ∈ s.log, ¬SilentReactivation organizationId c

theorem trailed_ambient : Ambient Trailed :=
  ⟨fun _ _ h _ => ⟨h.last, h.exact⟩, fun _ h => ⟨h.last, h.exact⟩⟩

theorem Effect.trailed {transaction : Transaction} (h : Effect rt P transaction σ s)
    (hkeeps : transaction.deletes = false) (hdb : s.db.Integral) (hσ : σ.Sound s.db)
    (hinv : Trailed s) : Trailed (s.commit transaction σ) := by
  refine ⟨fun organizationId hall => hall _ List.mem_cons_self, fun organizationId => ?_⟩
  rw [Shared.commit_log, List.forall_mem_cons, List.forall_mem_cons, ← hinv.exact organizationId]
  refine and_congr_left fun hall => ?_
  exact h.determines_iff hkeeps hdb hσ (hinv.last organizationId hall)

/-- **The audit trail determines the subscription** in every state that a run reaches, exactly as long
as nobody reactivates the subscription silently. -/
theorem determines_of_reach (rt : Runtime) {s : Shared schema Env Transaction}
    {transactions : List Transaction} {w : World schema Env Exn Transaction Unit}
    (organizationId : Uuid) (hlog : s.log = []) (hdb : s.db.Integral)
    (hinit : ∀ organizationId, Determines organizationId s.db)
    (hkeeps : ∀ transaction ∈ transactions, transaction.deletes = false)
    (hreach : (startTransactions rt s transactions).Reach w) :
    ((∀ c ∈ w.shared.log, Determines organizationId c.after) ↔
      ∀ c ∈ w.shared.log, ¬SilentReactivation organizationId c) ∧
    ((∀ c ∈ w.shared.log, ¬SilentReactivation organizationId c) →
      Determines organizationId w.shared.db) := by
  have hinv : Trailed s := by
    refine ⟨fun organizationId _ => hinit organizationId, fun organizationId => ?_⟩
    simp [hlog]
  obtain ⟨htrailed, _⟩ := invariant_of_reach rt trailed_ambient
    (fun transaction hmem _ _ hdb hσ hinv heffect =>
      heffect.trailed (hkeeps transaction hmem) hdb hσ hinv) hinv hdb hreach
  refine ⟨htrailed.exact organizationId, fun hsilent => ?_⟩
  exact htrailed.last organizationId ((htrailed.exact organizationId).mpr hsilent)

namespace Reference

/-- A database with one user. -/
def newcomer : Tables where
  users := [user 1]

/-- A new organization, which gets the id 1000, and a cancellation of its subscription. Its event gets
the id 1004. -/
def cancellation : List Transaction :=
  [.createOrganization (user 1) ⟨"Organization", "organization"⟩,
    .storeWebhookEvent (subscriptionCancelled "evt-1" 1000), .processWebhookEvent (uuidText 1004) none]

/-- All transactions of a list, one after another. -/
def inTurn (transactions : List Transaction) : World schema Env Exn Transaction Unit :=
  (startTransactions runtime (shared Transaction (fun _ => noon 1) newcomer) transactions).playAll
    ((List.range transactions.length).flatMap fun i => List.replicate 40 (.run i))

theorem determines_newcomer (organizationId : Uuid) : Determines organizationId newcomer.db := by
  refine ⟨rfl, fun earlier entry later hsplit => ?_⟩
  have hnil : [] = earlier ++ entry :: later := hsplit
  simp at hnil

/-- The organization goes on with another plan. -/
def upgrade : List Transaction := cancellation ++ [.changePlan 1000 .pro 1 none none]

theorem determines_of_upgrade :
    ((∀ c ∈ (inTurn upgrade).shared.log, Determines 1000 c.after) ↔
      ∀ c ∈ (inTurn upgrade).shared.log, ¬SilentReactivation 1000 c) ∧
    ((∀ c ∈ (inTurn upgrade).shared.log, ¬SilentReactivation 1000 c) →
      Determines 1000 (inTurn upgrade).shared.db) :=
  determines_of_reach runtime 1000 rfl (ValidDb.integral (by decide +kernel)) determines_newcomer
    (by simp [upgrade, cancellation, Transaction.deletes]) (World.reach_playAll _ _)

/-- The organization goes on with the plan it has. -/
def reactivation : List Transaction := cancellation ++ [.changePlan 1000 .free 1 none none]

theorem reactivation_undetermined :
    (startTransactions runtime (shared Transaction (fun _ => noon 1) newcomer) reactivation).Reach
        (inTurn reactivation) ∧
      storedState (subscriptionOf 1000 (inTurn reactivation).shared.db) = (.free, .active) ∧
      replay (auditTrail 1000 (inTurn reactivation).shared.db) = (.free, .canceled) ∧
      ¬Determines 1000 (inTurn reactivation).shared.db := by
  have hstored : storedState (subscriptionOf 1000 (inTurn reactivation).shared.db) = (.free, .active) := by
    decide +kernel
  have hreplay : replay (auditTrail 1000 (inTurn reactivation).shared.db) = (.free, .canceled) := by
    decide +kernel
  refine ⟨World.reach_playAll _ _, hstored, hreplay, fun h => ?_⟩
  have hsame := h.replayed
  rw [hstored, hreplay] at hsame
  exact absurd hsame (by decide)

end Reference

end TenantForge
