import TenantForge.Reference.Webhooks
import TenantForge.Transactions
/-!
# Well-formed subscriptions

Every existing organization has exactly one subscription, and its period begins before it ends, in every
state that organizations, plan changes and webhooks of any contents can lead to. The period is set from
five sources; each of them is ordered on its own (`calendarPeriod_lt`, `subscriptionPeriod_lt`,
`applyEvent_lt`), and a failed attempt is rolled back as a whole.
-/

namespace TenantForge

open Gregorian ReadCommitted

/-! ### Ordered periods -/

theorem calendarPeriod_lt {t : DateTime} {period : DateTime × DateTime}
    (h : calendarPeriod t = some period) : period.1 < period.2 := by
  obtain ⟨stop, hstop, rfl⟩ := Option.map_eq_some_iff.mp h
  exact (DateTime.addMonth_spec hstop).1

theorem rollPeriod_lt {current start stop : DateTime} {period : DateTime × DateTime}
    (hlt : start < stop) (h : rollPeriod current start stop = some period) : period.1 < period.2 := by
  induction hn : stop.monthsLeft using Nat.strong_induction_on generalizing start stop with
  | _ n ih =>
    rw [rollPeriod_eq] at h
    split at h
    · obtain ⟨next, hnext, hroll⟩ := Option.bind_eq_some_iff.mp h
      obtain ⟨hnextLt, hleft⟩ := DateTime.addMonth_spec hnext
      exact ih next.monthsLeft (by omega) hnextLt hroll rfl
    · obtain rfl := Option.some.inj h
      exact hlt

/-- Whatever the subscription, the period that is used is ordered. -/
theorem subscriptionPeriod_lt {subscription : Option Subscription} {t : DateTime}
    {period : DateTime × DateTime} (h : subscriptionPeriod subscription t = some period) :
    period.1 < period.2 := by
  cases subscription with
  | none => exact calendarPeriod_lt h
  | some subscription =>
    simp only [subscriptionPeriod] at h
    split at h
    · exact calendarPeriod_lt h
    · rename_i hordered
      split at h
      · obtain rfl := Option.some.inj h
        exact not_le.mp hordered
      · exact rollPeriod_lt (not_le.mp hordered) h

/-- The period of the subscription begins before it ends. -/
def Subscription.Ordered (subscription : Subscription) : Prop :=
  subscription.currentPeriodStart < subscription.currentPeriodEnd

theorem IsDefaultSubscription.ordered {organizationId : Uuid} {current : DateTime}
    {subscription : Subscription} (h : IsDefaultSubscription organizationId current subscription) :
    subscription.Ordered := by
  rw [Subscription.Ordered]
  simpa only using calendarPeriod_lt h.period

theorem Flushed.ordered {before changed after : Subscription} (h : Flushed before changed after)
    (hchanged : changed.Ordered) : after.Ordered := by
  rcases h with ⟨rfl, rfl⟩ | ⟨_, updatedAt, rfl⟩
  · exact hchanged
  · exact hchanged

theorem applyEvent_ordered {rt : Runtime} {eventType : String} {object : List (String × Value)}
    {start stop : DateTime} {before changed : Subscription}
    (h : applyEvent rt eventType object start stop before = .ok changed) (hbefore : before.Ordered) :
    changed.Ordered := by
  unfold applyEvent at h
  split at h
  · unfold applyObject at h
    simp only [bind, Except.bind] at h
    split at h
    · split at h
      · split at h
        · cases h
        · split at h
          · cases h
          · split at h
            · cases h
            · split at h
              · cases h
              · split at h
                · cases h
                · rename_i hordered
                  cases h
                  exact not_le.mp hordered
      · cases h
    · cases h
  · split at h
    · cases h; exact hbefore
    · split at h <;> cases h <;> exact hbefore

/-! ### The invariant -/

structure WellSubscribed (db : Db) : Prop where
  subscribed : ∀ organization : Organization, organization ∈ db .organizations →
    ∃ subscription : Subscription, subscription ∈ db .subscriptions ∧
      subscription.organizationId = organization.id
  ordered : ∀ subscription : Subscription, subscription ∈ db .subscriptions → subscription.Ordered

variable {rt : Runtime} {P : Protocol schema Env Transaction} {σ : Session schema}
  {s : Shared schema Env Transaction} {organizationId : Uuid}

theorem wellSubscribed_ambient : Ambient fun s => WellSubscribed s.db :=
  ⟨fun _ _ h _ => h, fun _ h => h⟩

/-- What a transaction found as its organization's subscription is ordered. -/
theorem IsOrigin.ordered {at? : Option DateTime} {db : Db} {before : Subscription}
    (h : IsOrigin organizationId at? db before) (hdb : WellSubscribed db) : before.Ordered := by
  rcases h with hstored | ⟨_, current, hdefault, _⟩
  · exact hdb.ordered _ (mem_of_subscriptionOf hstored).1
  · exact hdefault.ordered

/-- The commit of an ordered subscription. -/
theorem SeesSubscription.wellSubscribed {db : Db} {subscription : Subscription}
    (h : SeesSubscription organizationId σ db subscription) (hdb : db.Integral)
    (horg : σ.writes .organizations = []) (hordered : subscription.Ordered) (hinv : WellSubscribed db) :
    WellSubscribed (σ.view db) := by
  refine ⟨fun organization hmem => ?_, fun row hrow => ?_⟩
  · rw [Session.view_of_nil horg] at hmem
    obtain ⟨stored, hstored, hof⟩ := hinv.subscribed organization hmem
    by_cases hid : organization.id = organizationId
    · exact ⟨subscription, (h.mem_view hdb).mpr (Or.inr rfl), h.of.trans hid.symm⟩
    · exact ⟨stored, (h.mem_view hdb).mpr (Or.inl ⟨hstored, fun hsame => hid (hof.symm.trans hsame)⟩), hof⟩
  · rcases (h.mem_view hdb).mp hrow with ⟨hrow, _⟩ | rfl
    · exact hinv.ordered row hrow
    · exact hordered

theorem OrganizationCreated.wellSubscribed {T : Type} {P : Protocol schema Env T} {tag : T}
    {actor : User} {s : Shared schema Env T} {organization : Organization} {owner : Membership}
    (h : OrganizationCreated rt P tag actor .empty σ s organization owner) (hinv : WellSubscribed s.db) :
    WellSubscribed (σ.view s.db) := by
  obtain ⟨subscription, current, entry, hdefault, _, hvacant, hw⟩ := h.written
  have horg : σ.writes .organizations = [(organization.id, some organization)] := by
    simp [hw, Overlay.put_table_self]
  have hsub : σ.writes .subscriptions = [(subscription.id, some subscription)] := by
    simp [hw, Overlay.put_table_self]
  have hview : σ.view s.db .subscriptions = s.db .subscriptions ++ [subscription] :=
    Session.view_of_insert (S := schema) (t := .subscriptions) hsub (hvacant rfl).current
  refine ⟨fun row hrow => ?_, fun row hrow => ?_⟩
  · rcases (Overlay.mem_apply_single horg).mp hrow with ⟨hrow, _⟩ | hrow
    · obtain ⟨stored, hstored, hof⟩ := hinv.subscribed row hrow
      exact ⟨stored, hview ▸ List.mem_append_left _ hstored, hof⟩
    · cases hrow
      exact ⟨subscription, hview ▸ List.mem_append_right _ List.mem_cons_self, hdefault.organizationId⟩
  · rw [hview] at hrow
    rcases List.mem_append.mp hrow with hrow | hrow
    · exact hinv.ordered row hrow
    · obtain rfl := List.mem_singleton.mp hrow
      exact hdefault.ordered

/-- A deleted organization takes its own subscription with it, and no other one. -/
theorem OrganizationDeleted.wellSubscribed {actorId : Uuid} {db : Db}
    (h : OrganizationDeleted organizationId actorId .empty σ db) (hdb : db.Integral) (hσ : σ.Sound db)
    (hinv : WellSubscribed db) : WellSubscribed (σ.view db) := by
  have hgone : ∀ id version, σ.writes.find .subscriptions id = some version → version = none ∧
      ∃ row : Subscription, row.id = id ∧ row.organizationId = organizationId ∧ row ∈ db .subscriptions := by
    intro id version hfind
    obtain ⟨hversion, row, hid, hof, hmem⟩ := h.gone rfl (by decide) (by decide) hfind
    exact ⟨hversion, row, hid, Option.some.inj hof, hmem⟩
  refine ⟨fun organization hmem => ?_, fun row hrow => ?_⟩
  · rcases (Overlay.mem_apply_single (h.writes_organizations rfl)).mp hmem with ⟨hmem, hne⟩ | hmem
    · obtain ⟨stored, hstored, hof⟩ := hinv.subscribed organization hmem
      refine ⟨stored, hσ.mem_view.mpr (Or.inl ⟨hstored, ?_⟩), hof⟩
      cases hfind : σ.writes.find .subscriptions (schema.id (t := .subscriptions) stored) with
      | none => rfl
      | some version =>
        obtain ⟨_, row, hid, hrow, hmem⟩ := hgone _ _ hfind
        obtain rfl := hdb.eq_of_id (t := .subscriptions) hmem hstored hid
        exact absurd (hof.symm.trans hrow) hne
    · cases hmem
  · rcases hσ.mem_view.mp hrow with ⟨hrow, _⟩ | hfind
    · exact hinv.ordered row hrow
    · cases (hgone _ _ hfind).1

/-- A commit that touches neither table. -/
theorem WellSubscribed.of_clean {db : Db} (hinv : WellSubscribed db) (horg : σ.writes .organizations = [])
    (hsub : σ.writes .subscriptions = []) : WellSubscribed (σ.view db) := by
  refine ⟨?_, ?_⟩
  · rw [Session.view_of_nil horg, Session.view_of_nil hsub]
    exact hinv.subscribed
  · rw [Session.view_of_nil hsub]
    exact hinv.ordered

theorem Effect.wellSubscribed {transaction : Transaction} (h : Effect rt P transaction σ s)
    (hdb : s.db.Integral) (hσ : σ.Sound s.db) (hinv : WellSubscribed s.db) :
    WellSubscribed (σ.view s.db) := by
  cases h with
  | created h => exact h.wellSubscribed hinv
  | deleted h => exact h.wellSubscribed hdb hσ hinv
  | planChanged h =>
    obtain ⟨current, period, _, hperiod, hflushed⟩ := h.flushed
    exact h.sees.wellSubscribed hdb (h.writes _ (by decide) (by decide))
      (hflushed.ordered (subscriptionPeriod_lt hperiod)) hinv
  | recorded h => exact hinv.of_clean (h.others (by decide)) (h.others (by decide))
  | processed h =>
    obtain ⟨_, _, _, _, _, _, _, _, _, happlied⟩ := h.applied
    exact h.sees.wellSubscribed hdb (h.writes _ (by decide) (by decide) (by decide))
      (h.flushed.ordered (applyEvent_ordered happlied (h.origin.ordered hinv))) hinv
  | stored h =>
    refine hinv.of_clean ?_ ?_ <;> rw [h.writes, Overlay.put_table_ne _ (by decide)] <;> rfl
  | marked h =>
    refine hinv.of_clean ?_ ?_ <;> rw [h.writes, Overlay.put_table_ne _ (by decide)] <;> rfl
  | idle _ hw => exact hinv.of_clean (by rw [hw]; rfl) (by rw [hw]; rfl)

/-! ### Reading -/

/-- An organization with a subscription is served by `get_subscription`. -/
theorem run_getSubscription {tag : Transaction} {subscription : Subscription}
    (h : subscriptionOf organizationId s.db = some subscription) :
    ((getSubscription organizationId).run tag .empty s).1 = .ok subscription := by
  have hrows : Prog.matching (S := schema) .subscriptions (isSubscriptionOf organizationId) s.db =
      ofTenant organizationId .subscriptions s.db := by
    refine List.filter_congr fun row _ => ?_
    simp [isSubscriptionOf, tenantOf]
  rw [subscriptionOf, ← hrows] at h
  cases hfound : Prog.matching (S := schema) .subscriptions (isSubscriptionOf organizationId) s.db with
  | nil => rw [hfound] at h; cases h
  | cons row rows =>
    rw [hfound] at h
    obtain rfl := Option.some.inj h
    rw [getSubscription, Prog.bind_eq, Prog.run_bind, Prog.scalar, Prog.run_bind, Prog.query]
    simp only [Prog.run, Session.view_empty, hfound, Prog.first]
    rfl

/-- The organization has exactly one subscription, whose period is not degenerate, and
`get_subscription` returns it. -/
def Subscribed (s : Shared schema Env Transaction) (organization : Organization) : Prop :=
  ∃ subscription : Subscription, (∀ row : Subscription, row ∈ s.db .subscriptions ∧
      row.organizationId = organization.id ↔ row = subscription) ∧
    subscription.currentPeriodStart < subscription.currentPeriodEnd ∧
    ∀ tag, ((getSubscription organization.id).run tag .empty s).1 = .ok subscription

/-- **Subscriptions are well formed**: every existing organization is subscribed, in every state that
any interleaving of these transactions reaches. -/
theorem subscribed_of_reach (rt : Runtime) {s : Shared schema Env Transaction}
    {transactions : List Transaction} {w : World schema Env Exn Transaction Unit}
    (hdb : s.db.Integral) (hinit : WellSubscribed s.db)
    (hreach : (startTransactions rt s transactions).Reach w) (organization : Organization)
    (horg : organization ∈ w.shared.db .organizations) : Subscribed w.shared organization := by
  obtain ⟨hinv, hintegral⟩ := invariant_of_reach rt wellSubscribed_ambient
    (fun _ _ _ _ hdb hσ hinv heffect => heffect.wellSubscribed hdb hσ hinv) hinit hdb hreach
  obtain ⟨subscription, hmem, hof⟩ := hinv.subscribed organization horg
  have hfound : subscriptionOf organization.id w.shared.db = some subscription :=
    subscriptionOf_of_mem hintegral hmem (by simp [isSubscriptionOf, hof])
  refine ⟨subscription, fun row => ⟨?_, ?_⟩, hinv.ordered subscription hmem,
    fun tag => run_getSubscription hfound⟩
  · rintro ⟨hrow, hrowOf⟩
    exact eq_of_subscriptionOf hintegral hfound hrow hrowOf
  · rintro rfl
    exact ⟨hmem, hof⟩

namespace Reference

/-- Two organizations, and an event about one of them. -/
def twoSubscribers : Tables where
  users := [user 1]
  organizations := [organization 5, organization 6]
  memberships := [member 11 1 5 .owner, member 12 1 6 .owner]
  subscriptions := [subscription 15 5 .free 0 4, subscription 16 6 .free 0 4]
  webhookEvents := [pendingEvent 21
    (subscriptionUpdated "evt-1" 5 "pro" "active" (some (noon 8, noon 20)))]

def subscriberChanges : List Transaction :=
  [.processWebhookEvent (uuidText 21) none, .deleteOrganization 6 1,
    .createOrganization (user 1) ⟨"Organization", "organization-7"⟩, .changePlan 5 .business 1 none none]

/-- The event is processed while the other organization is deleted. -/
def changeTogether : World schema Env Exn Transaction Unit :=
  (startTransactions runtime (shared Transaction (fun _ => noon 1) twoSubscribers)
    subscriberChanges).playAll (List.replicate 10 (Move.run 0) ++ List.replicate 60 (Move.run 1) ++
      List.replicate 40 (Move.run 0) ++ List.replicate 40 (Move.run 2) ++ List.replicate 40 (Move.run 3))

theorem wellSubscribed_twoSubscribers : WellSubscribed twoSubscribers.db := by
  refine ⟨fun row hrow => ?_, fun row hrow => ?_⟩
  · rcases List.mem_cons.mp hrow with rfl | hrow
    · exact ⟨subscription 15 5 .free 0 4, List.mem_cons_self, rfl⟩
    · obtain rfl := List.mem_singleton.mp hrow
      exact ⟨subscription 16 6 .free 0 4, List.mem_cons_of_mem _ List.mem_cons_self, rfl⟩
  · have hordered : ∀ id organizationId plan, (subscription id organizationId plan 0 4).Ordered :=
      fun _ _ _ => noon_lt (by decide)
    rcases List.mem_cons.mp hrow with rfl | hrow
    · exact hordered _ _ _
    · obtain rfl := List.mem_singleton.mp hrow
      exact hordered _ _ _

theorem subscribed_of_changes : (changeTogether.shared.db .organizations).length = 2 ∧
    ∀ organization : Organization, organization ∈ changeTogether.shared.db .organizations →
      Subscribed changeTogether.shared organization :=
  ⟨by decide +kernel, subscribed_of_reach runtime (ValidDb.integral (by decide +kernel))
    wellSubscribed_twoSubscribers (World.reach_playAll _ _)⟩

example : changeTogether.shared.log.length = 4 := by decide +kernel

end Reference

end TenantForge
