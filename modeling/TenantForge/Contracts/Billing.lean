import TenantForge.Contracts.Organizations
import TenantForge.Contracts.Usage
/-!
# Contracts of the subscription operations

While a transaction holds the organization's row it may replace the organization's subscription, and
nobody else does. `SeesSubscription` says which version the transaction sees; its commit makes that
version the organization's only subscription (`SeesSubscription.mem_view`).
-/

namespace TenantForge

open Gregorian ReadCommitted

variable {T : Type} {P : Protocol schema Env T} {tag : T} {R : Exn → Assertion schema Env T}
  {σ : Session schema} {s s' : Shared schema Env T} {organizationId : Uuid}

/-! ### The subscription that a transaction sees -/

/-- The pending version of a subscription, if there is one, is `subscription`. -/
abbrev Pending (σ : Session schema) (subscription : Subscription) : Prop :=
  σ.writes .subscriptions = [(subscription.id, some subscription)]

structure SeesSubscription (organizationId : Uuid) (σ : Session schema) (db : Db)
    (subscription : Subscription) : Prop where
  held : HoldsOrganization organizationId σ.locks
  of : subscription.organizationId = organizationId
  seen : (subscriptionOf organizationId db = some subscription ∧ σ.writes .subscriptions = []) ∨
    (∃ stored, subscriptionOf organizationId db = some stored ∧ stored.id = subscription.id ∧
      Pending σ subscription) ∨
    (subscriptionOf organizationId db = none ∧ σ.Vacant db .subscriptions subscription.id ∧
      Pending σ subscription)

theorem mem_of_subscriptionOf {db : Db} {subscription : Subscription}
    (h : subscriptionOf organizationId db = some subscription) :
    subscription ∈ db .subscriptions ∧ subscription.organizationId = organizationId := by
  obtain ⟨hmem, hof⟩ := List.mem_filter.mp (List.mem_of_mem_head? h)
  exact ⟨hmem, by simpa [tenantOf] using hof⟩

theorem organizationId_ne_of_subscriptionOf {db : Db} (h : subscriptionOf organizationId db = none)
    {row : Subscription} (hrow : row ∈ db .subscriptions) : row.organizationId ≠ organizationId := by
  intro hof
  rw [subscriptionOf, List.head?_eq_none_iff] at h
  have hmem : row ∈ ofTenant organizationId .subscriptions db :=
    List.mem_filter.mpr ⟨hrow, by simp [tenantOf, hof]⟩
  rw [h] at hmem
  cases hmem

/-- The rows of an organization are the one that is found. -/
theorem eq_of_subscriptionOf {db : Db} (hdb : db.Integral) {subscription row : Subscription}
    (h : subscriptionOf organizationId db = some subscription) (hrow : row ∈ db .subscriptions)
    (hof : row.organizationId = organizationId) : row = subscription :=
  Option.some.inj ((subscriptionOf_of_mem hdb hrow (by simp [isSubscriptionOf, hof])).symm.trans h)

/-- **What the commit makes of the table**: the version that is seen is the only one of its
organization, and the other organizations keep theirs. -/
theorem SeesSubscription.mem_view {db : Db} {subscription : Subscription} (hdb : db.Integral)
    (h : SeesSubscription organizationId σ db subscription) {row : Subscription} :
    row ∈ σ.view db .subscriptions ↔
      (row ∈ db .subscriptions ∧ row.organizationId ≠ organizationId) ∨ row = subscription := by
  rcases h.seen with ⟨hstored, hclean⟩ | ⟨stored, hstored, hid, hw⟩ | ⟨hnone, hvacant, hw⟩
  · rw [Session.view_of_nil hclean]
    obtain ⟨hmem, hof⟩ := mem_of_subscriptionOf hstored
    constructor
    · intro hrow
      by_cases hne : row.organizationId = organizationId
      · exact Or.inr (eq_of_subscriptionOf hdb hstored hrow hne)
      · exact Or.inl ⟨hrow, hne⟩
    · rintro (⟨hrow, _⟩ | rfl)
      · exact hrow
      · exact hmem
  · obtain ⟨hmem, hof⟩ := mem_of_subscriptionOf hstored
    have hview : row ∈ σ.view db .subscriptions ↔ (row ∈ db .subscriptions ∧ row.id ≠ subscription.id) ∨
        some subscription = some row := Overlay.mem_apply_single hw
    rw [hview, Option.some.injEq, eq_comm (a := subscription)]
    refine or_congr_left (and_congr_right fun hrow => ?_)
    rw [← hid, not_iff_not]
    constructor
    · intro hsame
      rw [hdb.eq_of_id (t := .subscriptions) hrow hmem hsame, hof]
    · intro hsame
      rw [eq_of_subscriptionOf hdb hstored hrow hsame]
  · have hview : row ∈ σ.view db .subscriptions ↔ (row ∈ db .subscriptions ∧ row.id ≠ subscription.id) ∨
        some subscription = some row := Overlay.mem_apply_single hw
    rw [hview, Option.some.injEq, eq_comm (a := subscription)]
    refine or_congr_left (and_congr_right fun hrow => ?_)
    exact iff_of_true (Store.lookup_eq_none.mp hvacant.current row hrow)
      (organizationId_ne_of_subscriptionOf hnone hrow)

theorem SeesSubscription.later (hP : Guards P .subscriptions) {subscription : Subscription}
    (h : SeesSubscription organizationId σ s.db subscription) (hs : Later P tag σ.locks s s') :
    SeesSubscription organizationId σ s'.db subscription := by
  have hsame : subscriptionOf organizationId s'.db = subscriptionOf organizationId s.db := by
    rw [subscriptionOf, hs.guarded hP h.held, subscriptionOf]
  refine ⟨h.held, h.of, ?_⟩
  rw [hsame]
  refine h.seen.imp_right fun hpending => hpending.imp_right fun hnew => ?_
  obtain ⟨hnone, hvacant, hw⟩ := hnew
  exact ⟨hnone, hvacant.frozen hs.frozen, hw⟩

theorem SeesSubscription.extend {σ' : Session schema} {db : Db} {subscription : Subscription}
    (h : SeesSubscription organizationId σ db subscription) (hl : σ.locks ⊆ σ'.locks)
    (hw : σ'.writes .subscriptions = σ.writes .subscriptions) :
    SeesSubscription organizationId σ' db subscription := by
  refine ⟨h.held.mono hl, h.of, ?_⟩
  simp only [Pending, hw]
  exact h.seen.imp_right fun hpending => hpending.imp_right fun ⟨hnone, hvacant, hw⟩ =>
    ⟨hnone, hvacant.mono hl, hw⟩

/-- After the commit it is the organization's subscription. -/
theorem SeesSubscription.subscriptionOf_view {subscription : Subscription} {db : Db} (hdb : db.Integral)
    (hσ : σ.Sound db) (h : SeesSubscription organizationId σ db subscription) :
    subscriptionOf organizationId (σ.view db) = some subscription :=
  subscriptionOf_of_mem (hσ.integral hdb) ((h.mem_view hdb).mpr (Or.inr rfl))
    (by simp [isSubscriptionOf, h.of])

/-- The rows of another organization stay as they are. -/
theorem SeesSubscription.ofTenant_view {subscription : Subscription} {db : Db} {other : Uuid}
    (hdb : db.Integral) (hσ : σ.Sound db) (h : SeesSubscription organizationId σ db subscription)
    (hne : other ≠ organizationId) :
    ofTenant other .subscriptions (σ.view db) = ofTenant other .subscriptions db := by
  refine Session.Sound.filter_view (S := schema) (t := .subscriptions) hσ hdb fun id version hfind => ?_
  have hother : ∀ row : Subscription, row.organizationId = organizationId →
      decide (tenantOf (t := .subscriptions) row = some other) = false := fun row hof => by
    simp [tenantOf, hof, Ne.symm hne]
  have hpending : Pending σ subscription → version = some subscription ∧ id = subscription.id := by
    intro hw
    have hmem := Overlay.mem_of_find hfind
    rw [hw, List.mem_singleton, Prod.mk.injEq] at hmem
    exact ⟨hmem.2, hmem.1⟩
  rcases h.seen with ⟨_, hclean⟩ | ⟨stored, hstored, hid, hw⟩ | ⟨_, hvacant, hw⟩
  · have hmem := Overlay.mem_of_find hfind
    rw [hclean] at hmem
    cases hmem
  · obtain ⟨rfl, rfl⟩ := hpending hw
    obtain ⟨hmem, hof⟩ := mem_of_subscriptionOf hstored
    refine ⟨fun row hrow => hother row (by cases hrow; exact h.of), fun old hold => hother old ?_⟩
    rw [hdb.eq_of_id (t := .subscriptions) (Store.lookup_mem hold) hmem
      ((Store.lookup_id hold).trans hid.symm), hof]
  · obtain ⟨rfl, rfl⟩ := hpending hw
    refine ⟨fun row hrow => hother row (by cases hrow; exact h.of), fun old hold => ?_⟩
    rw [hvacant.current] at hold
    cases hold

/-! ### Flushing -/

/-- The object after its flush: without a net change it is not sent. -/
def Flushed (before changed after : Subscription) : Prop :=
  (changed = before ∧ after = before) ∨
    (changed ≠ before ∧ ∃ updatedAt, after = { changed with updatedAt })

theorem Subscription.merge_self (before changed : Subscription) (updatedAt : DateTime)
    (hid : changed.id = before.id) (hof : changed.organizationId = before.organizationId)
    (hcreated : changed.createdAt = before.createdAt) :
    before.merge changed before updatedAt = { changed with updatedAt } := by
  have hassign : ∀ {α : Type} [DecidableEq α] (loaded new : α), assign loaded new loaded = new := by
    intro α _ loaded new
    unfold assign
    split
    · exact Eq.symm ‹_›
    · rfl
  unfold Subscription.merge
  simp only [hassign, hid, hof, hcreated]

theorem wp_flushSubscription (hP : Guards P .subscriptions) {before changed : Subscription}
    {Q : Unit → Assertion schema Env T} (hD : P.Tolerates Env.Drawn) (hR : Harmless P R)
    (hnow : Interferes P tag σ s s) (hsees : SeesSubscription organizationId σ s.db before)
    (hid : changed.id = before.id) (hof : changed.organizationId = before.organizationId)
    (hcreated : changed.createdAt = before.createdAt)
    (h : ∀ after σ' s', Flushed before changed after → Later P tag σ.locks s s' →
      Interferes P tag σ' s' s' → SeesSubscription organizationId σ' s'.db after →
      σ.locks ⊆ σ'.locks → (∀ t, t ≠ .subscriptions → σ'.writes t = σ.writes t) →
      σ'.loaded = σ.loaded → Q () σ' s') :
    wp P tag Q R (flushSubscription before changed) σ s := by
  rw [flushSubscription]
  refine wp_runIf (fun hchanged => ?_) fun hsame => ?_
  · rw [Prog.bind_eq, wp_bind]
    refine wp_databaseNow hD fun updatedAt s₁ h₁ hnow₁ => ?_
    refine wp_flushUpdate hR fun s₂ σ' old h₂ hold _ hσ' hnow₂ => ?_
    have hlater := h₁.trans (.of_interferes h₂)
    have hsees₂ := hsees.later hP hlater
    obtain rfl : before = old :=
      (h₂.sound.integral h₂.integral).eq_of_id (t := .subscriptions)
        ((hsees₂.mem_view h₂.integral).mpr (Or.inr rfl)) (Store.lookup_mem hold)
        (Store.lookup_id hold).symm
    rw [Subscription.merge_self before changed updatedAt hid hof hcreated] at hσ'
    have hl : σ.locks ⊆ σ'.locks := by
      rw [hσ']
      exact σ.locks_write _ _ _ _ _
    have hwrites : σ'.writes = σ.writes.put .subscriptions before.id (some { changed with updatedAt }) := by
      rw [hσ']; rfl
    have hpending : ∀ pending, σ.writes .subscriptions = pending → (∀ entry ∈ pending, entry.1 = before.id) →
        Pending σ' { changed with updatedAt } := by
      intro pending hpending hown
      rw [Pending, hwrites, Overlay.put_table_self, hpending, List.filter_eq_nil_iff.mpr, hid]
      intro entry hentry
      simpa using hown entry hentry
    refine h { changed with updatedAt } σ' s₂ (Or.inr ⟨hchanged, updatedAt, rfl⟩) hlater hnow₂
      ⟨hsees.held.mono hl, hof.trans hsees.of, ?_⟩ hl (fun t ht => ?_) (by rw [hσ']; rfl)
    · rcases hsees₂.seen with ⟨hstored, hclean⟩ | ⟨stored, hstored, hstoredId, hw⟩ | ⟨hnone, hvacant, hw⟩
      · exact Or.inr (Or.inl ⟨before, hstored, hid.symm,
          hpending _ hclean fun entry hentry => nomatch hentry⟩)
      · exact Or.inr (Or.inl ⟨stored, hstored, hstoredId.trans hid.symm, hpending _ hw (by simp)⟩)
      · refine Or.inr (Or.inr ⟨hnone, ?_, hpending _ hw (by simp)⟩)
        rw [hid]
        exact hvacant.mono hl
    · rw [hwrites, Overlay.put_table_ne _ ht]
  · exact h before σ s (Or.inl ⟨not_not.mp hsame, rfl⟩) .refl hnow hsees (List.Subset.refl _)
      (fun _ _ => rfl) rfl

/-! ### Changing the plan -/

/-- What `get_or_create_subscription` found, or made. -/
def IsOrigin (organizationId : Uuid) (at? : Option DateTime) (db : Db) (before : Subscription) : Prop :=
  subscriptionOf organizationId db = some before ∨
    (subscriptionOf organizationId db = none ∧ ∃ current,
      IsDefaultSubscription organizationId current before ∧ ∀ given, at? = some given → current = given)

theorem IsOrigin.later (hP : Guards P .subscriptions) {locks : List (Held schema)} {at? : Option DateTime}
    {before : Subscription} (hheld : HoldsOrganization organizationId locks)
    (h : IsOrigin organizationId at? s.db before) (hs : Later P tag locks s s') :
    IsOrigin organizationId at? s'.db before := by
  rwa [IsOrigin, subscriptionOf, hs.guarded hP hheld, ← subscriptionOf]

/-- A default subscription is the only one of its organization. -/
theorem sees_of_added (tag : T) (hP : Guards P .subscriptions) {σ' : Session schema} {current : DateTime}
    {subscription : Subscription} (hclean : σ.writes .subscriptions = [])
    (hheld : HoldsOrganization organizationId σ.locks)
    (hdefault : IsDefaultSubscription organizationId current subscription)
    (hadded : Added .subscriptions subscription.id subscription σ σ' s.db)
    (hs : Later P tag σ'.locks s s') :
    subscriptionOf organizationId s'.db = none ∧
      SeesSubscription organizationId σ' s'.db subscription := by
  have hnone : subscriptionOf organizationId s.db = none := by
    refine subscriptionOf_eq_none fun row hrow => ?_
    rw [isSubscriptionOf, decide_eq_false_iff_not]
    intro hof
    refine hadded.unindexed hclean (.subscriber organizationId) ?_ ⟨row, hrow, ?_⟩
    · simp [uniqueValues, hdefault.organizationId]
    · simp [uniqueValues, hof]
  have hheld' := hheld.mono hadded.locks
  have hnone' : subscriptionOf organizationId s'.db = none := by
    rw [subscriptionOf, hs.guarded hP hheld', ← subscriptionOf, hnone]
  refine ⟨hnone', hheld', hdefault.organizationId, Or.inr (Or.inr ⟨hnone', ?_, ?_⟩)⟩
  · exact (hadded.vacant hclean).frozen hs.frozen
  · rw [Pending, hadded.writes, Overlay.put_table_of_nil hclean]

/-- The caller's lock, and what is seen under it. -/
structure SubscriptionFound (organizationId : Uuid) (at? : Option DateTime) (σ₀ σ : Session schema)
    (db : Db) (subscription : Subscription) : Prop where
  sees : SeesSubscription organizationId σ db subscription
  origin : IsOrigin organizationId at? db subscription
  writes : ∀ t, t ≠ .subscriptions → σ.writes t = σ₀.writes t
  locks : σ₀.locks ⊆ σ.locks

theorem wp_getOrCreateSubscription (hP : Guards P .subscriptions) {at? : Option DateTime}
    {Q : Subscription → Assertion schema Env T} (hD : P.Tolerates Env.Drawn) (hR : Harmless P R)
    (horg : σ.writes .organizations = []) (hsub : σ.writes .subscriptions = [])
    (hloaded : σ.loaded .subscriptions = [])
    (h : ∀ subscription σ' s', Interferes P tag σ' s' s' →
      SubscriptionFound organizationId at? σ σ' s'.db subscription → Q subscription σ' s') :
    wp P tag Q R (getOrCreateSubscription organizationId at?) σ s := by
  rw [getOrCreateSubscription]
  simp only [Prog.bind_eq, wp_bind]
  refine wp_scalarForUpdate (S := schema) (t := .organizations) hR.escapes horg
    (fun σ₁ s₁ h₁ _ => hR _ _ _ h₁.inv h₁.integral) fun organization σ₁ s₁ h₁ hext₁ hid hlocked _ => ?_
  have hheld : HoldsOrganization organizationId (σ₁.attach (t := .organizations) organization).locks := by
    have hid : organization.id = organizationId := by simpa [isOrganization] using hid
    have hheld := holdsOrganization_of_locked hlocked
    rwa [hid] at hheld
  have hnow₁ := (h₁.extend hext₁).attach (t := .organizations) organization
  have hw₁ : (σ₁.attach (t := .organizations) organization).writes = σ.writes := by
    rw [Session.writes_attach, hext₁.writes]
  have hl₁ : σ.locks ⊆ (σ₁.attach (t := .organizations) organization).locks := by
    rw [Session.locks_attach]
    exact hext₁.locks
  have hloaded₁ : (σ₁.attach (t := .organizations) organization).loaded .subscriptions = [] := by
    rw [Session.loaded_attach_ne _ (by decide), hext₁.loaded, hloaded]
  generalize σ₁.attach (t := .organizations) organization = σ₂ at hheld hnow₁ hw₁ hl₁ hloaded₁ ⊢
  refine wp_scalar (S := schema) (t := .subscriptions) hR.escapes (fun s₂ h₂ _ => ?_)
    fun s₂ s₃ subscription h₂ hmem hof h₃ => ?_
  · refine wp_createDefaultSubscription hD hR h₂.now
      fun subscription current σ₃ s₃ hdefault hgiven _ hnow₃ hadded => ?_
    obtain ⟨hnone, hsees⟩ := sees_of_added tag hP (by rw [hw₁, hsub]) hheld hdefault hadded .refl
    refine h subscription σ₃ s₃ hnow₃ ⟨hsees, Or.inr ⟨hnone, current, hdefault, hgiven⟩, fun t ht => ?_,
      fun _ hmem => hadded.locks (hl₁ hmem)⟩
    rw [hadded.writes, Overlay.put_table_ne _ ht, hw₁]
  · rw [Session.view_of_nil (by rw [hw₁, hsub])] at hmem
    have hcopy : σ₂.copyOf (t := .subscriptions) subscription = subscription := by
      rw [Session.copyOf, hloaded₁]
      rfl
    have hstored : subscriptionOf organizationId s₃.db = some subscription := by
      rw [subscriptionOf, (Later.of_interferes h₃).guarded hP hheld, ← subscriptionOf,
        subscriptionOf_of_mem h₂.integral hmem hof]
    rw [hcopy]
    refine h subscription _ s₃ (h₃.attach _) ⟨⟨hheld, ?_, Or.inl ⟨hstored, ?_⟩⟩, Or.inl hstored,
      fun t _ => ?_, hl₁⟩
    · simpa [isSubscriptionOf] using hof
    · rw [Session.writes_attach, hw₁, hsub]
    · rw [Session.writes_attach, hw₁]

/-- The entry that `change_plan` leaves in the audit log. -/
def planEntry (rt : Runtime) (organizationId : Uuid) (plan : Plan) (actorUserId : Uuid)
    (ipAddress : Option String) (before : Subscription) (id : Uuid) (createdAt : DateTime) : AuditLog :=
  ⟨id, organizationId, some actorUserId, "subscription.changed", "subscription", rt.uuidText before.id,
    [("from_plan", .str before.plan.value), ("to_plan", .str plan.value)], ipAddress, createdAt⟩

/-- `change_plan` has returned. -/
structure PlanChanged (rt : Runtime) (organizationId : Uuid) (plan : Plan) (actorUserId : Uuid)
    (ipAddress : Option String) (at? : Option DateTime) (σ₀ σ : Session schema) (db : Db)
    (before after : Subscription) : Prop where
  sees : SeesSubscription organizationId σ db after
  origin : IsOrigin organizationId at? db before
  flushed : ∃ current period, (∀ given, at? = some given → current = given) ∧
    subscriptionPeriod (some before) current = some period ∧
    Flushed before { before with plan, status := .active, currentPeriodStart := period.1, currentPeriodEnd := period.2 } after
  writes : ∀ t, t ≠ .subscriptions → t ≠ .auditLogs → σ.writes t = σ₀.writes t
  audited : (before.plan = plan ∧ σ.writes .auditLogs = σ₀.writes .auditLogs) ∨
    (before.plan ≠ plan ∧ ∃ id createdAt, σ.writes .auditLogs = σ₀.writes.put .auditLogs id
      (some (planEntry rt organizationId plan actorUserId ipAddress before id createdAt)) .auditLogs ∧
      (σ₀.writes .auditLogs = [] → σ.Vacant db .auditLogs id))

theorem PlanChanged.later (hP : Guards P .subscriptions) {rt : Runtime} {plan : Plan}
    {actorUserId : Uuid} {ipAddress : Option String} {at? : Option DateTime} {σ₀ : Session schema}
    {before after : Subscription}
    (h : PlanChanged rt organizationId plan actorUserId ipAddress at? σ₀ σ s.db before after)
    (hs : Later P tag σ.locks s s') :
    PlanChanged rt organizationId plan actorUserId ipAddress at? σ₀ σ s'.db before after :=
  { h with
    sees := h.sees.later hP hs
    origin := h.origin.later hP h.sees.held hs
    audited := h.audited.imp_right fun ⟨hplan, id, createdAt, hw, hvacant⟩ =>
      ⟨hplan, id, createdAt, hw, fun hclean => (hvacant hclean).frozen hs.frozen⟩ }

theorem wp_changePlan (hP : Guards P .subscriptions) {rt : Runtime} {plan : Plan} {actorUserId : Uuid}
    {ipAddress : Option String} {at? : Option DateTime} {Q : Subscription → Assertion schema Env T}
    (hD : P.Tolerates Env.Drawn) (hR : Harmless P R)
    (horg : σ.writes .organizations = []) (hsub : σ.writes .subscriptions = [])
    (hloaded : σ.loaded .subscriptions = [])
    (h : ∀ before after result σ' s', Interferes P tag σ' s' s' →
      PlanChanged rt organizationId plan actorUserId ipAddress at? σ σ' s'.db before after →
      Q result σ' s') :
    wp P tag Q R (changePlan rt organizationId plan actorUserId ipAddress at?) σ s := by
  rw [changePlan]
  simp only [Prog.bind_eq, wp_bind]
  refine wp_getOrCreateSubscription hP hD hR horg hsub hloaded fun before σ₁ s₁ hnow₁ hfound => ?_
  refine wp_nowOr hD hnow₁ fun current s₂ hgiven _ h₂ hnow₂ => ?_
  refine wp_orRaise (fun _ => hR _ _ _ hnow₂.inv hnow₂.integral) fun period hperiod => ?_
  obtain ⟨start, stop⟩ := period
  refine wp_flushSubscription hP hD hR hnow₂ (hfound.sees.later hP h₂) rfl rfl rfl
    fun after σ₃ s₃ hflushed h₃ hnow₃ hsees hl hw _ => ?_
  have horigin : IsOrigin organizationId at? s₃.db before :=
    (hfound.origin.later hP hfound.sees.held (h₂.trans h₃))
  have hwrites : ∀ t, t ≠ .subscriptions → σ₃.writes t = σ.writes t := fun t ht =>
    (hw t ht).trans (hfound.writes t ht)
  -- the entry is written or left out, and the row is read again
  have hrefresh : ∀ σ₄ s₄, Interferes P tag σ₄ s₄ s₄ →
      PlanChanged rt organizationId plan actorUserId ipAddress at? σ σ₄ s₄.db before after →
      wp P tag Q R (refresh .subscriptions before.id) σ₄ s₄ := fun σ₄ s₄ _ hchanged =>
    wp_refresh (t := .subscriptions) hR fun s₅ result h₅ _ => h before after result σ₄ s₅ h₅.now
      (hchanged.later hP (.of_interferes h₅))
  refine wp_runIf (fun hplan => ?_) fun hplan => ?_
  · simp only [wp_bind]
    refine wp_writeAudit hD hR fun entry σ₄ s₄ hentry h₄ hnow₄ hadded => ?_
    refine hrefresh σ₄ s₄ hnow₄ ⟨(hsees.later hP h₄).extend hadded.locks ?_,
      horigin.later hP hsees.held h₄, ⟨current, (start, stop), hgiven, hperiod, hflushed⟩,
      fun t ht ht' => ?_, Or.inr ⟨hplan, entry.id, entry.createdAt, ?_, fun hclean => ?_⟩⟩
    · rw [hadded.writes, Overlay.put_table_ne _ (by decide)]
    · rw [hadded.writes, Overlay.put_table_ne _ ht', hwrites t ht]
    · rw [hadded.writes, planEntry, ← hentry, Overlay.put_table_self, Overlay.put_table_self,
        hwrites _ (by decide)]
    · exact hadded.vacant (by rw [hwrites _ (by decide), hclean])
  · exact hrefresh σ₃ s₃ hnow₃ ⟨hsees, horigin, ⟨current, (start, stop), hgiven, hperiod, hflushed⟩,
      fun t ht _ => hwrites t ht, Or.inl ⟨not_not.mp hplan, hwrites _ (by decide)⟩⟩

end TenantForge
