import TenantForge.Contracts.Locks
import TenantForge.Services.Usage
/-!
# Contract of the usage metering

While a transaction holds the organization's row, nobody changes its subscription or its usage events
(`Metering`). So what `record_usage` reads about the current period still holds when it commits, except
that time has passed: `subscriptionPeriod_later` says that a later period begins after the first clock
read.
-/

namespace TenantForge

open Gregorian ReadCommitted

/-! ### Periods -/

theorem DateTime.startOfMonth_later {t t' : DateTime} (h : t ≤ t') :
    t'.startOfMonth = t.startOfMonth ∨ t < t'.startOfMonth := by
  have hday := t.day_le
  have hday' := t'.day_le
  have hmonth := t.month_le
  have hmonth' := t'.month_le
  have hmicro := t.micro_lt
  have hmicro' := t'.micro_lt
  rw [DateTime.le_iff] at h
  rw [DateTime.lt_iff]
  by_cases hsame : t'.year = t.year ∧ t'.month = t.month
  · left
    simp only [DateTime.startOfMonth, hsame.1, hsame.2]
  · right
    simp only [DateTime.key, DateTime.startOfMonth, microsPerDay] at h hmicro hmicro' ⊢
    omega

theorem calendarPeriod_start {t : DateTime} {period : DateTime × DateTime}
    (h : calendarPeriod t = some period) : period.1 = t.startOfMonth := by
  obtain ⟨stop, _, rfl⟩ := Option.map_eq_some_iff.mp h
  rfl

/-- A rolled period begins where the given one begins, or not before its end. -/
theorem rollPeriod_start {current start stop : DateTime} {period : DateTime × DateTime}
    (h : rollPeriod current start stop = some period) :
    period = (start, stop) ∧ current < stop ∨ stop ≤ period.1 ∧ stop ≤ current := by
  induction hn : stop.monthsLeft using Nat.strong_induction_on generalizing start stop with
  | _ n ih =>
    rw [rollPeriod_eq] at h
    split at h
    · rename_i hle
      obtain ⟨next, hnext, hroll⟩ := Option.bind_eq_some_iff.mp h
      obtain ⟨hlt, hleft⟩ := DateTime.addMonth_spec hnext
      refine Or.inr ⟨?_, hle⟩
      rcases ih next.monthsLeft (by omega) hroll rfl with ⟨rfl, _⟩ | ⟨hstart, _⟩
      · exact le_rfl
      · exact hlt.le.trans hstart
    · rename_i hlt
      exact Or.inl ⟨(Option.some.inj h).symm, not_le.mp hlt⟩

theorem rollPeriod_later {t t' start stop : DateTime} {period period' : DateTime × DateTime}
    (hle : t ≤ t') (h : rollPeriod t start stop = some period)
    (h' : rollPeriod t' start stop = some period') : period' = period ∨ t < period'.1 := by
  induction hn : stop.monthsLeft using Nat.strong_induction_on generalizing start stop with
  | _ n ih =>
    by_cases hroll : stop ≤ t
    · rw [rollPeriod_eq, if_pos hroll] at h
      rw [rollPeriod_eq, if_pos (hroll.trans hle)] at h'
      obtain ⟨next, hnext, h⟩ := Option.bind_eq_some_iff.mp h
      obtain ⟨next', hnext', h'⟩ := Option.bind_eq_some_iff.mp h'
      obtain rfl : next = next' := Option.some.inj (hnext.symm.trans hnext')
      obtain ⟨_, hleft⟩ := DateTime.addMonth_spec hnext
      exact ih next.monthsLeft (by omega) h h' rfl
    · rcases rollPeriod_start h with ⟨rfl, _⟩ | ⟨_, hstop⟩
      · rcases rollPeriod_start h' with ⟨rfl, _⟩ | ⟨hstart, _⟩
        · exact Or.inl rfl
        · exact Or.inr ((not_le.mp hroll).trans_le hstart)
      · exact absurd hstop hroll

/-- The period at a later time is the same one, or begins after the earlier time. -/
theorem subscriptionPeriod_later {subscription : Option Subscription} {t t' : DateTime}
    {period period' : DateTime × DateTime} (hle : t ≤ t')
    (h : subscriptionPeriod subscription t = some period)
    (h' : subscriptionPeriod subscription t' = some period') : period' = period ∨ t < period'.1 := by
  have hcalendar : calendarPeriod t = some period → calendarPeriod t' = some period' →
      period' = period ∨ t < period'.1 := fun h h' => by
    rcases DateTime.startOfMonth_later hle with hsame | hlt
    · rw [calendarPeriod, hsame] at h'
      exact Or.inl (Option.some.inj (h'.symm.trans h))
    · exact Or.inr (calendarPeriod_start h' ▸ hlt)
  cases subscription with
  | none => exact hcalendar h h'
  | some subscription =>
    simp only [subscriptionPeriod] at h h'
    by_cases hdegenerate : subscription.currentPeriodEnd ≤ subscription.currentPeriodStart
    · rw [if_pos hdegenerate] at h h'
      exact hcalendar h h'
    · rw [if_neg hdegenerate] at h h'
      by_cases hbefore : t < subscription.currentPeriodStart
      · rw [if_pos hbefore] at h
        obtain rfl := Option.some.inj h
        split at h'
        · exact Or.inl (Option.some.inj h').symm
        · rcases rollPeriod_start h' with ⟨rfl, _⟩ | ⟨hstart, _⟩
          · exact Or.inl rfl
          · exact Or.inr (hbefore.trans ((not_le.mp hdegenerate).trans_le hstart))
      · rw [if_neg hbefore] at h
        rw [if_neg fun hlt => hbefore (hle.trans_lt hlt)] at h'
        exact rollPeriod_later hle h h'

/-! ### What an organization's lock protects -/

/-- The rows of a table that belong to an organization. -/
def ofTenant (organizationId : Uuid) (t : Table) (db : Db) : List (Row t) :=
  (db t).filter fun row => tenantOf row = some organizationId

variable {T : Type}

/-- Nobody changes the rows of this table that belong to an organization whose row is held. -/
def Guards (P : Protocol schema Env T) (t : Table) : Prop :=
  ∀ tag locks s s', P.rely tag locks s s' → ∀ organizationId, HoldsOrganization organizationId locks →
    ofTenant organizationId t s'.db = ofTenant organizationId t s.db

/-- What the metering needs of a protocol: the clock goes forward, and the lock of an organization
guards its subscription and its usage events. -/
structure Metering (P : Protocol schema Env T) : Prop where
  clock : ∀ tag locks s s', P.rely tag locks s s' →
    s'.env.clock = s.env.clock ∧ s.env.ticks ≤ s'.env.ticks
  subscriptions : Guards P .subscriptions
  usageEvents : Guards P .usageEvents

variable {P : Protocol schema Env T} {tag : T} {R : Exn → Assertion schema Env T}
  {σ : Session schema} {s s' : Shared schema Env T}

theorem Later.clock (hP : Metering P) {locks : List (Held schema)} (h : Later P tag locks s s') :
    s'.env.clock = s.env.clock ∧ s.env.ticks ≤ s'.env.ticks := by
  induction h with
  | refl => exact ⟨rfl, le_rfl⟩
  | others _ _ hrely _ _ ih =>
    obtain ⟨hclock, hticks⟩ := hP.clock _ _ _ _ hrely
    exact ⟨hclock.trans ih.1, ih.2.trans hticks⟩
  | drawn _ hd ih => exact ⟨hd.clock.trans ih.1, ih.2.trans hd.ticks⟩
  | named _ ih => exact ih

theorem Later.guarded {t : Table} (hP : Guards P t) {locks : List (Held schema)} {organizationId : Uuid}
    (hheld : HoldsOrganization organizationId locks) (h : Later P tag locks s s') :
    ofTenant organizationId t s'.db = ofTenant organizationId t s.db := by
  induction h with
  | refl => rfl
  | others _ _ hrely _ _ ih => exact (hP _ _ _ _ hrely organizationId hheld).trans ih
  | drawn _ _ ih => exact ih
  | named _ ih => exact ih

/-- The subscription of an organization. -/
def subscriptionOf (organizationId : Uuid) (db : Db) : Option Subscription :=
  (ofTenant organizationId .subscriptions db).head?

/-- There is one subscription for an organization. -/
theorem subscriptionOf_of_mem {db : Db} (hdb : db.Integral) {organizationId : Uuid}
    {subscription : Subscription} (hmem : subscription ∈ db .subscriptions)
    (hof : isSubscriptionOf organizationId subscription = true) :
    subscriptionOf organizationId db = some subscription := by
  have hfilter : subscription ∈ ofTenant organizationId .subscriptions db :=
    List.mem_filter.mpr ⟨hmem, by simpa [tenantOf, isSubscriptionOf] using hof⟩
  rw [subscriptionOf]
  cases hrows : ofTenant organizationId .subscriptions db with
  | nil => rw [hrows] at hfilter; cases hfilter
  | cons first rest =>
    obtain ⟨hfirst, hfirstOf⟩ := List.mem_filter.mp
      (hrows ▸ List.mem_cons_self : first ∈ ofTenant organizationId .subscriptions db)
    have hid := hdb.unique .subscriptions first hfirst subscription hmem (.subscriber organizationId)
      (by simp [uniqueValues, tenantOf] at hfirstOf ⊢; exact hfirstOf.symm)
      (by simp [uniqueValues, isSubscriptionOf] at hof ⊢; exact hof.symm)
    rw [List.head?_cons, hdb.eq_of_id (t := .subscriptions) hfirst hmem hid]

theorem subscriptionOf_eq_none {db : Db} {organizationId : Uuid}
    (h : ∀ row ∈ db .subscriptions, isSubscriptionOf organizationId row = false) :
    subscriptionOf organizationId db = none := by
  rw [subscriptionOf, List.head?_eq_none_iff, ofTenant, List.filter_eq_nil_iff]
  intro row hrow
  have := h row hrow
  simpa [isSubscriptionOf, tenantOf] using this

/-- The metered quantity depends on the organization's events only. -/
theorem usageIn_eq (organizationId : Uuid) (metric : String) (start stop : DateTime) (db : Db) :
    usageIn organizationId metric start stop db =
      (((ofTenant organizationId .usageEvents db).filter fun (event : UsageEvent) =>
        event.metric = metric ∧ start ≤ event.createdAt ∧ event.createdAt < stop).map
          UsageEvent.quantity).sum := by
  rw [usageIn, ofTenant, List.filter_filter]
  congr 3
  funext event
  simp only [tenantOf, Option.some.injEq, ← Bool.decide_and]
  exact decide_eq_decide.mpr
    ⟨fun ⟨hof, hmetric, hin⟩ => ⟨⟨hmetric, hin⟩, hof⟩, fun ⟨⟨hmetric, hin⟩, hof⟩ => ⟨hof, hmetric, hin⟩⟩

/-! ### Recording -/

/-- What `record_usage` has checked, in terms of the state it goes on from. -/
structure Metered (P : Protocol schema Env T) (organizationId : Uuid) (metric : String)
    (quantity : Int) (at? : Option DateTime) (s : Shared schema Env T) (current createdAt : DateTime)
    (period : DateTime × DateTime) : Prop where
  given : ∀ t, at? = some t → current = t ∧ createdAt = t
  clocked : at? = none → ∃ s₁ n, P.inv s₁ ∧ current = s₁.env.clock s₁.env.ticks ∧
    s₁.env.clock = s.env.clock ∧
    ofTenant organizationId .usageEvents s₁.db = ofTenant organizationId .usageEvents s.db ∧
    s₁.env.ticks < n ∧ n < s.env.ticks ∧ createdAt = s.env.clock n
  current : subscriptionPeriod (subscriptionOf organizationId s.db) current = some period
  quota : usageIn organizationId metric period.1 period.2 s.db + quantity ≤
    planQuotas (planOf (subscriptionOf organizationId s.db))

theorem Metered.later (hP : Metering P) {organizationId : Uuid} {metric : String} {quantity : Int}
    {at? : Option DateTime} {current createdAt : DateTime} {period : DateTime × DateTime}
    {locks : List (Held schema)} (hheld : HoldsOrganization organizationId locks)
    (h : Metered P organizationId metric quantity at? s current createdAt period)
    (hs : Later P tag locks s s') :
    Metered P organizationId metric quantity at? s' current createdAt period := by
  have hevents := hs.guarded hP.usageEvents hheld
  have hsubscription : subscriptionOf organizationId s'.db = subscriptionOf organizationId s.db := by
    rw [subscriptionOf, hs.guarded hP.subscriptions hheld, subscriptionOf]
  obtain ⟨hclock, hticks⟩ := hs.clock hP
  refine ⟨h.given, fun hnone => ?_, ?_, ?_⟩
  · obtain ⟨s₁, n, hinv, hcurrent, hclock₁, hevents₁, hlt, hlt', hcreated⟩ := h.clocked hnone
    exact ⟨s₁, n, hinv, hcurrent, hclock₁.trans hclock.symm, hevents₁.trans hevents.symm, hlt,
      hlt'.trans_le hticks, by rw [hclock, hcreated]⟩
  · rw [hsubscription, h.current]
  · rw [hsubscription, usageIn_eq, hevents, ← usageIn_eq]
    exact h.quota

/-- `record_usage` has returned. -/
structure UsageRecorded (P : Protocol schema Env T) (organizationId : Uuid) (metric : String)
    (quantity : Int) (at? : Option DateTime) (σ₀ σ : Session schema) (s : Shared schema Env T)
    (event : UsageEvent) : Prop where
  held : HoldsOrganization organizationId σ.locks
  positive : 1 ≤ quantity
  contents : event = ⟨event.id, organizationId, metric, quantity, event.createdAt⟩
  metered : ∃ current period,
    Metered P organizationId metric quantity at? s current event.createdAt period
  writes : σ.writes = σ₀.writes.put .usageEvents event.id (some event)
  vacant : σ.Vacant s.db .usageEvents event.id

theorem UsageRecorded.later (hP : Metering P) {organizationId : Uuid} {metric : String} {quantity : Int}
    {at? : Option DateTime} {σ₀ : Session schema} {event : UsageEvent}
    (h : UsageRecorded P organizationId metric quantity at? σ₀ σ s event)
    (hs : Interferes P tag σ s s') :
    UsageRecorded P organizationId metric quantity at? σ₀ σ s' event := by
  obtain ⟨current, period, hmetered⟩ := h.metered
  exact { h with
    metered := ⟨current, period, hmetered.later hP h.held (.of_interferes hs)⟩
    vacant := h.vacant.frozen hs.frozen }

theorem wp_recordUsage (hP : Metering P) {organizationId : Uuid} {metric : String} {quantity : Int}
    {at? : Option DateTime} {Q : UsageEvent → Assertion schema Env T} (hD : P.Tolerates Env.Drawn)
    (hR : Harmless P R) (hnow : Interferes P tag σ s s) (horg : σ.writes .organizations = [])
    (hsub : σ.writes .subscriptions = []) (husage : σ.writes .usageEvents = [])
    (hloaded : σ.loaded .subscriptions = [])
    (h : ∀ event σ' s', Interferes P tag σ' s' s' →
      UsageRecorded P organizationId metric quantity at? σ σ' s' event → Q event σ' s') :
    wp P tag Q R (recordUsage organizationId metric quantity at?) σ s := by
  rw [recordUsage]
  simp only [Prog.bind_eq, wp_bind]
  refine wp_raiseIf (fun _ => hR _ _ _ hnow.inv hnow.integral) fun hpositive => ?_
  refine wp_scalarForUpdate (S := schema) (t := .organizations) hR.escapes horg
    (fun σ₁ s₁ h₁ _ => hR _ _ _ h₁.inv h₁.integral) fun organization σ₁ s₁ h₁ hext₁ hid hlocked _ => ?_
  have hheld : HoldsOrganization organizationId (σ₁.attach (t := .organizations) organization).locks := by
    have hid : organization.id = organizationId := by simpa [isOrganization] using hid
    have hheld := holdsOrganization_of_locked hlocked
    rwa [hid] at hheld
  have hnow₁ := (h₁.extend hext₁).attach (t := .organizations) organization
  have hw₁ : (σ₁.attach (t := .organizations) organization).writes = σ.writes := by
    rw [Session.writes_attach, hext₁.writes]
  have hloaded₁ : (σ₁.attach (t := .organizations) organization).loaded .subscriptions = [] := by
    rw [Session.loaded_attach_ne _ (by decide), hext₁.loaded, hloaded]
  generalize σ₁.attach (t := .organizations) organization = σ₂ at hheld hnow₁ hw₁ hloaded₁ ⊢
  -- the subscription that was read is the organization's, and stays so
  have hread : wp P tag (fun subscription σ₃ s₃ => Interferes P tag σ₃ s₃ s₃ ∧ σ₃.writes = σ.writes ∧
      HoldsOrganization organizationId σ₃.locks ∧ subscriptionOf organizationId s₃.db = subscription) R
      (Prog.scalar (S := schema) .subscriptions (isSubscriptionOf organizationId)) σ₂ s₁ := by
    refine wp_scalar (S := schema) (t := .subscriptions) hR.escapes (fun s₂ h₂ hnone => ?_)
      fun s₂ s₃ subscription h₂ hmem hof h₃ => ?_
    · rw [Session.view_of_nil (by rw [hw₁, hsub])] at hnone
      exact ⟨h₂.now, hw₁, hheld, subscriptionOf_eq_none hnone⟩
    · rw [Session.view_of_nil (by rw [hw₁, hsub])] at hmem
      have hcopy : σ₂.copyOf (t := .subscriptions) subscription = subscription := by
        rw [Session.copyOf, hloaded₁]
        rfl
      refine ⟨h₃.attach _, hw₁, hheld, ?_⟩
      rw [hcopy, subscriptionOf, (Later.of_interferes h₃).guarded hP.subscriptions hheld,
        ← subscriptionOf, subscriptionOf_of_mem h₂.integral hmem hof]
  refine hread.then ?_
  rintro subscription σ₃ s₃ ⟨hnow₃, hw₃, hheld₃, hsubscription⟩
  refine wp_nowOr hD hnow₃ fun current s₄ hgiven hclocked h₄ hnow₄ => ?_
  refine wp_orRaise (fun _ => hR _ _ _ hnow₄.inv hnow₄.integral) fun period hperiod => ?_
  obtain ⟨start, stop⟩ := period
  refine wp_query hR.escapes fun s₅ h₅ => ?_
  have hused : usageIn organizationId metric start stop (σ₃.view s₅.db) =
      usageIn organizationId metric start stop s₅.db := by
    rw [usageIn, Session.view_of_nil (by rw [hw₃, husage]), usageIn]
  rw [hused, chargeUsage]
  simp only [Prog.bind_eq, wp_bind]
  refine wp_runIf (fun hover => ?_) fun hquota => ?_
  · rw [quotaExceeded, Prog.bind_eq, wp_bind]
    exact wp_nowOr hD h₅.now fun _ s₆ _ _ _ hnow₆ => hR _ _ _ hnow₆.inv hnow₆.integral
  refine wp_nowOr hD h₅.now fun createdAt s₆ hgiven' hclocked' h₆ hnow₆ => ?_
  refine wp_uuid4 hD fun id σ₇ s₇ hext₇ h₇ _ _ => ?_
  refine wp_addRow hR fun σ₈ s₈ h₈ _ hadded hnow₈ => ?_
  have hlater : Later P tag σ₃.locks s₄ s₅ := .of_interferes h₅
  have hsub₆ : subscriptionOf organizationId s₆.db = subscription := by
    rw [subscriptionOf, (h₄.trans (hlater.trans h₆)).guarded hP.subscriptions hheld₃, ← subscriptionOf,
      hsubscription]
  have hmetered : Metered P organizationId metric quantity at? s₆ current createdAt (start, stop) := by
    refine ⟨fun t ht => ⟨hgiven t ht, hgiven' t ht⟩, fun hnone => ?_, ?_, ?_⟩
    · obtain ⟨s₃', hinv, _, hcurrent, hread⟩ := hclocked hnone
      obtain ⟨s₅', _, hbefore, hcreated, hread'⟩ := hclocked' hnone
      obtain ⟨hclock, hticks⟩ := (hlater.trans hbefore).clock hP
      have hevents := (hlater.trans hbefore).guarded hP.usageEvents hheld₃
      rw [hread] at hclock hticks hevents
      rw [hread']
      exact ⟨s₃', s₅'.env.ticks, hinv, hcurrent, hclock.symm, hevents.symm, hticks,
        Nat.lt_succ_self _, hcreated⟩
    · rw [hsub₆, hperiod]
    · rw [hsub₆, usageIn_eq, h₆.guarded hP.usageEvents hheld₃, ← usageIn_eq]
      exact Int.not_lt.mp hquota
  have hl : σ₃.locks ⊆ σ₈.locks := fun _ hmem => hadded.locks (hext₇.locks hmem)
  refine h ⟨id, organizationId, metric, quantity, createdAt⟩ σ₈ s₈ hnow₈ ⟨hheld₃.mono hl,
    Int.not_lt.mp hpositive, rfl, ⟨current, (start, stop), hmetered.later hP hheld₃
      (h₇.trans ((Later.of_interferes h₈).mono hext₇.locks))⟩, ?_, hadded.vacant ?_⟩
  · rw [hadded.writes, hext₇.writes, hw₃]; rfl
  · rw [hext₇.writes, hw₃, husage]

end TenantForge
