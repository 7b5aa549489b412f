import Mathlib.Algebra.Order.BigOperators.Group.List
import TenantForge.Reference.Runtime
import TenantForge.Transactions
/-!
# Quotas

No accepted `record_usage` overspends the plan, whatever plan changes, webhooks and other recordings
run at the same time. The period is picked at one reading of the clock and the event is stamped at a
later one; if the stamp falls into a later period, no event but the new one can lie in it, because all
the others were stamped before the first reading (`usageIn_of_later`).
-/

namespace TenantForge

open Gregorian ReadCommitted

/-- The transactions that meter usage or change what it is metered against. They read the clock. -/
def Transaction.meters : Transaction → Bool
  | .recordUsage _ _ _ at? | .changePlan _ _ _ _ at? | .processWebhookEvent _ at? => at?.isNone
  | _ => false

/-- A commit of `record_usage` stored an event, and the usage in the event's period is within the quota
of the plan. -/
def WithinQuota (c : Commit schema Transaction) : Prop :=
  ∀ organizationId metric quantity at?, c.tag = .recordUsage organizationId metric quantity at? →
    ∃ event : UsageEvent, event = ⟨event.id, organizationId, metric, quantity, event.createdAt⟩ ∧
      c.after .usageEvents = c.before .usageEvents ++ [event] ∧
      ∀ period, subscriptionPeriod (subscriptionOf organizationId c.before) event.createdAt = some period →
        usageIn organizationId metric period.1 period.2 c.after ≤
          planQuotas (planOf (subscriptionOf organizationId c.before))

/-- The clock goes forward, and every event was stamped in the past. -/
structure Stamped (s : Shared schema Env Transaction) : Prop where
  clock : Monotone s.env.clock
  quantity : ∀ event : UsageEvent, event ∈ s.db .usageEvents → 0 ≤ event.quantity
  past : ∀ event : UsageEvent, event ∈ s.db .usageEvents → event.createdAt ≤ s.env.clock s.env.ticks

theorem Stamped.later {s s' : Shared schema Env Transaction} (h : Stamped s)
    (hdb : s'.db .usageEvents = s.db .usageEvents) (hclock : s'.env.clock = s.env.clock)
    (hticks : s.env.ticks ≤ s'.env.ticks) : Stamped s' := by
  refine ⟨hclock ▸ h.clock, fun event hmem => h.quantity event (hdb ▸ hmem), fun event hmem => ?_⟩
  rw [hclock]
  exact (h.past event (hdb ▸ hmem)).trans (h.clock hticks)

/-- The invariant of the metering. -/
def Quotas (s : Shared schema Env Transaction) : Prop :=
  Stamped s ∧ ∀ c ∈ s.log, WithinQuota c

theorem quotas_ambient : Ambient Quotas where
  env _ _ h hd := ⟨h.1.later rfl hd.clock hd.ticks, h.2⟩
  draw _ h := ⟨h.1.later rfl rfl le_rfl, h.2⟩

/-! ### Recording -/

section Recording

variable (organizationId : Uuid) (metric : String) (start stop : DateTime) {db db' : Db}

/-- An event adds its quantity to the periods it lies in. -/
theorem usageIn_append {event : UsageEvent}
    (hdb : db' .usageEvents = db .usageEvents ++ [event]) (hquantity : 0 ≤ event.quantity) :
    usageIn organizationId metric start stop db' ≤
      usageIn organizationId metric start stop db + event.quantity := by
  simp only [usageIn, hdb, List.filter_append, List.map_append, List.sum_append]
  refine Int.add_le_add_left ?_ _
  simp only [List.filter_cons, List.filter_nil]
  split <;> simp [hquantity]

theorem usageIn_nonneg (h : ∀ event : UsageEvent, event ∈ db .usageEvents → 0 ≤ event.quantity) :
    0 ≤ usageIn organizationId metric start stop db := by
  refine List.sum_nonneg fun quantity hmem => ?_
  obtain ⟨event, hevent, rfl⟩ := List.mem_map.mp hmem
  exact h event (List.mem_of_mem_filter hevent)

/-- A period that begins after all events of the organization is empty. -/
theorem usageIn_of_later (h : ∀ event : UsageEvent, event ∈ ofTenant organizationId .usageEvents db →
    event.createdAt < start) : usageIn organizationId metric start stop db = 0 := by
  rw [usageIn_eq, List.filter_eq_nil_iff.mpr, List.map_nil, List.sum_nil]
  intro event hevent
  have hlt := h event hevent
  simp only [decide_eq_true_eq]
  rintro ⟨_, hle, _⟩
  exact absurd hlt (not_lt.mpr hle)

end Recording

variable {tag : Transaction} {σ σ₀ : Session schema} {s s' : Shared schema Env Transaction}

/-- **Within the quota**: the usage in the period of the event's stamp, the event included. -/
theorem UsageRecorded.withinQuota {organizationId : Uuid} {metric : String} {quantity : Int}
    {event : UsageEvent}
    (h : UsageRecorded (transactionProtocol Quotas) organizationId metric quantity none σ₀ σ s event)
    (hinv : Stamped s) (hview : σ.view s.db .usageEvents = s.db .usageEvents ++ [event])
    {period : DateTime × DateTime}
    (hperiod : subscriptionPeriod (subscriptionOf organizationId s.db) event.createdAt = some period) :
    usageIn organizationId metric period.1 period.2 (σ.view s.db) ≤
      planQuotas (planOf (subscriptionOf organizationId s.db)) := by
  obtain ⟨current, checked, hmetered⟩ := h.metered
  obtain ⟨s₁, n, hinv₁, hcurrent, hclock, hevents, hlt, _, hcreated⟩ := hmetered.clocked rfl
  have hquantity : event.quantity = quantity := by rw [h.contents]
  have hle : current ≤ event.createdAt := by
    rw [hcurrent, hcreated, hclock]
    exact hinv.clock hlt.le
  have hadd := usageIn_append organizationId metric period.1 period.2 hview (by have := h.positive; omega)
  rcases subscriptionPeriod_later hle hmetered.current hperiod with rfl | hafter
  · have := hmetered.quota
    omega
  · have hempty : usageIn organizationId metric period.1 period.2 s.db = 0 := by
      refine usageIn_of_later _ _ _ _ fun other hother => ?_
      rw [← hevents] at hother
      have hpast := hinv₁.1.past other (List.mem_of_mem_filter hother)
      rw [← hcurrent] at hpast
      exact hpast.trans_lt hafter
    have hnonneg := usageIn_nonneg organizationId metric checked.1 checked.2 hinv.quantity
    have := hmetered.quota
    omega

theorem UsageRecorded.quotas {organizationId : Uuid} {metric : String} {quantity : Int}
    {event : UsageEvent}
    (h : UsageRecorded (transactionProtocol Quotas) organizationId metric quantity none .empty σ s event)
    (hinv : Quotas s) : Quotas (s.commit (.recordUsage organizationId metric quantity none) σ) := by
  have hview : σ.view s.db .usageEvents = s.db .usageEvents ++ [event] :=
    Session.view_of_insert (S := schema) (t := .usageEvents) h.inserted h.vacant.current
  obtain ⟨hstamped, hcommits⟩ := hinv
  refine ⟨⟨hstamped.clock, fun other hother => ?_, fun other hother => ?_⟩, fun c hc => ?_⟩
  · rw [Shared.commit_db, hview] at hother
    rcases List.mem_append.mp hother with hother | hother
    · exact hstamped.quantity other hother
    · obtain rfl := List.mem_singleton.mp hother
      have := h.positive
      rw [h.contents]
      dsimp only
      omega
  · rw [Shared.commit_db, hview] at hother
    rcases List.mem_append.mp hother with hother | hother
    · exact hstamped.past other hother
    · obtain rfl := List.mem_singleton.mp hother
      obtain ⟨current, checked, hmetered⟩ := h.metered
      obtain ⟨_, n, _, _, _, _, _, hlt, hcreated⟩ := hmetered.clocked rfl
      rw [hcreated]
      exact hstamped.clock hlt.le
  · rcases List.mem_cons.mp hc with rfl | hc
    · intro organizationId' metric' quantity' at? htag
      cases htag
      exact ⟨event, h.contents, hview, fun period hperiod => h.withinQuota hstamped hview hperiod⟩
    · exact hcommits c hc

/-- A commit that stores no event. -/
theorem Quotas.commit {transaction : Transaction} (h : Quotas s) (husage : σ.writes .usageEvents = [])
    (hother : ∀ organizationId metric quantity at?,
      transaction ≠ .recordUsage organizationId metric quantity at?) :
    Quotas (s.commit transaction σ) := by
  refine ⟨h.1.later (Session.view_of_nil husage s.db) rfl le_rfl, fun c hc => ?_⟩
  rcases List.mem_cons.mp hc with rfl | hc
  · exact fun _ _ _ _ hrecord => absurd hrecord (hother _ _ _ _)
  · exact h.2 c hc

/-! ### Runs -/

theorem Effect.quotas {rt : Runtime} {transaction : Transaction} (hmeters : transaction.meters = true)
    (h : Effect rt (transactionProtocol Quotas) transaction σ s) (hinv : Quotas s) :
    Quotas (s.commit transaction σ) := by
  cases h with
  | @recorded organizationId metric quantity at? _ _ event h =>
    obtain rfl : at? = Option.none := by simpa [Transaction.meters] using hmeters
    exact h.quotas hinv
  | planChanged h =>
    exact hinv.commit (h.writes _ (by decide) (by decide)) fun _ _ _ _ => by simp
  | processed h =>
    exact hinv.commit (h.writes _ (by decide) (by decide) (by decide)) fun _ _ _ _ => by simp
  | idle hwebhook hw =>
    refine hinv.commit (by rw [hw]; rfl) fun _ _ _ _ heq => ?_
    rw [heq] at hwebhook
    cases hwebhook
  | _ => cases hmeters

/-- **Quota is never overspent**: right after each accepted `record_usage`, whatever transactions ran
at the same time. -/
theorem withinQuota_of_reach (rt : Runtime) {s : Shared schema Env Transaction}
    {transactions : List Transaction} {w : World schema Env Exn Transaction Unit} (hlog : s.log = [])
    (hdb : s.db.Integral) (hstamped : Stamped s)
    (hmeters : ∀ transaction ∈ transactions, transaction.meters = true)
    (hreach : (startTransactions rt s transactions).Reach w) : ∀ c ∈ w.shared.log, WithinQuota c :=
  (invariant_of_reach rt quotas_ambient
    (fun transaction hmem _ _ _ _ hinv heffect => heffect.quotas (hmeters transaction hmem) hinv)
    ⟨hstamped, fun c hc => by rw [hlog] at hc; cases hc⟩ hdb hreach).1.2

namespace Reference

/-- Nearly all of the free plan is used up, two days before the end of the period. -/
def nearlySpent : Tables where
  users := [user 1]
  organizations := [organization 5]
  subscriptions := [subscription 15 5 .free 0 4]
  usageEvents := [usageEvent 21 5 990 1]

def recordings : List Transaction :=
  [.recordUsage 5 apiRequestsMetric 10 none, .recordUsage 5 apiRequestsMetric 1000 none,
    .changePlan 5 .pro 1 none none]

/-- The clock goes forward by a day at each reading: the first event is checked against the old period
and stamped at the first day of the next one. The others go on when it is committed. -/
def recordTogether : World schema Env Exn Transaction Unit :=
  (startTransactions runtime (shared Transaction (fun n => daily (n + 3)) nearlySpent) recordings).playAll
    (List.replicate 20 (Move.run 0) ++ List.replicate 30 (Move.run 2) ++ List.replicate 30 (Move.run 1))

theorem stamped_nearlySpent :
    Stamped (shared Transaction (fun n => daily (n + 3)) nearlySpent) := by
  refine ⟨fun a b h => daily_monotone (Nat.add_le_add_right h 3), fun event hmem => ?_,
    fun event hmem => ?_⟩
  · obtain rfl := List.mem_singleton.mp hmem
    decide
  · obtain rfl := List.mem_singleton.mp hmem
    exact noon_le (by decide)

theorem withinQuota_of_recordings :
    recordTogether.shared.log.length = 3 ∧ ∀ c ∈ recordTogether.shared.log, WithinQuota c :=
  ⟨by decide +kernel, withinQuota_of_reach (w := recordTogether) runtime rfl
    (ValidDb.integral (by decide +kernel)) stamped_nearlySpent (by simp [recordings, Transaction.meters])
    (World.reach_playAll _ _)⟩

end Reference

end TenantForge
