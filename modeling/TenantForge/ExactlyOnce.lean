import TenantForge.Reference.Webhooks
import TenantForge.Transactions
/-!
# Webhook effects happen exactly once

Deliveries, processing attempts, failure marks and aborts may interleave in any order: an event is
PROCESSED exactly when one audit entry carries its external id, and PROCESSED is never left. The row
lock of the event serializes its attempts, and an attempt that finds it PROCESSED commits nothing.
-/

namespace TenantForge

open Gregorian ReadCommitted

/-- The entry was written for the event with this external id. -/
def carriesEvent (externalEventId : String) (entry : AuditLog) : Bool :=
  entry.action = "subscription.changed" &&
    match Value.get? entry.details "event_id" with
    | some (.str text) => text = externalEventId
    | _ => false

def entriesFor (externalEventId : String) (db : Db) : List AuditLog :=
  (db .auditLogs).filter (carriesEvent externalEventId)

/-- A processed event has one entry, and another one has none. -/
def AppliedOnce (db : Db) (event : WebhookEvent) : Prop :=
  if event.status = .processed then (entriesFor event.externalEventId db).length = 1
  else entriesFor event.externalEventId db = []

/-- The events of a database and their entries. -/
structure OnceState (db : Db) : Prop where
  provider : ∀ event : WebhookEvent, event ∈ db .webhookEvents → event.provider = provider
  applied : ∀ event : WebhookEvent, event ∈ db .webhookEvents → AppliedOnce db event
  covered : ∀ externalEventId, entriesFor externalEventId db ≠ [] →
    ∃ event : WebhookEvent, event ∈ db .webhookEvents ∧ event.externalEventId = externalEventId

/-- A commit keeps the processed events as they are. A repeated attempt at one of them changes nothing
at all, and deliveries and failure marks change no subscription. -/
structure KeepsProcessed (rt : Runtime) (c : Commit schema Transaction) : Prop where
  kept : ∀ event : WebhookEvent, event ∈ c.before .webhookEvents → event.status = .processed →
    event ∈ c.after .webhookEvents
  repeated : ∀ webhookEventId at? (event : WebhookEvent),
    c.tag = .processWebhookEvent webhookEventId at? → event ∈ c.before .webhookEvents →
      rt.parseUuid webhookEventId = some event.id → event.status = .processed → c.after = c.before
  delivered : ∀ event, c.tag = .storeWebhookEvent event → c.after .subscriptions = c.before .subscriptions
  marked : ∀ webhookEventId, c.tag = .markWebhookFailed webhookEventId →
    c.after .subscriptions = c.before .subscriptions

/-- A commit that changed subscriptions on behalf of an event has left it processed. -/
def AppliedBy (rt : Runtime) (db : Db) (c : Commit schema Transaction) : Prop :=
  ∀ webhookEventId at?, c.tag = .processWebhookEvent webhookEventId at? →
    c.after .subscriptions = c.before .subscriptions ∨
      ∃ event : WebhookEvent, event ∈ db .webhookEvents ∧
        rt.parseUuid webhookEventId = some event.id ∧ event.status = .processed

/-- The invariant. -/
structure ExactlyOnce (rt : Runtime) (s : Shared schema Env Transaction) : Prop where
  state : OnceState s.db
  kept : ∀ c ∈ s.log, KeepsProcessed rt c
  behalf : ∀ c ∈ s.log, AppliedBy rt s.db c

variable {rt : Runtime} {P : Protocol schema Env Transaction} {σ : Session schema}
  {s : Shared schema Env Transaction} {db db' : Db}

theorem exactlyOnce_ambient : Ambient (ExactlyOnce rt) :=
  ⟨fun _ _ h _ => ⟨h.state, h.kept, h.behalf⟩, fun _ h => ⟨h.state, h.kept, h.behalf⟩⟩

/-! ### Entries -/

theorem carriesEvent_webhook {organizationId : Uuid} {event : WebhookEvent}
    {before changed : Subscription} {id : Uuid} {createdAt : DateTime} {externalEventId : String} :
    carriesEvent externalEventId (webhookEntry rt organizationId event before changed id createdAt) =
      decide (event.externalEventId = externalEventId) := by
  simp [carriesEvent, webhookEntry, webhookDetails, Value.get?]

theorem carriesEvent_plan {organizationId : Uuid} {plan : Plan} {actorUserId : Uuid}
    {ipAddress : Option String} {before : Subscription} {id : Uuid} {createdAt : DateTime}
    {externalEventId : String} :
    carriesEvent externalEventId
      (planEntry rt organizationId plan actorUserId ipAddress before id createdAt) = false := by
  simp [carriesEvent, planEntry, Value.get?]

theorem entriesFor_of_clean (hw : σ.writes .auditLogs = []) (externalEventId : String) :
    entriesFor externalEventId (σ.view db) = entriesFor externalEventId db := by
  rw [entriesFor, Session.view_of_nil hw, entriesFor]

theorem entriesFor_of_inserted {id : Uuid} {entry : AuditLog}
    (hw : σ.writes .auditLogs = [(id, some entry)]) (hvacant : σ.Vacant db .auditLogs id)
    (hid : entry.id = id) (externalEventId : String) :
    entriesFor externalEventId (σ.view db) = entriesFor externalEventId db ++
      if carriesEvent externalEventId entry = true then [entry] else [] := by
  subst hid
  have hview : σ.view db .auditLogs = db .auditLogs ++ [entry] :=
    Session.view_of_insert (S := schema) (t := .auditLogs) hw hvacant.current
  rw [entriesFor, hview, List.filter_append, entriesFor]
  by_cases hcarries : carriesEvent externalEventId entry = true <;> simp [hcarries]

/-- In an integral database with one provider, events are known by their external ids. -/
theorem OnceState.eq_of_external (h : OnceState db) (hdb : db.Integral) {a b : WebhookEvent}
    (ha : a ∈ db .webhookEvents) (hb : b ∈ db .webhookEvents)
    (hext : a.externalEventId = b.externalEventId) : a = b := by
  refine hdb.eq_of_id (t := .webhookEvents) ha hb (hdb.unique .webhookEvents a ha b hb
    (.webhook TenantForge.provider a.externalEventId) ?_ ?_)
  · simp [uniqueValues, h.provider a ha]
  · simp [uniqueValues, h.provider b hb, hext]

/-- A commit that touches no event and adds no entry for one. -/
theorem OnceState.congr (h : OnceState db) (hevents : db' .webhookEvents = db .webhookEvents)
    (hentries : ∀ externalEventId, entriesFor externalEventId db' = entriesFor externalEventId db) :
    OnceState db' := by
  refine ⟨?_, ?_, ?_⟩
  · rw [hevents]
    exact h.provider
  · intro event hmem
    rw [hevents] at hmem
    simpa only [AppliedOnce, hentries] using h.applied event hmem
  · rw [hevents]
    simpa only [hentries] using h.covered

/-! ### Commits -/

theorem WebhookStored.view {event : BillingWebhook} {stored : WebhookEvent}
    (h : WebhookStored event .empty σ db stored) :
    σ.view db .webhookEvents = db .webhookEvents ++ [stored] := by
  have hw : σ.writes .webhookEvents = [(stored.id, some stored)] := by
    rw [h.writes, Overlay.put_table_of_nil rfl]
  exact Session.view_of_insert (S := schema) (t := .webhookEvents) hw (h.vacant rfl).current

theorem WebhookStored.others {event : BillingWebhook} {stored : WebhookEvent}
    (h : WebhookStored event .empty σ db stored) {t : Table} (ht : t ≠ .webhookEvents) :
    σ.writes t = [] := by
  rw [h.writes, Overlay.put_table_ne _ ht]
  rfl

theorem WebhookStored.onceState {event : BillingWebhook} {stored : WebhookEvent}
    (h : WebhookStored event .empty σ db stored) (hdb : db.Integral) (hσ : σ.Sound db)
    (hinv : OnceState db) : OnceState (σ.view db) := by
  have hview := h.view
  have hentries : ∀ externalEventId, entriesFor externalEventId (σ.view db) =
      entriesFor externalEventId db := entriesFor_of_clean (h.others (by decide))
  have hprovider : stored.provider = provider := by rw [h.contents]
  -- an entry for the new event would have an event of its own, with the same unique value
  have hnew : entriesFor stored.externalEventId db = [] := by
    by_contra hne
    obtain ⟨old, hold, hext⟩ := hinv.covered _ hne
    have hid := (hσ.integral hdb).unique .webhookEvents old (hview ▸ List.mem_append_left _ hold) stored
      (hview ▸ List.mem_append_right _ List.mem_cons_self) (.webhook provider stored.externalEventId)
      (by simp [uniqueValues, hinv.provider old hold, hext]) (by simp [uniqueValues, hprovider])
    exact Store.lookup_eq_none.mp (h.vacant rfl).current old hold hid
  refine ⟨fun row hrow => ?_, fun row hrow => ?_, fun externalEventId hne => ?_⟩
  · rw [hview] at hrow
    rcases List.mem_append.mp hrow with hrow | hrow
    · exact hinv.provider row hrow
    · rw [List.mem_singleton.mp hrow, hprovider]
  · rw [hview] at hrow
    simp only [AppliedOnce, hentries]
    rcases List.mem_append.mp hrow with hrow | hrow
    · exact hinv.applied row hrow
    · obtain rfl := List.mem_singleton.mp hrow
      rw [if_neg (by rw [h.contents]; simp), hnew]
  · rw [hentries] at hne
    obtain ⟨row, hrow, hext⟩ := hinv.covered externalEventId hne
    exact ⟨row, hview ▸ List.mem_append_left _ hrow, hext⟩

/-- A new version of one event that keeps its keys. -/
theorem mem_view_event {event version : WebhookEvent} (hdb : db.Integral)
    (hw : σ.writes .webhookEvents = [(event.id, some version)]) (hmem : event ∈ db .webhookEvents)
    (row : WebhookEvent) : row ∈ σ.view db .webhookEvents ↔
      (row ∈ db .webhookEvents ∧ row ≠ event) ∨ row = version := by
  have hview : row ∈ σ.view db .webhookEvents ↔ (row ∈ db .webhookEvents ∧ row.id ≠ event.id) ∨
      some version = some row := Overlay.mem_apply_single hw
  rw [hview, Option.some.injEq, eq_comm (a := version)]
  refine or_congr_left (and_congr_right fun hrow => not_congr ⟨fun hid => ?_, fun heq => heq ▸ rfl⟩)
  exact hdb.eq_of_id (t := .webhookEvents) hrow hmem hid

section Marked

variable {webhookEventId : String} {event : WebhookEvent}

theorem WebhookMarked.others (h : WebhookMarked rt webhookEventId .empty σ db event) {t : Table}
    (ht : t ≠ .webhookEvents) : σ.writes t = [] := by
  rw [h.writes, Overlay.put_table_ne _ ht]
  rfl

theorem WebhookMarked.mem_view (h : WebhookMarked rt webhookEventId .empty σ db event)
    (hdb : db.Integral) (row : WebhookEvent) : row ∈ σ.view db .webhookEvents ↔
      (row ∈ db .webhookEvents ∧ row ≠ event) ∨ row = event.failed := by
  have hw : σ.writes .webhookEvents = [(event.id, some event.failed)] := by
    rw [h.writes, Overlay.put_table_of_nil rfl]
  exact mem_view_event hdb hw h.locked.mem row

theorem WebhookMarked.onceState (h : WebhookMarked rt webhookEventId .empty σ db event)
    (hdb : db.Integral) (hinv : OnceState db) : OnceState (σ.view db) := by
  have hview := h.mem_view hdb
  have hentries : ∀ externalEventId, entriesFor externalEventId (σ.view db) =
      entriesFor externalEventId db := entriesFor_of_clean (h.others (by decide))
  refine ⟨fun row hrow => ?_, fun row hrow => ?_, fun externalEventId hne => ?_⟩
  · rcases (hview row).mp hrow with ⟨hrow, _⟩ | rfl
    · exact hinv.provider row hrow
    · exact hinv.provider event h.locked.mem
  · simp only [AppliedOnce, hentries]
    rcases (hview row).mp hrow with ⟨hrow, _⟩ | rfl
    · exact hinv.applied row hrow
    · have happlied := hinv.applied event h.locked.mem
      rw [AppliedOnce, if_neg h.status] at happlied
      rw [if_neg (by simp [WebhookEvent.failed])]
      exact happlied
  · rw [hentries] at hne
    obtain ⟨row, hrow, hext⟩ := hinv.covered externalEventId hne
    by_cases hsame : row = event
    · exact ⟨event.failed, (hview _).mpr (Or.inr rfl), by rw [← hext, hsame]; rfl⟩
    · exact ⟨row, (hview row).mpr (Or.inl ⟨hrow, hsame⟩), hext⟩

end Marked

section Processed

variable {webhookEventId : String} {at? : Option DateTime} {event : WebhookEvent}
  {organizationId : Uuid} {before changed after : Subscription}

theorem WebhookProcessed.onceState
    (h : WebhookProcessed rt webhookEventId at? .empty σ db event organizationId before changed after)
    (hdb : db.Integral) (hinv : OnceState db) : OnceState (σ.view db) := by
  obtain ⟨processedAt, hw⟩ := h.marked
  obtain ⟨id, createdAt, haudit, hvacant⟩ := h.audited
  rw [Overlay.put_table_of_nil rfl] at haudit
  have hview := mem_view_event hdb hw h.locked.mem
  have hentries := entriesFor_of_inserted haudit (hvacant rfl) rfl
  simp only [carriesEvent_webhook, decide_eq_true_eq] at hentries
  refine ⟨fun row hrow => ?_, fun row hrow => ?_, fun externalEventId hne => ?_⟩
  · rcases (hview row).mp hrow with ⟨hrow, _⟩ | rfl
    · exact hinv.provider row hrow
    · exact hinv.provider event h.locked.mem
  · rcases (hview row).mp hrow with ⟨hrow, hother⟩ | rfl
    · have hext : event.externalEventId ≠ row.externalEventId := fun hext =>
        hother (hinv.eq_of_external hdb hrow h.locked.mem hext.symm)
      rw [AppliedOnce, hentries, if_neg hext, List.append_nil]
      exact hinv.applied row hrow
    · have happlied := hinv.applied event h.locked.mem
      rw [AppliedOnce, if_neg h.status] at happlied
      simp [AppliedOnce, hentries, WebhookEvent.processed, happlied]
  · rw [hentries] at hne
    by_cases hext : event.externalEventId = externalEventId
    · exact ⟨event.processed processedAt, (hview _).mpr (Or.inr rfl), hext⟩
    · rw [if_neg hext, List.append_nil] at hne
      obtain ⟨row, hrow, hrowExt⟩ := hinv.covered externalEventId hne
      refine ⟨row, (hview row).mpr (Or.inl ⟨hrow, ?_⟩), hrowExt⟩
      rintro rfl
      exact hext hrowExt

end Processed

/-- Any commit but a deletion keeps the state. -/
theorem Effect.onceState {transaction : Transaction} (h : Effect rt P transaction σ s)
    (hkeeps : transaction.deletes = false) (hdb : s.db.Integral) (hσ : σ.Sound s.db)
    (hinv : OnceState s.db) : OnceState (σ.view s.db) := by
  cases h with
  | deleted h => cases hkeeps
  | created h =>
    obtain ⟨subscription, current, entry, _, hrecorded, _, hw⟩ := h.written
    have hentry : σ.writes .auditLogs = [(entry.id, some entry)] := by
      simp [hw, Overlay.put_table_self]
    refine hinv.congr (Session.view_of_nil (by simp [hw]) _) fun externalEventId => ?_
    rw [entriesFor_of_inserted hentry (hrecorded.vacant rfl) rfl, if_neg (by simp [carriesEvent, hrecorded.records.action]),
      List.append_nil]
  | planChanged h =>
    refine hinv.congr (Session.view_of_nil (h.writes _ (by decide) (by decide)) _)
      fun externalEventId => ?_
    rcases h.audited with ⟨_, hw⟩ | ⟨_, id, createdAt, hw, hvacant⟩
    · exact entriesFor_of_clean hw externalEventId
    · rw [Overlay.put_table_of_nil rfl] at hw
      rw [entriesFor_of_inserted hw (hvacant rfl) rfl, carriesEvent_plan]
      simp
  | recorded h =>
    exact hinv.congr (Session.view_of_nil (h.others (by decide)) _)
      (entriesFor_of_clean (h.others (by decide)))
  | stored h => exact h.onceState hdb hσ hinv
  | processed h => exact h.onceState hdb hinv
  | marked h => exact h.onceState hdb hinv
  | idle _ hw =>
    exact hinv.congr (Session.view_of_nil (by rw [hw]; rfl) _)
      (entriesFor_of_clean (by rw [hw]; rfl))

/-- A commit that touches no event, and is not about one. -/
theorem KeepsProcessed.of_clean {transaction : Transaction} (hw : σ.writes .webhookEvents = [])
    (hwebhook : transaction.onWebhook = false) : KeepsProcessed rt ⟨transaction, σ, db⟩ := by
  refine ⟨fun event hmem _ => ?_, fun _ _ _ htag => ?_, fun _ htag => ?_, fun _ htag => ?_⟩
  · rwa [Commit.after, Session.view_of_nil hw]
  all_goals
    dsimp only at htag
    rw [htag] at hwebhook
    cases hwebhook

theorem Effect.keepsProcessed {transaction : Transaction} (h : Effect rt P transaction σ s)
    (hkeeps : transaction.deletes = false) (hdb : s.db.Integral) :
    KeepsProcessed rt ⟨transaction, σ, s.db⟩ := by
  cases h with
  | deleted h => cases hkeeps
  | created h =>
    obtain ⟨_, _, _, _, _, _, hw⟩ := h.written
    exact .of_clean (by simp [hw]) rfl
  | planChanged h => exact .of_clean (h.writes _ (by decide) (by decide)) rfl
  | recorded h => exact .of_clean (h.others (by decide)) rfl
  | stored h =>
    refine ⟨fun row hrow _ => ?_, fun _ _ _ htag => (nomatch htag), fun _ _ => ?_,
      fun _ htag => (nomatch htag)⟩
    · rw [Commit.after, h.view]
      exact List.mem_append_left _ hrow
    · exact Session.view_of_nil (h.others (by decide)) _
  | marked h =>
    refine ⟨fun row hrow hprocessed => ?_, fun _ _ _ htag => (nomatch htag),
      fun _ htag => (nomatch htag), fun _ _ => ?_⟩
    · refine (h.mem_view hdb row).mpr (Or.inl ⟨hrow, ?_⟩)
      rintro rfl
      exact h.status hprocessed
    · exact Session.view_of_nil (h.others (by decide)) _
  | @processed _ _ _ _ event _ _ _ _ h =>
    obtain ⟨processedAt, hw⟩ := h.marked
    have hother : ∀ row : WebhookEvent, row.status = .processed → row ≠ event := by
      rintro row hprocessed rfl
      exact h.status hprocessed
    refine ⟨fun row hrow hprocessed => ?_, fun webhookEventId' at? row htag hrow hparsed hprocessed => ?_,
      fun _ htag => (nomatch htag), fun _ htag => (nomatch htag)⟩
    · exact (mem_view_event hdb hw h.locked.mem _).mpr (Or.inl ⟨hrow, hother row hprocessed⟩)
    · cases htag
      have hid : row.id = event.id := Option.some.inj (hparsed.symm.trans h.parsed)
      exact absurd (hdb.eq_of_id (t := .webhookEvents) hrow h.locked.mem hid) (hother row hprocessed)
  | idle _ hw =>
    have hsame : σ.view s.db = s.db := by rw [Session.view, hw, Overlay.apply_empty]
    refine ⟨fun row hrow _ => ?_, fun _ _ _ _ _ _ _ => hsame, fun _ _ => ?_, fun _ _ => ?_⟩
    · rwa [Commit.after, hsame]
    · rw [Commit.after, hsame]
    · rw [Commit.after, hsame]

theorem Effect.appliedBy {transaction : Transaction} (h : Effect rt P transaction σ s)
    (hdb : s.db.Integral) : AppliedBy rt (σ.view s.db) ⟨transaction, σ, s.db⟩ := by
  intro webhookEventId at? htag
  cases h with
  | processed h =>
    cases htag
    obtain ⟨processedAt, hw⟩ := h.marked
    exact Or.inr ⟨_, (mem_view_event hdb hw h.locked.mem _).mpr (Or.inr rfl), h.parsed, rfl⟩
  | idle _ hw => exact Or.inl (by rw [Commit.after, Session.view, hw, Overlay.apply_empty])
  | _ => cases htag

theorem Effect.exactlyOnce {transaction : Transaction} (h : Effect rt P transaction σ s)
    (hkeeps : transaction.deletes = false) (hdb : s.db.Integral) (hσ : σ.Sound s.db)
    (hinv : ExactlyOnce rt s) : ExactlyOnce rt (s.commit transaction σ) := by
  have hkept := h.keepsProcessed hkeeps hdb
  refine ⟨h.onceState hkeeps hdb hσ hinv.state, ?_, ?_⟩
  · rw [Shared.commit_log, List.forall_mem_cons]
    exact ⟨hkept, hinv.kept⟩
  · rw [Shared.commit_log, List.forall_mem_cons]
    refine ⟨h.appliedBy hdb, fun c hc webhookEventId at? htag => ?_⟩
    exact (hinv.behalf c hc webhookEventId at? htag).imp_right
      fun ⟨event, hmem, hparsed, hprocessed⟩ => ⟨event, hkept.kept event hmem hprocessed, hparsed, hprocessed⟩

/-! ### Runs -/

/-- What exactly once means for a committed database and the commits that led to it. -/
structure OnceOnly (rt : Runtime) (s : Shared schema Env Transaction) : Prop where
  unique : ∀ a b : WebhookEvent, a ∈ s.db .webhookEvents → b ∈ s.db .webhookEvents →
    a.provider = b.provider → a.externalEventId = b.externalEventId → a = b
  processed : ∀ event : WebhookEvent, event ∈ s.db .webhookEvents →
    (event.status = .processed ↔ (entriesFor event.externalEventId s.db).length = 1)
  unprocessed : ∀ event : WebhookEvent, event ∈ s.db .webhookEvents → event.status ≠ .processed →
    entriesFor event.externalEventId s.db = [] ∧
      ∀ c ∈ s.log, ∀ webhookEventId at?, c.tag = .processWebhookEvent webhookEventId at? →
        rt.parseUuid webhookEventId = some event.id → c.after .subscriptions = c.before .subscriptions
  kept : ∀ c ∈ s.log, KeepsProcessed rt c

theorem ExactlyOnce.onceOnly (h : ExactlyOnce rt s) (hdb : s.db.Integral) : OnceOnly rt s := by
  refine ⟨fun a b ha hb _ hext => h.state.eq_of_external hdb ha hb hext, fun event hmem => ?_,
    fun event hmem hstatus => ⟨?_, fun c hc webhookEventId at? htag hparsed => ?_⟩, h.kept⟩
  · have happlied := h.state.applied event hmem
    by_cases hstatus : event.status = .processed
    · rw [AppliedOnce, if_pos hstatus] at happlied
      exact iff_of_true hstatus happlied
    · rw [AppliedOnce, if_neg hstatus] at happlied
      exact iff_of_false hstatus (by simp [happlied])
  · have happlied := h.state.applied event hmem
    rwa [AppliedOnce, if_neg hstatus] at happlied
  · refine (h.behalf c hc webhookEventId at? htag).resolve_right ?_
    rintro ⟨other, hother, hparsed', hprocessed⟩
    have hid : other.id = event.id := Option.some.inj (hparsed'.symm.trans hparsed)
    obtain rfl := hdb.eq_of_id (t := .webhookEvents) hother hmem hid
    exact hstatus hprocessed

/-- **Webhook effects happen exactly once**, whatever deliveries, attempts, failure marks and aborts
interleave. -/
theorem onceOnly_of_reach (rt : Runtime) {s : Shared schema Env Transaction}
    {transactions : List Transaction} {w : World schema Env Exn Transaction Unit} (hlog : s.log = [])
    (hdb : s.db.Integral) (hinit : OnceState s.db)
    (hkeeps : ∀ transaction ∈ transactions, transaction.deletes = false)
    (hreach : (startTransactions rt s transactions).Reach w) : OnceOnly rt w.shared := by
  have hinv : ExactlyOnce rt s := ⟨hinit, by simp [hlog], by simp [hlog]⟩
  obtain ⟨hexactly, hintegral⟩ := invariant_of_reach rt exactlyOnce_ambient
    (fun transaction hmem _ _ hdb hσ hinv heffect =>
      heffect.exactlyOnce (hkeeps transaction hmem) hdb hσ hinv) hinv hdb hreach
  exact hexactly.onceOnly hintegral

namespace Reference

/-- An organization with a subscription. -/
def subscriber : Tables where
  users := [user 1]
  organizations := [organization 5]
  subscriptions := [subscription 15 5 .free 0 4]

/-- Two deliveries of one event, which gets the id 1000, two attempts at it and a failure mark. -/
def deliveries : List Transaction :=
  let event := subscriptionUpdated "evt-1" 5 "pro" "active" (some (noon 8, noon 20))
  [.storeWebhookEvent event, .storeWebhookEvent event, .processWebhookEvent (uuidText 1000) none,
    .processWebhookEvent (uuidText 1000) none, .markWebhookFailed (uuidText 1000)]

/-- The first attempt is aborted in the middle; the failure mark waits while the second one goes on. -/
def deliverTogether : World schema Env Exn Transaction Unit :=
  (startTransactions runtime (shared Transaction (fun _ => noon 1) subscriber) deliveries).playAll
    ([Move.run 0, .run 1, .run 0, .run 1] ++ List.replicate 9 (Move.run 0) ++ List.replicate 9 (Move.run 1) ++
      List.replicate 12 (Move.run 2) ++ [Move.abort 2, .run 2] ++ List.replicate 6 (Move.run 3) ++
      List.replicate 3 (Move.run 4) ++ List.replicate 40 (Move.run 3) ++ List.replicate 20 (Move.run 4))

theorem onceState_subscriber : OnceState subscriber.db := by
  refine ⟨fun event hmem => ?_, fun event hmem => ?_, fun externalEventId hne => absurd rfl hne⟩
  · cases (hmem : event ∈ [])
  · cases (hmem : event ∈ [])

theorem onceOnly_of_deliveries : OnceOnly runtime deliverTogether.shared :=
  onceOnly_of_reach runtime rfl (ValidDb.integral (by decide +kernel)) onceState_subscriber
    (by simp [deliveries, Transaction.deletes]) (World.reach_playAll _ _)

example : (deliverTogether.shared.db .webhookEvents).map WebhookEvent.status = [.processed] := by
  decide +kernel

end Reference

end TenantForge
