import TenantForge.Contracts.Billing
import TenantForge.Services.Webhooks
/-!
# Contracts of the webhook operations

What a transaction that processed, stored or marked a webhook event has written. The event's row is
locked before its status is read, so the status still stands at the commit.
-/

namespace TenantForge

open Gregorian ReadCommitted

variable {T : Type} {P : Protocol schema Env T} {tag : T} {R : Exn → Assertion schema Env T}
  {σ : Session schema} {s s' : Shared schema Env T} {rt : Runtime}

/-! ### Validation -/

theorem wp_validateSubscription {object : List (String × Value)} {Q : Unit → Assertion schema Env T}
    (hD : P.Tolerates Env.Drawn) (hR : Harmless P R) (hnow : Interferes P tag σ s s)
    (h : ∀ s', Later P tag σ.locks s s' → Interferes P tag σ s' s' → Q () σ s') :
    wp P tag Q R (validateSubscription rt object) σ s := by
  rw [validateSubscription]
  simp only [Prog.bind_eq, wp_bind]
  refine wp_raiseIf (fun _ => hR _ _ _ hnow.inv hnow.integral) fun _ => ?_
  refine wp_raiseIf (fun _ => hR _ _ _ hnow.inv hnow.integral) fun _ => ?_
  refine wp_raiseIf (fun _ => hR _ _ _ hnow.inv hnow.integral) fun _ => ?_
  have hrest : ∀ s', Later P tag σ.locks s s' → Interferes P tag σ s' s' →
      wp P tag (fun _ => wp P tag Q R (raiseIf (validIdentifier (getOrNull object "subscription_id") = false)
        (invalidWebhookEvent "Webhook subscription_id is invalid"))) R
        (raiseIf (validIdentifier (getOrNull object "customer_id") = false)
          (invalidWebhookEvent "Webhook customer_id is invalid")) σ s' := fun s' hs hnow' =>
    wp_raiseIf (fun _ => hR _ _ _ hnow'.inv hnow'.integral) fun _ =>
      wp_raiseIf (fun _ => hR _ _ _ hnow'.inv hnow'.integral) fun _ => h s' hs hnow'
  refine wp_runIf (fun _ => ?_) fun _ => hrest s .refl hnow
  simp only [validatePeriod, Prog.bind_eq, wp_bind]
  refine wp_now hD fun s₁ _ h₁ hnow₁ => ?_
  refine wp_orRaise (fun _ => hR _ _ _ hnow₁.inv hnow₁.integral) fun start _ => ?_
  refine wp_now hD fun s₂ _ h₂ hnow₂ => ?_
  refine wp_orRaise (fun _ => hR _ _ _ hnow₂.inv hnow₂.integral) fun stop _ => ?_
  exact wp_raiseIf (fun _ => hR _ _ _ hnow₂.inv hnow₂.integral) fun _ =>
    hrest _ (h₁.trans h₂) hnow₂

theorem wp_validateWebhook {event : BillingWebhook}
    {Q : List (String × Value) → Assertion schema Env T} (hD : P.Tolerates Env.Drawn)
    (hR : Harmless P R) (hnow : Interferes P tag σ s s)
    (h : ∀ object s', objectField event = some object → Later P tag σ.locks s s' →
      Interferes P tag σ s' s' → Q object σ s') :
    wp P tag Q R (validateWebhook rt event) σ s := by
  rw [validateWebhook]
  simp only [Prog.bind_eq, wp_bind]
  refine wp_raiseIf (fun _ => hR _ _ _ hnow.inv hnow.integral) fun _ => ?_
  refine wp_orRaise (fun _ => hR _ _ _ hnow.inv hnow.integral) fun object hobject => ?_
  refine wp_raiseIf (fun _ => hR _ _ _ hnow.inv hnow.integral) fun _ => ?_
  exact wp_runIf (fun _ => wp_validateSubscription hD hR hnow fun s₁ h₁ hnow₁ => h object s₁ hobject h₁ hnow₁)
    fun _ => h object s hobject .refl hnow

/-! ### Processing -/

theorem wp_lockedSubscription (hP : Guards P .subscriptions) {organizationId : Uuid}
    {Q : Subscription → Assertion schema Env T} (hD : P.Tolerates Env.Drawn) (hR : Harmless P R)
    (horg : σ.writes .organizations = []) (hsub : σ.writes .subscriptions = [])
    (hloaded : σ.loaded .subscriptions = [])
    (h : ∀ subscription σ' s', Interferes P tag σ' s' s' →
      Later P tag σ.locks s s' →
      SubscriptionFound organizationId none σ σ' s'.db subscription → Q subscription σ' s') :
    wp P tag Q R (lockedSubscription organizationId) σ s := by
  rw [lockedSubscription]
  simp only [Prog.bind_eq, wp_bind]
  refine wp_scalarForUpdate (S := schema) (t := .organizations) hR.escapes horg
    (fun σ₁ s₁ h₁ _ => hR _ _ _ h₁.inv h₁.integral) fun organization σ₁ s₁ h₁ hext₁ hid hlocked _ => ?_
  have hheld : HoldsOrganization organizationId (σ₁.attach (t := .organizations) organization).locks := by
    have hid : organization.id = organizationId := by simpa [isOrganization] using hid
    have hheld := holdsOrganization_of_locked hlocked
    rwa [hid] at hheld
  have hnow₁ := (h₁.extend hext₁).attach (t := .organizations) organization
  have hw₁ : (σ₁.attach (t := .organizations) organization).writes = σ.writes := by
    rw [Session.writes_attach, hext₁.writes]
  have hl₁ : σ.locks ⊆ (σ₁.attach (t := .organizations) organization).locks := by
    rw [Session.locks_attach]
    exact hext₁.locks
  have hloaded₁ : (σ₁.attach (t := .organizations) organization).loaded .subscriptions = [] := by
    rw [Session.loaded_attach_ne _ (by decide), hext₁.loaded, hloaded]
  generalize σ₁.attach (t := .organizations) organization = σ₂ at hheld hnow₁ hw₁ hl₁ hloaded₁ ⊢
  refine wp_scalarForUpdate (S := schema) (t := .subscriptions) hR.escapes (by rw [hw₁, hsub])
    (fun σ₃ s₂ h₂ hext => ?_) fun subscription σ₃ s₂ h₂ hext hof hlocked _ => ?_
  · refine wp_createDefaultSubscription hD hR (h₂.extend hext)
      fun subscription current σ₄ s₃ hdefault hgiven h₃ hnow₃ hadded => ?_
    obtain ⟨hnone, hsees⟩ := sees_of_added tag hP (by rw [hext.writes, hw₁, hsub])
      (hheld.mono hext.locks) hdefault hadded .refl
    refine h subscription σ₄ s₃ hnow₃ ?_ ⟨hsees, Or.inr ⟨hnone, current, hdefault, hgiven⟩, fun t ht => ?_,
      fun _ hmem => hadded.locks (hext.locks (hl₁ hmem))⟩
    · exact (Later.of_interferes h₁).trans (((Later.of_interferes h₂).mono hl₁).trans
        (h₃.mono fun _ hmem => hext.locks (hl₁ hmem)))
    · rw [hadded.writes, Overlay.put_table_ne _ ht, hext.writes, hw₁]
  · have hcopy : σ₂.copyOf (t := .subscriptions) subscription = subscription := by
      rw [Session.copyOf, hloaded₁]
      rfl
    have hstored := subscriptionOf_of_mem h₂.integral hlocked.mem hof
    rw [hcopy]
    refine h subscription _ s₂ ((h₂.extend hext).attach _)
      ((Later.of_interferes h₁).trans ((Later.of_interferes h₂).mono hl₁))
      ⟨⟨hheld.mono hext.locks, ?_, Or.inl ⟨hstored, ?_⟩⟩, Or.inl hstored, fun t _ => ?_,
        fun _ hmem => hext.locks (hl₁ hmem)⟩
    · simpa [isSubscriptionOf] using hof
    · rw [Session.writes_attach, hext.writes, hw₁, hsub]
    · rw [Session.writes_attach, hext.writes, hw₁]

/-- An event changes neither the keys of a subscription nor its time of creation. -/
theorem applyEvent_keys {eventType : String} {object : List (String × Value)} {start stop : DateTime}
    {subscription changed : Subscription}
    (h : applyEvent rt eventType object start stop subscription = .ok changed) :
    changed.id = subscription.id ∧ changed.organizationId = subscription.organizationId ∧
      changed.createdAt = subscription.createdAt := by
  unfold applyEvent at h
  split at h
  · unfold applyObject at h
    simp only [bind, Except.bind] at h
    split at h
    · split at h
      · split at h
        · cases h
        · split at h
          · cases h
          · split at h
            · cases h
            · split at h
              · cases h
              · split at h
                · cases h
                · cases h; exact ⟨rfl, rfl, rfl⟩
      · cases h
    · cases h
  · split at h
    · cases h; exact ⟨rfl, rfl, rfl⟩
    · split at h <;> cases h <;> exact ⟨rfl, rfl, rfl⟩

/-- The entry that a processed event leaves in the audit log. -/
def webhookEntry (rt : Runtime) (organizationId : Uuid) (event : WebhookEvent)
    (before after : Subscription) (id : Uuid) (createdAt : DateTime) : AuditLog :=
  ⟨id, organizationId, none, "subscription.changed", "subscription", rt.uuidText before.id,
    webhookDetails event before after, none, createdAt⟩

/-- A processed event. -/
def WebhookEvent.processed (event : WebhookEvent) (processedAt : DateTime) : WebhookEvent :=
  { event with status := .processed, processedAt := some processedAt }

/-- `process_webhook_event` has returned true. -/
structure WebhookProcessed (rt : Runtime) (webhookEventId : String) (at? : Option DateTime)
    (σ₀ σ : Session schema) (db : Db) (event : WebhookEvent) (organizationId : Uuid)
    (before changed after : Subscription) : Prop where
  parsed : rt.parseUuid webhookEventId = some event.id
  locked : σ.Locked db (t := .webhookEvents) event
  status : event.status ≠ .processed
  sees : SeesSubscription organizationId σ db after
  origin : IsOrigin organizationId none db before
  applied : ∃ body object current period, BillingWebhook.modelValidate event.payload = some body ∧
    objectField body = some object ∧ organizationField rt object = some organizationId ∧
    (∀ given, at? = some given → current = given) ∧ calendarPeriod current = some period ∧
    applyEvent rt event.eventType object period.1 period.2 before = .ok changed
  flushed : Flushed before changed after
  writes : ∀ t, t ≠ .subscriptions → t ≠ .auditLogs → t ≠ .webhookEvents → σ.writes t = σ₀.writes t
  audited : ∃ id createdAt, σ.writes .auditLogs = σ₀.writes.put .auditLogs id
    (some (webhookEntry rt organizationId event before changed id createdAt)) .auditLogs ∧
    (σ₀.writes .auditLogs = [] → σ.Vacant db .auditLogs id)
  marked : ∃ processedAt, σ.writes .webhookEvents = [(event.id, some (event.processed processedAt))]

theorem WebhookProcessed.later (hP : Guards P .subscriptions) {webhookEventId : String}
    {at? : Option DateTime} {σ₀ : Session schema} {event : WebhookEvent} {organizationId : Uuid}
    {before changed after : Subscription}
    (h : WebhookProcessed rt webhookEventId at? σ₀ σ s.db event organizationId before changed after)
    (hs : Later P tag σ.locks s s') :
    WebhookProcessed rt webhookEventId at? σ₀ σ s'.db event organizationId before changed after :=
  { h with
    locked := h.locked.frozen hs.frozen
    sees := h.sees.later hP hs
    origin := h.origin.later hP h.sees.held hs
    audited := by
      obtain ⟨id, createdAt, hw, hvacant⟩ := h.audited
      exact ⟨id, createdAt, hw, fun hclean => (hvacant hclean).frozen hs.frozen⟩ }

theorem wp_processWebhookEvent (hP : Guards P .subscriptions) {webhookEventId : String}
    {at? : Option DateTime} {Q : WebhookEvent × Bool → Assertion schema Env T}
    (hD : P.Tolerates Env.Drawn) (hR : Harmless P R) (hnow : Interferes P tag .empty s s)
    (hdone : ∀ event σ' s', Interferes P tag σ' s' s' → σ'.writes = .empty →
      rt.parseUuid webhookEventId = some event.id → σ'.Locked s'.db (t := .webhookEvents) event →
      event.status = .processed → Q (event, false) σ' s')
    (h : ∀ event organizationId before changed after result σ' s', Interferes P tag σ' s' s' →
      WebhookProcessed rt webhookEventId at? .empty σ' s'.db event organizationId before changed after →
      Q (result, true) σ' s') :
    wp P tag Q R (processWebhookEvent rt webhookEventId at?) .empty s := by
  rw [processWebhookEvent]
  simp only [Prog.bind_eq, wp_bind]
  refine wp_orRaise (fun _ => hR _ _ _ hnow.inv hnow.integral) fun eventId hparsed => ?_
  refine wp_scalarForUpdate (S := schema) (t := .webhookEvents) hR.escapes rfl
    (fun σ₁ s₁ h₁ _ => hR _ _ _ h₁.inv h₁.integral) fun event σ₁ s₁ h₁ hext₁ hid hlocked _ => ?_
  have hid : event.id = eventId := by simpa [hasEventId] using hid
  have hcopy : Session.copyOf (S := schema) .empty (t := .webhookEvents) event = event := rfl
  have hnow₁ := (h₁.extend hext₁).attach (t := .webhookEvents) event
  have hlocked₁ : (σ₁.attach (t := .webhookEvents) event).Locked s₁.db (t := .webhookEvents) event :=
    hlocked.mono (List.Subset.refl _)
  have hw₁ : (σ₁.attach (t := .webhookEvents) event).writes = .empty := hext₁.writes
  have hloaded₁ : (σ₁.attach (t := .webhookEvents) event).loaded .subscriptions = [] := by
    rw [Session.loaded_attach_ne _ (by decide), hext₁.loaded]; rfl
  rw [hcopy]
  generalize σ₁.attach (t := .webhookEvents) event = σ₂ at hnow₁ hlocked₁ hw₁ hloaded₁ ⊢
  refine wp_orRaise (fun hnone => nomatch hnone) fun row hrow => ?_
  obtain rfl := Option.some.inj hrow
  by_cases hstatus : event.status = .processed
  · rw [if_pos hstatus]
    exact hdone event σ₂ s₁ hnow₁ hw₁ (by rw [hparsed, hid]) hlocked₁ hstatus
  rw [if_neg hstatus]
  simp only [processRow, applyRow, settleEvent, Prog.bind_eq, wp_bind]
  refine wp_orRaise (fun _ => hR _ _ _ hnow₁.inv hnow₁.integral) fun body hbody => ?_
  refine wp_validateWebhook hD hR hnow₁ fun object s₂ hobject h₂ hnow₂ => ?_
  refine wp_orRaise (fun _ => hR _ _ _ hnow₂.inv hnow₂.integral) fun organizationId horganization => ?_
  refine wp_lockedSubscription hP hD hR (by rw [hw₁]; rfl) (by rw [hw₁]; rfl) hloaded₁
    fun before σ₃ s₃ hnow₃ h₃ hfound => ?_
  refine wp_nowOr hD hnow₃ fun current s₄ hgiven _ h₄ hnow₄ => ?_
  refine wp_orRaise (fun _ => hR _ _ _ hnow₄.inv hnow₄.integral) fun period hperiod => ?_
  obtain ⟨start, stop⟩ := period
  refine wp_ofExcept (fun _ _ => hR _ _ _ hnow₄.inv hnow₄.integral) fun changed hchanged => ?_
  obtain ⟨hchangedId, hchangedOf, hchangedAt⟩ := applyEvent_keys hchanged
  refine wp_flushSubscription hP hD hR hnow₄ (hfound.sees.later hP h₄) hchangedId hchangedOf hchangedAt
    fun after σ₅ s₅ hflushed h₅ hnow₅ hsees₅ hl₅ hw₅ _ => ?_
  have hwrites₅ : ∀ t, t ≠ .subscriptions → σ₅.writes t = [] := fun t ht => by
    rw [hw₅ t ht, hfound.writes t ht, hw₁]; rfl
  refine wp_writeAudit hD hR fun entry σ₆ s₆ hentry h₆ hnow₆ hadded => ?_
  refine wp_nowOr hD hnow₆ fun processedAt s₇ _ _ h₇ hnow₇ => ?_
  refine wp_flushUpdate (t := .webhookEvents) hR fun s₈ σ₈ old h₈ hold _ hσ₈ hnow₈ => ?_
  have hl : σ₂.locks ⊆ σ₆.locks := fun _ hmem => hadded.locks (hl₅ (hfound.locks hmem))
  have hlater : Later P tag σ₂.locks s₁ s₈ :=
    (((h₂.trans h₃).trans ((h₄.trans h₅).mono hfound.locks)).trans
      (h₆.mono fun _ hmem => hl₅ (hfound.locks hmem))).trans ((h₇.trans (.of_interferes h₈)).mono hl)
  have hlocked₈ : σ₂.Locked s₈.db (t := .webhookEvents) event := hlocked₁.frozen hlater.frozen
  have hclean₆ : σ₆.writes .webhookEvents = [] := by
    rw [hadded.writes, Overlay.put_table_ne _ (by decide), hwrites₅ _ (by decide)]
  obtain rfl : event = old := by
    rw [Session.lookup_view_of_nil hclean₆] at hold
    exact Option.some.inj (hlocked₈.current.symm.trans hold)
  have hw₈ : σ₈.writes = σ₆.writes.put .webhookEvents event.id (some (event.processed processedAt)) := by
    rw [hσ₈]; rfl
  have hl₈ : σ₆.locks ⊆ σ₈.locks := by
    rw [hσ₈]
    exact σ₆.locks_write _ _ _ _ _
  have hlast : Later P tag σ₆.locks s₆ s₈ := h₇.trans (.of_interferes h₈)
  have hsees₆ : SeesSubscription organizationId σ₆ s₆.db after :=
    (hsees₅.later hP h₆).extend hadded.locks (by rw [hadded.writes, Overlay.put_table_ne _ (by decide)])
  have hsees₈ : SeesSubscription organizationId σ₈ s₈.db after :=
    (hsees₆.later hP hlast).extend hl₈ (by rw [hw₈, Overlay.put_table_ne _ (by decide)])
  have horigin : IsOrigin organizationId none s₈.db before :=
    ((hfound.origin.later hP hfound.sees.held (h₄.trans h₅)).later hP hsees₅.held h₆).later hP
      hsees₆.held hlast
  refine h event organizationId before changed after _ σ₈ s₈ hnow₈ ⟨by rw [hparsed, hid],
    hlocked₈.mono (fun _ hmem => hl₈ (hl hmem)), hstatus, hsees₈, horigin,
    ⟨body, object, current, (start, stop), hbody, hobject, horganization, hgiven, hperiod, hchanged⟩,
    hflushed, fun t ht ht' ht'' => ?_, ⟨entry.id, entry.createdAt, ?_, fun _ => ?_⟩,
    ⟨processedAt, ?_⟩⟩
  · rw [hw₈, Overlay.put_table_ne _ ht'', hadded.writes, Overlay.put_table_ne _ ht', hwrites₅ t ht]; rfl
  · rw [hw₈, Overlay.put_table_ne _ (by decide), hadded.writes, webhookEntry, ← hentry,
      Overlay.put_table_self, Overlay.put_table_self, hwrites₅ _ (by decide)]; rfl
  · exact ((hadded.vacant (hwrites₅ _ (by decide))).frozen hlast.frozen).mono hl₈
  · rw [hw₈, Overlay.put_table_of_nil hclean₆]

/-! ### Storing -/

/-- `store_webhook_event` has inserted the event. -/
structure WebhookStored (event : BillingWebhook) (σ₀ σ : Session schema) (db : Db)
    (stored : WebhookEvent) : Prop where
  contents : stored = ⟨stored.id, provider, event.id, event.type, event.modelDump, .pending,
    stored.receivedAt, none⟩
  writes : σ.writes = σ₀.writes.put .webhookEvents stored.id (some stored)
  vacant : σ₀.writes .webhookEvents = [] → σ.Vacant db .webhookEvents stored.id

theorem WebhookStored.later {event : BillingWebhook} {σ₀ : Session schema} {stored : WebhookEvent}
    (h : WebhookStored event σ₀ σ s.db stored) (hs : Interferes P tag σ s s') :
    WebhookStored event σ₀ σ s'.db stored :=
  { h with vacant := fun hclean => (h.vacant hclean).frozen hs.frozen }

/-- An event with this external id was committed. -/
structure WebhookFound (P : Protocol schema Env T) (tag : T) (event : BillingWebhook)
    (σ₀ σ : Session schema) (s : Shared schema Env T) (stored : WebhookEvent) : Prop where
  writes : σ.writes = σ₀.writes
  locks : σ₀.locks ⊆ σ.locks
  external : isExternalEvent event.id stored = true
  seen : ∃ s₀, P.inv s₀ ∧ stored ∈ s₀.db .webhookEvents ∧ Later P tag σ₀.locks s₀ s

theorem wp_storeWebhookEvent {event : BillingWebhook}
    {Q : WebhookEvent × Bool → Assertion schema Env T} (hD : P.Tolerates Env.Drawn)
    (hR : Harmless P R) (hclean : σ.writes .webhookEvents = []) (hloaded : σ.loaded .webhookEvents = [])
    (hfound : ∀ stored σ' s', Interferes P tag σ' s' s' → WebhookFound P tag event σ σ' s' stored →
      Q (stored, false) σ' s')
    (hstored : ∀ stored σ' s', Interferes P tag σ' s' s' → WebhookStored event σ σ' s'.db stored →
      Q (stored, true) σ' s') :
    wp P tag Q R (storeWebhookEvent event) σ s := by
  -- an event that a plain select finds in a session which loaded none
  have hselect : ∀ σ₁ s₁ s₂ (row : WebhookEvent), σ.Extends σ₁ → P.inv s₁ →
      row ∈ σ₁.view s₁.db .webhookEvents → isExternalEvent event.id row = true →
      Interferes P tag σ₁ s₁ s₂ →
      Q (σ₁.copyOf (t := .webhookEvents) row, false) (σ₁.attach (t := .webhookEvents) row) s₂ := by
    intro σ₁ s₁ s₂ row hext hinv hmem hexternal h₂
    rw [Session.view_of_nil (by rw [hext.writes, hclean])] at hmem
    have hcopy : σ₁.copyOf (t := .webhookEvents) row = row := by
      rw [Session.copyOf, hext.loaded, hloaded]
      rfl
    rw [hcopy]
    exact hfound row _ s₂ (h₂.attach _) ⟨hext.writes, hext.locks, hexternal, s₁, hinv, hmem,
      (Later.of_interferes h₂).mono hext.locks⟩
  rw [storeWebhookEvent]
  simp only [Prog.bind_eq, wp_bind]
  refine wp_scalar (S := schema) (t := .webhookEvents) hR.escapes (fun s₁ h₁ _ => ?_)
    fun s₁ s₂ row h₁ hmem hexternal h₂ => hselect σ s₁ s₂ row (.refl σ) h₁.inv hmem hexternal h₂
  dsimp only
  simp only [wp_bind]
  refine wp_uuid4 hD fun id σ₂ s₂ hext h₂ _ _ => ?_
  refine wp_databaseNow hD fun receivedAt s₃ h₃ hnow₃ => ?_
  refine wp_insertRow hR.escapes (fun s₄ h₄ haccepts _ => ?_) fun s₄ h₄ _ => ?_
  · have hsound := h₄.sound.insert (S := schema) (t := .webhookEvents)
      ⟨id, provider, event.id, event.type, event.modelDump, .pending, receivedAt, none⟩
    rw [Session.insert, if_pos haccepts] at hsound
    refine hstored _ _ s₄ (.refl h₄.inv h₄.integral hsound) ⟨rfl, ?_, fun _ => ?_⟩
    · rw [Session.writes_write, hext.writes]; rfl
    · exact haccepts.vacant (by rw [hext.writes, hclean]) _
  · simp only [Bool.false_eq_true, if_false, wp_bind]
    refine wp_scalar (S := schema) (t := .webhookEvents) hR.escapes
      (fun s₅ h₅ _ => hR _ _ _ h₅.inv h₅.integral) fun s₅ s₆ row h₅ hmem hexternal h₆ => ?_
    exact hselect σ₂ s₅ s₆ row hext h₅.inv hmem hexternal h₆

/-! ### Marking -/

/-- A failed event. -/
def WebhookEvent.failed (event : WebhookEvent) : WebhookEvent := { event with status := .failed }

/-- `mark_webhook_failed` has marked the event. -/
structure WebhookMarked (rt : Runtime) (webhookEventId : String) (σ₀ σ : Session schema) (db : Db)
    (event : WebhookEvent) : Prop where
  parsed : rt.parseUuid webhookEventId = some event.id
  locked : σ.Locked db (t := .webhookEvents) event
  status : event.status ≠ .processed
  writes : σ.writes = σ₀.writes.put .webhookEvents event.id (some event.failed)

theorem WebhookMarked.later {webhookEventId : String} {σ₀ : Session schema} {event : WebhookEvent}
    (h : WebhookMarked rt webhookEventId σ₀ σ s.db event) (hs : Interferes P tag σ s s') :
    WebhookMarked rt webhookEventId σ₀ σ s'.db event :=
  { h with locked := h.locked.interferes hs }

theorem wp_markWebhookFailed {webhookEventId : String} {Q : Unit → Assertion schema Env T}
    (hR : Harmless P R) (hnow : Interferes P tag σ s s) (hclean : σ.writes .webhookEvents = [])
    (hloaded : σ.loaded .webhookEvents = [])
    (hsame : ∀ σ' s', Interferes P tag σ' s' s' → σ'.writes = σ.writes → Q () σ' s')
    (hmarked : ∀ event σ' s', Interferes P tag σ' s' s' →
      WebhookMarked rt webhookEventId σ σ' s'.db event → Q () σ' s') :
    wp P tag Q R (markWebhookFailed rt webhookEventId) σ s := by
  rw [markWebhookFailed]
  simp only [Prog.bind_eq, wp_bind]
  refine wp_orRaise (fun _ => hR _ _ _ hnow.inv hnow.integral) fun eventId hparsed => ?_
  refine wp_scalarForUpdate (S := schema) (t := .webhookEvents) hR.escapes hclean
    (fun σ₁ s₁ h₁ hext => hsame σ₁ s₁ (h₁.extend hext) hext.writes)
    fun event σ₁ s₁ h₁ hext hid hlocked _ => ?_
  have hid : event.id = eventId := by simpa [hasEventId] using hid
  have hcopy : σ.copyOf (t := .webhookEvents) event = event := by
    rw [Session.copyOf, hloaded]
    rfl
  rw [hcopy]
  have hnow₁ := (h₁.extend hext).attach (t := .webhookEvents) event
  refine wp_runIf (fun hstatus => ?_) fun _ => hsame _ s₁ hnow₁ hext.writes
  refine wp_flushUpdate (t := .webhookEvents) hR fun s₂ σ₂ old h₂ hold _ hσ₂ hnow₂ => ?_
  have hlocked₁ : (σ₁.attach (t := .webhookEvents) event).Locked s₁.db (t := .webhookEvents) event :=
    hlocked.mono (List.Subset.refl _)
  have hlocked₂ := hlocked₁.interferes h₂
  obtain rfl : event = old := by
    rw [Session.lookup_view_of_nil (by rw [Session.writes_attach, hext.writes, hclean])] at hold
    exact Option.some.inj (hlocked₂.current.symm.trans hold)
  refine hmarked event σ₂ s₂ hnow₂ ⟨by rw [hparsed, hid], hlocked₂.mono ?_, hstatus.1, ?_⟩
  · rw [hσ₂]
    exact Session.locks_write _ _ _ _ _ _
  · rw [hσ₂, Session.writes_write, Session.writes_attach, hext.writes]; rfl

end TenantForge
