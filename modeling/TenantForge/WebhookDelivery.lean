import TenantForge.ExactlyOnce
import TenantForge.JobConservation
/-!
# No acknowledged webhook is lost

An event is `Secured` when it is PROCESSED or a job in one of the three lists names it. Every command of
the queue and every commit keeps what is secured: the worker acknowledges a job only after its handler has
returned, and by then the event is PROCESSED. A delivery is answered with 202 after its event is secured
(`secured_of_reach`).
-/

namespace TenantForge

open Gregorian ReadCommitted

variable {rt : Runtime}

/-! ### Jobs that name an event -/

/-- The fields are those of a job that processes this event. -/
def NamesEvent (rt : Runtime) (id : Uuid) (fields : List (String × Value)) : Prop :=
  Value.get? fields "type" = some (.str "process_billing_webhook") ∧
    ∃ payload, Value.get? fields "payload" = some (.dict payload) ∧
      Value.get? payload "webhook_event_id" = some (.str (rt.uuidText id))

/-- A job in the main queue, in the processing list or in the dead-letter list names the event. -/
def NamedIn (rt : Runtime) (id : Uuid) (l : Ledger) : Prop :=
  (∃ raw fields, (raw ∈ l.jobs ∨ raw ∈ l.processing) ∧ entryFields rt raw = some fields ∧
    NamesEvent rt id fields) ∨
  ∃ raw fields, raw ∈ l.deadLetters ∧ buriedFields rt raw = some fields ∧ NamesEvent rt id fields

theorem namesEvent_asDict {id : Uuid} {job : Job} : NamesEvent rt id job.asDict ↔
    job.type = "process_billing_webhook" ∧
      Value.get? job.payload "webhook_event_id" = some (.str (rt.uuidText id)) := by
  simp [NamesEvent, Job.asDict, Value.get?]

theorem get?_redactItems (items : List (String × Value)) (key : String) :
    Value.get? (redactItems rt items) key = (Value.get? items key).map fun item =>
      if rt.lower key ∈ sensitivePayloadKeys then .str "[redacted]" else redactPayload rt item := by
  induction items with
  | nil => simp [redactItems, Value.get?]
  | cons item items ih =>
    obtain ⟨name, value⟩ := item
    by_cases hname : name = key
    · subst hname
      simp [redactItems, Value.get?]
    · simpa [redactItems, Value.get?, hname] using ih

/-- Redaction keeps the name of an event. -/
theorem namesEvent_redacted {id : Uuid} {job : Job} (h : NamesEvent rt id job.asDict) :
    NamesEvent rt id { job with payload := redactItems rt job.payload }.asDict := by
  obtain ⟨htype, hpayload⟩ := namesEvent_asDict.mp h
  have hlower : rt.lower "webhook_event_id" = "webhook_event_id" := by
    rw [rt.lower_ascii _ (fun c hc => of_decide_eq_true
      (List.all_eq_true.mp (by rfl : "webhook_event_id".toList.all (fun c => c.toNat < 128) = true) c hc))]
    rfl
  refine namesEvent_asDict.mpr ⟨htype, ?_⟩
  show Value.get? (redactItems rt job.payload) "webhook_event_id" = _
  rw [get?_redactItems, hpayload, hlower]
  simp [sensitivePayloadKeys, redactPayload]

theorem namesEvent_nextAttempt {id : Uuid} {job : Job} (h : NamesEvent rt id job.asDict) :
    NamesEvent rt id job.nextAttempt.asDict :=
  namesEvent_asDict.mpr (namesEvent_asDict.mp h)

theorem NamedIn.of_job {id : Uuid} {l : Ledger} {job : Job}
    (hmem : job.toJson rt ∈ l.jobs ∨ job.toJson rt ∈ l.processing) (h : NamesEvent rt id job.asDict) :
    NamedIn rt id l :=
  Or.inl ⟨_, _, hmem, entryFields_toJson job, h⟩

/-- What happens to a name when a job is taken out of the processing list. -/
theorem NamedIn.take {id : Uuid} {l : Ledger} (h : NamedIn rt id l) (job : Job) :
    NamedIn rt id (l.take (job.toJson rt)) ∨ NamesEvent rt id job.asDict := by
  rcases h with ⟨raw, fields, hmem, hfields, hnames⟩ | hburied
  · rcases hmem with hmem | hmem
    · exact Or.inl (Or.inl ⟨raw, fields, Or.inl hmem, hfields, hnames⟩)
    · by_cases hraw : raw = job.toJson rt
      · subst hraw
        rw [entryFields_toJson] at hfields
        exact Or.inr (Option.some.inj hfields ▸ hnames)
      · exact Or.inl (Or.inl ⟨raw, fields, Or.inr ((List.mem_erase_of_ne hraw).mpr hmem), hfields, hnames⟩)
  · exact Or.inl (Or.inr hburied)

theorem NamedIn.mono {id : Uuid} {l l' : Ledger} (h : NamedIn rt id l)
    (hentries : ∀ raw, raw ∈ l.jobs ∨ raw ∈ l.processing → raw ∈ l'.jobs ∨ raw ∈ l'.processing)
    (hdead : l.deadLetters ⊆ l'.deadLetters) : NamedIn rt id l' := by
  rcases h with ⟨raw, fields, hmem, hrest⟩ | ⟨raw, fields, hmem, hrest⟩
  · exact Or.inl ⟨raw, fields, hentries raw hmem, hrest⟩
  · exact Or.inr ⟨raw, fields, hdead hmem, hrest⟩

/-- A step of the queue keeps the names. -/
theorem Ledger.Step.namedIn {id : Uuid} {l l' : Ledger} (hstep : Ledger.Step rt l l')
    (h : NamedIn rt id l) : NamedIn rt id l' := by
  cases hstep with
  | stay => exact h
  | finish other => exact h
  | push job hfresh =>
    exact h.mono (fun raw hmem => hmem.imp_left (List.mem_cons_of_mem _)) (List.Subset.refl _)
  | deliver rest raw hjobs =>
    refine h.mono (fun other hmem => ?_) (List.Subset.refl _)
    simp only [hjobs, List.mem_append, List.mem_cons, List.not_mem_nil, or_false] at hmem ⊢
    tauto
  | recover rest raw hprocessing =>
    refine h.mono (fun other hmem => ?_) (List.Subset.refl _)
    simp only [hprocessing, List.mem_append, List.mem_cons, List.not_mem_nil, or_false] at hmem ⊢
    tauto
  | retry job hmem =>
    rcases h.take job with hleft | hnames
    · exact hleft.mono (fun raw hraw => hraw.imp_left (List.mem_cons_of_mem _)) (List.Subset.refl _)
    · exact .of_job (Or.inl List.mem_cons_self) (namesEvent_nextAttempt hnames)
  | bury job hmem failedAt error =>
    rcases h.take job with hleft | hnames
    · exact hleft.mono (fun _ hraw => hraw) (List.subset_cons_self _ _)
    · exact Or.inr ⟨_, _, List.mem_cons_self, buriedFields_deadLetter job failedAt error,
        namesEvent_redacted hnames⟩

/-! ### Secured events -/

inductive DeliveryParty where
  | worker
  | api (delivery : Delivery)

/-- The event was processed. -/
def Processed (db : Db) (id : Uuid) : Prop :=
  ∃ event : WebhookEvent, event ∈ db .webhookEvents ∧ event.id = id ∧ event.status = .processed

/-- The event was processed, or a job names it. -/
def Secured (rt : Runtime) (id : Uuid) (s : Shared schema Env DeliveryParty) : Prop :=
  Processed s.db id ∨ NamedIn rt id s.env.ledger

/-- What was processed stays processed, and what is secured stays secured. -/
structure KeepsSecured (rt : Runtime) (s s' : Shared schema Env DeliveryParty) : Prop where
  processed : ∀ id, Processed s.db id → Processed s'.db id
  secured : ∀ id, Secured rt id s → Secured rt id s'

theorem KeepsSecured.trans {s₁ s₂ s₃ : Shared schema Env DeliveryParty} (h₁ : KeepsSecured rt s₁ s₂)
    (h₂ : KeepsSecured rt s₂ s₃) : KeepsSecured rt s₁ s₃ :=
  ⟨fun id h => h₂.processed id (h₁.processed id h), fun id h => h₂.secured id (h₁.secured id h)⟩

/-- A step of the queue. -/
theorem KeepsSecured.of_step {s s' : Shared schema Env DeliveryParty} (hdb : s'.db = s.db)
    (hstep : Ledger.Step rt s.env.ledger s'.env.ledger) : KeepsSecured rt s s' where
  processed _ h := hdb ▸ h
  secured _ h := h.imp (fun hprocessed => hdb ▸ hprocessed) hstep.namedIn

/-- A commit. -/
theorem KeepsSecured.of_commit {s s' : Shared schema Env DeliveryParty} (henv : s'.env = s.env)
    (hprocessed : ∀ id, Processed s.db id → Processed s'.db id) : KeepsSecured rt s s' where
  processed := hprocessed
  secured id h := h.imp (hprocessed id) fun hnamed => henv ▸ hnamed

/-- Nobody ends what is secured, and the lock of an organization guards its subscription. -/
def securedProtocol (rt : Runtime) : Protocol schema Env DeliveryParty where
  inv _ := True
  rely _ locks s s' := KeepsSecured rt s s' ∧ ∀ organizationId, HoldsOrganization organizationId locks →
    ofTenant organizationId .subscriptions s'.db = ofTenant organizationId .subscriptions s.db
  guar _ σ s s' := KeepsSecured rt s s' ∧ ∀ organizationId, HoldsOrganization organizationId σ.locks ∨
    ofTenant organizationId .subscriptions s'.db = ofTenant organizationId .subscriptions s.db
  assume _ _ _ _ _ := True
  rely_refl _ _ _ := ⟨⟨fun _ h => h, fun _ h => h⟩, fun _ _ => rfl⟩
  rely_trans _ _ _ _ _ h₁ h₂ := ⟨h₁.1.trans h₂.1, fun organizationId hheld =>
    (h₂.2 organizationId hheld).trans (h₁.2 organizationId hheld)⟩
  rely_mono _ _ _ _ _ hl h := ⟨h.1, fun organizationId hheld => h.2 organizationId (hheld.mono hl)⟩

theorem securedProtocol_respects (a b : DeliveryParty) : Respects (securedProtocol rt) a b := by
  intro σ locks s s' hcompat hguar
  refine ⟨hguar.1, fun organizationId hheld => ?_⟩
  exact (hguar.2 organizationId).resolve_left fun hown => hown.not_both hheld hcompat

/-- The handler of a job has done its work when the event that the job names is processed. -/
def JobDone (rt : Runtime) (job : Job) (s : Shared schema Env DeliveryParty) : Prop :=
  ∀ id, NamesEvent rt id job.asDict → Processed s.db id

/-- The queue of webhook jobs. -/
def deliveryQueue (rt : Runtime) : Custodian rt DeliveryParty where
  base := securedProtocol rt
  worker party := party = .worker
  done := JobDone rt
  clean σ := σ = .empty
  clean_empty := rfl
  step _ _ _ _ _ hstep := ⟨trivial, .of_step rfl hstep, fun _ => Or.inr rfl⟩
  draw _ _ _ _ := ⟨trivial, .of_step rfl .stay, fun _ => Or.inr rfl⟩
  acknowledge _ _ s env' job _ hdone hledger := by
    refine ⟨trivial, ⟨fun _ h => h, fun id hsecured => ?_⟩, fun _ => Or.inr rfl⟩
    rcases hsecured with hprocessed | hnamed
    · exact Or.inl hprocessed
    · rcases hnamed.take job with hleft | hnames
      · exact Or.inr (hledger ▸ hleft)
      · exact Or.inl (hdone id hnames)
  done_rely _ _ _ _ _ hrely hdone id hnames := hrely.1.processed id (hdone id hnames)
  done_step _ _ _ _ hdone := hdone

/-- A commit that leaves the queue alone. -/
theorem deliveryQueue_allows {tag : DeliveryParty} {σ : Session schema}
    {s : Shared schema Env DeliveryParty} (hinv : (deliveryQueue rt).protocol.inv s)
    (hprocessed : ∀ id, Processed s.db id → Processed (σ.view s.db) id)
    (hguarded : ∀ organizationId, HoldsOrganization organizationId σ.locks ∨
      ofTenant organizationId .subscriptions (σ.view s.db) = ofTenant organizationId .subscriptions s.db) :
    (deliveryQueue rt).protocol.Allows tag σ s (s.commit tag σ) :=
  ⟨⟨trivial, hinv.2.conserved, hinv.2.fresh⟩, ⟨.of_commit rfl hprocessed, hguarded⟩,
    fun _ hmem => Or.inl hmem, fun _ => ⟨rfl, rfl⟩⟩

/-- What is processed stays so while others run. -/
theorem Later.processed {tag : DeliveryParty} {locks : List (Held schema)}
    {s s' : Shared schema Env DeliveryParty} (h : Later (deliveryQueue rt).protocol tag locks s s')
    {id : Uuid} (hprocessed : Processed s.db id) : Processed s'.db id := by
  induction h with
  | refl => exact hprocessed
  | others _ _ hrely _ _ ih => exact hrely.1.1.processed id ih
  | drawn _ _ ih => exact ih
  | named _ ih => exact ih

/-! ### Commits -/

section Commits

variable (tag : DeliveryParty) {σ : Session schema} {s : Shared schema Env DeliveryParty}

/-- A transaction that has written nothing. -/
theorem allows_unwritten (hinv : (deliveryQueue rt).protocol.inv s) (hw : σ.writes = .empty) :
    (deliveryQueue rt).protocol.Allows tag σ s (s.commit tag σ) := by
  have hsame : σ.view s.db = s.db := by rw [Session.view, hw, Overlay.apply_empty]
  exact deliveryQueue_allows hinv (fun id h => hsame.symm ▸ h) fun _ => Or.inr (by rw [hsame])

theorem allows_stored {event : BillingWebhook} {stored : WebhookEvent}
    (hinv : (deliveryQueue rt).protocol.inv s) (h : WebhookStored event .empty σ s.db stored) :
    (deliveryQueue rt).protocol.Allows tag σ s (s.commit tag σ) := by
  refine deliveryQueue_allows hinv (fun id ⟨row, hmem, hrow⟩ => ⟨row, ?_, hrow⟩)
    fun _ => Or.inr (ofTenant_view_of_clean (h.others (by decide)))
  rw [h.view]
  exact List.mem_append_left _ hmem

theorem allows_marked {webhookEventId : String} {event : WebhookEvent} (hdb : s.db.Integral)
    (hinv : (deliveryQueue rt).protocol.inv s) (h : WebhookMarked rt webhookEventId .empty σ s.db event) :
    (deliveryQueue rt).protocol.Allows tag σ s (s.commit tag σ) := by
  refine deliveryQueue_allows hinv (fun id ⟨row, hmem, hid, hstatus⟩ => ⟨row, ?_, hid, hstatus⟩)
    fun _ => Or.inr (ofTenant_view_of_clean (h.others (by decide)))
  refine (h.mem_view hdb row).mpr (Or.inl ⟨hmem, ?_⟩)
  rintro rfl
  exact h.status hstatus

/-- The commit of a processed event. -/
theorem allows_processed {webhookEventId : String} {at? : Option DateTime} {event : WebhookEvent}
    {organizationId : Uuid} {before changed after : Subscription} (hdb : s.db.Integral)
    (hσ : σ.Sound s.db) (hinv : (deliveryQueue rt).protocol.inv s)
    (h : WebhookProcessed rt webhookEventId at? .empty σ s.db event organizationId before changed after) :
    (deliveryQueue rt).protocol.Allows tag σ s (s.commit tag σ) ∧ Processed (σ.view s.db) event.id := by
  obtain ⟨processedAt, hw⟩ := h.marked
  have hview := mem_view_event hdb hw h.locked.mem
  refine ⟨deliveryQueue_allows hinv (fun id ⟨row, hmem, hid, hstatus⟩ => ⟨row, ?_, hid, hstatus⟩)
    fun other => ?_, _, (hview _).mpr (Or.inr rfl), rfl, rfl⟩
  · refine (hview row).mpr (Or.inl ⟨hmem, ?_⟩)
    rintro rfl
    exact h.status hstatus
  · by_cases hother : other = organizationId
    · exact Or.inl (hother ▸ h.sees.held)
    · exact Or.inr (h.sees.ofTenant_view hdb hσ hother)

end Commits

/-! ### The worker -/

section Handlers

variable {T : Type} {P : Protocol schema Env T} {tag : T} {R : Exn → Assertion schema Env T}
  {σ : Session schema} {s : Shared schema Env T}

theorem wp_required {payload : List (String × Value)} {key : String}
    {Q : Value → Assertion schema Env T} (hthrow : ∀ error, R error σ s)
    (h : ∀ value, Value.get? payload key = some value → Q value σ s) :
    wp P tag Q R (required payload key) σ s := by
  unfold required
  split
  · exact hthrow _
  · exact hthrow _
  · exact hthrow _
  · exact h _ (by assumption)

theorem wp_sendInvitationEmail {payload : List (String × Value)} {Q : Unit → Assertion schema Env T}
    (hthrow : ∀ error, R error σ s) (h : Q () σ s) :
    wp P tag Q R (sendInvitationEmail payload) σ s := by
  rw [sendInvitationEmail]
  simp only [Prog.bind_eq, wp_bind]
  exact wp_required hthrow fun _ _ => wp_required hthrow fun _ _ => wp_required hthrow fun _ _ => h

theorem wp_writeUsageRollup {payload : List (String × Value)} {Q : Unit → Assertion schema Env T}
    (hD : P.Tolerates Env.Drawn) (hthrow : ∀ error s', R error .empty s') (h : ∀ s', Q () .empty s') :
    wp P tag Q R (writeUsageRollup rt payload) .empty s := by
  rw [writeUsageRollup, usageRollup]
  simp only [Prog.bind_eq, wp_bind]
  refine wp_required (fun _ => hthrow _ _) fun value _ => ?_
  refine wp_orRaise (fun _ => hthrow _ _) fun organizationId _ => ?_
  refine wp_now hD fun s₁ _ _ _ => ?_
  refine wp_ofExcept (fun _ _ => hthrow _ _) fun periodEnd _ => ?_
  refine wp_ofExcept (fun _ _ => hthrow _ _) fun periodStart _ => ?_
  refine wp_raiseIf (fun _ => hthrow _ _) fun _ => ?_
  refine wp_sessionScope ?_
  exact fun s₂ _ => ⟨fun s₃ _ => h s₃, fun s₃ _ => hthrow _ s₃⟩

end Handlers

section Worker

variable {s : Shared schema Env DeliveryParty} {job : Job}

/-- The protocol while a job is being processed. -/
def processingProtocol (rt : Runtime) (job : Job) : Protocol schema Env DeliveryParty :=
  (deliveryQueue rt).protocol.restrict (InFlight rt job)

theorem processingProtocol_guards : Guards (processingProtocol rt job) .subscriptions :=
  fun _ _ _ _ hrely => hrely.1.2

theorem processingProtocol_allows {tag : DeliveryParty} {σ : Session schema}
    (hinv : (processingProtocol rt job).inv s)
    (h : (deliveryQueue rt).protocol.Allows tag σ s (s.commit tag σ)) :
    (processingProtocol rt job).Allows tag σ s (s.commit tag σ) :=
  ⟨⟨h.1, hinv.2⟩, h.2⟩

section Sessions

variable {tag : DeliveryParty} {R : Exn → Assertion schema Env DeliveryParty}
  {Q : Unit → Assertion schema Env DeliveryParty} {webhookEventId : String}

/-- The session that processes the event: when it returns, the event is processed. -/
theorem wp_processingSession (hnow : Interferes (processingProtocol rt job) tag .empty s s)
    (hR : ∀ error s', Interferes (processingProtocol rt job) tag .empty s' s' → R error .empty s')
    (h : ∀ id s', rt.parseUuid webhookEventId = some id → Processed s'.db id → Q () .empty s') :
    wp (processingProtocol rt job) tag Q R (sessionScope do
      let _ ← processWebhookEvent rt webhookEventId
      Prog.commitTransaction) .empty s := by
  refine wp_sessionScope ?_
  simp only [Prog.bind_eq, wp_bind]
  refine wp_processWebhookEvent processingProtocol_guards (Custodian.restrict_tolerates_drawn job)
    (fun error σ' s' hinv hdb s'' hs => ?_) hnow (fun event σ₁ s₁ _ hw hparsed hlocked hstatus => ?_)
    fun event organizationId before changed after _ σ₁ s₁ _ hprocessed => ?_
  · exact hR error s'' (.refl hs.inv hs.integral (.of_writes_empty hs.integral rfl))
  · have hsame : ∀ db : Db, σ₁.view db = db := fun db => by rw [Session.view, hw, Overlay.apply_empty]
    refine fun s₂ h₂ => ⟨processingProtocol_allows h₂.inv (allows_unwritten tag h₂.inv.1 hw),
      fun s₃ h₃ => h event.id s₃ hparsed (h₃.rely.1.1.processed _ ?_), fun s₃ h₃ => ?_⟩
    · rw [Shared.commit_db, hsame]
      exact ⟨event, (hlocked.interferes h₂).mem, rfl, hstatus⟩
    · exact hR _ s₃ h₃.now
  · intro s₂ h₂
    obtain ⟨hallows, hdone⟩ := allows_processed tag h₂.integral h₂.sound h₂.inv.1
      (hprocessed.later processingProtocol_guards (.of_interferes h₂))
    refine ⟨processingProtocol_allows h₂.inv hallows, fun s₃ h₃ => ?_, fun s₃ h₃ => hR _ s₃ h₃.now⟩
    exact h event.id s₃ hprocessed.parsed (h₃.rely.1.1.processed _ hdone)

/-- The session that marks the event as failed. -/
theorem wp_markingSession (hnow : Interferes (processingProtocol rt job) tag .empty s s)
    (hR : ∀ error s', R error .empty s') (h : ∀ s', Q () .empty s') :
    wp (processingProtocol rt job) tag Q R (sessionScope do
      markWebhookFailed rt webhookEventId
      Prog.commitTransaction) .empty s := by
  refine wp_sessionScope ?_
  simp only [Prog.bind_eq, wp_bind]
  refine wp_markWebhookFailed (fun error _ _ _ _ s' _ => hR error s') hnow rfl rfl
    (fun σ₁ s₁ _ hw => ?_) fun event σ₁ s₁ _ hmarked => ?_
  · exact fun s₂ h₂ => ⟨processingProtocol_allows h₂.inv (allows_unwritten tag h₂.inv.1 hw),
      fun s₃ _ => h s₃, fun s₃ _ => hR _ s₃⟩
  · exact fun s₂ h₂ => ⟨processingProtocol_allows h₂.inv
      (allows_marked tag h₂.integral h₂.inv.1 (hmarked.later h₂)), fun s₃ _ => h s₃, fun s₃ _ => hR _ s₃⟩

end Sessions

/-- When the job's handler returns, the event that it names is processed. -/
theorem wp_processBillingWebhookJob
    (hnow : Interferes (processingProtocol rt job) .worker .empty s s) :
    wp (processingProtocol rt job) .worker (fun _ σ s => σ = .empty ∧ JobDone rt job s)
      (fun _ σ _ => σ = .empty) (processBillingWebhookJob rt job.payload) .empty s := by
  unfold processBillingWebhookJob
  rw [Prog.bind_eq, wp_bind]
  refine wp_required (fun _ => rfl) fun value hvalue => ?_
  rw [Prog.tryCatch_eq, wp_handle]
  refine wp_processingSession hnow (fun exc s' hnow' => ?_) fun id s' hparsed hdone =>
    ⟨rfl, fun named hnames => ?_⟩
  · rw [Prog.bind_eq, wp_bind]
    exact wp_markingSession hnow' (fun _ _ => rfl) fun _ => rfl
  · rw [Option.some.inj (hvalue.symm.trans (namesEvent_asDict.mp hnames).2), Interpreter.str,
      rt.parseUuid_uuidText] at hparsed
    exact Option.some.inj hparsed ▸ hdone

theorem deliveryQueue_handles : (deliveryQueue rt).Handles (defaultWorker rt) .worker := by
  intro job handler hhandler σ s hclean hnow
  obtain rfl : σ = .empty := hclean
  -- a job of another type names no event
  have hother : job.type ≠ "process_billing_webhook" → ∀ s, JobDone rt job s := fun hne s id hnames =>
    absurd (namesEvent_asDict.mp hnames).1 hne
  unfold defaultWorker buildHandlers at hhandler
  dsimp only at hhandler
  split at hhandler
  · rename_i htype
    obtain rfl := Option.some.inj hhandler
    exact wp_sendInvitationEmail (fun _ => rfl) ⟨rfl, hother (by rw [htype]; decide) s⟩
  · split at hhandler
    · obtain rfl := Option.some.inj hhandler
      exact wp_processBillingWebhookJob hnow
    · split at hhandler
      · rename_i htype
        obtain rfl := Option.some.inj hhandler
        exact wp_writeUsageRollup (Custodian.restrict_tolerates_drawn job) (fun _ _ => rfl)
          fun s' => ⟨rfl, hother (by rw [htype]; decide) s'⟩
      · cases hhandler

end Worker

/-! ### The route -/

section Route

variable {tag : DeliveryParty} {s : Shared schema Env DeliveryParty}

/-- What a finished process leaves behind: the event of a receipt is secured. -/
def Receipted (rt : Runtime) (answer : Option Response) (s : Shared schema Env DeliveryParty) : Prop :=
  ∀ receipt, answer = some (.receipt receipt) → Secured rt receipt.eventId s

/-- The last part of the route: a job is enqueued unless the event was found processed. -/
theorem wp_answer {σ : Session schema} {stored : WebhookEvent} {created : Bool}
    (hnow : Interferes (deliveryQueue rt).protocol tag σ s s) (hw : σ.writes = .empty)
    (hprocessed : ¬(created = true ∨ stored.status ≠ .processed) → Processed s.db stored.id) :
    wp (deliveryQueue rt).protocol tag
      (fun answer σ s => ∀ s', Interferes (deliveryQueue rt).protocol tag σ s s' →
        (deliveryQueue rt).protocol.Allows tag σ s' (s'.commit tag σ) ∧
          Receipted rt (some answer) (s'.commit tag σ)) (fun _ _ _ => True)
      (do
        runIf (created = true ∨ stored.status ≠ .processed) do
          let _ ← RedisJobQueue.enqueue rt "process_billing_webhook"
            [("webhook_event_id", .str (rt.uuidText stored.id))]
        pure (.receipt ⟨stored.id, stored.status, !created⟩)) σ s := by
  have hanswer : ∀ (σ : Session schema) s, σ.writes = .empty → Secured rt stored.id s →
      ∀ s', Interferes (deliveryQueue rt).protocol tag σ s s' →
        (deliveryQueue rt).protocol.Allows tag σ s' (s'.commit tag σ) ∧
          Receipted rt (some (.receipt ⟨stored.id, stored.status, !created⟩)) (s'.commit tag σ) := by
    intro σ s hw hsecured s' hs
    have hallows := allows_unwritten tag hs.inv hw
    refine ⟨hallows, fun receipt hreceipt => ?_⟩
    obtain rfl := Response.receipt.inj (Option.some.inj hreceipt)
    exact hallows.2.1.1.secured _ (hs.rely.1.1.secured _ hsecured)
  simp only [Prog.bind_eq, wp_bind]
  refine wp_runIf (fun _ => ?_) fun hskipped => hanswer σ s hw (Or.inl (hprocessed hskipped))
  simp only [wp_bind]
  refine wp_enqueue harmless_true hnow fun job σ' s' _ hext htype hpayload hmem => ?_
  refine hanswer σ' s' (hext.writes.trans hw) (Or.inr (.of_job (Or.inl hmem) ?_))
  exact namesEvent_asDict.mpr ⟨htype, by simp [hpayload, Value.get?]⟩

/-- A delivery that is answered has its event secured. -/
theorem wp_billingWebhook (delivery : Delivery)
    (hnow : Interferes (deliveryQueue rt).protocol tag .empty s s) :
    wp (deliveryQueue rt).protocol tag (fun answer _ s => Receipted rt (some answer) s) (fun _ _ _ => True)
      ((Request.billingWebhook delivery).handle rt) .empty s := by
  have hD : (deliveryQueue rt).protocol.Tolerates Env.Drawn := Custodian.tolerates_drawn
  refine wp_getSession harmless_true ?_
  rw [Request.endpoint, billingWebhook, Prog.bind_eq, wp_bind]
  refine wp_ofExcept (fun _ _ => trivial) fun _ _ => ?_
  rw [Prog.bind_eq, wp_bind]
  refine wp_orRaise (fun _ => trivial) fun event _ => ?_
  rw [Prog.bind_eq, wp_bind]
  refine wp_validateWebhook hD harmless_true hnow fun object s₁ _ _ _ => ?_
  rw [Prog.bind_eq, wp_bind]
  refine wp_storeWebhookEvent hD harmless_true rfl rfl (fun stored σ₂ s₂ _ hfound => ?_)
    fun stored σ₂ s₂ _ hstored => ?_
  · dsimp only
    rw [Prog.bind_eq, wp_bind]
    intro s₃ h₃
    have hallows := allows_unwritten tag h₃.inv hfound.writes
    have hdb := h₃.sound.integral h₃.integral
    refine ⟨hallows, wp_answer (.refl hallows.1 hdb (.of_writes_empty hdb rfl)) rfl fun hskipped => ?_,
      trivial⟩
    -- the status was read from a committed row
    obtain ⟨s₀, _, hmem, hlater⟩ := hfound.seen
    have hstatus : stored.status = .processed := by
      by_contra hne
      exact hskipped (Or.inr hne)
    refine hallows.2.1.1.processed _ (h₃.rely.1.1.processed _ (hlater.processed ?_))
    exact ⟨stored, hmem, rfl, hstatus⟩
  · dsimp only
    rw [Prog.bind_eq, wp_bind]
    intro s₃ h₃
    have hallows := allows_stored tag h₃.inv (hstored.later h₃)
    have hdb := h₃.sound.integral h₃.integral
    refine ⟨hallows, wp_answer (.refl hallows.1 hdb (.of_writes_empty hdb rfl)) rfl fun hskipped => ?_,
      trivial⟩
    exact absurd (Or.inl rfl) hskipped

end Route

/-! ### Runs -/

/-- The worker, which begins its next life when it is killed, and one process for each delivery. -/
def startDelivery (rt : Runtime) (s : Shared schema Env DeliveryParty) (life : Life) (lives : List Life)
    (deliveries : List Delivery) : World schema Env Exn DeliveryParty (Option Response) :=
  let live := fun life : Life => do
    (defaultWorker rt).runForever rt life.fuel life.polls
    pure none
  ⟨s, ⟨.worker, some (live life), .empty, lives.map live⟩ ::
    deliveries.map fun delivery => ⟨.api delivery,
      some (some <$> (Request.billingWebhook delivery).handle rt), .empty, []⟩⟩

/-- The receipt that a process has answered with. -/
def receiptOf (th : Thread schema Env Exn DeliveryParty (Option Response)) : Option WebhookReceipt :=
  match th.prog with
  | some (.pure (some (.receipt receipt))) => some receipt
  | _ => none

/-- The receipts of the deliveries that were answered with 202. -/
def receipts (w : World schema Env Exn DeliveryParty (Option Response)) : List WebhookReceipt :=
  w.threads.filterMap receiptOf

theorem receiptOf_eq_some {th : Thread schema Env Exn DeliveryParty (Option Response)}
    {receipt : WebhookReceipt} (h : receiptOf th = some receipt) :
    th.prog = some (.pure (some (.receipt receipt))) := by
  unfold receiptOf at h
  split at h
  · rename_i found hprog
    rw [hprog, Option.some.inj h]
  · cases h

theorem startDelivery_ok {s : Shared schema Env DeliveryParty} (hdb : s.db.Integral)
    (hqueue : QueueState rt s) (life : Life) (lives : List Life) (deliveries : List Delivery) :
    (startDelivery rt s life lives deliveries).Ok (deliveryQueue rt).protocol
      fun _ answer _ s => Receipted rt answer s := by
  refine Custodian.launch securedProtocol_respects ⟨trivial, hqueue⟩ hdb rfl (fun th hth => ?_)
    fun th hth p hp s hinv hdb => ?_
  · obtain ⟨delivery, _, rfl⟩ := List.mem_map.mp hth
    exact ⟨rfl, by simp [deliveryQueue]⟩
  · rcases List.mem_cons.mp hth with rfl | hth
    · obtain ⟨life, rfl⟩ : ∃ life : Life, p = (do
          (defaultWorker rt).runForever rt life.fuel life.polls
          pure none) := by
        rcases hp with hp | hp
        · exact ⟨life, (Option.some.inj hp).symm⟩
        · obtain ⟨life, _, rfl⟩ := List.mem_map.mp hp
          exact ⟨life, rfl⟩
      rw [Prog.bind_eq, wp_bind]
      refine (wp_runForever rfl deliveryQueue_handles life.fuel life.polls rfl).then ?_
      intro _ _ _ _ _ hnone
      cases hnone
    · obtain ⟨delivery, _, rfl⟩ := List.mem_map.mp hth
      obtain rfl : some <$> (Request.billingWebhook delivery).handle rt = p := by
        rcases hp with hsome | hnone
        · exact Option.some.inj hsome
        · cases hnone
      rw [Prog.map_eq, wp_bind]
      exact wp_billingWebhook delivery (.refl hinv hdb (.of_writes_empty hdb rfl))

/-- **No acknowledged webhook is lost**: the event of a delivery that was answered is PROCESSED or named
by a job, in that state and in every later one. -/
theorem secured_of_reach (rt : Runtime) (s : Shared schema Env DeliveryParty) (hdb : s.db.Integral)
    (hqueue : QueueState rt s) (life : Life) (lives : List Life) (deliveries : List Delivery)
    (w w' : World schema Env Exn DeliveryParty (Option Response))
    (hreach : (startDelivery rt s life lives deliveries).Reach w) (receipt : WebhookReceipt)
    (hanswered : receipt ∈ receipts w) (hlater : w.Reach w') : Secured rt receipt.eventId w'.shared := by
  have hmeets : Meets (X := Exn) (α := Option Response) (deliveryQueue rt).protocol fun _ _ => True := by
    intro w i _ th prog _ _
    cases prog <;> trivial
  have hstable : ∀ (tag : DeliveryParty) (answer : Option Response),
      Stable (deliveryQueue rt).protocol tag fun _ s => Receipted rt answer s :=
    fun tag answer σ s s' hs h given hgiven => hs.rely.1.1.secured _ (h given hgiven)
  have hok := (hreach.trans hlater).ok hmeets hstable (startDelivery_ok hdb hqueue life lives deliveries)
  obtain ⟨th, hth, hreceipt⟩ := List.mem_filterMap.mp hanswered
  obtain ⟨i, hi⟩ := List.mem_iff_getElem?.mp hth
  have hprog := receiptOf_eq_some hreceipt
  have hfinished := hlater.finished hi hprog
  exact hok.safe th (List.mem_of_getElem? hfinished) _ hprog receipt rfl

namespace Reference

/-- A delivery that passes the checks. -/
def signedDelivery : Delivery :=
  ⟨.ok (), some (subscriptionUpdated "evt-1" 5 "pro" "active" (some (noon 8, noon 20)))⟩

/-- The delivery is answered before the worker begins. -/
def answered : World schema Env Exn DeliveryParty (Option Response) :=
  (startDelivery runtime (shared DeliveryParty (fun _ => noon 1) subscriber) ⟨3, 3⟩ [⟨3, 3⟩]
    [signedDelivery]).playAll (List.replicate 20 (.run 1))

/-- The worker is killed while it processes the event, and recovers the job. -/
theorem secured_answered :
    let w' := answered.playAll (List.replicate 8 (Move.run 0) ++ [Move.crash 0] ++ List.replicate 3 (Move.run 0))
    receipts answered = [⟨1000, .pending, false⟩] ∧ Secured runtime 1000 w'.shared := by
  have hreceipts : receipts answered = [⟨1000, .pending, false⟩] := by decide +kernel
  exact ⟨hreceipts, secured_of_reach runtime _ (ValidDb.integral (by decide +kernel)) (.of_empty rfl) ⟨3, 3⟩
    [⟨3, 3⟩] [signedDelivery] answered _ (World.reach_playAll _ _) ⟨1000, .pending, false⟩
    (by rw [hreceipts]; exact List.mem_cons_self) (World.reach_playAll _ _)⟩

end Reference

end TenantForge
