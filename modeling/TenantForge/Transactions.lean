import TenantForge.Contracts.History
import TenantForge.Contracts.Webhooks
/-!
# Transactions on subscriptions

The service calls that create, change, meter or delete subscriptions, and those that store, process
and mark webhook events: each one in a session of its own that is committed at its end.

`Effect` lists what the commit of such a transaction can install. All of them change the subscriptions
and the usage events of an organization under its lock only (`Effect.guarded`), so an invariant of the
commits holds in every interleaving (`invariant_of_reach`).
-/

namespace TenantForge

open Gregorian ReadCommitted

inductive Transaction where
  | createOrganization (actor : User) (data : OrganizationCreate)
  | deleteOrganization (organizationId actorId : Uuid)
  | changePlan (organizationId : Uuid) (plan : Plan) (actorUserId : Uuid) (ipAddress : Option String)
      (at? : Option DateTime)
  | recordUsage (organizationId : Uuid) (metric : String) (quantity : Int) (at? : Option DateTime)
  | storeWebhookEvent (event : BillingWebhook)
  | processWebhookEvent (webhookEventId : String) (at? : Option DateTime)
  | markWebhookFailed (webhookEventId : String)

variable (rt : Runtime)

def Transaction.body : Transaction → App Unit
  | .createOrganization actor data => do
    let _ ← TenantForge.createOrganization rt actor data
  | .deleteOrganization organizationId actorId =>
    TenantForge.deleteOrganization rt organizationId actorId
  | .changePlan organizationId plan actorUserId ipAddress at? => do
    let _ ← TenantForge.changePlan rt organizationId plan actorUserId ipAddress at?
  | .recordUsage organizationId metric quantity at? => do
    let _ ← TenantForge.recordUsage organizationId metric quantity at?
  | .storeWebhookEvent event => do
    let _ ← TenantForge.storeWebhookEvent event
  | .processWebhookEvent webhookEventId at? => do
    let _ ← TenantForge.processWebhookEvent rt webhookEventId at?
  | .markWebhookFailed webhookEventId => TenantForge.markWebhookFailed rt webhookEventId

def Transaction.handle (transaction : Transaction) : App Unit := getSession (transaction.body rt)

/-- The transactions of `transactions`, none of which has done anything yet. -/
def startTransactions (s : Shared schema Env Transaction) (transactions : List Transaction) :
    World schema Env Exn Transaction Unit :=
  World.start s transactions fun transaction => transaction.handle rt

/-! ### The protocol -/

/-- The subscription and the usage events of an organization are as before. -/
def Undisturbed (organizationId : Uuid) (db db' : Db) : Prop :=
  ofTenant organizationId .subscriptions db' = ofTenant organizationId .subscriptions db ∧
    ofTenant organizationId .usageEvents db' = ofTenant organizationId .usageEvents db

theorem Undisturbed.refl (organizationId : Uuid) (db : Db) : Undisturbed organizationId db db :=
  ⟨rfl, rfl⟩

theorem Undisturbed.trans {organizationId : Uuid} {db₁ db₂ db₃ : Db}
    (h₁ : Undisturbed organizationId db₁ db₂) (h₂ : Undisturbed organizationId db₂ db₃) :
    Undisturbed organizationId db₁ db₃ :=
  ⟨h₂.1.trans h₁.1, h₂.2.trans h₁.2⟩

/-- Subscriptions and usage events change under their organization's lock only, and the clock goes
forward. -/
def transactionProtocol (inv : Shared schema Env Transaction → Prop) :
    Protocol schema Env Transaction where
  inv := inv
  rely _ locks s s' := (s'.env.clock = s.env.clock ∧ s.env.ticks ≤ s'.env.ticks) ∧
    ∀ organizationId, HoldsOrganization organizationId locks → Undisturbed organizationId s.db s'.db
  guar _ σ s s' := (s'.env.clock = s.env.clock ∧ s.env.ticks ≤ s'.env.ticks) ∧
    ∀ organizationId, HoldsOrganization organizationId σ.locks ∨ Undisturbed organizationId s.db s'.db
  assume _ _ _ _ _ := True
  rely_refl _ _ _ := ⟨⟨rfl, le_rfl⟩, fun _ _ => .refl _ _⟩
  rely_trans _ _ _ _ _ h₁ h₂ := ⟨⟨h₂.1.1.trans h₁.1.1, h₁.1.2.trans h₂.1.2⟩,
    fun organizationId hheld => (h₁.2 organizationId hheld).trans (h₂.2 organizationId hheld)⟩
  rely_mono _ _ _ _ _ hl h := ⟨h.1, fun organizationId hheld => h.2 organizationId (hheld.mono hl)⟩

section Protocol

variable {inv : Shared schema Env Transaction → Prop}

theorem transactionProtocol_respects (a b : Transaction) :
    Respects (transactionProtocol inv) a b := by
  intro σ locks s s' hcompat hguar
  refine ⟨hguar.1, fun organizationId hheld => ?_⟩
  exact (hguar.2 organizationId).resolve_left fun hown => hown.not_both hheld hcompat

theorem transactionProtocol_metering : Metering (transactionProtocol inv) where
  clock _ _ _ _ h := h.1
  subscriptions _ _ _ _ h organizationId hheld := (h.2 organizationId hheld).1
  usageEvents _ _ _ _ h organizationId hheld := (h.2 organizationId hheld).2

/-- An invariant that neither a reading of the sources nor a new id ends. -/
structure Ambient (inv : Shared schema Env Transaction → Prop) : Prop where
  env : ∀ s env', inv s → s.env.Drawn env' → inv { s with env := env' }
  draw : ∀ s, inv s → inv s.draw

theorem Ambient.tolerates (h : Ambient inv) : (transactionProtocol inv).Tolerates Env.Drawn where
  env _ _ _ _ hinv hd := ⟨h.env _ _ hinv hd, ⟨hd.clock, hd.ticks⟩, fun _ => Or.inr (.refl _ _)⟩
  draw _ _ _ hinv := ⟨h.draw _ hinv, ⟨rfl, le_rfl⟩, fun _ => Or.inr (.refl _ _)⟩

end Protocol

/-! ### What a transaction commits -/

def Transaction.deletes : Transaction → Bool
  | .deleteOrganization _ _ => true
  | _ => false

def Transaction.onWebhook : Transaction → Bool
  | .storeWebhookEvent _ | .processWebhookEvent _ _ | .markWebhookFailed _ => true
  | _ => false

/-- The session of a transaction at its commit. An idle transaction found its webhook event stored,
processed or marked already. -/
inductive Effect (rt : Runtime) (P : Protocol schema Env Transaction) :
    Transaction → Session schema → Shared schema Env Transaction → Prop where
  | created {actor data σ s organization owner} :
      OrganizationCreated rt P (.createOrganization actor data) actor .empty σ s organization owner →
      Effect rt P (.createOrganization actor data) σ s
  | deleted {organizationId actorId σ s} : OrganizationDeleted organizationId actorId .empty σ s.db →
      Effect rt P (.deleteOrganization organizationId actorId) σ s
  | planChanged {organizationId plan actorUserId ipAddress at? σ s before after} :
      PlanChanged rt organizationId plan actorUserId ipAddress at? .empty σ s.db before after →
      Effect rt P (.changePlan organizationId plan actorUserId ipAddress at?) σ s
  | recorded {organizationId metric quantity at? σ s event} :
      UsageRecorded P organizationId metric quantity at? .empty σ s event →
      Effect rt P (.recordUsage organizationId metric quantity at?) σ s
  | stored {event σ s stored} : WebhookStored event .empty σ s.db stored →
      Effect rt P (.storeWebhookEvent event) σ s
  | processed {webhookEventId at? σ s event organizationId before changed after} :
      WebhookProcessed rt webhookEventId at? .empty σ s.db event organizationId before changed after →
      Effect rt P (.processWebhookEvent webhookEventId at?) σ s
  | marked {webhookEventId σ s event} : WebhookMarked rt webhookEventId .empty σ s.db event →
      Effect rt P (.markWebhookFailed webhookEventId) σ s
  | idle {transaction σ s} : transaction.onWebhook = true → σ.writes = .empty →
      Effect rt P transaction σ s

variable {rt} {P : Protocol schema Env Transaction} {σ : Session schema}
  {s : Shared schema Env Transaction}

/-- **The step**: a transaction among others, whose effect may be committed. -/
theorem wp_transaction (hP : Metering P) (hD : P.Tolerates Env.Drawn) {transaction : Transaction}
    (hnow : Interferes P transaction .empty s s)
    (hallows : ∀ σ s, Interferes P transaction σ s s → Effect rt P transaction σ s →
      P.Allows transaction σ s (s.commit transaction σ)) :
    wp P transaction (fun _ _ _ => True) (fun _ _ _ => True) (transaction.handle rt) .empty s := by
  rw [Transaction.handle]
  refine wp_getSession harmless_true ?_
  cases transaction with
  | createOrganization actor data =>
    simp only [Transaction.body, Prog.bind_eq, wp_bind]
    refine wp_createOrganization hD harmless_true fun organization owner σ₁ s₁ _ hcreated => ?_
    exact fun s₂ hs => ⟨hallows σ₁ s₂ hs.now (.created (hcreated.later (.of_interferes hs))), trivial⟩
  | deleteOrganization organizationId actorId =>
    rw [Transaction.body]
    refine wp_deleteOrganization hD harmless_true rfl rfl fun σ₁ s₁ _ hdeleted => ?_
    exact fun s₂ hs => ⟨hallows σ₁ s₂ hs.now (.deleted (hdeleted.later hs)), trivial⟩
  | changePlan organizationId plan actorUserId ipAddress at? =>
    simp only [Transaction.body, Prog.bind_eq, wp_bind]
    refine wp_changePlan hP.subscriptions hD harmless_true rfl rfl rfl
      fun before after _ σ₁ s₁ _ hchanged => ?_
    exact fun s₂ hs => ⟨hallows σ₁ s₂ hs.now
      (.planChanged (hchanged.later hP.subscriptions (.of_interferes hs))), trivial⟩
  | recordUsage organizationId metric quantity at? =>
    simp only [Transaction.body, Prog.bind_eq, wp_bind]
    refine wp_recordUsage hP hD harmless_true hnow rfl rfl rfl rfl fun event σ₁ s₁ _ hrecorded => ?_
    exact fun s₂ hs => ⟨hallows σ₁ s₂ hs.now (.recorded (hrecorded.later hP hs)), trivial⟩
  | storeWebhookEvent event =>
    simp only [Transaction.body, Prog.bind_eq, wp_bind]
    refine wp_storeWebhookEvent hD harmless_true rfl rfl (fun stored σ₁ s₁ _ hfound => ?_)
      fun stored σ₁ s₁ _ hstored => ?_
    · exact fun s₂ hs => ⟨hallows σ₁ s₂ hs.now (.idle rfl hfound.writes), trivial⟩
    · exact fun s₂ hs => ⟨hallows σ₁ s₂ hs.now (.stored (hstored.later hs)), trivial⟩
  | processWebhookEvent webhookEventId at? =>
    simp only [Transaction.body, Prog.bind_eq, wp_bind]
    refine wp_processWebhookEvent hP.subscriptions hD harmless_true hnow
      (fun event σ₁ s₁ _ hw _ _ _ => ?_)
      fun event organizationId before changed after _ σ₁ s₁ _ hprocessed => ?_
    · exact fun s₂ hs => ⟨hallows σ₁ s₂ hs.now (.idle rfl hw), trivial⟩
    · exact fun s₂ hs => ⟨hallows σ₁ s₂ hs.now
        (.processed (hprocessed.later hP.subscriptions (.of_interferes hs))), trivial⟩
  | markWebhookFailed webhookEventId =>
    rw [Transaction.body]
    refine wp_markWebhookFailed harmless_true hnow rfl rfl (fun σ₁ s₁ _ hw => ?_)
      fun event σ₁ s₁ _ hmarked => ?_
    · exact fun s₂ hs => ⟨hallows σ₁ s₂ hs.now (.idle rfl hw), trivial⟩
    · exact fun s₂ hs => ⟨hallows σ₁ s₂ hs.now (.marked (hmarked.later hs)), trivial⟩

/-! ### Other organizations -/

/-- Writes to rows of one organization leave the rows of another one as they are. -/
theorem ofTenant_view {t : Table} {db : Db} {organizationId other : Uuid} (hdb : db.Integral)
    (hσ : σ.Sound db) (hne : other ≠ organizationId)
    (hw : ∀ id version, σ.writes.find t id = some version →
      (∀ row : Row t, version = some row → tenantOf row = some organizationId) ∧
        ∀ old : Row t, db.lookup t id = some old → tenantOf old = some organizationId) :
    ofTenant other t (σ.view db) = ofTenant other t db := by
  refine Session.Sound.filter_view (S := schema) hσ hdb fun id version hfind => ?_
  have hother : ∀ row : Row t, tenantOf row = some organizationId →
      decide (tenantOf row = some other) = false := fun row hof => by simp [hof, Ne.symm hne]
  exact ⟨fun row hrow => hother row ((hw id version hfind).1 row hrow),
    fun old hold => hother old ((hw id version hfind).2 old hold)⟩

/-- A table in which one row of the organization was inserted. -/
theorem ofTenant_view_of_inserted {t : Table} {db : Db} {organizationId other id : Uuid} {row : Row t}
    (hdb : db.Integral) (hσ : σ.Sound db) (hne : other ≠ organizationId)
    (hw : σ.writes t = [(id, some row)]) (hvacant : σ.Vacant db t id)
    (hof : tenantOf row = some organizationId) :
    ofTenant other t (σ.view db) = ofTenant other t db := by
  refine ofTenant_view hdb hσ hne fun id' version hfind => ?_
  have hmem := Overlay.mem_of_find hfind
  rw [hw, List.mem_singleton, Prod.mk.injEq] at hmem
  obtain ⟨rfl, rfl⟩ := hmem
  refine ⟨fun _ hrow => Option.some.inj hrow ▸ hof, fun old hold => ?_⟩
  rw [hvacant.current] at hold
  cases hold

theorem ofTenant_view_of_clean {t : Table} {db : Db} {other : Uuid} (hw : σ.writes t = []) :
    ofTenant other t (σ.view db) = ofTenant other t db := by
  rw [ofTenant, Session.view_of_nil hw, ofTenant]

theorem OrganizationCreated.held {T : Type} {P : Protocol schema Env T} {tag : T} {actor : User}
    {s : Shared schema Env T} {organization : Organization} {owner : Membership}
    (h : OrganizationCreated rt P tag actor .empty σ s organization owner) :
    HoldsOrganization organization.id σ.locks := by
  obtain ⟨held, hmem, hkey, hmode⟩ := (h.organizationVacant rfl).held
  exact ⟨held, hmem, hkey, hmode⟩

theorem OrganizationDeleted.held {organizationId actorId : Uuid} {db : Db}
    (h : OrganizationDeleted organizationId actorId .empty σ db) :
    HoldsOrganization organizationId σ.locks := by
  obtain ⟨organization, hlocked, rfl⟩ := h.organization
  exact holdsOrganization_of_locked hlocked

theorem UsageRecorded.inserted {organizationId : Uuid} {metric : String} {quantity : Int}
    {at? : Option DateTime} {event : UsageEvent}
    (h : UsageRecorded P organizationId metric quantity at? .empty σ s event) :
    σ.writes .usageEvents = [(event.id, some event)] := by
  rw [h.writes, Overlay.put_table_of_nil rfl]

theorem UsageRecorded.others {organizationId : Uuid} {metric : String} {quantity : Int}
    {at? : Option DateTime} {event : UsageEvent}
    (h : UsageRecorded P organizationId metric quantity at? .empty σ s event) {t : Table}
    (ht : t ≠ .usageEvents) : σ.writes t = [] := by
  rw [h.writes, Overlay.put_table_ne _ ht]
  rfl

/-- An effect disturbs only organizations whose row the session holds. -/
theorem Effect.guarded {transaction : Transaction} (h : Effect rt P transaction σ s)
    (hdb : s.db.Integral) (hσ : σ.Sound s.db) (other : Uuid) :
    HoldsOrganization other σ.locks ∨ Undisturbed other s.db (σ.view s.db) := by
  -- it is enough to name the organization, and to leave the others alone
  have hone : ∀ organizationId, HoldsOrganization organizationId σ.locks →
      (other ≠ organizationId → Undisturbed other s.db (σ.view s.db)) →
      HoldsOrganization other σ.locks ∨ Undisturbed other s.db (σ.view s.db) := by
    intro organizationId hheld hothers
    by_cases hother : other = organizationId
    · exact Or.inl (hother ▸ hheld)
    · exact Or.inr (hothers hother)
  cases h with
  | @created _ _ _ _ organization owner h =>
    refine hone organization.id h.held fun hne => ?_
    obtain ⟨subscription, current, entry, hdefault, _, hvacant, hw⟩ := h.written
    have hinserted : σ.writes .subscriptions = [(subscription.id, some subscription)] := by
      simp [hw, Overlay.put_table_self]
    exact ⟨ofTenant_view_of_inserted hdb hσ hne hinserted (hvacant rfl)
      (by simp [tenantOf, hdefault.organizationId]), ofTenant_view_of_clean (by simp [hw])⟩
  | @deleted organizationId actorId _ _ h =>
    refine hone organizationId h.held fun hne => ?_
    have hgone : ∀ t ∈ childTables, t ≠ .auditLogs →
        ofTenant other t (σ.view s.db) = ofTenant other t s.db := by
      intro t ht hne'
      refine ofTenant_view hdb hσ hne fun id version hfind => ?_
      obtain ⟨rfl, row, rfl, hof, hmem⟩ := h.gone rfl ht hne' hfind
      constructor
      · intro row hrow
        cases hrow
      · intro old hold
        rw [hdb.lookup_of_mem hmem] at hold
        exact Option.some.inj hold ▸ hof
    exact ⟨hgone _ (by decide) (by decide), hgone _ (by decide) (by decide)⟩
  | planChanged h =>
    exact hone _ h.sees.held fun hne => ⟨h.sees.ofTenant_view hdb hσ hne,
      ofTenant_view_of_clean (h.writes _ (by decide) (by decide))⟩
  | @recorded organizationId _ _ _ _ _ event h =>
    refine hone organizationId h.held fun hne => ⟨ofTenant_view_of_clean (h.others (by decide)),
      ofTenant_view_of_inserted hdb hσ hne h.inserted h.vacant ?_⟩
    rw [h.contents]
    rfl
  | stored h =>
    refine Or.inr ⟨ofTenant_view_of_clean ?_, ofTenant_view_of_clean ?_⟩ <;>
      rw [h.writes, Overlay.put_table_ne _ (by decide)] <;> rfl
  | processed h =>
    exact hone _ h.sees.held fun hne => ⟨h.sees.ofTenant_view hdb hσ hne,
      ofTenant_view_of_clean (h.writes _ (by decide) (by decide) (by decide))⟩
  | marked h =>
    refine Or.inr ⟨ofTenant_view_of_clean ?_, ofTenant_view_of_clean ?_⟩ <;>
      rw [h.writes, Overlay.put_table_ne _ (by decide)] <;> rfl
  | idle _ hw =>
    exact Or.inr ⟨ofTenant_view_of_clean (by rw [hw]; rfl), ofTenant_view_of_clean (by rw [hw]; rfl)⟩

/-! ### Whole runs -/

/-- **Invariants of the commits hold in every interleaving**, aborts and crashes included. -/
theorem invariant_of_reach (rt : Runtime) {inv : Shared schema Env Transaction → Prop} (hambient : Ambient inv)
    {transactions : List Transaction} {w : World schema Env Exn Transaction Unit}
    (hstep : ∀ transaction ∈ transactions, ∀ σ s, s.db.Integral → σ.Sound s.db → inv s →
      Effect rt (transactionProtocol inv) transaction σ s → inv (s.commit transaction σ))
    (hinv : inv s) (hdb : s.db.Integral) (hreach : (startTransactions rt s transactions).Reach w) :
    inv w.shared ∧ w.shared.db.Integral := by
  have hstart : (startTransactions rt s transactions).Ok (transactionProtocol inv)
      fun _ _ _ _ => True := by
    refine .start hinv hdb (.of_forall transactionProtocol_respects transactions)
      fun transaction hmem => ?_
    refine wp_transaction transactionProtocol_metering hambient.tolerates
      (.refl hinv hdb (.of_writes_empty hdb rfl)) fun σ s hs heffect => ?_
    exact ⟨hstep transaction hmem σ s hs.integral hs.sound hs.inv heffect, ⟨rfl, le_rfl⟩,
      heffect.guarded hs.integral hs.sound⟩
  have hok := hreach.ok (fun _ _ _ _ _ _ _ => by
    cases ‹Prog schema Env Exn Unit› <;> trivial) (fun _ _ => stable_true) hstart
  exact ⟨hok.inv, hok.integral⟩

end TenantForge
