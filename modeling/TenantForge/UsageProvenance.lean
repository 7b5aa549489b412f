import TenantForge.Contracts.ApiKeys
import TenantForge.Contracts.History
import TenantForge.Contracts.Usage
import TenantForge.Exchanges
import TenantForge.Reference.Runtime
/-!
# Where usage events come from

Over requests that execute one after another, every usage event of an organization was recorded for a
raw key that an owner of this organization had been given, and that was not revoked before. A revoked
key never authenticates again (`usageProvenance_of_exchanges`).

What one request can do to the keys and the events is its `KeyEffect`; `KeyHistory` is the invariant that
joins the stored rows with the exchanges so far.
-/

namespace TenantForge

open Gregorian ReadCommitted

/-! ### Events of a history -/

/-- An owner of the organization was given this new key. -/
def Mints (rt : Runtime) (organizationId keyId : Uuid) (rawKey : String) (e : Exchange) : Prop :=
  ∃ credentials name userId key, e.request = .tenant organizationId credentials (.createApiKey name) ∧
    e.outcome = .ok (.apiKeyCreated key rawKey) ∧ key.id = keyId ∧
    Authenticated rt credentials userId ∧ ∃ m : Membership, m ∈ e.before.db .memberships ∧
      isMembership organizationId userId ownerOnly m = true

/-- A call that revokes the key was answered. -/
def Revokes (keyId : Uuid) (e : Exchange) : Prop :=
  ∃ organizationId credentials, e.request = .tenant organizationId credentials (.revokeApiKey keyId) ∧
    e.outcome = .ok .noContent

/-- The event was recorded for a request with this raw key. -/
def Charges (rawKey : String) (event : UsageEvent) (e : Exchange) : Prop :=
  ∃ quantity, e.request = .createUsageEvent event.organizationId (some rawKey) quantity ∧
    e.outcome = .ok (.usageEvent event)

/-- The raw key is accepted in this state. -/
def Authenticates (rt : Runtime) (rawKey : String) (s : Shared schema Env Request) : Prop :=
  ∃ tag principal, ((authenticateApiKey rt rawKey).run tag .empty s).1 = .ok principal

theorem not_authenticates {rt : Runtime} {rawKey : String} {s : Shared schema Env Request}
    (h : ∀ key : ApiKey, key ∈ s.db .apiKeys → isLiveKey (rt.hashToken rawKey) key = false) :
    ¬Authenticates rt rawKey s := by
  rintro ⟨tag, principal, hrun⟩
  have hnone : Prog.matching (S := schema) .apiKeys (isLiveKey (rt.hashToken rawKey)) s.db = [] :=
    List.filter_eq_nil_iff.mpr fun key hkey => by simp [h key hkey]
  have hscalar : (Prog.scalar (S := schema) .apiKeys (isLiveKey (rt.hashToken rawKey)) :
      App (Option ApiKey)).run tag .empty s = (.ok none, .empty, s) := by
    rw [Prog.scalar, Prog.run_bind]
    simp only [Prog.query, Prog.run, Session.view_empty, hnone, Prog.first]
  simp only [authenticateApiKey, Prog.bind_eq, Prog.run_bind, raiseIf] at hrun
  by_cases hprefix : rawKey.startsWith "tf_live_" = false
  · rw [if_pos hprefix] at hrun
    cases hrun
  · rw [if_neg hprefix, Prog.pure_eq, Prog.run] at hrun
    dsimp only at hrun
    rw [hscalar] at hrun
    cases hrun

/-! ### What one request does -/

/-- Keys come from an owner's call, stay what they are and are never restored; events come from a key
that is live. -/
structure KeyEffect (rt : Runtime) (e : Exchange) : Prop where
  keys : ∀ key : ApiKey, key ∈ e.after.db .apiKeys →
    (∃ old : ApiKey, old ∈ e.before.db .apiKeys ∧ old.id = key.id ∧
      old.organizationId = key.organizationId ∧ old.keyHash = key.keyHash ∧
      (key.revokedAt = none → old.revokedAt = none ∧ ¬Revokes key.id e)) ∨
    ∃ rawKey, key.keyHash = rt.hashToken rawKey ∧ Mints rt key.organizationId key.id rawKey e
  mints : ∀ organizationId keyId rawKey, Mints rt organizationId keyId rawKey e →
    ∃ n, e.before.env.issued ≤ n ∧ n < e.after.env.issued ∧ rawKey = "tf_live_" ++ e.before.env.tokens n ∧
      e.before.ids.Holds keyId ∧ ¬e.after.ids.Holds keyId
  revokes : ∀ keyId, Revokes keyId e → ∃ key : ApiKey, key ∈ e.before.db .apiKeys ∧ key.id = keyId
  events : ∀ event : UsageEvent, event ∈ e.after.db .usageEvents →
    event ∈ e.before.db .usageEvents ∨ ∃ rawKey, Charges rawKey event e
  charges : ∀ rawKey event, Charges rawKey event e → ∃ key : ApiKey, key ∈ e.before.db .apiKeys ∧
    isLiveKey (rt.hashToken rawKey) key = true ∧ key.organizationId = event.organizationId

section Effects

variable {rt : Runtime} {s : Shared schema Env Request} {request : Request}

/-- The requests that these events are made of. -/
def Request.onKeys : Request → Bool
  | .tenant _ _ (.createApiKey _) | .tenant _ _ (.revokeApiKey _) => true
  | .createUsageEvent _ _ _ => true
  | _ => false

/-- A request of another kind that adds no rows and changes none. -/
theorem keyEffect_of_other (hrequest : request.onKeys = false)
    (hkeys : ∀ key : ApiKey, key ∈ (request.perform rt s).after.db .apiKeys → key ∈ s.db .apiKeys)
    (hevents : ∀ event : UsageEvent, event ∈ (request.perform rt s).after.db .usageEvents →
      event ∈ s.db .usageEvents) : KeyEffect rt (request.perform rt s) := by
  have hmints : ∀ organizationId keyId rawKey, ¬Mints rt organizationId keyId rawKey (request.perform rt s) := by
    rintro organizationId keyId rawKey ⟨credentials, name, userId, key, hkind, _⟩
    obtain rfl : request = _ := hkind
    cases hrequest
  have hrevokes : ∀ keyId, ¬Revokes keyId (request.perform rt s) := by
    rintro keyId ⟨organizationId, credentials, hkind, _⟩
    obtain rfl : request = _ := hkind
    cases hrequest
  refine ⟨fun key hkey => Or.inl ⟨key, hkeys key hkey, rfl, rfl, rfl, fun hlive => ⟨hlive, hrevokes _⟩⟩,
    fun _ _ _ h => absurd h (hmints _ _ _), fun _ h => absurd h (hrevokes _),
    fun event hevent => Or.inl (hevents event hevent), ?_⟩
  rintro rawKey event ⟨quantity, hkind, _⟩
  obtain rfl : request = _ := hkind
  cases hrequest

/-- A request that raised and committed nothing. -/
theorem keyEffect_of_error {error : Exn} (herror : (request.perform rt s).outcome = .error error)
    (hstill : Still s (request.perform rt s).after) : KeyEffect rt (request.perform rt s) := by
  have hok : ∀ value, (request.perform rt s).outcome ≠ .ok value := fun value hvalue => by
    rw [herror] at hvalue
    cases hvalue
  refine ⟨fun key hkey => Or.inl ⟨key, ?_, rfl, rfl, rfl, fun hlive => ⟨hlive, ?_⟩⟩, ?_, ?_,
    fun event hevent => Or.inl ?_, ?_⟩
  · rwa [hstill.db] at hkey
  · rintro ⟨_, _, _, hvalue⟩
    exact hok _ hvalue
  · rintro _ _ _ ⟨_, _, _, _, _, hvalue, _⟩
    exact absurd hvalue (hok _)
  · rintro _ ⟨_, _, _, hvalue⟩
    exact absurd hvalue (hok _)
  · rwa [hstill.db] at hevent
  · rintro _ _ ⟨_, _, hvalue⟩
    exact absurd hvalue (hok _)

/-- A deleted organization takes its keys and events along. -/
theorem keyEffect_deleteOrganization {organizationId : Uuid} {credentials : Option Credentials}
    (hdb : s.db.Integral) :
    KeyEffect rt ((Request.tenant organizationId credentials .deleteOrganization).perform rt s) := by
  have hcascade : ∀ t ∈ childTables, t ≠ .auditLogs → ∀ row : Row t,
      row ∈ ((Request.tenant organizationId credentials .deleteOrganization).perform rt s).after.db t →
        row ∈ s.db t := by
    obtain ⟨hok, herror⟩ := Request.perform_of_still rt
      (.tenant organizationId credentials .deleteOrganization)
      (Q := fun _ σ' s' => σ'.Sound s'.db ∧ ∃ σ₀ userId, σ₀.writes = .empty ∧
        OrganizationDeleted organizationId userId σ₀ σ' s'.db) hdb (by
        refine wp_handle_tenant still_tolerates_drawn harmless_true (still_now hdb rfl)
          fun user membership σ₁ s₁ hentered _ => ?_
        simp only [TenantCall.operation, Prog.bind_eq, wp_bind]
        refine wp_deleteOrganization still_tolerates_drawn harmless_true (by rw [hentered.writes]; rfl)
          (by rw [hentered.writes]; rfl) fun σ₂ s₂ hnow₂ hdeleted => ?_
        exact ⟨hnow₂.sound, σ₁, user.id, hentered.writes, hdeleted⟩)
    intro t ht hne row hrow
    cases houtcome : ((Request.tenant organizationId credentials .deleteOrganization).perform rt s).outcome with
    | error error => rwa [(herror error houtcome).db] at hrow
    | ok value =>
      obtain ⟨σ, s', ⟨hσ, σ₀, userId, hempty, hdeleted⟩, hstill, hafter⟩ := hok value houtcome
      rw [hafter, Shared.commit_db, hstill.db] at hrow
      rw [hstill.db] at hσ hdeleted
      rcases hσ.mem_view.mp hrow with ⟨hrow, _⟩ | hfind
      · exact hrow
      · cases (hdeleted.gone hempty ht hne hfind).1
  exact keyEffect_of_other rfl (hcascade .apiKeys (by decide) (by decide))
    (hcascade .usageEvents (by decide) (by decide))

/-- A new key is an owner's. -/
theorem keyEffect_createApiKey {organizationId : Uuid} {credentials : Option Credentials} {name : String}
    (hdb : s.db.Integral) :
    KeyEffect rt ((Request.tenant organizationId credentials (.createApiKey name)).perform rt s) := by
  obtain ⟨hok, herror⟩ := Request.perform_of_still rt
    (.tenant organizationId credentials (.createApiKey name))
    (Q := fun value σ' s' => ∃ σ₀ userId key rawKey, value = .apiKeyCreated key.read rawKey ∧
      σ₀.writes = .empty ∧ Authenticated rt credentials userId ∧
      KeyCreated rt (Protocol.still s) (.tenant organizationId credentials (.createApiKey name))
        organizationId userId σ₀ σ' s' key rawKey) hdb (by
      refine wp_handle_tenant still_tolerates_drawn harmless_true (still_now hdb rfl)
        fun user membership σ₁ s₁ hentered _ => ?_
      simp only [TenantCall.operation, Prog.bind_eq, wp_bind]
      refine wp_createApiKey still_tolerates_drawn harmless_true (by rw [hentered.writes]; rfl)
        fun key rawKey σ₂ s₂ _ hcreated => ?_
      exact ⟨σ₁, user.id, key, rawKey, rfl, hentered.writes, hentered.authenticated, hcreated⟩)
  cases houtcome : ((Request.tenant organizationId credentials (.createApiKey name)).perform rt s).outcome with
  | error error => exact keyEffect_of_error houtcome (herror error houtcome)
  | ok value =>
    obtain ⟨σ, s', ⟨σ₀, userId, key, rawKey, rfl, hempty, hauth, hcreated⟩, hstill, hafter⟩ := hok _ houtcome
    obtain ⟨owner, howner, hof⟩ := hcreated.owner
    obtain ⟨entry, _, hw⟩ := hcreated.written
    have hwritten : σ.writes .apiKeys = [(key.id, some key)] := by
      simp [hw, hempty, Overlay.put_table_self]
    have hmint : Mints rt organizationId key.id rawKey
        ((Request.tenant organizationId credentials (.createApiKey name)).perform rt s) :=
      ⟨credentials, name, userId, key.read, rfl, houtcome, rfl, hauth, owner,
        hstill.db ▸ howner.mem, hof⟩
    refine ⟨fun other hother => ?_, ?_, ?_, fun event hevent => Or.inl ?_, ?_⟩
    · rw [hafter, Shared.commit_db, hstill.db] at hother
      rcases (Session.mem_view_single hwritten s.db other).mp hother with ⟨hold, _⟩ | hnew
      · refine Or.inl ⟨other, hold, rfl, rfl, rfl, fun hlive => ⟨hlive, ?_⟩⟩
        rintro ⟨_, _, hkind, _⟩
        cases hkind
      · obtain rfl := Option.some.inj hnew
        exact Or.inr ⟨rawKey, hcreated.hash, hcreated.organization ▸ hmint⟩
    · rintro _ _ _ ⟨_, _, _, given, hkind, hvalue, rfl, _⟩
      cases hkind
      rw [houtcome] at hvalue
      cases hvalue
      obtain ⟨token, rfl, s₁, hinv₁, rfl, hlater₁⟩ := hcreated.drawn
      obtain ⟨s₂, _, hinv₂, hid, _, _, hlater₂⟩ := hcreated.named
      have honward := hlater₁.onward_alone
      have hid : s₂.ids.head = key.read.id := hid
      rw [hafter, Shared.commit_ids]
      refine ⟨s₁.env.issued, hinv₁.env.issued, honward.issued, ?_, ?_, ?_⟩
      · rw [perform_before, ← hinv₁.env.tokens]
      · exact hinv₂.ids.holds (hid ▸ s₂.ids.holds_head)
      · exact hid ▸ hlater₂.ids.not_holds_head
    · rintro _ ⟨_, _, hkind, _⟩
      cases hkind
    · rw [hafter, Shared.commit_db, hstill.db, Session.view_of_nil (by simp [hw, hempty])] at hevent
      exact hevent
    · rintro _ _ ⟨_, hkind, _⟩
      cases hkind

/-- A revoked key stays, and is revoked. -/
theorem keyEffect_revokeApiKey {organizationId keyId : Uuid} {credentials : Option Credentials}
    (hdb : s.db.Integral) :
    KeyEffect rt ((Request.tenant organizationId credentials (.revokeApiKey keyId)).perform rt s) := by
  obtain ⟨hok, herror⟩ := Request.perform_of_still rt
    (.tenant organizationId credentials (.revokeApiKey keyId))
    (Q := fun _ σ' s' => ∃ σ₀ userId key, σ₀.writes = .empty ∧
      KeyRevoked rt organizationId keyId userId σ₀ σ' s'.db key) hdb (by
      refine wp_handle_tenant still_tolerates_drawn harmless_true (still_now hdb rfl)
        fun user membership σ₁ s₁ hentered _ => ?_
      simp only [TenantCall.operation, Prog.bind_eq, wp_bind]
      refine wp_revokeApiKey still_tolerates_drawn harmless_true (by rw [hentered.writes]; rfl)
        (by rw [hentered.writes]; rfl) (hentered.others _ (by decide) (by decide))
        fun key σ₂ s₂ _ hrevoked => ?_
      exact ⟨σ₁, user.id, key, hentered.writes, hrevoked⟩)
  cases houtcome : ((Request.tenant organizationId credentials (.revokeApiKey keyId)).perform rt s).outcome with
  | error error => exact keyEffect_of_error houtcome (herror error houtcome)
  | ok value =>
    obtain ⟨σ, s', ⟨σ₀, userId, key, hempty, hrevoked⟩, hstill, hafter⟩ := hok _ houtcome
    have hmem : key ∈ s.db .apiKeys := hstill.db ▸ hrevoked.locked.mem
    have hid : key.id = keyId := by
      have := hrevoked.keyOf
      simp only [isApiKeyId, Bool.and_eq_true, decide_eq_true_eq] at this
      exact this.1
    have hothers : ∀ other : ApiKey, (other.id = keyId → other.revokedAt ≠ none) →
        other.revokedAt = none → ¬Revokes other.id
          ((Request.tenant organizationId credentials (.revokeApiKey keyId)).perform rt s) := by
      rintro other hother hlive ⟨_, _, hkind, _⟩
      cases hkind
      exact hother rfl hlive
    refine ⟨fun other hother => Or.inl ?_, ?_, ?_, fun event hevent => Or.inl ?_, ?_⟩
    · rw [hafter, Shared.commit_db, hstill.db] at hother
      rcases hrevoked.written with ⟨hdead, hw⟩ | ⟨hlive, revokedAt, entry, _, hw⟩
      · rw [Session.view_of_nil (by rw [hw, hempty]; rfl)] at hother
        refine ⟨other, hother, rfl, rfl, rfl, fun hlive => ⟨hlive, hothers other (fun hsame => ?_) hlive⟩⟩
        rwa [hdb.eq_of_id (t := .apiKeys) hother hmem (hsame.trans hid.symm)]
      · have hwritten : σ.writes .apiKeys = [(key.id, some { key with revokedAt := some revokedAt })] := by
          simp [hw, hempty, Overlay.put_table_self]
        rcases (Session.mem_view_single hwritten s.db other).mp hother with ⟨hold, hne⟩ | hnew
        · exact ⟨other, hold, rfl, rfl, rfl, fun hlive => ⟨hlive, hothers other
            (fun hsame => absurd (hsame.trans hid.symm) hne) hlive⟩⟩
        · obtain rfl := Option.some.inj hnew
          refine ⟨key, hmem, rfl, rfl, rfl, fun hlive => ?_⟩
          cases hlive
    · rintro _ _ _ ⟨_, _, _, _, hkind, _⟩
      cases hkind
    · rintro _ ⟨_, _, hkind, _⟩
      cases hkind
      exact ⟨key, hmem, hid⟩
    · have hclean : σ.writes .usageEvents = [] := by
        rcases hrevoked.written with ⟨_, hw⟩ | ⟨_, revokedAt, entry, _, hw⟩ <;> simp [hw, hempty]
      rwa [hafter, Shared.commit_db, hstill.db, Session.view_of_nil hclean] at hevent
    · rintro _ _ ⟨_, hkind, _⟩
      cases hkind

/-- A new event is charged to a live key of the organization. -/
theorem keyEffect_createUsageEvent {organizationId : Uuid} {rawKey : Option String} {quantity : Int}
    (hdb : s.db.Integral) :
    KeyEffect rt ((Request.createUsageEvent organizationId rawKey quantity).perform rt s) := by
  obtain ⟨hok, herror⟩ := Request.perform_of_still rt
    (.createUsageEvent organizationId rawKey quantity)
    (Q := fun value σ' s' => ∃ raw key σ₁ s₁ event, rawKey = some raw ∧ value = .usageEvent event ∧
      key.organizationId = organizationId ∧
      KeyUsed rt (Protocol.still s) (.createUsageEvent organizationId rawKey quantity) raw .empty σ₁ s₁ key ∧
      UsageRecorded (Protocol.still s) organizationId apiRequestsMetric quantity none σ₁ σ' s' event)
    hdb (by
      simp only [Request.endpoint, createUsageEvent, Prog.bind_eq, Prog.map_eq, wp_bind]
      refine wp_getApiKeyPrincipal still_tolerates_drawn harmless_true (still_now hdb rfl) rfl rfl
        fun raw key σ₁ s₁ hraw hnow₁ hused => ?_
      refine wp_raiseIf (fun _ => trivial) fun hsame => ?_
      have hof : key.organizationId = organizationId := not_not.mp hsame
      have hclean : ∀ t, t ≠ .apiKeys → σ₁.writes t = [] := fun t ht => by
        rcases hused.written with hw | ⟨old, usedAt, _, _, hw⟩
        · rw [hw]; rfl
        · rw [hw, Overlay.put_table_ne _ ht]; rfl
      refine wp_recordUsage still_metering still_tolerates_drawn harmless_true hnow₁
        (hclean _ (by decide)) (hclean _ (by decide)) (hclean _ (by decide))
        (hused.loaded _ (by decide)) fun event σ₂ s₂ _ hrecorded => ?_
      exact ⟨raw, key, σ₁, s₁, event, hraw, rfl, hof, hused, hof ▸ hrecorded⟩)
  cases houtcome : ((Request.createUsageEvent organizationId rawKey quantity).perform rt s).outcome with
  | error error => exact keyEffect_of_error houtcome (herror error houtcome)
  | ok value =>
    obtain ⟨σ, s', ⟨raw, key, σ₁, s₁, event, rfl, rfl, hof, hused, hrecorded⟩, hstill, hafter⟩ :=
      hok _ houtcome
    have hevent : event.organizationId = organizationId := by rw [hrecorded.contents]
    obtain ⟨_, hinv, hmem, _⟩ := hused.seen
    rw [hinv.db] at hmem
    refine ⟨fun other hother => Or.inl ?_, ?_, ?_, fun other hother => ?_, ?_⟩
    · have hnot : ∀ keyId, ¬Revokes keyId
          ((Request.createUsageEvent organizationId (some raw) quantity).perform rt s) := by
        rintro _ ⟨_, _, hkind, _⟩
        cases hkind
      rw [hafter, Shared.commit_db, hstill.db] at hother
      rcases hused.written with hw | ⟨old, usedAt, hid, ⟨_, hinv', hold, _⟩, hw⟩
      · rw [Session.view_of_nil (by rw [hrecorded.writes, hw, Overlay.put_table_ne _ (by decide)]; rfl)]
          at hother
        exact ⟨other, hother, rfl, rfl, rfl, fun hlive => ⟨hlive, hnot _⟩⟩
      · have hwritten : σ.writes .apiKeys = [(key.id, some { old with lastUsedAt := some usedAt })] := by
          rw [hrecorded.writes, Overlay.put_table_ne _ (by decide), hw, Overlay.put_table_self]
          rfl
        rw [hinv'.db] at hold
        rcases (Session.mem_view_single hwritten s.db other).mp hother with ⟨hstays, _⟩ | hnew
        · exact ⟨other, hstays, rfl, rfl, rfl, fun hlive => ⟨hlive, hnot _⟩⟩
        · obtain rfl := Option.some.inj hnew
          exact ⟨old, hold, rfl, rfl, rfl, fun hlive => ⟨hlive, hnot _⟩⟩
    · rintro _ _ _ ⟨_, _, _, _, hkind, _⟩
      cases hkind
    · rintro _ ⟨_, _, hkind, _⟩
      cases hkind
    · rw [hafter, Shared.commit_db, hstill.db] at hother
      have hwritten : σ.writes .usageEvents = [(event.id, some event)] := by
        rw [hrecorded.writes, Overlay.put_table_self]
        rcases hused.written with hw | ⟨_, _, _, _, hw⟩ <;> simp [hw, Session.empty]
      rcases (Session.mem_view_single hwritten s.db other).mp hother with ⟨hstays, _⟩ | hnew
      · exact Or.inl hstays
      · obtain rfl := Option.some.inj hnew
        exact Or.inr ⟨raw, quantity, by rw [hevent]; rfl, houtcome⟩
    · rintro given other ⟨_, hkind, hvalue⟩
      rw [houtcome] at hvalue
      cases hvalue
      cases hkind
      exact ⟨key, hmem, hused.live, hof⟩

/-- **The step**: what any request does to the keys and the events. -/
theorem keyEffect_perform (rt : Runtime) {s : Shared schema Env Request} (hdb : s.db.Integral)
    (request : Request) : KeyEffect rt (request.perform rt s) := by
  obtain ⟨hframe, _⟩ := request.perform_frame rt hdb
  have hordinary : request.onKeys = false → Table.apiKeys ∉ request.tables →
      Table.usageEvents ∉ request.tables → KeyEffect rt (request.perform rt s) := fun hkind hk hu =>
    keyEffect_of_other hkind (fun key hkey => by rwa [hframe _ hk] at hkey)
      fun event hevent => by rwa [hframe _ hu] at hevent
  cases request with
  | tenant organizationId credentials call =>
    cases call with
    | deleteOrganization => exact keyEffect_deleteOrganization hdb
    | createApiKey name => exact keyEffect_createApiKey hdb
    | revokeApiKey keyId => exact keyEffect_revokeApiKey hdb
    | _ =>
      exact hordinary rfl (by simp [Request.tables, TenantCall.tables])
        (by simp [Request.tables, TenantCall.tables])
  | createUsageEvent organizationId rawKey quantity => exact keyEffect_createUsageEvent hdb
  | _ => exact hordinary rfl (by simp [Request.tables]) (by simp [Request.tables])

end Effects

/-! ### Whole runs -/

/-- The event was charged to a key of its organization that had been minted and not been revoked. -/
def Provenanced (rt : Runtime) (history : List Exchange) (event : UsageEvent) : Prop :=
  ∃ earlier charge later, history = earlier ++ charge :: later ∧ ∃ rawKey keyId,
    Charges rawKey event charge ∧ (∃ mint ∈ earlier, Mints rt event.organizationId keyId rawKey mint) ∧
    ∀ e ∈ earlier, ¬Revokes keyId e

theorem Provenanced.append {rt : Runtime} {history : List Exchange} {event : UsageEvent}
    (h : Provenanced rt history event) (more : List Exchange) : Provenanced rt (history ++ more) event := by
  obtain ⟨earlier, charge, later, rfl, hrest⟩ := h
  exact ⟨earlier, charge, later ++ more, by simp, hrest⟩

/-- The exchanges so far explain the stored keys and events. -/
structure KeyHistory (rt : Runtime) (tokens : Nat → String) (history : List Exchange)
    (s : Shared schema Env Request) : Prop where
  source : s.env.tokens = tokens
  keys : ∀ key : ApiKey, key ∈ s.db .apiKeys → ∃ rawKey, key.keyHash = rt.hashToken rawKey ∧
    ∃ mint ∈ history, Mints rt key.organizationId key.id rawKey mint
  live : ∀ key : ApiKey, key ∈ s.db .apiKeys → key.revokedAt = none → ∀ e ∈ history, ¬Revokes key.id e
  drawn : ∀ key : ApiKey, key ∈ s.db .apiKeys → ¬s.ids.Holds key.id
  revoked : ∀ e ∈ history, ∀ keyId, Revokes keyId e → ¬s.ids.Holds keyId
  raw : ∀ mint ∈ history, ∀ organizationId keyId rawKey, Mints rt organizationId keyId rawKey mint →
    ∃ n < s.env.issued, rawKey = "tf_live_" ++ tokens n
  unique : ∀ a ∈ history, ∀ b ∈ history, ∀ organizationId organizationId' keyId keyId' rawKey,
    Mints rt organizationId keyId rawKey a → Mints rt organizationId' keyId' rawKey b →
      organizationId = organizationId' ∧ keyId = keyId'
  events : ∀ event : UsageEvent, event ∈ s.db .usageEvents → Provenanced rt history event
  charges : ∀ charge ∈ history, ∀ rawKey event, Charges rawKey event charge →
    ∃ keyId, ∃ mint ∈ history, Mints rt event.organizationId keyId rawKey mint

section Histories

variable {rt : Runtime} {tokens : Nat → String} {history : List Exchange}
  {s : Shared schema Env Request}

/-- A live key with a presented text is the one that this text was returned with. -/
theorem KeyHistory.minted_of_live (h : KeyHistory rt tokens history s)
    (hhash : Function.Injective rt.hashToken) {rawKey : String} {key : ApiKey}
    (hkey : key ∈ s.db .apiKeys) (hlive : isLiveKey (rt.hashToken rawKey) key = true) :
    (∃ mint ∈ history, Mints rt key.organizationId key.id rawKey mint) ∧
      ∀ e ∈ history, ¬Revokes key.id e := by
  simp only [isLiveKey, Bool.and_eq_true, decide_eq_true_eq, Option.isNone_iff_eq_none] at hlive
  obtain ⟨raw, hraw, hmint⟩ := h.keys key hkey
  obtain rfl : raw = rawKey := hhash (hraw.symm.trans hlive.1)
  exact ⟨hmint, h.live key hkey hlive.2⟩

/-- **The step**: one more exchange. -/
theorem KeyHistory.snoc (hhash : Function.Injective rt.hashToken) (htokens : Function.Injective tokens)
    {e : Exchange} (h : KeyHistory rt tokens history e.before) (heffect : KeyEffect rt e)
    (henv : e.before.env.Onward e.after.env) (hids : e.before.ids.Leads e.after.ids) :
    KeyHistory rt tokens (history ++ [e]) e.after := by
  have hsub : ∀ e', e' ∈ history → e' ∈ history ++ [e] := fun _ he => List.mem_append_left _ he
  have hlast : e ∈ history ++ [e] := List.mem_append_right _ List.mem_cons_self
  have hcases : ∀ e', e' ∈ history ++ [e] → e' ∈ history ∨ e' = e := fun e' he => by simpa using he
  -- the raw text of a new key is new
  have hnew : ∀ mint ∈ history, ∀ organizationId organizationId' keyId keyId' rawKey,
      Mints rt organizationId keyId rawKey mint → ¬Mints rt organizationId' keyId' rawKey e := by
    intro mint hmint _ _ _ _ _ hold hmints
    obtain ⟨n, hn, rfl⟩ := h.raw mint hmint _ _ _ hold
    obtain ⟨n', hn', _, htext, _⟩ := heffect.mints _ _ _ hmints
    rw [h.source] at htext
    have := htokens ((String.append_right_inj _).mp htext)
    omega
  refine ⟨henv.tokens.trans h.source, fun key hkey => ?_, fun key hkey hlive e' he' => ?_,
    fun key hkey hholds => ?_, fun e' he' keyId hrevokes hholds => ?_,
    fun mint hmint _ _ rawKey hmints => ?_, fun a ha b hb _ _ _ _ _ hma hmb => ?_,
    fun event hevent => ?_, fun charge hcharge rawKey event hcharges => ?_⟩
  · rcases heffect.keys key hkey with ⟨old, hold, hid, hof, hhash', _⟩ | ⟨rawKey, htext, hmints⟩
    · obtain ⟨rawKey, htext, mint, hmint, hmints⟩ := h.keys old hold
      exact ⟨rawKey, hhash' ▸ htext, mint, hsub _ hmint, hid ▸ hof ▸ hmints⟩
    · exact ⟨rawKey, htext, e, hlast, hmints⟩
  · rcases heffect.keys key hkey with ⟨old, hold, hid, _, _, hrevoked⟩ | ⟨rawKey, _, hmints⟩
    · obtain ⟨hlive', hnot⟩ := hrevoked hlive
      rcases hcases e' he' with he' | rfl
      · exact hid ▸ h.live old hold hlive' e' he'
      · exact hnot
    · obtain ⟨_, _, _, _, hholds, _⟩ := heffect.mints _ _ _ hmints
      intro hrevokes
      rcases hcases e' he' with he' | rfl
      · exact h.revoked e' he' _ hrevokes hholds
      · obtain ⟨_, _, hkind, _⟩ := hrevokes
        obtain ⟨_, _, _, _, hkind', _⟩ := hmints
        rw [hkind] at hkind'
        cases hkind'
  · rcases heffect.keys key hkey with ⟨old, hold, hid, _⟩ | ⟨rawKey, _, hmints⟩
    · exact h.drawn old hold (hid ▸ hids.holds hholds)
    · obtain ⟨_, _, _, _, _, hdrawn⟩ := heffect.mints _ _ _ hmints
      exact hdrawn hholds
  · rcases hcases e' he' with he' | rfl
    · exact h.revoked e' he' keyId hrevokes (hids.holds hholds)
    · obtain ⟨key, hkey, rfl⟩ := heffect.revokes keyId hrevokes
      exact h.drawn key hkey (hids.holds hholds)
  · rcases hcases mint hmint with hmint | rfl
    · obtain ⟨n, hn, htext⟩ := h.raw mint hmint _ _ _ hmints
      exact ⟨n, hn.trans_le henv.issued, htext⟩
    · obtain ⟨n, _, hn, htext, _⟩ := heffect.mints _ _ _ hmints
      exact ⟨n, hn, h.source ▸ htext⟩
  · rcases hcases a ha with ha' | rfl <;> rcases hcases b hb with hb' | rfl
    · exact h.unique a ha' b hb' _ _ _ _ _ hma hmb
    · exact absurd hmb (hnew a ha' _ _ _ _ _ hma)
    · exact absurd hma (hnew b hb' _ _ _ _ _ hmb)
    · obtain ⟨_, _, _, key, hkind, hvalue, rfl, _⟩ := hmb
      obtain ⟨_, _, _, key', hkind', hvalue', rfl, _⟩ := hma
      rw [hkind] at hkind'
      rw [hvalue] at hvalue'
      cases hkind'
      cases hvalue'
      exact ⟨rfl, rfl⟩
  · rcases heffect.events event hevent with hold | ⟨rawKey, hcharges⟩
    · exact (h.events event hold).append [e]
    · obtain ⟨key, hkey, hlive, hof⟩ := heffect.charges _ _ hcharges
      obtain ⟨hmint, hunrevoked⟩ := h.minted_of_live hhash hkey hlive
      exact ⟨history, e, [], rfl, rawKey, key.id, hcharges, hof ▸ hmint, hunrevoked⟩
  · rcases hcases charge hcharge with hcharge | rfl
    · obtain ⟨keyId, mint, hmint, hmints⟩ := h.charges charge hcharge rawKey event hcharges
      exact ⟨keyId, mint, hsub _ hmint, hmints⟩
    · obtain ⟨key, hkey, hlive, hof⟩ := heffect.charges _ _ hcharges
      obtain ⟨⟨mint, hmint, hmints⟩, _⟩ := h.minted_of_live hhash hkey hlive
      exact ⟨key.id, mint, hsub _ hmint, hof ▸ hmints⟩

/-- A revoked key is not live. -/
theorem KeyHistory.not_authenticates (h : KeyHistory rt tokens history s)
    (hhash : Function.Injective rt.hashToken) {organizationId keyId : Uuid} {rawKey : String}
    {mint revocation : Exchange} (hmint : mint ∈ history) (hmints : Mints rt organizationId keyId rawKey mint)
    (hrevocation : revocation ∈ history) (hrevokes : Revokes keyId revocation) :
    ¬Authenticates rt rawKey s := by
  refine TenantForge.not_authenticates fun key hkey => ?_
  by_contra hlive
  obtain ⟨⟨mint', hmint', hmints'⟩, hunrevoked⟩ :=
    h.minted_of_live hhash hkey (Bool.not_eq_false _ ▸ hlive)
  obtain ⟨_, rfl⟩ := h.unique mint hmint mint' hmint' _ _ _ _ _ hmints hmints'
  exact hunrevoked revocation hrevocation hrevokes

/-- The invariant holds after every exchange of a run. -/
theorem KeyHistory.run (hhash : Function.Injective rt.hashToken) (htokens : Function.Injective tokens)
    (hdb : s.db.Integral) (h : KeyHistory rt tokens history s) (requests : List Request) :
    KeyHistory rt tokens (history ++ exchanges rt s requests) (afterAll rt s requests) ∧
      ∀ earlier e later, exchanges rt s requests = earlier ++ e :: later →
        KeyHistory rt tokens (history ++ earlier ++ [e]) e.after := by
  induction requests generalizing s history with
  | nil => exact ⟨by simpa [exchanges, afterAll] using h, fun earlier e later hsplit => by simp [exchanges] at hsplit⟩
  | cons request requests ih =>
    obtain ⟨_, henv, hids, hdb'⟩ := request.perform_frame rt hdb
    have hnext : KeyHistory rt tokens (history ++ [request.perform rt s]) (request.perform rt s).after :=
      h.snoc hhash htokens (keyEffect_perform rt hdb request) henv hids
    obtain ⟨hend, hrest⟩ := ih hdb' hnext
    rw [exchanges_cons]
    refine ⟨by simpa using hend, fun earlier e later hsplit => ?_⟩
    cases earlier with
    | nil =>
      obtain ⟨rfl, _⟩ := List.cons.inj hsplit
      simpa using hnext
    | cons first earlier =>
      obtain ⟨rfl, hlater⟩ := List.cons.inj hsplit
      simpa using hrest earlier e later hlater

end Histories

/-- What a run shows of the keys and the events that it ends with. -/
structure UsageProvenance (rt : Runtime) (run : List Exchange) (s : Shared schema Env Request) : Prop where
  events : ∀ event : UsageEvent, event ∈ s.db .usageEvents → Provenanced rt run event
  /-- no key of another organization charges an organization -/
  own : ∀ charge ∈ run, ∀ rawKey event, Charges rawKey event charge → ∀ mint ∈ run,
    ∀ organizationId keyId, Mints rt organizationId keyId rawKey mint →
      organizationId = event.organizationId
  /-- a revoked key authenticates in no later state -/
  final : ∀ earlier revocation later, run = earlier ++ revocation :: later → ∀ mint ∈ earlier,
    ∀ organizationId keyId rawKey, Mints rt organizationId keyId rawKey mint →
      Revokes keyId revocation → ∀ e ∈ revocation :: later, ¬Authenticates rt rawKey e.after

/-- **Provenance of usage**, over any requests, one after another, from a state without keys. -/
theorem usageProvenance_of_exchanges (rt : Runtime) {s : Shared schema Env Request}
    {requests : List Request} (hhash : Function.Injective rt.hashToken)
    (htokens : Function.Injective s.env.tokens) (hdb : s.db.Integral) (hkeys : s.db .apiKeys = [])
    (hevents : s.db .usageEvents = []) :
    UsageProvenance rt (exchanges rt s requests) (afterAll rt s requests) := by
  have hstart : KeyHistory rt s.env.tokens [] s := by
    refine ⟨rfl, ?_, ?_, ?_, fun _ he => (nomatch he), fun _ he => (nomatch he), fun _ he => (nomatch he), ?_,
      fun _ he => (nomatch he)⟩ <;> simp [hkeys, hevents]
  obtain ⟨hend, hprefix⟩ := hstart.run hhash htokens hdb requests
  rw [List.nil_append] at hend
  refine ⟨hend.events, fun charge hcharge rawKey event hcharges mint hmint organizationId keyId hmints => ?_,
    fun earlier revocation later hsplit mint hmint organizationId keyId rawKey hmints hrevokes e he => ?_⟩
  · obtain ⟨keyId', mint', hmint', hmints'⟩ := hend.charges charge hcharge rawKey event hcharges
    exact (hend.unique mint hmint mint' hmint' _ _ _ _ _ hmints hmints').1
  · obtain ⟨between, later', hlater⟩ := List.append_of_mem he
    have hhistory := hprefix (earlier ++ between) e later' (by rw [hsplit, hlater, List.append_assoc])
    have hmint' : mint ∈ earlier ++ between ++ [e] := by simp [hmint]
    -- the revocation comes first in what follows it
    have hrevocation : revocation ∈ earlier ++ between ++ [e] := by
      cases between with
      | nil => simp [(List.cons.inj hlater).1]
      | cons first between => simp [(List.cons.inj hlater).1]
    exact hhistory.not_authenticates hhash hmint' hmints hrevocation hrevokes

namespace Reference

theorem tokens_injective (clock : Nat → DateTime) : Function.Injective (env clock).tokens := by
  intro n n' h
  have hdigits : printNat n = printNat n' := by
    simpa using congrArg String.toList (show String.ofList (printNat n) = String.ofList (printNat n') from h)
  have hn := @parseNat_printNat n [] (by simp)
  have hn' := @parseNat_printNat n' [] (by simp)
  rw [hdigits, hn'] at hn
  exact (Prod.mk.inj (Option.some.inj hn)).1.symm

/-- An organization with an owner. -/
def keyless : Tables where
  users := [user 1]
  organizations := [organization 5]
  memberships := [member 11 1 5 .owner]

/-- The owner creates a key, which is used and then revoked, and used again in vain. -/
def keyLife : List Request :=
  [.tenant 5 (bearer 1) (.createApiKey "ci"), .createUsageEvent 5 (some "tf_live_0") 3,
    .tenant 5 (bearer 1) (.revokeApiKey 1000), .createUsageEvent 5 (some "tf_live_0") 4]

def keyLifeStart : Shared schema Env Request := shared Request daily keyless

theorem usageProvenance_of_keyLife :
    UsageProvenance runtime (exchanges runtime keyLifeStart keyLife)
      (afterAll runtime keyLifeStart keyLife) :=
  usageProvenance_of_exchanges runtime (fun _ _ h => h) (tokens_injective _)
    (ValidDb.integral (by decide +kernel)) rfl rfl

example : ((afterAll runtime keyLifeStart keyLife).db .usageEvents).map UsageEvent.quantity = [3] ∧
    ((afterAll runtime keyLifeStart keyLife).db .apiKeys).any (fun (key : ApiKey) =>
      key.revokedAt ≠ none) = true := by
  decide +kernel

end Reference

end TenantForge
