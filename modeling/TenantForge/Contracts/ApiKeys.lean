import TenantForge.Contracts.Audit
import TenantForge.Contracts.Requests
/-!
# Contracts of the API keys

What `create_api_key` and `revoke_api_key` have written when they return, and what a request that
presents a raw key has found.
-/

namespace TenantForge

open Gregorian ReadCommitted

variable {T : Type} {P : Protocol schema Env T} {tag : T} {R : Exn → Assertion schema Env T}
  {σ σ₀ : Session schema} {s : Shared schema Env T} {rt : Runtime}

/-- The caller's membership is locked, and it is an owner's. -/
def OwnerLocked (organizationId actorId : Uuid) (σ : Session schema) (db : Db) : Prop :=
  ∃ owner : Membership, σ.Locked db (t := .memberships) owner ∧
    isMembership organizationId actorId ownerOnly owner = true

theorem OwnerLocked.later {organizationId actorId : Uuid} {σ' : Session schema}
    {s' : Shared schema Env T} (h : OwnerLocked organizationId actorId σ s.db)
    (hs : Later P tag σ.locks s s') (hl : σ.locks ⊆ σ'.locks) :
    OwnerLocked organizationId actorId σ' s'.db := by
  obtain ⟨owner, hlocked, hof⟩ := h
  exact ⟨owner, (hlocked.frozen hs.frozen).mono hl, hof⟩

theorem wp_lockOwner {organizationId actorId : Uuid} {Q : Membership → Assertion schema Env T}
    (hR : Harmless P R) (hclean : σ.writes .memberships = [])
    (h : ∀ result σ' s', Interferes P tag σ' s' s' → σ'.writes = σ.writes →
      (∀ t, t ≠ .memberships → σ'.loaded t = σ.loaded t) →
      OwnerLocked organizationId actorId σ' s'.db → Q result σ' s') :
    wp P tag Q R (lockOwner organizationId actorId) σ s := by
  simp only [lockOwner, Prog.bind_eq, wp_bind]
  refine wp_scalarForUpdate hR.escapes hclean (fun σ₁ s₁ h₁ _ => hR _ _ _ h₁.inv h₁.integral)
    fun owner σ₁ s₁ h₁ hext hof hlocked _ => ?_
  refine h _ _ s₁ ((h₁.extend hext).attach _) hext.writes (fun t ht => ?_)
    ⟨owner, hlocked.mono (List.Subset.refl _), hof⟩
  rw [Session.loaded_attach_ne _ ht, hext.loaded]

/-! ### Creating -/

/-- `create_api_key` has returned this key and its raw text. -/
structure KeyCreated (rt : Runtime) (P : Protocol schema Env T) (tag : T)
    (organizationId actorId : Uuid) (σ₀ σ : Session schema) (s : Shared schema Env T) (key : ApiKey)
    (rawKey : String) : Prop where
  owner : OwnerLocked organizationId actorId σ s.db
  organization : key.organizationId = organizationId
  hash : key.keyHash = rt.hashToken rawKey
  drawn : ∃ token, rawKey = "tf_live_" ++ token ∧ DrewToken P tag [] token s
  named : Named P tag key.id σ s
  vacant : σ₀.writes .apiKeys = [] → σ.Vacant s.db .apiKeys key.id
  written : ∃ entry : AuditLog,
    Recorded organizationId (some actorId) "api_key.created" (rt.uuidText key.id) σ₀ σ s.db entry ∧
    σ.writes = (σ₀.writes.put .apiKeys key.id (some key)).put .auditLogs entry.id (some entry)

theorem wp_createApiKey {organizationId actorId : Uuid} {name : String}
    {Q : ApiKey × String → Assertion schema Env T} (hD : P.Tolerates Env.Drawn) (hR : Harmless P R)
    (hclean : σ.writes .memberships = [])
    (h : ∀ key rawKey σ' s', Interferes P tag σ' s' s' →
      KeyCreated rt P tag organizationId actorId σ σ' s' key rawKey → Q (key, rawKey) σ' s') :
    wp P tag Q R (createApiKey rt organizationId actorId name) σ s := by
  rw [createApiKey]
  simp only [Prog.bind_eq, wp_bind, generateApiKey]
  refine wp_lockOwner hR hclean fun owner σ₁ s₁ hnow₁ hw₁ _ howner₁ => ?_
  refine wp_tokenUrlsafe hD fun token s₂ h₂ _ hdrew₂ => ?_
  refine wp_uuid4 hD fun id σ₂ s₃ hext₃ h₃ _ hnamed₃ => ?_
  refine wp_databaseNow hD fun createdAt s₄ h₄ _ => ?_
  refine wp_addRow hR fun σ₃ s₅ h₅ _ hadded hnow₅ => ?_
  generalize hkey : ApiKey.mk id organizationId name (rt.hashToken ("tf_live_" ++ token)) _ actorId none
    createdAt none = key at hadded
  obtain rfl : id = key.id := by rw [← hkey]
  have hl₃ : σ₂.locks ⊆ σ₃.locks := hadded.locks
  have hlater₅ : Later P tag σ₂.locks s₃ s₅ := h₄.trans (.of_interferes h₅)
  refine wp_refresh hR fun s₆ result h₆ hresult => ?_
  -- the row that is read again is the new one
  have hsame : result = key := by
    rw [Session.view, h₆.sound.coherent.lookup_apply, hadded.writes] at hresult
    simpa [rowId] using hresult.symm
  subst hsame
  refine wp_writeAudit hD hR fun entry σ₄ s₇ hentry h₇ hnow₇ haudited => ?_
  have hlater₇ : Later P tag σ₃.locks s₅ s₇ := (Later.of_interferes h₆).trans h₇
  have hw₃ : σ₃.writes = σ.writes.put .apiKeys result.id (some result) := by
    rw [hadded.writes, hext₃.writes, hw₁]
    rfl
  have hlater : Later P tag σ₂.locks s₃ s₇ := hlater₅.trans (hlater₇.mono hl₃)
  have hl : σ₂.locks ⊆ σ₄.locks := fun _ hmem => haudited.locks (hl₃ hmem)
  refine h result _ σ₄ s₇ hnow₇ ⟨?_, by rw [← hkey], by rw [← hkey], ⟨token, rfl, ?_⟩,
    hnamed₃.later hlater hl, fun hclean => ?_, entry, .of_added hentry haudited fun hclean => ?_, ?_⟩
  · exact howner₁.later ((h₂.trans h₃).trans (hlater.mono hext₃.locks)) fun _ hmem =>
      hl (hext₃.locks hmem)
  · obtain ⟨s₀, hinv, htoken, hdrew⟩ := hdrew₂
    exact ⟨s₀, hinv, htoken, (hdrew.mono (List.nil_subset _)).trans
      ((h₃.mono (List.nil_subset _)).trans (hlater.mono (List.nil_subset _)))⟩
  · have hvacant := hadded.vacant (by rw [hext₃.writes, hw₁, hclean])
    exact (hvacant.frozen hlater₇.frozen).mono haudited.locks
  · rw [hw₃, Overlay.put_table_ne _ (by decide), hclean]
  · rw [haudited.writes, hw₃]

/-! ### Revoking -/

/-- `revoke_api_key` has returned: the key was revoked before, or it is revoked now. -/
structure KeyRevoked (rt : Runtime) (organizationId keyId actorId : Uuid) (σ₀ σ : Session schema)
    (db : Db) (key : ApiKey) : Prop where
  owner : OwnerLocked organizationId actorId σ db
  locked : σ.Locked db (t := .apiKeys) key
  keyOf : isApiKeyId organizationId keyId key = true
  written : (key.revokedAt ≠ none ∧ σ.writes = σ₀.writes) ∨
    key.revokedAt = none ∧ ∃ (revokedAt : DateTime) (entry : AuditLog),
      Recorded organizationId (some actorId) "api_key.revoked" (rt.uuidText keyId) σ₀ σ db entry ∧
      σ.writes = (σ₀.writes.put .apiKeys key.id (some { key with revokedAt := some revokedAt })).put
        .auditLogs entry.id (some entry)

theorem wp_revokeApiKey {organizationId keyId actorId : Uuid} {Q : Unit → Assertion schema Env T}
    (hD : P.Tolerates Env.Drawn) (hR : Harmless P R) (hclean : σ.writes .memberships = [])
    (hkeys : σ.writes .apiKeys = []) (hloaded : σ.loaded .apiKeys = [])
    (h : ∀ key σ' s', Interferes P tag σ' s' s' →
      KeyRevoked rt organizationId keyId actorId σ σ' s'.db key → Q () σ' s') :
    wp P tag Q R (revokeApiKey rt organizationId keyId actorId) σ s := by
  rw [revokeApiKey]
  simp only [Prog.bind_eq, wp_bind]
  refine wp_lockOwner hR hclean fun owner σ₁ s₁ hnow₁ hw₁ hloaded₁ howner₁ => ?_
  refine wp_scalarForUpdate (S := schema) (t := .apiKeys) hR.escapes (by rw [hw₁, hkeys])
    (fun σ₂ s₂ h₂ _ => hR _ _ _ h₂.inv h₂.integral) fun key σ₂ s₂ h₂ hext₂ hof hlocked _ => ?_
  have hcopy : σ₁.copyOf (t := .apiKeys) key = key := by
    rw [Session.copyOf, hloaded₁ _ (by decide), hloaded]
    rfl
  rw [hcopy]
  have hid : key.id = keyId := by
    simp only [isApiKeyId, Bool.and_eq_true, decide_eq_true_eq] at hof
    exact hof.1
  have howner₂ : OwnerLocked organizationId actorId (σ₂.attach (t := .apiKeys) key) s₂.db :=
    howner₁.later (.of_interferes h₂) hext₂.locks
  have hlocked₂ : (σ₂.attach (t := .apiKeys) key).Locked s₂.db (t := .apiKeys) key :=
    hlocked.mono (List.Subset.refl _)
  have hw₂ : (σ₂.attach (t := .apiKeys) key).writes = σ.writes := by
    rw [Session.writes_attach, hext₂.writes, hw₁]
  have hnow₂ := (h₂.extend hext₂).attach (t := .apiKeys) key
  generalize σ₂.attach (t := .apiKeys) key = σ₃ at hlocked₂ hw₂ hnow₂ howner₂ ⊢
  refine wp_runIf (fun hlive => ?_) fun hrevoked =>
    h key σ₃ s₂ hnow₂ ⟨howner₂, hlocked₂, hof, Or.inl ⟨hrevoked, hw₂⟩⟩
  simp only [wp_bind]
  refine wp_now hD fun s₃ _ h₃ hnow₃ => ?_
  generalize s₃.env.clock s₃.env.ticks = revokedAt
  refine wp_flushUpdate hR fun s₄ σ₄ old h₄ hold _ hσ₄ hnow₄ => ?_
  have hlater₄ := h₃.trans (.of_interferes h₄)
  have hcurrent := (hlocked₂.frozen hlater₄.frozen).current
  rw [Session.lookup_view_of_nil (by rw [hw₂, hkeys])] at hold
  obtain rfl : old = key := Option.some.inj (hold.symm.trans hcurrent)
  have hl₄ : σ₃.locks ⊆ σ₄.locks := by
    rw [hσ₄]
    exact Session.locks_write _ _ _ _ _ _
  have hw₄ : σ₄.writes = σ.writes.put .apiKeys old.id (some { old with revokedAt := some revokedAt }) := by
    rw [hσ₄, Session.writes_write, hw₂]
  refine wp_writeAudit hD hR fun entry σ₅ s₅ hentry h₅ hnow₅ haudited => ?_
  have hlater := hlater₄.trans (h₅.mono hl₄)
  have hl : σ₃.locks ⊆ σ₅.locks := fun _ hmem => haudited.locks (hl₄ hmem)
  refine h old σ₅ s₅ hnow₅ ⟨howner₂.later hlater hl, (hlocked₂.frozen hlater.frozen).mono hl, hof,
    Or.inr ⟨hlive, revokedAt, entry, hid ▸ .of_added hentry haudited fun hclean => ?_, ?_⟩⟩
  · rw [hw₄, Overlay.put_table_ne _ (by decide), hclean]
  · rw [haudited.writes, hw₄]

/-! ### Authenticating -/

/-- A key with this raw text was live, and has been marked as used if it is still there. -/
structure KeyUsed (rt : Runtime) (P : Protocol schema Env T) (tag : T) (rawKey : String)
    (σ₀ σ : Session schema) (s : Shared schema Env T) (key : ApiKey) : Prop where
  seen : Found P tag [] (fun s => key ∈ s.db .apiKeys) s
  live : isLiveKey (rt.hashToken rawKey) key = true
  written : σ.writes = σ₀.writes ∨ ∃ (old : ApiKey) (usedAt : DateTime), old.id = key.id ∧
    Found P tag [] (fun s => old ∈ s.db .apiKeys) s ∧
    σ.writes = σ₀.writes.put .apiKeys key.id (some { old with lastUsedAt := some usedAt })
  loaded : ∀ t, t ≠ .apiKeys → σ.loaded t = σ₀.loaded t

theorem wp_getApiKeyPrincipal {rawKey : Option String} {Q : ApiKeyPrincipal → Assertion schema Env T}
    (hD : P.Tolerates Env.Drawn) (hR : Harmless P R) (hnow : Interferes P tag σ s s)
    (hkeys : σ.writes .apiKeys = []) (hloaded : σ.loaded .apiKeys = [])
    (h : ∀ raw key σ' s', rawKey = some raw → Interferes P tag σ' s' s' →
      KeyUsed rt P tag raw σ σ' s' key → Q ⟨key.id, key.organizationId⟩ σ' s') :
    wp P tag Q R (getApiKeyPrincipal rt rawKey) σ s := by
  rw [getApiKeyPrincipal]
  simp only [Prog.bind_eq, wp_bind, authenticateApiKey]
  refine wp_orRaise (fun _ => hR _ _ _ hnow.inv hnow.integral) fun raw hraw => ?_
  refine wp_raiseIf (fun _ => hR _ _ _ hnow.inv hnow.integral) fun _ => ?_
  refine wp_scalar (S := schema) (t := .apiKeys) hR.escapes
    (fun s₁ h₁ _ => hR _ _ _ h₁.inv h₁.integral) fun s₁ s₂ key h₁ hmem hlive h₂ => ?_
  have hcopy : σ.copyOf (t := .apiKeys) key = key := by
    rw [Session.copyOf, hloaded]
    rfl
  rw [hcopy]
  rw [Session.view_of_nil hkeys] at hmem
  have hseen : Found P tag [] (fun s => key ∈ s.db .apiKeys) s₂ :=
    ⟨s₁, h₁.inv, hmem, (Later.of_interferes h₂).mono (List.nil_subset _)⟩
  have hloaded₁ : ∀ t, t ≠ .apiKeys → (σ.attach (t := .apiKeys) key).loaded t = σ.loaded t :=
    fun t ht => Session.loaded_attach_ne _ ht _
  have hw₁ : (σ.attach (t := .apiKeys) key).writes = σ.writes := rfl
  have hnow₂ := h₂.attach (t := .apiKeys) key
  generalize σ.attach (t := .apiKeys) key = σ₁ at hloaded₁ hw₁ hnow₂ ⊢
  refine wp_now hD fun s₃ _ h₃ hnow₃ => ?_
  generalize s₃.env.clock s₃.env.ticks = usedAt
  have hseen₃ := hseen.later (h₃.mono (List.nil_subset _)) (List.Subset.refl _)
  -- the key is marked, or was marked at the same instant
  have hmark : wp P tag (fun _ σ' s' => Interferes P tag σ' s' s' ∧ KeyUsed rt P tag raw σ σ' s' key) R
      (runIf (key.lastUsedAt ≠ some usedAt)
        (flushUpdate .apiKeys key.id fun (row : ApiKey) => { row with lastUsedAt := some usedAt })) σ₁
      { s₃ with env := { s₃.env with ticks := s₃.env.ticks + 1 } } := by
    refine wp_runIf (fun _ => ?_) fun _ => ⟨hnow₃, hseen₃, hlive, Or.inl hw₁, hloaded₁⟩
    refine wp_flushUpdate hR fun s₄ σ₄ old h₄ hold _ hσ₄ hnow₄ => ?_
    rw [Session.lookup_view_of_nil (by rw [hw₁, hkeys])] at hold
    refine ⟨hnow₄, hseen₃.later ((Later.of_interferes h₄).mono (List.nil_subset _))
      (List.Subset.refl _), hlive, Or.inr ⟨old, usedAt, Store.lookup_id hold, ?_, ?_⟩, fun t ht => ?_⟩
    · exact ⟨s₄, h₄.inv, Store.lookup_mem hold, .refl⟩
    · rw [hσ₄, Session.writes_write, hw₁]
    · rw [hσ₄]
      exact hloaded₁ t ht
  refine hmark.then ?_
  rintro _ σ₂ s₄ ⟨hnow₄, hused⟩
  refine wp_enforceRateLimit hD hR fun s₅ h₅ hnow₅ => ?_
  refine h raw key σ₂ s₅ (Option.filter_eq_some_iff.mp hraw).1 hnow₅ ?_
  have hlater : Later P tag [] s₄ s₅ := h₅.mono (List.nil_subset _)
  refine ⟨hused.seen.later hlater (List.Subset.refl _), hused.live, hused.written.imp_right ?_,
    hused.loaded⟩
  rintro ⟨old, usedAt, hid, hfound, hw⟩
  exact ⟨old, usedAt, hid, hfound.later hlater (List.Subset.refl _), hw⟩

end TenantForge
