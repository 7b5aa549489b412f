import TenantForge.Contracts.Requests
/-!
# Contracts of the refresh tokens

What `issue_tokens`, `rotate_refresh_token` and `revoke_refresh_token` have written when they return.
A token that is rotated or revoked stays locked until the end of its transaction.
-/

namespace TenantForge

open Gregorian ReadCommitted

variable {T : Type} {P : Protocol schema Env T} {tag : T} {R : Exn → Assertion schema Env T}
  {σ σ₀ : Session schema} {s : Shared schema Env T} {rt : Runtime}

/-- `issue_tokens` has inserted a token, which takes nobody's place. -/
structure TokenIssued (userId : Uuid) (σ₀ σ : Session schema) (db : Db) (token : RefreshToken) : Prop where
  userId : token.userId = userId
  unrevoked : token.revokedAt = none
  unwritten : σ₀.writes.find .refreshTokens token.id = none
  vacant : σ.Vacant db .refreshTokens token.id
  written : σ.writes = σ₀.writes.put .refreshTokens token.id (some token)
  locks : σ₀.locks ⊆ σ.locks

theorem TokenIssued.later {userId : Uuid} {s' : Shared schema Env T} {token : RefreshToken}
    (h : TokenIssued userId σ₀ σ s.db token) (hs : Interferes P tag σ s s') :
    TokenIssued userId σ₀ σ s'.db token :=
  { h with vacant := h.vacant.frozen hs.frozen }

theorem wp_issueTokens {user : User} {Q : IssuedTokens → Assertion schema Env T}
    (hD : P.Tolerates Env.Drawn) (hR : Harmless P R) (hnow : Interferes P tag σ s s)
    (hkept : ∀ id, σ.writes.find .refreshTokens id ≠ some none)
    (h : ∀ token result σ' s', Later P tag σ.locks s s' → Interferes P tag σ' s' s' →
      TokenIssued user.id σ σ' s'.db token → Q result σ' s') :
    wp P tag Q R (issueTokens rt user) σ s := by
  rw [issueTokens]
  simp only [Prog.bind_eq, wp_bind, createAccessToken]
  refine wp_raiseIf (fun _ => hR _ _ _ hnow.inv hnow.integral) fun _ => ?_
  refine wp_now hD fun s₁ _ h₁ hnow₁ => ?_
  refine wp_tokenUrlsafe hD fun refreshToken s₂ h₂ hnow₂ _ => ?_
  refine wp_orRaise (fun _ => hR _ _ _ hnow₂.inv hnow₂.integral) fun expiresAt _ => ?_
  refine wp_now hD fun s₃ _ h₃ _ => ?_
  refine wp_uuid4 hD fun jti σ₃ s₄ hext₃ h₄ _ _ => ?_
  refine wp_uuid4 hD fun id σ₄ s₅ hext₄ h₅ hnow₅ _ => ?_
  refine wp_addRow hR fun σ₅ s₆ h₆ _ hadded hnow₆ => ?_
  have hext := hext₃.trans hext₄
  have hlater : Later P tag σ.locks s s₅ :=
    (((h₁.trans h₂).trans h₃).trans h₄).trans (h₅.mono hext₃.locks)
  obtain ⟨hunwritten, hvacant⟩ := (hadded.of_extends hext).vacant_of_kept
    (hext.writes ▸ hnow₅.sound.coherent) (hkept id)
  exact h _ _ σ₅ s₆ (hlater.trans ((Later.of_interferes h₆).mono hext.locks)) hnow₆
    ⟨rfl, rfl, hunwritten, hvacant, by rw [hadded.writes, hext.writes]; rfl,
      fun _ hmem => hadded.locks (hext.locks hmem)⟩

/-- The token that was presented is locked; it was not revoked, and now it is. -/
structure TokenSpent (rt : Runtime) (rawToken : String) (σ : Session schema) (db : Db)
    (source : RefreshToken) : Prop where
  locked : σ.Locked db (t := .refreshTokens) source
  presented : source.tokenHash = rt.hashToken rawToken
  unrevoked : source.revokedAt = none

/-- The version that revokes a token. -/
def RefreshToken.revoke (token : RefreshToken) (revokedAt : DateTime) : RefreshToken :=
  { token with revokedAt := some revokedAt }

/-- `rotate_refresh_token` has returned. -/
structure TokenRotated (rt : Runtime) (rawToken : String) (σ₀ σ : Session schema) (db : Db)
    (source : RefreshToken) (revokedAt : DateTime) (token : RefreshToken) : Prop where
  spent : TokenSpent rt rawToken σ db source
  userId : token.userId = source.userId
  unrevoked : token.revokedAt = none
  other : token.id ≠ source.id
  vacant : σ.Vacant db .refreshTokens token.id
  written : σ.writes = (σ₀.writes.put .refreshTokens source.id (some (source.revoke revokedAt))).put
    .refreshTokens token.id (some token)

/-- `revoke_refresh_token` has revoked a token. -/
structure TokenRevoked (rt : Runtime) (rawToken : String) (σ₀ σ : Session schema) (db : Db)
    (source : RefreshToken) (revokedAt : DateTime) : Prop where
  spent : TokenSpent rt rawToken σ db source
  written : σ.writes = σ₀.writes.put .refreshTokens source.id (some (source.revoke revokedAt))

section Later

variable {s' : Shared schema Env T} {rawToken : String} {source token : RefreshToken}
  {revokedAt : DateTime}

theorem TokenSpent.later (h : TokenSpent rt rawToken σ s.db source) (hs : Interferes P tag σ s s') :
    TokenSpent rt rawToken σ s'.db source :=
  { h with locked := h.locked.interferes hs }

theorem TokenRotated.later (h : TokenRotated rt rawToken σ₀ σ s.db source revokedAt token)
    (hs : Interferes P tag σ s s') : TokenRotated rt rawToken σ₀ σ s'.db source revokedAt token :=
  { h with spent := h.spent.later hs, vacant := h.vacant.frozen hs.frozen }

theorem TokenRevoked.later (h : TokenRevoked rt rawToken σ₀ σ s.db source revokedAt)
    (hs : Interferes P tag σ s s') : TokenRevoked rt rawToken σ₀ σ s'.db source revokedAt :=
  { h with spent := h.spent.later hs }

end Later

/-- The flush of a locked token writes its revoked version. -/
theorem wp_flushRevoked {token : RefreshToken} {revokedAt : DateTime}
    {Q : Unit → Assertion schema Env T} (hR : Harmless P R) (hclean : σ.writes .refreshTokens = [])
    (hlocked : σ.Locked s.db (t := .refreshTokens) token)
    (h : ∀ σ' s', Interferes P tag σ s s' → Interferes P tag σ' s' s' → σ.locks ⊆ σ'.locks →
      σ'.Locked s'.db (t := .refreshTokens) token →
      σ'.writes = σ.writes.put .refreshTokens token.id (some (token.revoke revokedAt)) → Q () σ' s') :
    wp P tag Q R (flushRevoked token revokedAt) σ s := by
  rw [flushRevoked]
  refine wp_flushUpdate hR fun s' σ' old hs hold _ hσ' hnow => ?_
  have hlocked' := hlocked.interferes hs
  have hcurrent : s'.db.lookup .refreshTokens token.id = some token := hlocked'.current
  rw [Session.lookup_view_of_nil hclean] at hold
  obtain rfl : old = token := Option.some.inj (hold.symm.trans hcurrent)
  have hl : σ.locks ⊆ σ'.locks := by
    rw [hσ']
    exact Session.locks_write _ _ _ _ _ _
  refine h σ' s' hs hnow hl (hlocked'.mono hl) ?_
  rw [hσ', Session.writes_write]
  rfl

theorem wp_rotateRefreshToken {rawToken : String} {Q : IssuedTokens → Assertion schema Env T}
    (hD : P.Tolerates Env.Drawn) (hR : Harmless P R) (hclean : σ.writes .refreshTokens = [])
    (hloaded : σ.loaded .refreshTokens = [])
    (h : ∀ source revokedAt token result σ' s', Interferes P tag σ' s' s' →
      TokenRotated rt rawToken σ σ' s'.db source revokedAt token → Q result σ' s') :
    wp P tag Q R (rotateRefreshToken rt rawToken) σ s := by
  rw [rotateRefreshToken]
  simp only [Prog.bind_eq, wp_bind]
  refine wp_now hD fun s₁ _ _ _ => ?_
  generalize s₁.env.clock s₁.env.ticks = current
  refine wp_scalarForUpdate hR.escapes hclean (fun σ₂ s₂ h₂ _ => hR _ _ _ h₂.inv h₂.integral)
    fun source σ₂ s₂ h₂ hext hhash hlocked _ => ?_
  have hcopy : σ.copyOf (t := .refreshTokens) source = source := by
    rw [Session.copyOf, hloaded]
    rfl
  rw [hcopy]
  refine wp_raiseIf (fun _ => hR _ _ _ h₂.inv h₂.integral) fun hrevoked => ?_
  refine wp_raiseIf (fun _ => hR _ _ _ h₂.inv h₂.integral) fun _ => ?_
  refine wp_scalar (S := schema) (t := .users) hR.escapes
    (fun s₃ h₃ _ => hR _ _ _ h₃.inv h₃.integral) fun s₃ s₄ userRow h₃ _ huser h₄ => ?_
  refine wp_raiseIf (fun _ => hR _ _ _ h₄.inv h₄.integral) fun _ => ?_
  have hlocked₂ : (σ₂.attach (t := .refreshTokens) source).Locked s₂.db (t := .refreshTokens) source :=
    hlocked.mono (List.Subset.refl _)
  have hid : (Session.copyOf (σ₂.attach (t := .refreshTokens) source) (t := .users) userRow).id =
      source.userId := (rowId_copyOf _ (t := .users) userRow).trans (of_decide_eq_true huser)
  generalize Session.copyOf (σ₂.attach (t := .refreshTokens) source) (t := .users) userRow = user
    at hid ⊢
  have hlocked₃ : ((σ₂.attach (t := .refreshTokens) source).attach (t := .users) userRow).Locked s₄.db
      (t := .refreshTokens) source :=
    ((hlocked₂.interferes h₃).interferes h₄).mono (List.Subset.refl _)
  have hw₃ : ((σ₂.attach (t := .refreshTokens) source).attach (t := .users) userRow).writes =
      σ.writes := hext.writes
  generalize (σ₂.attach (t := .refreshTokens) source).attach (t := .users) userRow = σ₃
    at hlocked₃ hw₃ ⊢
  refine wp_flushRevoked hR (by rw [hw₃, hclean]) hlocked₃ fun σ₄ s₅ _ hnow₅ _ hlocked₄ hw₄ => ?_
  have hfind : ∀ id, σ₄.writes.find .refreshTokens id ≠ some none := by
    intro id
    rw [hw₄, hw₃]
    by_cases heq : id = source.id
    · rw [heq, Overlay.find_put_self]
      simp
    · rw [Overlay.find_put_id_ne _ _ heq, Overlay.find, hclean]
      simp
  refine wp_issueTokens hD hR hnow₅ hfind fun token result σ₅ s₆ h₆ hnow₆ hissued => ?_
  refine h source current token result σ₅ s₆ hnow₆
    ⟨⟨(hlocked₄.frozen h₆.frozen).mono hissued.locks, of_decide_eq_true hhash, by simpa using hrevoked⟩,
      hissued.userId.trans hid, hissued.unrevoked, fun heq => ?_, hissued.vacant, ?_⟩
  · have hunwritten := hissued.unwritten
    rw [heq, hw₄, Overlay.find_put_self] at hunwritten
    cases hunwritten
  · rw [hissued.written, hw₄, hw₃]

/-- Logging out revokes the token, or finds it revoked. -/
theorem wp_revokeRefreshToken {rawToken : String} {Q : Unit → Assertion schema Env T}
    (hD : P.Tolerates Env.Drawn) (hR : Harmless P R) (hclean : σ.writes .refreshTokens = [])
    (hloaded : σ.loaded .refreshTokens = [])
    (hidle : ∀ σ' s', Interferes P tag σ' s' s' → σ'.writes = σ.writes → Q () σ' s')
    (h : ∀ source revokedAt σ' s', Interferes P tag σ' s' s' →
      TokenRevoked rt rawToken σ σ' s'.db source revokedAt → Q () σ' s') :
    wp P tag Q R (revokeRefreshToken rt rawToken) σ s := by
  rw [revokeRefreshToken]
  simp only [Prog.bind_eq, wp_bind]
  refine wp_scalarForUpdate hR.escapes hclean (fun σ₂ s₂ h₂ _ => hR _ _ _ h₂.inv h₂.integral)
    fun source σ₂ s₂ h₂ hext hhash hlocked _ => ?_
  have hcopy : σ.copyOf (t := .refreshTokens) source = source := by
    rw [Session.copyOf, hloaded]
    rfl
  have hnow₂ := (h₂.extend hext).attach (t := .refreshTokens) source
  rw [hcopy]
  refine wp_runIf (fun hrevoked => ?_) fun _ => hidle _ s₂ hnow₂ hext.writes
  rw [wp_bind]
  refine wp_now hD fun s₃ h₃ _ _ => ?_
  have hw₂ : (σ₂.attach (t := .refreshTokens) source).writes = σ.writes := hext.writes
  have hlocked₂ : (σ₂.attach (t := .refreshTokens) source).Locked s₂.db (t := .refreshTokens) source :=
    hlocked.mono (List.Subset.refl _)
  have hlocked₃ := hlocked₂.interferes h₃
  refine wp_flushRevoked hR (by rw [hw₂, hclean]) hlocked₃ fun σ₄ s₄ _ hnow₄ _ hlocked₄ hw₄ => ?_
  exact h source _ σ₄ s₄ hnow₄ ⟨⟨hlocked₄, of_decide_eq_true hhash, hrevoked⟩, by rw [hw₄, hw₂]⟩

end TenantForge
