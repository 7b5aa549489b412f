import TenantForge.Api.Routes
import TenantForge.AppRules
/-!
# Contracts of the request dependencies

What a session has loaded when the dependencies of a route have let the request pass. Everything was
read without a lock, so it may be out of date by the time the operation runs.
-/

namespace TenantForge

open Gregorian ReadCommitted

variable {T : Type} {P : Protocol schema Env T} {tag : T} {R : Exn → Assertion schema Env T}
  {σ : Session schema} {s : Shared schema Env T} {rt : Runtime}

/-- The bearer token in the credentials was valid for this user at some time. -/
def Authenticated (rt : Runtime) (credentials : Option Credentials) (userId : Uuid) : Prop :=
  ∃ given current, credentials = some given ∧
    decodeAccessToken rt given.credentials current = some userId

/-- The dependencies have loaded the caller's user, and nothing else. -/
structure SignedIn (rt : Runtime) (P : Protocol schema Env T) (tag : T)
    (credentials : Option Credentials) (user : User) (σ : Session schema) (s : Shared schema Env T) :
    Prop where
  authenticated : Authenticated rt credentials user.id
  writes : σ.writes = .empty
  locks : σ.locks = []
  loaded : ∀ t, t ≠ .users → σ.loaded t = []
  seen : Found P tag [] (fun s₀ => user ∈ s₀.db .users) s

theorem wp_enforceRateLimit {identifier : String} {Q : Unit → Assertion schema Env T}
    (hD : P.Tolerates Env.Drawn) (hR : Harmless P R)
    (h : ∀ s', Later P tag σ.locks s s' → Interferes P tag σ s' s' → Q () σ s') :
    wp P tag Q R (enforceRateLimit identifier) σ s := by
  rw [enforceRateLimit, Prog.bind_eq, wp_bind]
  refine wp_draw hD (fun e => e.drawn_check) fun s' _ hlater hnow => ?_
  dsimp only
  split
  · exact h _ hlater hnow
  · exact hR _ _ _ hnow.inv hnow.integral

theorem wp_getCurrentUser {credentials : Option Credentials} {Q : User → Assertion schema Env T}
    (hD : P.Tolerates Env.Drawn) (hR : Harmless P R) (hnow : Interferes P tag .empty s s)
    (h : ∀ user σ' s', SignedIn rt P tag credentials user σ' s' → Later P tag [] s s' →
      Interferes P tag σ' s' s' → Q user σ' s') :
    wp P tag Q R (getCurrentUser rt credentials) .empty s := by
  rw [getCurrentUser]
  simp only [Prog.bind_eq, wp_bind]
  refine wp_orRaise (fun _ => hR _ _ _ hnow.inv hnow.integral) fun given hgiven => ?_
  refine wp_now hD fun s₁ _ h₁ hnow₁ => ?_
  refine wp_orRaise (fun _ => hR _ _ _ hnow₁.inv hnow₁.integral) fun userId hid => ?_
  refine wp_scalar (S := schema) (t := .users) hR.escapes
    (fun s₂ h₂ _ => hR _ _ _ h₂.inv h₂.integral) fun s₂ s₃ user h₂ hmem hcond h₃ => ?_
  refine wp_enforceRateLimit hD hR fun s₄ h₄ hnow₄ => ?_
  simp only [isActiveUser, Bool.and_eq_true, decide_eq_true_eq] at hcond
  have hlater := (h₁.trans (.of_interferes h₂)).trans ((Later.of_interferes h₃).trans h₄)
  rw [Session.view_empty] at hmem
  refine h user _ s₄ ⟨⟨given, _, (Option.filter_eq_some_iff.mp hgiven).1, hid.trans ?_⟩, rfl, rfl,
    fun t ht => ?_, s₂, h₂.inv, hmem, (Later.of_interferes h₃).trans h₄⟩ hlater hnow₄
  · rw [hcond.1]
  · exact Session.loaded_attach_ne _ ht _

/-- The dependencies of a tenant route have let the request pass. -/
structure Entered (rt : Runtime) (P : Protocol schema Env T) (tag : T) (organizationId : Uuid)
    (credentials : Option Credentials) (allowed : Role → Bool) (user : User) (membership : Membership)
    (σ : Session schema) (s : Shared schema Env T) : Prop where
  authenticated : Authenticated rt credentials user.id
  writes : σ.writes = .empty
  locks : σ.locks = []
  member : isMembership organizationId user.id anyRole membership = true
  allowed : allowed membership.role = true
  loaded : σ.loaded .memberships = [membership]
  others : ∀ t, t ≠ .users → t ≠ .memberships → σ.loaded t = []
  seen : ∃ s₀, P.inv s₀ ∧ membership ∈ s₀.db .memberships ∧ Later P tag [] s₀ s

theorem wp_enter {organizationId : Uuid} {credentials : Option Credentials} {allowed : Role → Bool}
    {β : Type} {Q : β → Assertion schema Env T} {operation : User → Membership → App β}
    (hD : P.Tolerates Env.Drawn) (hR : Harmless P R) (hnow : Interferes P tag .empty s s)
    (h : ∀ user membership σ' s',
      Entered rt P tag organizationId credentials allowed user membership σ' s' →
      Interferes P tag σ' s' s' → wp P tag Q R (operation user membership) σ' s') :
    wp P tag Q R (do
      let currentUser ← getCurrentUser rt credentials
      let membership ← getCurrentMembership organizationId currentUser
      requireRoles allowed membership
      operation currentUser membership) .empty s := by
  simp only [Prog.bind_eq, wp_bind, getCurrentMembership]
  refine wp_getCurrentUser hD hR hnow fun user σ₁ s₁ huser h₁ hnow₁ => ?_
  refine wp_scalar (S := schema) (t := .memberships) hR.escapes
    (fun s₂ h₂ _ => hR _ _ _ h₂.inv h₂.integral) fun s₂ s₃ membership h₂ hmem hcond h₃ => ?_
  have hcopy : σ₁.copyOf (t := .memberships) membership = membership := by
    rw [Session.copyOf, huser.loaded .memberships (by decide)]
    rfl
  rw [hcopy]
  refine wp_raiseIf (fun _ => hR _ _ _ h₃.inv h₃.integral) fun hallowed => ?_
  rw [Session.view, huser.writes, Overlay.apply_empty] at hmem
  refine h user membership _ s₃ ⟨huser.authenticated, huser.writes, huser.locks, hcond, by simpa using hallowed,
    ?_, fun t ht ht' => ?_, s₂, h₂.inv, hmem, ?_⟩ (h₃.attach _)
  · simp [Session.attach, huser.loaded .memberships (by decide)]
  · exact (Session.loaded_attach_ne _ ht' _).trans (huser.loaded t ht)
  · rw [← huser.locks]
    exact .of_interferes h₃

theorem wp_handle_tenant {organizationId : Uuid} {credentials : Option Credentials}
    {call : TenantCall} {Q : Response → Assertion schema Env T} (hD : P.Tolerates Env.Drawn)
    (hR : Harmless P R) (hnow : Interferes P tag .empty s s)
    (h : ∀ user membership σ' s',
      Entered rt P tag organizationId credentials call.allowed user membership σ' s' →
      Interferes P tag σ' s' s' →
      wp P tag Q R (call.operation rt organizationId user membership) σ' s') :
    wp P tag Q R (call.handle rt organizationId credentials) .empty s :=
  wp_enter hD hR hnow h

/-! ### Requests side by side -/

/-- A request and its number: equal requests can be told apart. -/
abbrev Numbered := Request × Nat

/-- The requests, numbered, none of which has done anything yet. -/
def startNumbered (rt : Runtime) (s : Shared schema Env Numbered) (requests : List Request) :
    World schema Env Exn Numbered Response :=
  World.start s requests.zipIdx fun job => job.1.handle rt

theorem nodup_zipIdx (requests : List Request) : requests.zipIdx.Nodup := by
  refine List.Nodup.of_map Prod.snd ?_
  rw [List.zipIdx_map_snd]
  exact List.nodup_range'

end TenantForge
