import TenantForge.Contracts.Frames
import TenantForge.Contracts.Requests
import TenantForge.Contracts.Usage
/-!
# Requests one after another

An exchange is a request that ran alone, from beginning to end. A run of requests that execute one after
another is the list of their exchanges. `Request.perform_of_wp` carries a weakest precondition over to
an exchange: while a request is alone, nothing changes between its statements.
-/

namespace TenantForge

open Gregorian ReadCommitted

/-! ### Sessions that are alone -/

section Sessions

variable {T : Type} {tag : T} {α : Type} {s₀ s : Shared schema Env T} {σ : Session schema}

/-- Nothing is committed; ids, tokens and times may have been drawn. -/
structure Still (s₀ s : Shared schema Env T) : Prop where
  db : s.db = s₀.db
  env : s₀.env.Onward s.env
  ids : s₀.ids.Leads s.ids

theorem Still.refl (s : Shared schema Env T) : Still s s := ⟨rfl, .refl _, .refl _⟩

/-- The protocol of a session that is alone, before its commit. -/
def Protocol.still (s₀ : Shared schema Env T) : Protocol schema Env T := .alone T (Still s₀)

theorem still_tolerates : (Protocol.still s₀).Tolerates Env.Onward where
  env _ _ _ _ hinv hd := ⟨{ hinv with env := hinv.env.trans hd }, trivial⟩
  draw _ _ s hinv := ⟨{ hinv with ids := hinv.ids.trans (Supply.leads_tail s.ids) }, trivial⟩

theorem still_tolerates_drawn : (Protocol.still s₀).Tolerates Env.Drawn where
  env tag σ s env' hinv hd := still_tolerates.env tag σ s env' hinv hd.onward
  draw := still_tolerates.draw

theorem still_metering : Metering (Protocol.still s₀) where
  clock _ _ s₁ s₂ hrely := by
    obtain rfl : s₂ = s₁ := hrely
    exact ⟨rfl, le_rfl⟩
  subscriptions _ _ s₁ s₂ hrely _ _ := by rw [show s₂ = s₁ from hrely]
  usageEvents _ _ s₁ s₂ hrely _ _ := by rw [show s₂ = s₁ from hrely]

theorem still_now (hdb : s₀.db.Integral) (hσ : σ.writes = .empty) :
    Interferes (Protocol.still s₀) tag σ s₀ s₀ :=
  .refl (Still.refl s₀) hdb (.of_writes_empty hdb hσ)

/-- The program is a transaction around this body: it commits what the body has written, or nothing if
the body raised. -/
def CommitsBody (program body : App α) : Prop :=
  ∀ (T : Type) (tag : T) (σ : Session schema) (s : Shared schema Env T),
    match body.run tag σ s with
    | (.ok value, σ', s') => (program.run tag σ s).1 = .ok value ∧
      (program.run tag σ s).2.2 = s'.commit tag σ'
    | (.error error, _, s') => (program.run tag σ s).1 = .error error ∧ (program.run tag σ s).2.2 = s'

theorem commitsBody_getSession (body : App α) : CommitsBody (getSession body) body := by
  intro T tag σ s
  rw [getSession, Prog.tryCatch_eq, Prog.run_handle, Prog.bind_eq, Prog.run_bind]
  generalize body.run tag σ s = result
  obtain ⟨outcome, σ', s'⟩ := result
  cases outcome <;> exact ⟨rfl, rfl⟩

theorem commitsBody_sessionScope (body : App α) :
    CommitsBody (sessionScope do
      let result ← body
      Prog.commitTransaction
      pure result) body := by
  intro T tag σ s
  rw [sessionScope, Prog.tryCatch_eq, Prog.run_handle, Prog.bind_eq, Prog.bind_eq, Prog.run_bind,
    Prog.run_bind]
  generalize body.run tag σ s = result
  obtain ⟨outcome, σ', s'⟩ := result
  cases outcome <;> exact ⟨rfl, rfl⟩

/-- A transaction that is alone commits what its body has written. -/
theorem CommitsBody.of_wp {program body : App α} (hcommits : CommitsBody program body)
    {Q : α → Assertion schema Env T} (hdb : s₀.db.Integral) (hσ : σ.writes = .empty)
    (hwp : wp (Protocol.still s₀) tag Q (fun _ _ _ => True) body σ s₀) :
    (∀ value, (program.run tag σ s₀).1 = .ok value → ∃ σ' s, Q value σ' s ∧ Still s₀ s ∧
      (program.run tag σ s₀).2.2 = s.commit tag σ') ∧
    ∀ error, (program.run tag σ s₀).1 = .error error → Still s₀ (program.run tag σ s₀).2.2 := by
  obtain ⟨hpost, hinv, _⟩ := run_of_wp (fun _ _ _ _ => trivial) (fun _ _ _ _ => trivial) body σ s₀
    (Still.refl s₀) hdb (.of_writes_empty hdb hσ) hwp
  have hinv : Still s₀ (body.run tag σ s₀).2.2 := hinv
  have hrun := hcommits T tag σ s₀
  generalize body.run tag σ s₀ = result at hpost hinv hrun
  obtain ⟨outcome, σ', s⟩ := result
  cases outcome with
  | ok value =>
    refine ⟨fun given hgiven => ?_, fun _ herror => nomatch hrun.1.symm.trans herror⟩
    obtain rfl := Except.ok.inj (hrun.1.symm.trans hgiven)
    exact ⟨σ', s, hpost, hinv, hrun.2⟩
  | error error =>
    exact ⟨fun _ hvalue => (nomatch hrun.1.symm.trans hvalue), fun _ _ => hrun.2 ▸ hinv⟩

end Sessions

/-! ### Exchanges -/

/-- A request that ran alone, from the state `before` to the state `after`. -/
structure Exchange where
  request : Request
  before : Shared schema Env Request
  outcome : Except Exn Response
  after : Shared schema Env Request

variable (rt : Runtime)

def Request.perform (s : Shared schema Env Request) (request : Request) : Exchange :=
  let result := (request.handle rt).run request .empty s
  ⟨request, s, result.1, result.2.2⟩

/-- The requests, one after another. -/
def exchanges : Shared schema Env Request → List Request → List Exchange
  | _, [] => []
  | s, request :: requests =>
    let exchange := request.perform rt s
    exchange :: exchanges exchange.after requests

/-- The state after the requests. -/
def afterAll (s : Shared schema Env Request) (requests : List Request) : Shared schema Env Request :=
  requests.foldl (fun s request => (request.perform rt s).after) s

variable {rt}

@[simp] theorem perform_request (s : Shared schema Env Request) (request : Request) :
    (request.perform rt s).request = request := rfl

@[simp] theorem perform_before (s : Shared schema Env Request) (request : Request) :
    (request.perform rt s).before = s := rfl

@[simp] theorem exchanges_cons (s : Shared schema Env Request) (request : Request)
    (requests : List Request) : exchanges rt s (request :: requests) =
      request.perform rt s :: exchanges rt (request.perform rt s).after requests := rfl

@[simp] theorem afterAll_cons (s : Shared schema Env Request) (request : Request)
    (requests : List Request) :
    afterAll rt s (request :: requests) = afterAll rt (request.perform rt s).after requests := rfl

/-- A request that commits once, after its endpoint. -/
theorem Request.perform_of_still (rt : Runtime) (request : Request) {Q : Response → Assertion schema Env Request}
    {s : Shared schema Env Request} (hdb : s.db.Integral)
    (hwp : wp (Protocol.still s) request Q (fun _ _ _ => True) (request.endpoint rt) .empty s) :
    (∀ value, (request.perform rt s).outcome = .ok value → ∃ σ s', Q value σ s' ∧ Still s s' ∧
      (request.perform rt s).after = s'.commit request σ) ∧
    ∀ error, (request.perform rt s).outcome = .error error → Still s (request.perform rt s).after :=
  (commitsBody_getSession _).of_wp hdb rfl hwp

/-- A request writes its own tables only, however it ends. -/
theorem Request.perform_frame (rt : Runtime) (request : Request) {s : Shared schema Env Request}
    (hdb : s.db.Integral) :
    (∀ t ∉ request.tables, (request.perform rt s).after.db t = s.db t) ∧
      s.env.Onward (request.perform rt s).after.env ∧ s.ids.Leads (request.perform rt s).after.ids ∧
      (request.perform rt s).after.db.Integral := by
  let P : Protocol schema Env Request := .alone Request fun s' =>
    (∀ t ∉ request.tables, s'.db t = s.db t) ∧ s.env.Onward s'.env ∧ s.ids.Leads s'.ids
  have hD : P.Tolerates Env.Onward :=
    ⟨fun _ _ _ _ hinv hd => ⟨⟨hinv.1, hinv.2.1.trans hd, hinv.2.2⟩, trivial⟩,
      fun _ _ s' hinv => ⟨⟨hinv.1, hinv.2.1, hinv.2.2.trans (Supply.leads_tail s'.ids)⟩, trivial⟩⟩
  have hstart : P.inv s := ⟨fun _ _ => rfl, .refl _, .refl _⟩
  have hsound : Session.empty.Sound s.db := .of_writes_empty hdb rfl
  have hwithin : (request.handle rt).Within (S := schema) (· ∈ request.tables) Env.Onward True :=
    within_request (fun _ _ h => h) (fun _ ht => ht) trivial
  have hcommit : True → ∀ σ s', Interferes P request σ s' s' → σ.Spares (S := schema) (· ∈ request.tables) →
      P.Allows request σ s' (s'.commit request σ) := fun _ _ _ hs hσ =>
    ⟨⟨fun t ht => (hσ.view ht _).trans (hs.inv.1 t ht), hs.inv.2⟩, trivial⟩
  have hwp := wp_within hwithin hD hcommit (fun _ _ => rfl) (.refl hstart hdb hsound)
  obtain ⟨_, ⟨hframe, henv, hids⟩, hdb'⟩ := run_of_wp (fun _ _ _ _ => trivial)
    (fun _ _ _ _ => trivial) (request.handle rt) .empty s hstart hdb hsound hwp
  exact ⟨hframe, henv, hids, hdb'⟩

/-- What is proved of a request among others holds when it is alone. -/
theorem Request.perform_of_wp {inv : Shared schema Env Request → Prop} {request : Request}
    {Q : Response → Assertion schema Env Request} {s : Shared schema Env Request} (hinv : inv s)
    (hdb : s.db.Integral)
    (hwp : wp (Protocol.alone Request inv) request Q (fun _ _ _ => True) (request.handle rt) .empty s) :
    inv (request.perform rt s).after ∧ (request.perform rt s).after.db.Integral ∧
      ∀ value, (request.perform rt s).outcome = .ok value → ∃ σ, Q value σ (request.perform rt s).after := by
  obtain ⟨hpost, hinv', hdb'⟩ := run_of_wp (fun _ _ _ _ => trivial) (fun _ _ _ _ => trivial)
    (request.handle rt) .empty s hinv hdb (.of_writes_empty hdb rfl) hwp
  refine ⟨hinv', hdb', fun value hvalue => ⟨((request.handle rt).run request .empty s).2.1, ?_⟩⟩
  have hok : ((request.handle rt).run request .empty s).1 = .ok value := hvalue
  rw [Request.perform]
  generalize (request.handle rt).run request .empty s = result at hpost hok ⊢
  obtain ⟨outcome, σ, s'⟩ := result
  obtain rfl : outcome = .ok value := hok
  exact hpost

end TenantForge
