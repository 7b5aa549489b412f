import TenantForge.JobSettlement
/-!
# Redaction of dead letters

Two payloads agree when they differ at most in the values under sensitive keys (`Agree`). Redaction
picks one payload of each class: payloads that agree are redacted alike, and a payload agrees with its
own redaction (`redactItems_eq_iff`, `agree_redactPayload`). What a dead letter shows of a job is
therefore its class and nothing more (`deadLetter_redacted`).
-/

namespace TenantForge

open Gregorian ReadCommitted

/-! ### Agreement -/

/-- The values under this key are hidden. -/
def Sensitive (rt : Runtime) (key : String) : Prop := rt.lower key ∈ sensitivePayloadKeys

instance (rt : Runtime) (key : String) : Decidable (Sensitive rt key) :=
  inferInstanceAs (Decidable (_ ∈ _))

/-- No object and no list. -/
def Value.IsLeaf : Value → Prop
  | .list _ | .dict _ => False
  | _ => True

mutual

/-- The values differ at most in what is stored under sensitive keys: outside of these they have the same
keys, the same lengths and the same leaves. -/
inductive Agree (rt : Runtime) : Value → Value → Prop
  | leaf (value : Value) (hleaf : value.IsLeaf) : Agree rt value value
  | list (items items' : List Value) (h : AgreeList rt items items') : Agree rt (.list items) (.list items')
  | dict (items items' : List (String × Value)) (h : AgreeItems rt items items') :
    Agree rt (.dict items) (.dict items')

inductive AgreeList (rt : Runtime) : List Value → List Value → Prop
  | nil : AgreeList rt [] []
  | cons (item item' : Value) (items items' : List Value) (h : Agree rt item item')
    (hrest : AgreeList rt items items') : AgreeList rt (item :: items) (item' :: items')

inductive AgreeItems (rt : Runtime) : List (String × Value) → List (String × Value) → Prop
  | nil : AgreeItems rt [] []
  | secret (key : String) (item item' : Value) (items items' : List (String × Value))
    (hkey : Sensitive rt key) (hrest : AgreeItems rt items items') :
    AgreeItems rt ((key, item) :: items) ((key, item') :: items')
  | plain (key : String) (item item' : Value) (items items' : List (String × Value))
    (h : Agree rt item item') (hrest : AgreeItems rt items items') :
    AgreeItems rt ((key, item) :: items) ((key, item') :: items')

end

variable {rt : Runtime}

theorem redactItems_secret {key : String} (hkey : Sensitive rt key) (item : Value)
    (items : List (String × Value)) :
    redactItems rt ((key, item) :: items) = (key, .str "[redacted]") :: redactItems rt items := by
  unfold Sensitive at hkey
  simp only [redactItems, if_pos hkey]

theorem redactItems_plain {key : String} (hkey : ¬Sensitive rt key) (item : Value)
    (items : List (String × Value)) :
    redactItems rt ((key, item) :: items) = (key, redactPayload rt item) :: redactItems rt items := by
  unfold Sensitive at hkey
  simp only [redactItems, if_neg hkey]

/-! ### Redaction hides -/

mutual

/-- Values that agree are redacted alike. -/
theorem Agree.redact : ∀ {value value' : Value}, Agree rt value value' →
    redactPayload rt value = redactPayload rt value'
  | _, _, .leaf _ _ => rfl
  | _, _, .list items items' h => by simp only [redactPayload, h.redact]
  | _, _, .dict items items' h => by simp only [redactPayload, h.redact]

theorem AgreeList.redact : ∀ {items items' : List Value}, AgreeList rt items items' →
    redactList rt items = redactList rt items'
  | _, _, .nil => rfl
  | _, _, .cons item item' items items' h hrest => by simp only [redactList, h.redact, hrest.redact]

theorem AgreeItems.redact : ∀ {items items' : List (String × Value)}, AgreeItems rt items items' →
    redactItems rt items = redactItems rt items'
  | _, _, .nil => rfl
  | _, _, .secret key item item' items items' hkey hrest => by
    rw [redactItems_secret hkey, redactItems_secret hkey, hrest.redact]
  | _, _, .plain key item item' items items' h hrest => by
    by_cases hkey : Sensitive rt key
    · rw [redactItems_secret hkey, redactItems_secret hkey, hrest.redact]
    · rw [redactItems_plain hkey, redactItems_plain hkey, h.redact, hrest.redact]

end

/-! ### Redaction keeps the rest -/

mutual

/-- A value agrees with its redaction. -/
theorem agree_redactPayload (rt : Runtime) : ∀ value : Value, Agree rt value (redactPayload rt value)
  | .null | .bool _ | .int _ | .float _ | .str _ => by
    simp only [redactPayload]
    exact .leaf _ trivial
  | .list items => by
    simp only [redactPayload]
    exact .list _ _ (agree_redactList rt items)
  | .dict items => by
    simp only [redactPayload]
    exact .dict _ _ (agree_redactItems rt items)

theorem agree_redactList (rt : Runtime) :
    ∀ items : List Value, AgreeList rt items (redactList rt items)
  | [] => .nil
  | item :: items => .cons _ _ _ _ (agree_redactPayload rt item) (agree_redactList rt items)

theorem agree_redactItems (rt : Runtime) :
    ∀ items : List (String × Value), AgreeItems rt items (redactItems rt items)
  | [] => .nil
  | (key, item) :: items => by
    by_cases hkey : Sensitive rt key
    · rw [redactItems_secret hkey]
      exact .secret _ _ _ _ _ hkey (agree_redactItems rt items)
    · rw [redactItems_plain hkey]
      exact .plain _ _ _ _ _ (agree_redactPayload rt item) (agree_redactItems rt items)

end

/-- **Redacting again changes nothing.** -/
theorem redactItems_redactItems (rt : Runtime) (items : List (String × Value)) :
    redactItems rt (redactItems rt items) = redactItems rt items :=
  (agree_redactItems rt items).redact.symm

/-! ### Agreement is an equivalence -/

mutual

theorem Agree.symm : ∀ {value value' : Value}, Agree rt value value' → Agree rt value' value
  | _, _, .leaf value h => .leaf value h
  | _, _, .list _ _ h => .list _ _ h.symm
  | _, _, .dict _ _ h => .dict _ _ h.symm

theorem AgreeList.symm : ∀ {items items' : List Value}, AgreeList rt items items' →
    AgreeList rt items' items
  | _, _, .nil => .nil
  | _, _, .cons _ _ _ _ h hrest => .cons _ _ _ _ h.symm hrest.symm

theorem AgreeItems.symm : ∀ {items items' : List (String × Value)}, AgreeItems rt items items' →
    AgreeItems rt items' items
  | _, _, .nil => .nil
  | _, _, .secret _ _ _ _ _ hkey hrest => .secret _ _ _ _ _ hkey hrest.symm
  | _, _, .plain _ _ _ _ _ h hrest => .plain _ _ _ _ _ h.symm hrest.symm

end

mutual

theorem Agree.trans : ∀ {a b c : Value}, Agree rt a b → Agree rt b c → Agree rt a c
  | _, _, _, .leaf _ _, h => h
  | _, _, _, .list _ _ h, .list _ _ h' => .list _ _ (h.trans h')
  | _, _, _, .dict _ _ h, .dict _ _ h' => .dict _ _ (h.trans h')

theorem AgreeList.trans : ∀ {a b c : List Value}, AgreeList rt a b → AgreeList rt b c → AgreeList rt a c
  | _, _, _, .nil, .nil => .nil
  | _, _, _, .cons _ _ _ _ h hrest, .cons _ _ _ _ h' hrest' =>
    .cons _ _ _ _ (h.trans h') (hrest.trans hrest')

theorem AgreeItems.trans : ∀ {a b c : List (String × Value)}, AgreeItems rt a b → AgreeItems rt b c →
    AgreeItems rt a c
  | _, _, _, .nil, .nil => .nil
  | _, _, _, .secret _ _ _ _ _ hkey hrest, .secret _ _ _ _ _ _ hrest' =>
    .secret _ _ _ _ _ hkey (hrest.trans hrest')
  | _, _, _, .secret _ _ _ _ _ hkey hrest, .plain _ _ _ _ _ _ hrest' =>
    .secret _ _ _ _ _ hkey (hrest.trans hrest')
  | _, _, _, .plain _ _ _ _ _ _ hrest, .secret _ _ _ _ _ hkey hrest' =>
    .secret _ _ _ _ _ hkey (hrest.trans hrest')
  | _, _, _, .plain _ _ _ _ _ h hrest, .plain _ _ _ _ _ h' hrest' =>
    .plain _ _ _ _ _ (h.trans h') (hrest.trans hrest')

end

/-- Payloads are redacted alike if and only if they agree. -/
theorem redactItems_eq_iff {items items' : List (String × Value)} :
    redactItems rt items = redactItems rt items' ↔ AgreeItems rt items items' := by
  refine ⟨fun h => ?_, AgreeItems.redact⟩
  have hitems : AgreeItems rt items (redactItems rt items') := h ▸ agree_redactItems rt items
  exact hitems.trans (agree_redactItems rt items').symm

/-! ### Envelopes -/

theorem deadLetter_congr {job : Job} {payload : List (String × Value)}
    (h : AgreeItems rt job.payload payload) (failedAt : DateTime) (error : Exn) :
    RedisJobQueue.deadLetter rt { job with payload } failedAt error =
      RedisJobQueue.deadLetter rt job failedAt error := by
  unfold RedisJobQueue.deadLetter
  simp only [h.redact]

/-- **Dead letters leak nothing and lose nothing else.** Jobs whose payloads agree leave the same envelope
at the same time and with the same error; a payload agrees with its redaction, and redacting again changes
nothing. -/
theorem deadLetter_redacted {T : Type} (rt : Runtime) (tag : T) (job : Job)
    (payload : List (String × Value)) (hagree : AgreeItems rt job.payload payload) (error : Exn)
    (σ σ' : Session schema) (s s' : Shared schema Env T)
    (htime : s.env.clock s.env.ticks = s'.env.clock s'.env.ticks)
    (hfault : s.env.redisFaults s.env.commands = false)
    (hfault' : s'.env.redisFaults s'.env.commands = false) :
    let left := (RedisJobQueue.moveToDeadLetter rt job error).run tag σ s
    let right := (RedisJobQueue.moveToDeadLetter rt { job with payload } error).run tag σ' s'
    (∃ envelope, left.2.2.env.deadLetters = envelope :: s.env.deadLetters ∧
      right.2.2.env.deadLetters = envelope :: s'.env.deadLetters) ∧
    ∀ items, AgreeItems rt items (redactItems rt items) ∧
      redactItems rt (redactItems rt items) = redactItems rt items := by
  intro left right
  refine ⟨⟨RedisJobQueue.deadLetter rt job (s.env.clock s.env.ticks) error, ?_, ?_⟩,
    fun items => ⟨agree_redactItems rt items, redactItems_redactItems rt items⟩⟩
  · show ((RedisJobQueue.moveToDeadLetter rt job error).run tag σ s).2.2.env.deadLetters = _
    rw [run_moveToDeadLetter rt tag σ job error hfault]
    rfl
  · show ((RedisJobQueue.moveToDeadLetter rt { job with payload } error).run tag σ' s').2.2.env.deadLetters = _
    rw [run_moveToDeadLetter rt tag σ' { job with payload } error hfault', htime,
      ← deadLetter_congr hagree]
    rfl

namespace Reference

/-- A job with secrets at two depths, one of them a whole object. -/
def secretJob (token : String) (password : Value) : Job :=
  ⟨"1", "fails", [("safe", .str "payload"), ("Token", .str token),
    ("nested", .list [.dict [("password", password), ("n", .int 1)]])], 3, "2026-02-02"⟩

theorem agree_secretJob (token token' : String) (password password' : Value) :
    AgreeItems runtime (secretJob token password).payload (secretJob token' password').payload := by
  have hpassword : AgreeItems runtime [("password", password), ("n", .int 1)]
      [("password", password'), ("n", .int 1)] :=
    .secret _ _ _ _ _ (by decide) (.plain _ _ _ _ _ (.leaf _ trivial) .nil)
  refine .plain _ _ _ _ _ (.leaf _ trivial) (.secret _ _ _ _ _ (by decide) ?_)
  exact .plain _ _ _ _ _ (.list _ _ (.cons _ _ _ _ (.dict _ _ hpassword) .nil)) .nil

/-- Two jobs with different secrets leave the same envelope. -/
theorem deadLetter_secretJob :
    let letters := fun job => ((RedisJobQueue.moveToDeadLetter runtime job .osError).run () .empty
      (shared Unit (fun _ => noon 1) {})).2.2.env.deadLetters
    ∃ envelope, letters (secretJob "first" .null) = [envelope] ∧
      letters (secretJob "second" (.dict [("a", .null)])) = [envelope] := by
  intro letters
  have hredacted := deadLetter_redacted runtime () (secretJob "first" .null) _
    (agree_secretJob "first" "second" .null (.dict [("a", .null)])) .osError .empty .empty
    (shared Unit (fun _ => noon 1) {}) (shared Unit (fun _ => noon 1) {}) rfl rfl rfl
  exact hredacted.1

end Reference

end TenantForge
