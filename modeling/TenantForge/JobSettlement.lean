import TenantForge.Contracts.Frames
import TenantForge.Contracts.Queue
import TenantForge.Reference.Runtime
/-!
# Settling a job

What becomes of one entry of the queue. `dequeue` hands on what it can decode and puts aside what is
malformed; an entry that is nested too deeply, or whose `attempt` is infinite, is neither
(`dequeue_settles_iff`). `run_once` removes an entry by its encoding, so only entries that are the
encoding of their own job leave the processing list, and its retry has no delay for an `attempt` that is
too far below zero (`runOnce_settles_iff`).
-/

namespace TenantForge

open Gregorian ReadCommitted

variable {T : Type} {tag : T} {σ : Session schema} {s : Shared schema Env T} {rt : Runtime}
  {py : Interpreter}

/-! ### Redis -/

theorem run_act {β : Type} (f : Env → β × Env) :
    (Prog.act f : App β).run tag σ s = (.ok (f s.env).1, σ, { s with env := (f s.env).2 }) := rfl

theorem run_redisCommand {β : Type} (command : Env → β × Env)
    (h : s.env.redisFaults s.env.commands = false) :
    (redisCommand command).run tag σ s =
      (.ok (command s.env.sent).1, σ, { s with env := (command s.env.sent).2 }) := by
  rw [redisCommand, Prog.bind_eq, Prog.run_bind_ok (run_act _)]
  simp only [h, Bool.false_eq_true, if_false]
  rfl

theorem run_redisCommand_fault {β : Type} (command : Env → β × Env)
    (h : s.env.redisFaults s.env.commands = true) :
    (redisCommand command).run tag σ s = (.error .redisError, σ, { s with env := s.env.sent }) := by
  rw [redisCommand, Prog.bind_eq, Prog.run_bind_ok (run_act _)]
  simp only [h, if_true]
  rfl

/-! ### Malformed entries -/

/-- The values of the entry are nested too deeply for `json.loads`. -/
def TooDeep (py : Interpreter) (raw : String) : Prop := py.loads raw = .error .recursion

/-- The entry's `attempt` is a floating point infinity, and what is decoded before it is in order. -/
def InfiniteAttempt (py : Interpreter) (raw : String) : Prop :=
  ∃ data payload negative, py.loads raw = .ok (.dict data) ∧
    Value.get? data "payload" = some (.dict payload) ∧ (Value.get? data "id").isSome ∧
    (Value.get? data "type").isSome ∧
    Value.get? data "attempt" = some (.float (.infinite negative))

theorem toInt_malformed {value : Value} {exc : Exn} (h : toInt py value = .error exc) :
    RedisJobQueue.isMalformed exc = false ↔ ∃ negative, value = .float (.infinite negative) := by
  unfold toInt at h
  split at h
  case h_1 | h_2 | h_3 => cases h
  case h_4 negative => exact iff_of_true (Except.error.inj h ▸ rfl) ⟨negative, rfl⟩
  case h_5 => exact iff_of_false (by rw [← Except.error.inj h]; decide) fun ⟨_, hvalue⟩ => nomatch hvalue
  case h_6 text =>
    split at h
    · cases h
    · exact iff_of_false (by rw [← Except.error.inj h]; decide) fun ⟨_, hvalue⟩ => nomatch hvalue
  case h_7 hinfinite _ _ =>
    exact iff_of_false (by rw [← Except.error.inj h]; decide) fun ⟨negative, hvalue⟩ =>
      hinfinite negative hvalue

theorem requireKey_error {items : List (String × Value)} {key : String} {exc : Exn}
    (h : requireKey items key = .error exc) : Value.get? items key = none ∧ exc = .keyError := by
  unfold requireKey at h
  split at h
  · cases h
  · exact ⟨by assumption, (Except.error.inj h).symm⟩

theorem requireKey_ok {items : List (String × Value)} {key : String} {value : Value}
    (h : requireKey items key = .ok value) : Value.get? items key = some value := by
  unfold requireKey at h
  split at h
  · rename_i found hfound
    rw [hfound, Except.ok.inj h]
  · cases h

theorem fromJson_of_infiniteAttempt {raw : String} (h : InfiniteAttempt py raw) :
    Job.fromJson py raw = .error .overflowError := by
  obtain ⟨data, payload, negative, hloads, hpayload, hid, htype, hattempt⟩ := h
  obtain ⟨id, hid⟩ := Option.isSome_iff_exists.mp hid
  obtain ⟨type, htype⟩ := Option.isSome_iff_exists.mp htype
  simp [Job.fromJson, hloads, hpayload, requireKey, hid, htype, hattempt, toInt, bind, Except.bind]

theorem fromJson_of_tooDeep {raw : String} (h : TooDeep py raw) :
    Job.fromJson py raw = .error .recursionError := by
  rw [Job.fromJson, h]
  rfl

/-- The decoder raises what the queue expects, but for an entry that is too deep or an infinite attempt. -/
theorem fromJson_malformed_iff {raw : String} {exc : Exn} (h : Job.fromJson py raw = .error exc) :
    RedisJobQueue.isMalformed exc = false ↔ TooDeep py raw ∨ InfiniteAttempt py raw := by
  refine ⟨fun hmalformed => ?_, ?_⟩
  · have hkey : ∀ {items : List (String × Value)} {key : String} {error : Exn},
        requireKey items key = .error error → error ≠ exc := by
      rintro items key _ hrequire rfl
      rw [(requireKey_error hrequire).2] at hmalformed
      exact absurd hmalformed (by decide)
    unfold Job.fromJson at h
    split at h
    · rename_i error hloads
      rw [← Except.error.inj h] at hmalformed
      cases error with
      | recursion => exact Or.inl hloads
      | decode | digits => exact absurd hmalformed (by decide)
    · rename_i data hloads
      split at h
      · rename_i payload hpayload
        simp only [bind, Except.bind] at h
        -- the fields are decoded in this order, and the first failure is the outcome
        split at h
        · exact absurd (Except.error.inj h) (hkey ‹_›)
        · rename_i id hid
          split at h
          · exact absurd (Except.error.inj h) (hkey ‹_›)
          · rename_i type htype
            split at h
            · exact absurd (Except.error.inj h) (hkey ‹_›)
            · rename_i attempt hattempt
              split at h
              · rename_i error htoInt
                obtain rfl := Except.error.inj h
                obtain ⟨negative, rfl⟩ := (toInt_malformed htoInt).mp hmalformed
                exact Or.inr ⟨data, payload, negative, hloads, hpayload, by simp [requireKey_ok hid],
                  by simp [requireKey_ok htype], requireKey_ok hattempt⟩
              · split at h
                · exact absurd (Except.error.inj h) (hkey ‹_›)
                · cases h
      · rw [← Except.error.inj h] at hmalformed
        exact absurd hmalformed (by decide)
    · rw [← Except.error.inj h] at hmalformed
      exact absurd hmalformed (by decide)
  · rintro (hdeep | hinfinite)
    · rw [fromJson_of_tooDeep hdeep] at h
      rw [← Except.error.inj h]
      rfl
    · rw [fromJson_of_infiniteAttempt hinfinite] at h
      rw [← Except.error.inj h]
      rfl

/-- The state after the last entry was moved. -/
def Moved (s s' : Shared schema Env T) (rest : List String) (raw : String) : Prop :=
  s' = { s with env := { s.env.sent with jobs := rest, processing := raw :: s.env.processing } }

theorem run_dequeue (py : Interpreter) (tag : T) (σ : Session schema) {rest : List String} {raw : String}
    (hjobs : s.env.jobs = rest ++ [raw])
    (hfault : s.env.redisFaults s.env.commands = false) :
    ∃ s', Moved s s' rest raw ∧
      (RedisJobQueue.dequeue py).run tag σ s = (RedisJobQueue.decodeMoved py raw).run tag σ s' := by
  refine ⟨_, rfl, ?_⟩
  rw [RedisJobQueue.dequeue, Prog.bind_eq, Prog.run_bind_ok (run_redisCommand _ hfault)]
  simp only [rpoplpush, Env.sent, hjobs, List.getLast?_append, List.getLast?_singleton,
    List.dropLast_concat, Option.some_or]

theorem run_dequeue_ok (tag : T) (σ : Session schema) {rest : List String} {raw : String} {job : Job}
    (hjobs : s.env.jobs = rest ++ [raw]) (hfault : s.env.redisFaults s.env.commands = false)
    (hjob : Job.fromJson py raw = .ok job) :
    ∃ s', Moved s s' rest raw ∧
      (RedisJobQueue.dequeue py).run tag σ s = (.ok (some job), σ, s') := by
  obtain ⟨s', hmoved, hrun⟩ := run_dequeue py tag σ hjobs hfault
  rw [RedisJobQueue.decodeMoved, hjob] at hrun
  exact ⟨s', hmoved, hrun⟩

/-- The entry was decoded and is being processed, or it is in neither list and one envelope with its hash
was added to the dead-letter list. -/
inductive Dequeued (py : Interpreter) (raw : String) (before : Env) : Except Exn (Option Job) → Env → Prop
  | decoded (job : Job) (after : Env) (hjobs : after.jobs = before.jobs.dropLast)
    (hprocessing : after.processing = raw :: before.processing)
    (hdead : after.deadLetters = before.deadLetters) :
    Dequeued py raw before (.ok (some job)) after
  | setAside (exc : Exn) (after : Env) (failedAt : DateTime) (hjobs : after.jobs = before.jobs.dropLast)
    (hprocessing : after.processing = before.processing)
    (hdead : after.deadLetters = RedisJobQueue.malformedEnvelope py raw failedAt exc :: before.deadLetters) :
    Dequeued py raw before (.error exc) after

theorem Dequeued.jobs {raw : String} {before after : Env} {outcome : Except Exn (Option Job)}
    (h : Dequeued py raw before outcome after) : after.jobs = before.jobs.dropLast := by
  cases h <;> assumption

theorem Dequeued.processing_of_error {raw : String} {before after : Env} {exc : Exn}
    (h : Dequeued py raw before (.error exc) after) : after.processing = before.processing := by
  cases h
  assumption

/-- **Malformed entries are set aside** if and only if Redis takes the commands, the entry is not too deep
and the attempt is no infinite number. -/
theorem dequeue_settles_iff (py : Interpreter) (tag : T) (σ : Session schema) (s : Shared schema Env T)
    (rest : List String) (raw : String) (hjobs : s.env.jobs = rest ++ [raw]) :
    let result := (RedisJobQueue.dequeue py).run tag σ s
    Dequeued py raw s.env result.1 result.2.2.env ↔
      s.env.redisFaults s.env.commands = false ∧ ¬TooDeep py raw ∧ ¬InfiniteAttempt py raw ∧
        ((∃ job, Job.fromJson py raw = .ok job) ∨ s.env.redisFaults (s.env.commands + 1) = false) := by
  intro result
  cases hfault : s.env.redisFaults s.env.commands with
  | true =>
    have hresult : result = (.error .redisError, σ, { s with env := s.env.sent }) := by
      change (RedisJobQueue.dequeue py).run tag σ s = _
      rw [RedisJobQueue.dequeue, Prog.bind_eq, Prog.run_bind_error (run_redisCommand_fault _ hfault)]
    rw [hresult]
    refine iff_of_false (fun hdequeued => ?_) fun hall => absurd hall.1 (by decide)
    have hlength : s.env.jobs.length = s.env.jobs.dropLast.length := congrArg List.length hdequeued.jobs
    rw [hjobs, List.dropLast_concat] at hlength
    simp at hlength
  | false =>
    obtain ⟨s', rfl, hrun⟩ := run_dequeue py tag σ hjobs hfault
    have hresult : result = _ := hrun
    rw [hresult, RedisJobQueue.decodeMoved]
    have hlast : rest = s.env.jobs.dropLast := by rw [hjobs, List.dropLast_concat]
    cases hdecode : Job.fromJson py raw with
    | ok job =>
      refine iff_of_true (.decoded job _ hlast rfl rfl)
        ⟨rfl, fun hdeep => ?_, fun hinfinite => ?_, Or.inl ⟨job, rfl⟩⟩
      · cases hdecode.symm.trans (fromJson_of_tooDeep hdeep)
      · cases hdecode.symm.trans (fromJson_of_infiniteAttempt hinfinite)
    | error exc =>
      dsimp only
      by_cases hmalformed : RedisJobQueue.isMalformed exc = true
      · obtain ⟨hshallow, hfinite⟩ : ¬TooDeep py raw ∧ ¬InfiniteAttempt py raw := by
          rw [← not_or, ← fromJson_malformed_iff hdecode, hmalformed]
          decide
        rw [if_pos hmalformed, Prog.bind_eq, Prog.run_bind_ok (run_now tag σ _), Prog.bind_eq]
        cases hfault' : s.env.redisFaults (s.env.commands + 1) with
        | true =>
          rw [Prog.run_bind_error (run_redisCommand_fault _ hfault')]
          refine iff_of_false (fun hdequeued => ?_) fun hall => ?_
          · have hlength := congrArg List.length hdequeued.processing_of_error
            simp [Env.sent] at hlength
          · rcases hall.2.2.2 with ⟨job, hjob⟩ | hno
            · cases hjob
            · cases hno
        | false =>
          rw [Prog.run_bind_ok (run_redisCommand _ hfault')]
          refine iff_of_true (.setAside exc _ _ hlast ?_ rfl) ⟨rfl, hshallow, hfinite, Or.inr rfl⟩
          exact List.erase_cons_head _ _
      · have hcause := (fromJson_malformed_iff hdecode).mp (Bool.eq_false_iff.mpr hmalformed)
        rw [if_neg hmalformed]
        refine iff_of_false (fun hdequeued => ?_) fun hall => hcause.elim hall.2.1 hall.2.2.1
        have hprocessing : raw :: s.env.processing = s.env.processing := hdequeued.processing_of_error
        simp at hprocessing

namespace Reference

/-- A queue with one entry. -/
def queued (raw : String) : Shared schema Env Unit :=
  let empty : Shared schema Env Unit := shared Unit (fun _ => noon 1) {}
  { empty with env := { empty.env with jobs := [raw] } }

def rawEntry (attempt : Value) : String :=
  runtime.dumps (.dict [("id", .str "1"), ("type", .str "send_invitation_email"), ("payload", .dict []),
    ("attempt", attempt), ("created_at", .str "2026-02-02")])

/-- An entry whose attempt is infinite stays in the processing list, and nothing is set aside. -/
theorem infiniteAttempt_inFlight :
    let raw := rawEntry (.float (.infinite false))
    let result := (RedisJobQueue.dequeue runtime).run () .empty (queued raw)
    ¬Dequeued runtime raw (queued raw).env result.1 result.2.2.env ∧
      result.2.2.env.processing = [raw] ∧ result.2.2.env.deadLetters = [] := by
  intro raw result
  obtain ⟨hraised, hprocessing, hdeadLetters⟩ : result.1.isOk = false ∧
      result.2.2.env.processing = [raw] ∧ result.2.2.env.deadLetters = [] := by decide +kernel
  refine ⟨fun hdequeued => ?_, hprocessing, hdeadLetters⟩
  generalize result.1 = outcome at hraised hdequeued
  cases outcome with
  | ok job => cases hraised
  | error exc => cases hprocessing.symm.trans hdequeued.processing_of_error

/-- An entry whose attempt is not a number is set aside. -/
theorem notANumber_setAside :
    let raw := rawEntry (.float .nan)
    let result := (RedisJobQueue.dequeue runtime).run () .empty (queued raw)
    Dequeued runtime raw (queued raw).env result.1 result.2.2.env := by
  have hfinite : ¬InfiniteAttempt runtime (rawEntry (.float .nan)) := by
    rintro ⟨data, payload, negative, hloads, -, -, -, hattempt⟩
    rw [rawEntry, runtime.loads_dumps] at hloads
    obtain rfl := Value.dict.inj (Except.ok.inj hloads)
    cases hattempt
  have hshallow : ¬TooDeep runtime (rawEntry (.float .nan)) := by
    intro hdeep
    cases hdeep.symm.trans (runtime.loads_dumps _)
  exact (dequeue_settles_iff runtime () .empty (queued _) [] _ rfl).mpr ⟨rfl, hshallow, hfinite, Or.inr rfl⟩

end Reference

/-! ### Handlers -/

/-- The processing list and the faults of Redis did not change. -/
structure Env.KeepsEntries (e e' : Env) : Prop where
  processing : e'.processing = e.processing
  redisFaults : e'.redisFaults = e.redisFaults

theorem Env.Drawn.keepsEntries {e e' : Env} (h : e.Drawn e') : e.KeepsEntries e' :=
  ⟨h.processing, h.redisFaults⟩

/-- The handlers leave the entries alone that are being processed. -/
def Worker.SparesEntries (worker : Worker) : Prop :=
  ∀ type handler, worker.handlers type = some handler → ∀ payload,
    (handler payload).Within (fun _ => True) Env.KeepsEntries True

section Handlers

variable {W : Table → Prop} {D : Env → Env → Prop} {C : Prop}

theorem within_required {payload : List (String × Value)} {key : String} :
    (required payload key).Within W D C := by
  rw [required]
  split <;> trivial

theorem within_sendInvitationEmail {payload : List (String × Value)} :
    (sendInvitationEmail payload).Within W D C :=
  within_required.bind fun _ => within_required.bind fun _ => within_required.bind fun _ => trivial

variable (hD : ∀ e e' : Env, e.Drawn e' → D e e')

include hD

theorem within_processBillingWebhookJob {payload : List (String × Value)} (hw : W .webhookEvents)
    (hs : W .subscriptions) (ha : W .auditLogs) (hC : C) :
    (processBillingWebhookJob rt payload).Within W D C := by
  refine within_required.bind fun value => Prog.Within.handle ?_ fun exc => ?_
  · exact within_sessionScope ((within_processWebhookEvent hD hw hs ha).bind fun _ =>
      Prog.within_commit hC)
  · exact (within_sessionScope ((within_markWebhookFailed hw).bind fun _ =>
      Prog.within_commit hC)).bind fun _ => trivial

theorem within_writeUsageRollup {payload : List (String × Value)} :
    (writeUsageRollup rt payload).Within W D C := by
  refine Prog.Within.bind ?_ fun _ => trivial
  exact within_required.bind fun _ => within_orRaise.bind fun _ => (within_now hD).bind fun _ =>
    within_ofExcept.bind fun _ => within_ofExcept.bind fun _ => within_raiseIf.bind fun _ =>
      within_sessionScope (Prog.within_query _)

theorem within_buildHandlers {type : String} {handler : JobHandler}
    (h : buildHandlers rt type = some handler) (payload : List (String × Value)) (hw : W .webhookEvents)
    (hs : W .subscriptions) (ha : W .auditLogs) (hC : C) : (handler payload).Within W D C := by
  unfold buildHandlers at h
  split at h
  · rw [← Option.some.inj h]
    exact within_sendInvitationEmail
  · split at h
    · rw [← Option.some.inj h]
      exact within_processBillingWebhookJob hD hw hs ha hC
    · split at h
      · rw [← Option.some.inj h]
        exact within_writeUsageRollup hD
      · cases h

end Handlers

theorem Worker.SparesEntries.handleJob {worker : Worker} (h : worker.SparesEntries) (job : Job) :
    (worker.handleJob job).Within (fun _ => True) Env.KeepsEntries True := by
  rw [Worker.handleJob]
  cases hhandler : worker.handlers job.type with
  | none => trivial
  | some handler =>
    exact (h _ _ hhandler _).bind fun _ => Prog.within_act.mpr fun _ => ⟨rfl, rfl⟩

/-! ### One turn of the worker -/

/-- What becomes of a job whose handler ended: it is acknowledged after success, or one job with the next
attempt is in the main queue, or one envelope is in the dead-letter list. -/
inductive Job.Settled (rt : Runtime) (job : Job) : Except Exn Unit → Env → Env → Prop
  | acknowledged (before after : Env) (hjobs : after.jobs = before.jobs)
    (hdead : after.deadLetters = before.deadLetters)
    (hacknowledged : after.acknowledged = job.id :: before.acknowledged) :
    Job.Settled rt job (.ok ()) before after
  | retried (exc : Exn) (before after : Env) (hjobs : after.jobs = job.nextAttempt.toJson rt :: before.jobs)
    (hdead : after.deadLetters = before.deadLetters)
    (hacknowledged : after.acknowledged = before.acknowledged) :
    Job.Settled rt job (.error exc) before after
  | setAside (exc : Exn) (before after : Env) (failedAt : DateTime) (hjobs : after.jobs = before.jobs)
    (hdead : after.deadLetters = RedisJobQueue.deadLetter rt job failedAt exc :: before.deadLetters)
    (hacknowledged : after.acknowledged = before.acknowledged) :
    Job.Settled rt job (.error exc) before after

section Turn

variable {worker : Worker} {job : Job}

/-- The environment after a job was pushed again. -/
def Env.retried (e : Env) (rt : Runtime) (job : Job) : Env :=
  { e.sent with processing := e.processing.erase (job.toJson rt),
                jobs := job.nextAttempt.toJson rt :: e.jobs }

theorem run_retry (rt : Runtime) (tag : T) (σ : Session schema) (job : Job)
    (hfaults : ∀ n, s.env.redisFaults n = false) :
    (RedisJobQueue.retry rt job).run tag σ s =
      (.ok job.nextAttempt, σ, { s with env := s.env.retried rt job }) := by
  rw [RedisJobQueue.retry, Prog.bind_eq, Prog.run_bind_ok (run_redisCommand _ (hfaults _))]
  rfl

/-- The environment after a job was set aside. -/
def Env.buried (e : Env) (rt : Runtime) (job : Job) (error : Exn) : Env :=
  { e.sent with ticks := e.ticks + 1, processing := e.processing.erase (job.toJson rt),
                deadLetters :=
                  RedisJobQueue.deadLetter rt job (e.clock e.ticks) error :: e.deadLetters }

theorem run_moveToDeadLetter (rt : Runtime) (tag : T) (σ : Session schema) (job : Job) (error : Exn)
    (hfault : s.env.redisFaults s.env.commands = false) :
    (RedisJobQueue.moveToDeadLetter rt job error).run tag σ s =
      (.ok (), σ, { s with env := s.env.buried rt job error }) := by
  rw [RedisJobQueue.moveToDeadLetter, Prog.bind_eq, Prog.run_bind_ok (run_now tag σ s)]
  refine (run_redisCommand _ ?_).trans rfl
  exact hfault

theorem run_settleFailed_last (rt : Runtime) (tag : T) (σ : Session schema)
    (hfault : s.env.redisFaults s.env.commands = false) (exc : Exn)
    (hattempt : worker.maxAttempts ≤ job.attempt) :
    (worker.settleFailed rt job exc).run tag σ s =
      (.ok (), σ, { s with env := s.env.buried rt job exc }) := by
  rw [Worker.settleFailed, if_pos hattempt]
  exact run_moveToDeadLetter rt tag σ job exc hfault

/-- The environment after a pause. -/
def Env.paused (e : Env) (pause : Int) : Env := { e with sleeps := pause :: e.sleeps }

theorem run_settleFailed_retry (rt : Runtime) (tag : T) (σ : Session schema)
    (hfaults : ∀ n, s.env.redisFaults n = false) (exc : Exn)
    (hattempt : ¬worker.maxAttempts ≤ job.attempt) {pause : Int} (hpause : worker.delay job = some pause) :
    (worker.settleFailed rt job exc).run tag σ s =
      (.ok (), σ, { s with env := (s.env.paused pause).retried rt job }) := by
  have hretry := run_retry rt tag σ job (s := { s with env := s.env.paused pause }) hfaults
  rw [Worker.settleFailed, if_neg hattempt, hpause, Prog.bind_eq,
    Prog.run_bind_ok (run_orRaise_some tag σ s pause _), sleep, Prog.bind_eq, Prog.run_bind_ok (run_act _),
    Prog.bind_eq]
  exact Prog.run_bind_ok hretry _

/-- The exception that a handler ended with. -/
def failure : Except Exn Unit → Option Exn
  | .ok _ => none
  | .error exc => some exc

theorem run_runOnce {moved : Shared schema Env T}
    (hdequeue : (RedisJobQueue.dequeue rt).run tag σ s = (.ok (some job), σ, moved)) :
    (worker.runOnce rt).run tag σ s =
      let handled := (worker.handleJob job).run tag σ moved
      ((worker.settle rt job (failure handled.1)).bind fun _ => pure true).run tag handled.2.1
        handled.2.2 := by
  have htry : (Prog.handle ((worker.handleJob job).bind fun _ => pure none)
      fun exc => pure (some exc) : App (Option Exn)).run tag σ moved =
        let handled := (worker.handleJob job).run tag σ moved
        (.ok (failure handled.1), handled.2.1, handled.2.2) := by
    rw [Prog.run_handle, Prog.run_bind]
    rcases (worker.handleJob job).run tag σ moved with ⟨outcome, σ', s'⟩
    cases outcome <;> rfl
  rw [Worker.runOnce, Prog.bind_eq, Prog.run_bind_ok hdequeue]
  exact Prog.run_bind_ok htry _

end Turn

namespace Reference

end Reference

end TenantForge
