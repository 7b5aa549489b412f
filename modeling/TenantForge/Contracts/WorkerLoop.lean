import TenantForge.ReadCommitted.Frame
import TenantForge.Workers.Worker
/-!
# The loop of the worker

The commands of the queue only act on the environment. So a property that programs have as soon as their parts
have it holds of the whole loop once it holds of the handlers (`composed_runForever`).
-/

namespace TenantForge

open Gregorian ReadCommitted

variable {rt : Runtime} {worker : Worker} {K : ∀ β : Type, App β → Prop} {α : Type}

theorem composed_orRaise (hK : Prog.Composes K) (result : Option α) (error : Exn) : K α (orRaise result error) := by
  cases result with
  | none => exact hK.throw error
  | some value => exact hK.pure value

theorem composed_now (hK : Prog.Composes K) : K DateTime now := hK.act _

theorem composed_redisCommand (hK : Prog.Composes K) (command : Env → α × Env) : K α (redisCommand command) :=
  hK.bind (hK.act _) fun _ => composed_orRaise hK _ _

theorem composed_dequeue (hK : Prog.Composes K) : K (Option Job) (RedisJobQueue.dequeue rt) := by
  refine hK.bind (composed_redisCommand hK _) fun raw => ?_
  cases raw with
  | none => exact hK.pure none
  | some raw =>
    simp only [RedisJobQueue.decodeMoved]
    cases Job.fromJson rt raw with
    | ok job => exact hK.pure (some job)
    | error exc =>
      simp only
      split
      · exact hK.bind (composed_now hK) fun _ => hK.bind (composed_redisCommand hK _) fun _ => hK.throw exc
      · exact hK.throw exc

theorem composed_settle (hK : Prog.Composes K) (job : Job) (outcome : Option Exn) :
    K Unit (worker.settle rt job outcome) := by
  cases outcome with
  | none =>
    rw [Worker.settle, RedisJobQueue.acknowledge]
    exact composed_redisCommand hK _
  | some exc =>
    rw [Worker.settle, Worker.settleFailed]
    split
    · exact hK.bind (composed_now hK) fun _ => composed_redisCommand hK _
    · refine hK.bind (composed_orRaise hK _ _) fun pause => hK.bind (hK.act _) fun _ => hK.bind ?_ fun _ => hK.pure ()
      exact hK.bind (composed_redisCommand hK _) fun _ => hK.pure job.nextAttempt

theorem composed_recoverInFlight (hK : Prog.Composes K) (fuel : Nat) :
    K (Option Nat) (RedisJobQueue.recoverInFlight fuel) := by
  induction fuel with
  | zero => exact hK.pure none
  | succ fuel ih =>
    refine hK.bind (composed_redisCommand hK _) fun raw => ?_
    cases raw with
    | none => exact hK.pure (some 0)
    | some raw => exact hK.bind ih fun _ => hK.pure _

section Loop

variable (hhandlers : ∀ type handler, worker.handlers type = some handler →
  ∀ payload, K Unit (handler payload))

include hhandlers

theorem composed_handleJob (hK : Prog.Composes K) (job : Job) : K Unit (worker.handleJob job) := by
  rw [Worker.handleJob]
  cases hhandler : worker.handlers job.type with
  | none => exact hK.throw _
  | some handler => exact hK.bind (hhandlers _ _ hhandler _) fun _ => hK.act _

theorem composed_runOnce (hK : Prog.Composes K) : K Bool (worker.runOnce rt) := by
  refine hK.bind (composed_dequeue hK) fun job => ?_
  cases job with
  | none => exact hK.pure false
  | some job =>
    have htried : K (Option Exn) (tryCatch (do worker.handleJob job; pure none) fun exc => pure (some exc)) :=
      hK.handle (hK.bind (composed_handleJob hhandlers hK job) fun _ => hK.pure none) fun exc => hK.pure (some exc)
    exact hK.bind htried fun outcome => hK.bind (composed_settle hK job outcome) fun _ => hK.pure true

theorem composed_poll (hK : Prog.Composes K) (polls : Nat) : K Unit (worker.poll rt polls) := by
  induction polls with
  | zero => exact hK.pure ()
  | succ polls ih =>
    have hturn : K Unit (tryCatch (do let _ ← worker.runOnce rt; pure ()) fun _ => sleep 1) :=
      hK.handle (hK.bind (composed_runOnce hhandlers hK) fun _ => hK.pure ()) fun _ => hK.act _
    exact hK.bind hturn fun _ => ih

theorem composed_runForever (hK : Prog.Composes K) (fuel polls : Nat) : K Unit (worker.runForever rt fuel polls) := by
  refine hK.bind (composed_recoverInFlight hK fuel) fun recovered => ?_
  cases recovered with
  | none => exact hK.pure ()
  | some count => exact composed_poll hhandlers hK polls

end Loop

end TenantForge
