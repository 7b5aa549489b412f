import TenantForge.Workers.Jobs
/-!
# The worker (`app/workers/worker.py`)

`runForever` is cut after a number of polls, so that every finite run of the endless loop is a run of
some cut. The history of finished handlers is written where the source reports a job's success.
-/

namespace TenantForge

open Gregorian ReadCommitted

variable (rt : Runtime)

structure Worker where
  handlers : String → Option JobHandler
  maxAttempts : Int
  retryDelays : List Int

def defaultWorker : Worker := ⟨buildHandlers rt, maxAttempts, retryDelays⟩

/-- `Worker(queue, handlers, max_attempts=max_attempts, retry_delays=retry_delays)` -/
def Worker.init (handlers : String → Option JobHandler) (maxAttempts : Int) (retryDelays : List Int) :
    Except Exn Worker :=
  if maxAttempts < 1 ∨ retryDelays = [] then
    .error (.valueError "worker retry settings must be positive")
  else .ok ⟨handlers, maxAttempts, retryDelays⟩

def sleep (seconds : Int) : App Unit :=
  Prog.act fun e => ((), { e with sleeps := seconds :: e.sleeps })

def noteFinished (job : Job) : App Unit :=
  Prog.act fun e => ((), { e with finished := job.id :: e.finished })

namespace Worker

variable (worker : Worker)

/-- The body of the `try` statement. -/
def handleJob (job : Job) : App Unit :=
  match worker.handlers job.type with
  | none => throw (.valueError ("unknown job type: " ++ job.type))
  | some handler => do
    handler job.payload
    noteFinished job

/-- `self.retry_delays[min(job.attempt, len(self.retry_delays) - 1)]`; a negative index counts from
the end. -/
def delay (job : Job) : Option Int :=
  let length : Int := worker.retryDelays.length
  let index := min job.attempt (length - 1)
  if 0 ≤ index then worker.retryDelays[index.toNat]?
  else if -length ≤ index then worker.retryDelays[(length + index).toNat]?
  else none

def settleFailed (job : Job) (exc : Exn) : App Unit := do
  if worker.maxAttempts ≤ job.attempt then RedisJobQueue.moveToDeadLetter rt job exc
  else do
    let pause ← orRaise (worker.delay job) .indexError
    sleep pause
    let _ ← RedisJobQueue.retry rt job

/-- What `run_once` does with the outcome of a handler. -/
def settle (job : Job) : Option Exn → App Unit
  | some exc => worker.settleFailed rt job exc
  | none => RedisJobQueue.acknowledge rt job

def runOnce : App Bool := do
  let job ← RedisJobQueue.dequeue rt
  match job with
  | none => pure false
  | some job => do
    let outcome : Option Exn ← tryCatch (do worker.handleJob job; pure none) fun exc => pure (some exc)
    worker.settle rt job outcome
    pure true

/-- The endless loop, cut after `polls` turns. -/
def poll : Nat → App Unit
  | 0 => pure ()
  | polls + 1 => do
    tryCatch (do let _ ← worker.runOnce rt; pure ()) fun _ => sleep 1
    poll polls

def runForever (fuel polls : Nat) : App Unit := do
  let recovered ← RedisJobQueue.recoverInFlight fuel
  match recovered with
  | none => pure ()
  | some _ => worker.poll rt polls

end Worker

end TenantForge
