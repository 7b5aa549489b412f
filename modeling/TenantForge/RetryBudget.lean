import TenantForge.JobConservation
import TenantForge.RetryQueue
/-!
# The retry budget

The worker runs until the main queue is empty. Its turns are the steps of a `RetryQueue`: the failures of
an entry are the job's attempt (`exists_turn_of_step`, `exists_turns_of_run`). So the jobs have the
executions that `RetryQueue.Accounted` says, whatever their handlers do (`retryBudget`).
-/

namespace TenantForge

open Gregorian ReadCommitted RetryQueue

variable {T : Type} {tag : T} {rt : Runtime} {worker : Worker}

/-! ### Turns -/

/-- One execution of a handler, and the pauses that followed it. -/
structure Execution where
  job : Job
  outcome : Option Exn
  pauses : List Int

/-- What a turn of the worker starts from and ends with. -/
abbrev Station (T : Type) := Session schema × Shared schema Env T

namespace Worker

/-- A turn that executes a job. -/
inductive Turn (rt : Runtime) (worker : Worker) (tag : T) : Station T → Execution → Station T → Prop
  | intro {σ σ₁ σ₂ σ₃ : Session schema} {s moved handled s' : Shared schema Env T} {job : Job}
    {outcome : Except Exn Unit} {pauses : List Int}
    (hdequeue : (RedisJobQueue.dequeue rt).run tag σ s = (.ok (some job), σ₁, moved))
    (hhandler : (worker.handleJob job).run tag σ₁ moved = (outcome, σ₂, handled))
    (hrun : (worker.runOnce rt).run tag σ s = (.ok true, σ₃, s'))
    (hpauses : s'.env.sleeps = pauses ++ handled.env.sleeps) :
    Turn rt worker tag (σ, s) ⟨job, failure outcome, pauses⟩ (σ₃, s')

/-- Turns one after another; the log holds the oldest execution first. -/
inductive Turns (rt : Runtime) (worker : Worker) (tag : T) (c : Station T) :
    List Execution → Station T → Prop
  | nil : Turns rt worker tag c [] c
  | snoc {log : List Execution} {x : Execution} {c' c'' : Station T}
    (hturns : Turns rt worker tag c log c') (hturn : Turn rt worker tag c' x c'') :
    Turns rt worker tag c (log ++ [x]) c''

/-- The executions of the job with this id. -/
def executionsOf (id : String) (log : List Execution) : List Execution :=
  log.filter fun x => x.job.id = id

/-- The handler of each job first succeeds at the execution that is assigned to the job, or never. -/
def Follows (rt : Runtime) (worker : Worker) (tag : T) (c : Station T) (first : String → Option Nat) :
    Prop :=
  ∀ log c' x c'', worker.Turns rt tag c log c' → worker.Turn rt tag c' x c'' →
    let number := (executionsOf x.job.id log).length + 1
    (first x.job.id = some number → x.outcome = none) ∧
      ((∀ n ∈ first x.job.id, number < n) → x.outcome ≠ none)

/-- `run_once` until it finds the queue empty, cut after `fuel` turns. -/
def drain (rt : Runtime) (worker : Worker) : Nat → App Bool
  | 0 => pure false
  | fuel + 1 => do
    let executed ← worker.runOnce rt
    if executed then drain rt worker fuel else pure true

theorem Turn.run_drain {c c' : Station T} {x : Execution} (hturn : worker.Turn rt tag c x c')
    (fuel : Nat) :
    (worker.drain rt (fuel + 1)).run tag c.1 c.2 = (worker.drain rt fuel).run tag c'.1 c'.2 := by
  cases hturn with
  | intro hdequeue hhandler hrun hpauses =>
    rw [drain, Prog.bind_eq]
    exact Prog.run_bind_ok hrun _

theorem Turns.run_drain {c c' : Station T} {log : List Execution} (hturns : worker.Turns rt tag c log c')
    (fuel : Nat) :
    (worker.drain rt (log.length + fuel)).run tag c.1 c.2 = (worker.drain rt fuel).run tag c'.1 c'.2 := by
  induction hturns generalizing fuel with
  | nil => rw [List.length_nil, Nat.zero_add]
  | snoc _ hturn ih =>
    rw [List.length_append, List.length_singleton, Nat.add_assoc, Nat.add_comm 1, ih]
    exact hturn.run_drain fuel

end Worker

/-! ### What a turn does to the queue -/

section Turn

variable {σ : Session schema} {s : Shared schema Env T} {job : Job}

/-- The lists of the queue and the faults of Redis are as they were. -/
structure Env.SameQueue (e e' : Env) : Prop where
  jobs : e'.jobs = e.jobs
  processing : e'.processing = e.processing
  deadLetters : e'.deadLetters = e.deadLetters
  acknowledged : e'.acknowledged = e.acknowledged
  redisFaults : e'.redisFaults = e.redisFaults

theorem Worker.SparesQueue.run_handleJob (hqueue : worker.SparesQueue) (hentries : worker.SparesEntries)
    (tag : T) (σ : Session schema) (s : Shared schema Env T) (job : Job) :
    s.env.SameQueue ((worker.handleJob job).run tag σ s).2.2.env := by
  rw [Worker.handleJob]
  cases hhandler : worker.handlers job.type with
  | none => exact ⟨rfl, rfl, rfl, rfl, rfl⟩
  | some handler =>
    have hledger := (hqueue _ _ hhandler job.payload).run (fun _ => rfl) (fun _ _ _ h h' => h'.trans h) tag σ s
    have hfaults := ((hentries _ _ hhandler job.payload).run (fun _ => ⟨rfl, rfl⟩)
      (fun _ _ _ h h' => ⟨h'.1.trans h.1, h'.2.trans h.2⟩) tag σ s).redisFaults
    simp only [Prog.bind_eq, Prog.run_bind]
    revert hledger hfaults
    rcases (handler job.payload).run tag σ s with ⟨outcome, σ', s'⟩
    intro hledger hfaults
    have hsame : s.env.SameQueue s'.env := ⟨congrArg Ledger.jobs hledger, congrArg Ledger.processing hledger,
      congrArg Ledger.deadLetters hledger, congrArg Ledger.acknowledged hledger, hfaults⟩
    cases outcome with
    | ok value => exact ⟨hsame.jobs, hsame.processing, hsame.deadLetters, hsame.acknowledged, hsame.redisFaults⟩
    | error exc => exact hsame

/-- What became of an executed job, and the pauses before it was pushed again. The rest of the main queue
is in front of it. -/
inductive Ended (rt : Runtime) (worker : Worker) (job : Job) (rest : List String) (before after : Env) :
    Option Exn → List Int → Prop
  | acknowledged (hjobs : after.jobs = rest) (hdead : after.deadLetters = before.deadLetters)
    (hacknowledged : after.acknowledged = job.id :: before.acknowledged) :
    Ended rt worker job rest before after none []
  | retried (exc : Exn) (pause : Int) (hattempt : job.attempt < worker.maxAttempts)
    (hpause : worker.delay job = some pause) (hjobs : after.jobs = job.nextAttempt.toJson rt :: rest)
    (hdead : after.deadLetters = before.deadLetters)
    (hacknowledged : after.acknowledged = before.acknowledged) :
    Ended rt worker job rest before after (some exc) [pause]
  | buried (exc : Exn) (failedAt : DateTime) (hattempt : worker.maxAttempts ≤ job.attempt)
    (hjobs : after.jobs = rest)
    (hdead : after.deadLetters = RedisJobQueue.deadLetter rt job failedAt exc :: before.deadLetters)
    (hacknowledged : after.acknowledged = before.acknowledged) :
    Ended rt worker job rest before after (some exc) []

theorem Worker.delay_eq (hdelays : worker.retryDelays ≠ []) {attempt : Nat} (hattempt : job.attempt = attempt) :
    ∃ pause, worker.retryDelays[min attempt (worker.retryDelays.length - 1)]? = some pause ∧
      worker.delay job = some pause := by
  have hlength : 0 < worker.retryDelays.length := List.length_pos_iff.mpr hdelays
  have hindex : min attempt (worker.retryDelays.length - 1) < worker.retryDelays.length := by omega
  have hmin : min (attempt : Int) ((worker.retryDelays.length : Int) - 1) =
      (min attempt (worker.retryDelays.length - 1) : Nat) := by omega
  refine ⟨_, List.getElem?_eq_getElem hindex, ?_⟩
  rw [Worker.delay, hattempt]
  simp only [hmin, Int.natCast_nonneg, if_true, Int.toNat_natCast, List.getElem?_eq_getElem hindex]

/-- **A turn** executes the oldest job and settles it, however its handler ends. -/
theorem exists_turn (hdelays : worker.retryDelays ≠ []) (hqueue : worker.SparesQueue)
    (hentries : worker.SparesEntries) (tag : T) (σ : Session schema)
    (hfaults : ∀ n, s.env.redisFaults n = false) {rest : List String}
    (hjobs : s.env.jobs = rest ++ [job.toJson rt]) (hprocessing : s.env.processing = []) {attempt : Nat}
    (hattempt : job.attempt = attempt) :
    ∃ outcome pauses c', worker.Turn rt tag (σ, s) ⟨job, outcome, pauses⟩ c' ∧
      Ended rt worker job rest s.env c'.2.env outcome pauses ∧ c'.2.env.processing = [] ∧
      c'.2.env.redisFaults = s.env.redisFaults := by
  obtain ⟨moved, hmoved, hdequeue⟩ :=
    run_dequeue_ok tag σ hjobs (hfaults _) (Job.fromJson_toJson rt job)
  have hsame := hqueue.run_handleJob hentries tag σ moved job
  have hrun : (worker.runOnce rt).run tag σ s = _ := run_runOnce hdequeue
  rcases hhandled : (worker.handleJob job).run tag σ moved with ⟨outcome, σ', handled⟩
  rw [hhandled] at hsame hrun
  subst hmoved
  have hfaults' : ∀ n, handled.env.redisFaults n = false := by
    rw [hsame.redisFaults]
    exact hfaults
  have herased : handled.env.processing.erase (job.toJson rt) = [] := by
    rw [hsame.processing, hprocessing]
    exact List.erase_cons_head _ _
  cases outcome with
  | ok value =>
    have hack : (RedisJobQueue.acknowledge rt job).run tag σ' handled = _ :=
      run_redisCommand _ (hfaults' _)
    refine ⟨none, [], _, .intro hdequeue hhandled (hrun.trans (Prog.run_bind_ok hack _)) rfl,
      .acknowledged hsame.jobs hsame.deadLetters ?_, herased, hsame.redisFaults⟩
    exact congrArg (job.id :: ·) hsame.acknowledged
  | error exc =>
    by_cases hlast : worker.maxAttempts ≤ job.attempt
    · have hbury := run_settleFailed_last rt tag σ' (hfaults' _) exc hlast
      refine ⟨some exc, [], _, .intro hdequeue hhandled (hrun.trans (Prog.run_bind_ok hbury _)) rfl,
        .buried exc (handled.env.clock handled.env.ticks) hlast hsame.jobs ?_ hsame.acknowledged, herased,
        hsame.redisFaults⟩
      exact congrArg (_ :: ·) hsame.deadLetters
    · obtain ⟨pause, -, hpause⟩ := Worker.delay_eq hdelays hattempt
      have hretry := run_settleFailed_retry rt tag σ' hfaults' exc hlast hpause
      refine ⟨some exc, [pause], _, .intro hdequeue hhandled (hrun.trans (Prog.run_bind_ok hretry _)) rfl,
        .retried exc pause (not_le.mp hlast) hpause ?_ hsame.deadLetters hsame.acknowledged, herased,
        hsame.redisFaults⟩
      exact congrArg (_ :: ·) hsame.jobs

/-- A turn on an empty queue executes nothing. -/
theorem run_runOnce_empty (worker : Worker) (tag : T) (σ : Session schema)
    (hfault : s.env.redisFaults s.env.commands = false) (hjobs : s.env.jobs = []) :
    (worker.runOnce rt).run tag σ s = (.ok false, σ, { s with env := s.env.sent }) := by
  have hcommand : (redisCommand _).run tag σ s = _ := run_redisCommand
    (fun e => let moved := rpoplpush e.jobs e.processing
      (moved.1, { e with jobs := moved.2.1, processing := moved.2.2 })) hfault
  simp only [rpoplpush, Env.sent, hjobs, List.getLast?_nil] at hcommand
  rw [Worker.runOnce, RedisJobQueue.dequeue, Prog.bind_eq, Prog.bind_eq]
  refine Prog.run_bind_ok (Prog.run_bind_ok hcommand _) _ |>.trans ?_
  rw [Env.sent, hjobs]
  rfl

/-- Each entry of the main queue is an attempt of one of these jobs, and none is being processed. -/
structure AttemptsOf (rt : Runtime) (jobs : List Job) (e : Env) : Prop where
  jobs : ∀ raw ∈ e.jobs, ∃ job ∈ jobs, ∃ failures : Nat, raw = Job.toJson rt { job with attempt := failures }
  processing : e.processing = []
  healthy : ∀ n, e.redisFaults n = false

/-- Where a turn starts determines it. -/
theorem Worker.Turn.unique {c c₁ c₂ : Station T} {x y : Execution} (h₁ : worker.Turn rt tag c x c₁)
    (h₂ : worker.Turn rt tag c y c₂) : x = y ∧ c₁ = c₂ := by
  cases h₁ with
  | intro hdequeue hhandler hrun hpauses =>
    cases h₂ with
    | intro hdequeue' hhandler' hrun' hpauses' =>
      cases hdequeue.symm.trans hdequeue'
      cases hhandler.symm.trans hhandler'
      cases hrun.symm.trans hrun'
      rw [List.append_cancel_right (hpauses.symm.trans hpauses')]
      exact ⟨rfl, rfl⟩

/-- A turn executes an attempt of one of the jobs, and leaves attempts of them in the queue. -/
theorem Worker.Turn.attemptsOf {jobs : List Job} {c c' : Station T} {x : Execution}
    (hdelays : worker.retryDelays ≠ []) (hqueue : worker.SparesQueue) (hentries : worker.SparesEntries)
    (hturn : worker.Turn rt tag c x c') (hattempts : AttemptsOf rt jobs c.2.env) :
    (∃ rest, c.2.env.jobs = rest ++ [x.job.toJson rt]) ∧
      (∃ job ∈ jobs, ∃ failures : Nat, x.job = { job with attempt := failures }) ∧
      AttemptsOf rt jobs c'.2.env := by
  rcases List.eq_nil_or_concat' c.2.env.jobs with hempty | ⟨rest, raw, hjobs⟩
  · have hlast : (worker.runOnce rt).run tag c.1 c.2 = _ :=
      run_runOnce_empty worker tag c.1 (hattempts.healthy _) hempty
    cases hturn with
    | intro hdequeue hhandler hrun hpauses => cases hrun.symm.trans hlast
  · obtain ⟨job, hjob, failures, rfl⟩ := hattempts.jobs raw (by simp [hjobs])
    obtain ⟨outcome, pauses, c'', hturn', hended, hprocessing, hfaults⟩ :=
      exists_turn hdelays hqueue hentries tag c.1 hattempts.healthy hjobs hattempts.processing rfl
    obtain ⟨rfl, rfl⟩ := hturn.unique hturn'
    have hrest : ∀ raw ∈ rest, ∃ job ∈ jobs, ∃ failures : Nat,
        raw = Job.toJson rt { job with attempt := failures } := fun raw hraw =>
      hattempts.jobs raw (by rw [hjobs]; exact List.mem_append_left _ hraw)
    refine ⟨⟨rest, hjobs⟩, ⟨job, hjob, failures, rfl⟩, ?_, hprocessing,
      fun n => by rw [hfaults, hattempts.healthy]⟩
    cases hended with
    | acknowledged hafter => rwa [hafter]
    | buried _ _ _ hafter => rwa [hafter]
    | retried _ _ _ _ hafter =>
      rw [hafter]
      exact List.forall_mem_cons.mpr ⟨⟨job, hjob, failures + 1, rfl⟩, hrest⟩

theorem within_settle {W : Table → Prop} {D : Env → Env → Prop} {C : Prop}
    (hD : ∀ e e' : Env, e.Onward e' → D e e') (outcome : Option Exn) :
    (worker.settle rt job outcome).Within W D C := by
  cases outcome with
  | none =>
    rw [Worker.settle, RedisJobQueue.acknowledge]
    exact within_redisCommand hD fun _ => ⟨rfl, le_rfl, rfl, le_rfl⟩
  | some exc =>
    rw [Worker.settle, Worker.settleFailed]
    split
    · refine (within_now fun e e' h => hD e e' h.onward).bind fun _ => within_redisCommand hD fun _ => ?_
      exact ⟨rfl, le_rfl, rfl, le_rfl⟩
    · refine within_orRaise.bind fun _ => Prog.Within.bind (Prog.within_act.mpr fun e => ?_) fun _ =>
        Prog.Within.bind (Prog.Within.bind (within_redisCommand hD fun _ => ?_) fun _ => trivial) fun _ => trivial
      · exact hD _ _ ⟨rfl, le_rfl, rfl, le_rfl⟩
      · exact ⟨rfl, le_rfl, rfl, le_rfl⟩

theorem settle_onward (rt : Runtime) (worker : Worker) (tag : T) (job : Job) (outcome : Option Exn)
    (σ : Session schema) (s : Shared schema Env T) :
    s.env.Onward (((worker.settle rt job outcome).bind fun _ => pure true).run tag σ s).2.2.env := by
  have hwithin : ((worker.settle rt job outcome).bind fun _ => (pure true : App Bool)).Within
      (fun _ => True) Env.Onward True :=
    (within_settle (fun _ _ h => h) outcome).bind fun _ => trivial
  exact hwithin.run Env.Onward.refl (fun _ _ _ => Env.Onward.trans) tag σ s

/-- The handler runs on the state that the entry was moved in; settling the job only moves time forward. -/
theorem Worker.Turn.handled {c c' : Station T} {x : Execution} {rest : List String}
    (hturn : worker.Turn rt tag c x c') (hfault : c.2.env.redisFaults c.2.env.commands = false)
    (hjobs : c.2.env.jobs = rest ++ [x.job.toJson rt]) :
    ∃ moved, Moved c.2 moved rest (x.job.toJson rt) ∧
      x.outcome = failure ((worker.handleJob x.job).run tag c.1 moved).1 ∧
      ((worker.handleJob x.job).run tag c.1 moved).2.2.env.Onward c'.2.env := by
  obtain ⟨moved, hmoved, hdequeue⟩ := run_dequeue_ok tag c.1 hjobs hfault (Job.fromJson_toJson rt _)
  cases hturn with
  | @intro σ _ _ _ _ _ _ _ job _ _ hdequeue' hhandler hrun hpauses =>
    cases hdequeue'.symm.trans hdequeue
    rw [run_runOnce hdequeue] at hrun
    refine ⟨_, hmoved, by rw [hhandler], ?_⟩
    have honward := settle_onward rt worker tag job
      (failure ((worker.handleJob job).run tag σ moved).1) ((worker.handleJob job).run tag σ moved).2.1
      ((worker.handleJob job).run tag σ moved).2.2
    rwa [hrun] at honward

end Turn

/-! ### The queue of the worker is a queue that retries -/

/-- The job of an entry: its attempt is the number of its failures. -/
def attemptOf (e : Entry Job) : Job := { e.task with attempt := e.failures }

structure Letter where
  job : Job
  failedAt : DateTime
  error : Exn

def Letter.envelope (rt : Runtime) (letter : Letter) : String :=
  RedisJobQueue.deadLetter rt letter.job letter.failedAt letter.error

/-- The lists of the environment hold the entries of the queue. -/
structure Represents (rt : Runtime) (initial : Env) (q : Queue Job) (e : Env) : Prop where
  jobs : e.jobs = q.waiting.map fun entry => (attemptOf entry).toJson rt
  processing : e.processing = []
  acknowledged : e.acknowledged = (q.finished.map Entry.task).map Job.id ++ initial.acknowledged
  deadLetters : ∃ letters : List Letter,
    e.deadLetters = letters.map (Letter.envelope rt) ++ initial.deadLetters ∧
      letters.map Letter.job = q.abandoned.map attemptOf
  redisFaults : e.redisFaults = initial.redisFaults

/-- The execution of a job that has failed so often before: it succeeds if this is the first execution that
does, and a failure that is not the last is followed by its delay. -/
structure Due (m : Nat) (d : List Int) (first : Option Nat) (job : Job) (failures : Nat) (x : Execution) :
    Prop where
  job : x.job = { job with attempt := failures }
  outcome : x.outcome = none ↔ first = some (failures + 1)
  paused : x.outcome ≠ none → failures < m →
    ∃ pause, d[min failures (d.length - 1)]? = some pause ∧ x.pauses = [pause]
  unpaused : x.outcome = none ∨ m ≤ failures → x.pauses = []

section Simulation

variable {m : Nat} {first : String → Option Nat} {q q' : Queue Job} {e : Entry Job} {initial : Env}

theorem step_waiting (hstep : Step m (fun job : Job => first job.id) q e q') :
    ∃ rest, q.waiting = rest ++ [e] := by
  cases hstep with
  | finish rest => exact ⟨rest, rfl⟩
  | retry rest => exact ⟨rest, rfl⟩
  | abandon rest => exact ⟨rest, rfl⟩

theorem Ended.due {rest : List String} {before after : Env} {outcome : Option Exn} {pauses : List Int}
    (hended : Ended rt worker (attemptOf e) rest before after outcome pauses)
    (hmax : worker.maxAttempts = m) (hdelays : worker.retryDelays ≠ [])
    (houtcome : outcome = none ↔ first e.task.id = some (e.failures + 1)) :
    Due m worker.retryDelays (first e.task.id) e.task e.failures ⟨attemptOf e, outcome, pauses⟩ where
  job := rfl
  outcome := houtcome
  paused hfailed hroom := by
    cases hended with
    | acknowledged => exact absurd rfl hfailed
    | retried exc pause _ hpause =>
      have hfailures : (attemptOf e).attempt = (e.failures : Int) := rfl
      obtain ⟨pause', hindex, hdelay⟩ := Worker.delay_eq hdelays hfailures
      rw [Option.some.inj (hpause.symm.trans hdelay)]
      exact ⟨pause', hindex, rfl⟩
    | buried exc failedAt hattempt =>
      simp only [attemptOf] at hattempt
      omega
  unpaused hlast := by
    cases hended with
    | acknowledged => rfl
    | buried => rfl
    | retried exc pause hattempt =>
      simp only [attemptOf, reduceCtorEq, false_or] at hattempt hlast
      omega

theorem Ended.represents {entries : List (Entry Job)} {before after : Env} {outcome : Option Exn}
    {pauses : List Int}
    (hended : Ended rt worker (attemptOf e) (entries.map fun entry => (attemptOf entry).toJson rt) before after
      outcome pauses)
    (hmax : worker.maxAttempts = m) (hwaiting : q.waiting = entries ++ [e])
    (houtcome : outcome = none ↔ first e.task.id = some (e.failures + 1))
    (hrep : Represents rt initial q before) (hprocessing : after.processing = [])
    (hfaults : after.redisFaults = before.redisFaults)
    (hstep : Step m (fun job : Job => first job.id) q e q') : Represents rt initial q' after := by
  obtain ⟨letters, hletters, hburied⟩ := hrep.deadLetters
  cases hstep with
  | finish rest finished abandoned e hsucceeds =>
    obtain rfl : rest = entries := List.append_cancel_right hwaiting
    cases hended with
    | acknowledged hjobs hdead hacknowledged =>
      refine ⟨hjobs, hprocessing, ?_, ⟨letters, hdead.trans hletters, hburied⟩,
        hfaults.trans hrep.redisFaults⟩
      rw [hacknowledged, hrep.acknowledged]
      rfl
    | retried | buried => exact nomatch houtcome.mpr hsucceeds
  | retry rest finished abandoned e hfails hroom =>
    obtain rfl : rest = entries := List.append_cancel_right hwaiting
    cases hended with
    | acknowledged => exact absurd (houtcome.mp rfl) hfails
    | retried exc pause hattempt hpause hjobs hdead hacknowledged =>
      exact ⟨hjobs, hprocessing, hacknowledged.trans hrep.acknowledged,
        ⟨letters, hdead.trans hletters, hburied⟩, hfaults.trans hrep.redisFaults⟩
    | buried exc failedAt hattempt =>
      simp only [attemptOf] at hattempt
      omega
  | abandon rest finished abandoned e hfails hspent =>
    obtain rfl : rest = entries := List.append_cancel_right hwaiting
    cases hended with
    | acknowledged => exact absurd (houtcome.mp rfl) hfails
    | retried exc pause hattempt =>
      simp only [attemptOf] at hattempt
      omega
    | buried exc failedAt hattempt hjobs hdead hacknowledged =>
      refine ⟨hjobs, hprocessing, hacknowledged.trans hrep.acknowledged,
        ⟨⟨attemptOf e, failedAt, exc⟩ :: letters, ?_, ?_⟩, hfaults.trans hrep.redisFaults⟩
      · rw [hdead, hletters]
        rfl
      · rw [List.map_cons, hburied]
        rfl

/-- The executions of one job are those that are due to it. -/
theorem executionsOf_due {d : List Int} {entries : List (Entry Job)} {log : List Execution}
    (hdue : List.Forall₂ (fun e x => Due m d (first e.task.id) e.task e.failures x) entries log)
    (task : Job) :
    List.Forall₂ (fun e x => Due m d (first e.task.id) e.task e.failures x)
      (history Job.id entries task) (Worker.executionsOf task.id log) :=
  List.rel_filter (fun e x hx => by simp only [hx.job]) hdue

/-- The outcome that is due. -/
theorem outcome_iff {first : Option Nat} {failures : Nat} {outcome : Option Exn}
    (hlt : failures < executions m first) (hsucceeds : first = some (failures + 1) → outcome = none)
    (hfails : (∀ n ∈ first, failures + 1 < n) → outcome ≠ none) :
    outcome = none ↔ first = some (failures + 1) := by
  refine ⟨fun houtcome => ?_, hsucceeds⟩
  by_contra hne
  refine hfails (fun n hn => ?_) houtcome
  obtain rfl := Option.mem_def.mp hn
  have hn : n ≠ failures + 1 := fun h => hne (congrArg some h)
  simp only [executions] at hlt
  omega

variable (hmax : worker.maxAttempts = m) (hdelays : worker.retryDelays ≠ [])
  (hqueue : worker.SparesQueue) (hentries : worker.SparesEntries)
  (hfaults : ∀ n, initial.redisFaults n = false)

include hmax hdelays hqueue hentries hfaults

/-- **A step of the queue is a turn of the worker.** -/
theorem exists_turn_of_step {start c : Station T} {log : List Execution}
    (hfollows : worker.Follows rt tag start first) (hturns : worker.Turns rt tag start log c)
    (hnumber : (Worker.executionsOf e.task.id log).length = e.failures)
    (hlt : e.failures < executions m (first e.task.id)) (hrep : Represents rt initial q c.2.env)
    (hstep : Step m (fun job : Job => first job.id) q e q') :
    ∃ x c', worker.Turn rt tag c x c' ∧ Represents rt initial q' c'.2.env ∧
      Due m worker.retryDelays (first e.task.id) e.task e.failures x := by
  obtain ⟨entries, hwaiting⟩ := step_waiting hstep
  have hjobs : c.2.env.jobs =
      entries.map (fun entry => (attemptOf entry).toJson rt) ++ [(attemptOf e).toJson rt] := by
    rw [hrep.jobs, hwaiting, List.map_append, List.map_singleton]
  have hhealthy : ∀ n, c.2.env.redisFaults n = false := by
    rw [hrep.redisFaults]
    exact hfaults
  obtain ⟨outcome, pauses, c', hturn, hended, hprocessing, hfaults'⟩ :=
    exists_turn hdelays hqueue hentries tag c.1 hhealthy hjobs hrep.processing rfl
  have hdue := hfollows log c _ c' hturns hturn
  simp only [attemptOf, hnumber] at hdue
  have houtcome := outcome_iff hlt hdue.1 hdue.2
  exact ⟨_, c', hturn, hended.represents hmax hwaiting houtcome hrep hprocessing hfaults' hstep,
    hended.due hmax hdelays houtcome⟩

/-- **A run of the queue is a run of the worker.** -/
theorem exists_turns_of_run {start : Station T} {jobs : List Job}
    (hids : (jobs.map Job.id).Nodup) (hfirst : ∀ job ∈ jobs, first job.id ≠ some 0)
    (hfollows : worker.Follows rt tag start first)
    (hrep : Represents rt initial (RetryQueue.start jobs) start.2.env) {entries : List (Entry Job)}
    (hrun : Run m (fun job : Job => first job.id) (RetryQueue.start jobs) entries q) :
    ∃ log c, worker.Turns rt tag start log c ∧ Represents rt initial q c.2.env ∧
      List.Forall₂ (fun e x => Due m worker.retryDelays (first e.task.id) e.task e.failures x)
        entries log := by
  induction hrun with
  | nil => exact ⟨[], start, .nil, hrep, .nil⟩
  | snoc hrun hstep ih =>
    rename_i entries e q' q''
    obtain ⟨log, c, hturns, hrep', hdue⟩ := ih
    obtain ⟨rest, hwaiting⟩ := step_waiting hstep
    have haccounted : Accounted m _ Job.id jobs _ _ := hrun.accounted hids hfirst
    obtain ⟨hlt, hhistory⟩ := haccounted.waiting e (by simp [hwaiting])
    have hnumber : (Worker.executionsOf e.task.id log).length = e.failures := by
      have hlength := (executionsOf_due hdue e.task).length_eq
      rw [← hlength, hhistory, attempts, List.length_map, List.length_range]
    obtain ⟨x, c', hturn, hrep'', hx⟩ := exists_turn_of_step hmax hdelays hqueue hentries hfaults hfollows
      hturns hnumber hlt hrep' hstep
    exact ⟨log ++ [x], c', hturns.snoc hturn, hrep'', List.rel_append hdue (.cons hx .nil)⟩

end Simulation

theorem Worker.init_ok {handlers : String → Option JobHandler} {m : Int} {d : List Int}
    (hinit : Worker.init handlers m d = .ok worker) :
    worker.maxAttempts = m ∧ worker.retryDelays = d ∧ d ≠ [] := by
  unfold Worker.init at hinit
  split at hinit
  · cases hinit
  · rename_i hpositive
    rw [← Except.ok.inj hinit]
    exact ⟨rfl, rfl, (not_or.mp hpositive).2⟩

theorem Represents.start {s : Shared schema Env T} {jobs : List Job}
    (hjobs : s.env.jobs = jobs.map (Job.toJson rt)) (hprocessing : s.env.processing = [])
    (hattempt : ∀ job ∈ jobs, job.attempt = 0) :
    Represents rt s.env (RetryQueue.start jobs) s.env where
  jobs := by
    rw [hjobs, RetryQueue.start, List.map_map]
    refine List.map_congr_left fun job hjob => ?_
    have hzero := hattempt job hjob
    cases job
    cases hzero
    rfl
  processing := hprocessing
  acknowledged := rfl
  deadLetters := ⟨[], rfl, rfl⟩
  redisFaults := rfl

/-- **The retry budget.** From a queue of new jobs the worker runs until the queue is empty. A job is
executed until it succeeds, and `m + 1` times at most; each failure but the last is followed by its delay.
The jobs that succeed are acknowledged, and one dead letter is written for each of the others. -/
theorem retryBudget (rt : Runtime) (worker : Worker) (handlers : String → Option JobHandler) (m : Nat)
    (d : List Int) (hinit : Worker.init handlers m d = .ok worker) (hqueue : worker.SparesQueue)
    (hentries : worker.SparesEntries) (tag : T) (σ : Session schema) (s : Shared schema Env T)
    (hfaults : ∀ n, s.env.redisFaults n = false) (jobs : List Job)
    (hjobs : s.env.jobs = jobs.map (Job.toJson rt)) (hprocessing : s.env.processing = [])
    (hattempt : ∀ job ∈ jobs, job.attempt = 0) (hids : (jobs.map Job.id).Nodup)
    (first : String → Option Nat) (hfirst : ∀ id, first id ≠ some 0)
    (hfollows : worker.Follows rt tag (σ, s) first) :
    ∃ log c, worker.Turns rt tag (σ, s) log c ∧
      (worker.runOnce rt).run tag c.1 c.2 = (.ok false, c.1, { c.2 with env := c.2.env.sent }) ∧
      (worker.drain rt (log.length + 1)).run tag σ s = (.ok true, c.1, { c.2 with env := c.2.env.sent }) ∧
      c.2.env.jobs = [] ∧ c.2.env.processing = [] ∧
      (∀ x ∈ log, x.job.id ∈ jobs.map Job.id) ∧
      (∀ job ∈ jobs, List.Forall₂ (Due m d (first job.id) job) (List.range (executions m (first job.id)))
        (Worker.executionsOf job.id log)) ∧
      (∃ acknowledged, c.2.env.acknowledged = acknowledged ++ s.env.acknowledged ∧
        acknowledged.Perm ((jobs.filter fun job => InBudget m (first job.id)).map Job.id)) ∧
      ∃ letters : List Letter, c.2.env.deadLetters = letters.map (Letter.envelope rt) ++ s.env.deadLetters ∧
        (letters.map Letter.job).Perm
          ((jobs.filter fun job => ¬InBudget m (first job.id)).map fun job => { job with attempt := m }) := by
  obtain ⟨hmax, rfl, hdelays⟩ := Worker.init_ok hinit
  have hfirst' : ∀ job ∈ jobs, first job.id ≠ some 0 := fun job _ => hfirst job.id
  obtain ⟨entries, q, hrun, hdrained⟩ := exists_drained m hfirst'
  have haccounted : Accounted m _ Job.id jobs _ _ := hrun.accounted hids hfirst'
  obtain ⟨log, c, hturns, hrep, hdue⟩ := exists_turns_of_run hmax hdelays hqueue hentries hfaults hids hfirst'
    hfollows (.start hjobs hprocessing hattempt) hrun
  have hempty : c.2.env.jobs = [] := by rw [hrep.jobs, hdrained, List.map_nil]
  have hlast : (worker.runOnce rt).run tag c.1 c.2 = _ :=
    run_runOnce_empty worker tag c.1 (by rw [hrep.redisFaults, hfaults]) hempty
  refine ⟨log, c, hturns, hlast, ?_, hempty, hrep.processing, ?_, ?_, ?_, ?_⟩
  · rw [hturns.run_drain 1]
    exact Prog.run_bind_ok hlast _
  · intro x hx
    have hsame : entries.map (fun e => e.task.id) = log.map fun x => x.job.id := by
      rw [← List.forall₂_eq_eq_eq, List.forall₂_map_left_iff, List.forall₂_map_right_iff]
      exact hdue.imp fun e x hx => by rw [hx.job]
    obtain ⟨e, he, hid⟩ := List.mem_map.mp (hsame ▸ List.mem_map_of_mem hx)
    exact hid ▸ List.mem_map_of_mem (haccounted.executed e he)
  · intro job hjob
    have hhistory := executionsOf_due hdue job
    rw [haccounted.history_eq hdrained hjob, attempts, List.forall₂_map_left_iff] at hhistory
    exact hhistory
  · exact ⟨_, hrep.acknowledged, (haccounted.finished_perm hdrained).map Job.id⟩
  · obtain ⟨letters, hletters, hburied⟩ := hrep.deadLetters
    refine ⟨letters, hletters, ?_⟩
    have hspent : q.abandoned.map attemptOf =
        (q.abandoned.map Entry.task).map fun job => { job with attempt := (m : Int) } := by
      rw [List.map_map]
      refine List.map_congr_left fun e he => ?_
      rw [attemptOf, (haccounted.abandoned e he).1]
      rfl
    rw [hburied, hspent]
    exact (haccounted.abandoned_perm hdrained).map _

namespace Reference

/-- The report fails until noon of the first of February is over. -/
def writeReport : JobHandler := fun _ => do
  let current ← now
  raiseIf (current ≤ noon 0) (.valueError "the report is not ready")

def reportWorker : Worker := ⟨fun type => if type = "report" then some writeReport else none, 2, [5]⟩

def twoJobs : List Job :=
  [⟨"1", "send_invitation_email", [], 0, "2026-02-02"⟩, ⟨"2", "report", [], 0, "2026-02-02"⟩]

def twoQueued : Shared schema Env Unit :=
  let empty : Shared schema Env Unit := shared Unit daily {}
  { empty with env := { empty.env with jobs := twoJobs.map (Job.toJson runtime) } }

theorem reportWorker_handler {type : String} {handler : JobHandler}
    (h : reportWorker.handlers type = some handler) : handler = writeReport := by
  simp only [reportWorker] at h
  split at h
  · exact (Option.some.inj h).symm
  · cases h

theorem reportWorker_sparesQueue : reportWorker.SparesQueue := by
  intro type handler h payload
  rw [reportWorker_handler h]
  exact (within_now fun _ _ h => h.ledger).bind fun _ => within_raiseIf

theorem reportWorker_sparesEntries : reportWorker.SparesEntries := by
  intro type handler h payload
  rw [reportWorker_handler h]
  exact (within_now fun _ _ h => h.keepsEntries).bind fun _ => within_raiseIf

/-- The report reads the clock once, and its outcome depends on that reading only. -/
theorem run_report (σ : Session schema) (s : Shared schema Env Unit) {job : Job} (htype : job.type = "report") :
    (failure ((reportWorker.handleJob job).run () σ s).1 = none ↔ noon 0 < s.env.clock s.env.ticks) ∧
      s.env.ticks < ((reportWorker.handleJob job).run () σ s).2.2.env.ticks ∧
      ((reportWorker.handleJob job).run () σ s).2.2.env.clock = s.env.clock := by
  have hhandler : reportWorker.handlers job.type = some writeReport := if_pos htype
  have hnow := run_now () σ s
  rw [Worker.handleJob, hhandler]
  by_cases hlt : noon 0 < s.env.clock s.env.ticks
  · have hready : (writeReport job.payload).run () σ s = _ :=
      (Prog.run_bind_ok hnow _).trans (run_raiseIf_not () σ _ (not_le.mpr hlt) _)
    have hrun := Prog.run_bind_ok hready fun _ => noteFinished job
    simp only [Prog.bind_eq, hrun]
    exact ⟨iff_of_true rfl hlt, Nat.lt_succ_self _, rfl⟩
  · have hready : (writeReport job.payload).run () σ s = _ :=
      (Prog.run_bind_ok hnow _).trans (run_raiseIf () σ _ (not_lt.mp hlt) _)
    have hrun := Prog.run_bind_error hready fun _ => noteFinished job
    simp only [Prog.bind_eq, hrun]
    exact ⟨iff_of_false (Option.some_ne_none _) hlt, Nat.lt_succ_self _, trivial⟩

/-- A job that nobody handles fails. -/
theorem run_unhandled (σ : Session schema) (s : Shared schema Env Unit) {job : Job} (htype : job.type ≠ "report") :
    failure ((reportWorker.handleJob job).run () σ s).1 ≠ none ∧
      ((reportWorker.handleJob job).run () σ s).2.2 = s := by
  have hhandler : reportWorker.handlers job.type = none := if_neg htype
  rw [Worker.handleJob, hhandler]
  exact ⟨Option.some_ne_none _, rfl⟩

theorem twoQueued_attemptsOf : AttemptsOf runtime twoJobs twoQueued.env where
  jobs raw hraw := by
    obtain ⟨job, hjob, rfl⟩ := List.mem_map.mp hraw
    refine ⟨job, hjob, 0, ?_⟩
    obtain rfl | rfl : job = _ ∨ job = _ := by simpa [twoJobs] using hjob
    · rfl
    · rfl
  processing := rfl
  healthy _ := rfl

/-- Nothing was executed yet, or the report was, and the first reading of the clock is over. -/
structure Reported (log : List Execution) (c : Station Unit) : Prop where
  attempts : AttemptsOf runtime twoJobs c.2.env
  clock : c.2.env.clock = daily
  log : (log = [] ∧ c.2.env.jobs = twoQueued.env.jobs ∧ c.2.env.ticks = 0) ∨
    (∃ x ∈ log, x.job.id = "2") ∧ 1 ≤ c.2.env.ticks

theorem noon_lt_daily_iff {n : Nat} : noon 0 < daily n ↔ 1 ≤ n := by
  constructor
  · intro h
    by_contra hzero
    obtain rfl : n = 0 := by omega
    exact absurd h (lt_irrefl _)
  · intro h
    exact noon_lt (by simp [Fin.lt_def]; omega)

/-- The first job of the queue is the report. -/
theorem first_is_report {rest : List String} {job : Job}
    (hjobs : twoQueued.env.jobs = rest ++ [job.toJson runtime]) : job.id = "2" := by
  have hlast : Job.toJson runtime ⟨"2", "report", [], 0, "2026-02-02"⟩ = job.toJson runtime := by
    have hgetLast := congrArg List.getLast? hjobs
    rw [List.getLast?_concat] at hgetLast
    exact Option.some.inj hgetLast
  have hsame := (Job.fromJson_toJson runtime _).symm.trans
    ((congrArg (Job.fromJson runtime) hlast).trans (Job.fromJson_toJson runtime job))
  rw [← Except.ok.inj hsame]

/-- The report fails as the first execution and succeeds afterwards; the other job always fails. -/
theorem Reported.turn {log : List Execution} {c c' : Station Unit} {x : Execution} (h : Reported log c)
    (hturn : reportWorker.Turn runtime () c x c') :
    Reported (log ++ [x]) c' ∧ ((x.job.id = "2" ∧ (x.outcome = none ↔ log ≠ [])) ∨
      (x.job.id = "1" ∧ x.outcome ≠ none)) := by
  obtain ⟨⟨rest, hjobs⟩, ⟨job, hjob, failures, hx⟩, hattempts⟩ := hturn.attemptsOf (List.cons_ne_nil _ _)
    reportWorker_sparesQueue reportWorker_sparesEntries h.attempts
  obtain ⟨moved, hmoved, houtcome, honward⟩ := hturn.handled (h.attempts.healthy _) hjobs
  have hclock : moved.env.clock = daily := by
    rw [hmoved]
    exact h.clock
  have hticks : moved.env.ticks = c.2.env.ticks := by
    rw [hmoved]
    rfl
  obtain rfl | rfl : job = _ ∨ job = _ := by simpa [twoJobs] using hjob
  · have hid : x.job.id = "1" := by rw [hx]
    have htype : x.job.type ≠ "report" := by
      rw [hx]
      exact fun h => absurd h (by decide : "send_invitation_email" ≠ "report")
    obtain ⟨hfailed, hsame⟩ := run_unhandled c.1 moved htype
    rw [hsame] at honward
    refine ⟨⟨hattempts, honward.clock.trans hclock, Or.inr ?_⟩, Or.inr ⟨hid, houtcome ▸ hfailed⟩⟩
    obtain ⟨-, hstart, -⟩ | ⟨⟨y, hy, hyid⟩, hlate⟩ := h.log
    · rw [first_is_report (hstart.symm.trans hjobs)] at hid
      exact absurd hid (by decide)
    · exact ⟨⟨y, List.mem_append_left _ hy, hyid⟩, hlate.trans (hticks ▸ honward.ticks)⟩
  · have hid : x.job.id = "2" := by rw [hx]
    obtain ⟨hreport, hlater, hkept⟩ := run_report c.1 moved (show x.job.type = "report" by rw [hx])
    rw [hclock, noon_lt_daily_iff, hticks] at hreport
    refine ⟨⟨hattempts, (honward.clock.trans hkept).trans hclock, Or.inr ⟨⟨x, by simp, hid⟩, ?_⟩⟩,
      Or.inl ⟨hid, ?_⟩⟩
    · exact (Nat.zero_lt_of_lt hlater).trans_le honward.ticks
    · rw [houtcome, hreport]
      obtain ⟨rfl, -, hzero⟩ | ⟨⟨y, hy, -⟩, hlate⟩ := h.log
      · simp [hzero]
      · exact iff_of_true hlate (List.ne_nil_of_mem hy)

theorem Reported.turns {log : List Execution} {c : Station Unit}
    (hturns : reportWorker.Turns runtime () (.empty, twoQueued) log c) : Reported log c := by
  induction hturns with
  | nil => exact ⟨twoQueued_attemptsOf, rfl, Or.inl ⟨rfl, rfl, rfl⟩⟩
  | snoc _ hturn ih => exact (ih.turn hturn).1

/-- The report first succeeds at its second execution, the other job never. -/
def firstSuccess (id : String) : Option Nat := if id = "2" then some 2 else none

theorem reportWorker_follows :
    reportWorker.Follows runtime () (.empty, twoQueued) firstSuccess := by
  intro log c x c' hturns hturn number
  have hreported := Reported.turns hturns
  obtain ⟨hid, houtcome⟩ | ⟨hid, hfailed⟩ := (hreported.turn hturn).2
  · rw [hid]
    refine ⟨fun hsecond => houtcome.mpr ?_, fun hbefore hnone => houtcome.mp hnone ?_⟩
    · rintro rfl
      exact absurd (Option.some.inj hsecond) (by decide : (2 : Nat) ≠ 1)
    · have hfirst : number < 2 := hbefore 2 rfl
      obtain ⟨hempty, -⟩ | ⟨⟨y, hy, hyid⟩, -⟩ := hreported.log
      · exact hempty
      · have hmem : y ∈ Worker.executionsOf x.job.id log := by
          rw [hid]
          exact List.mem_filter.mpr ⟨hy, decide_eq_true hyid⟩
        have := List.length_pos_of_mem hmem
        omega
  · rw [hid]
    exact ⟨nofun, fun _ => hfailed⟩

/-- Of two jobs one succeeds at its second execution; the other is executed three times and buried. -/
theorem retryBudget_twoJobs :
    ∃ log c, reportWorker.Turns runtime () (.empty, twoQueued) log c ∧ c.2.env.jobs = [] ∧
      (Worker.executionsOf "1" log).length = 3 ∧ (Worker.executionsOf "2" log).length = 2 ∧
      c.2.env.acknowledged = ["2"] ∧ c.2.env.deadLetters.length = 1 := by
  obtain ⟨log, c, hturns, -, -, hjobs, -, -, hdue, ⟨acknowledged, hacknowledged, hfinished⟩, letters,
    hletters, hburied⟩ := retryBudget runtime reportWorker _ 2 [5] rfl reportWorker_sparesQueue
      reportWorker_sparesEntries () .empty twoQueued (fun _ => rfl) twoJobs rfl rfl (by decide) (by decide)
      firstSuccess (fun id => by unfold firstSuccess; split <;> simp) reportWorker_follows
  refine ⟨log, c, hturns, hjobs, ?_, ?_, ?_, ?_⟩
  · exact ((hdue _ (List.mem_cons_self)).length_eq).symm
  · exact ((hdue _ (List.mem_cons_of_mem _ List.mem_cons_self)).length_eq).symm
  · have hone : (twoJobs.filter fun job => InBudget 2 (firstSuccess job.id)).map Job.id = ["2"] := by decide
    rw [hone, List.perm_singleton] at hfinished
    rw [hacknowledged, hfinished]
    rfl
  · rw [hletters, List.length_append, List.length_map, ← List.length_map Letter.job, hburied.length_eq]
    rfl

end Reference

end TenantForge
