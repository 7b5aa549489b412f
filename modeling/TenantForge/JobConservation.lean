import TenantForge.JobSettlement
/-!
# No job is lost or duplicated

Producers enqueue while one worker runs, is killed at any point and recovers what it left in flight.
Every enqueued job is in one place all the time (`conserved_of_reach`).
-/

namespace TenantForge

open Gregorian ReadCommitted

variable {rt : Runtime} {worker : Worker}

inductive QueueClient where
  | worker
  | producer (type : String) (payload : List (String × Value))

/-- How long the worker lives: the entries it recovers at most, and its polls. -/
structure Life where
  fuel : Nat
  polls : Nat

/-- The worker, which begins its next life when it is killed, and one process for each job that is
enqueued. -/
def startQueue (rt : Runtime) (worker : Worker) (s : Shared schema Env QueueClient) (life : Life)
    (lives : List Life) (calls : List (String × List (String × Value))) :
    World schema Env Exn QueueClient Unit where
  shared := s
  threads :=
    ⟨.worker, some (worker.runForever rt life.fuel life.polls), .empty,
      lives.map fun life => worker.runForever rt life.fuel life.polls⟩ ::
    calls.map fun call => ⟨.producer call.1 call.2,
      some (do let _ ← RedisJobQueue.enqueue rt call.1 call.2), .empty, []⟩

/-- The handlers leave the queue alone. -/
def Worker.SparesQueue (worker : Worker) : Prop :=
  ∀ type handler, worker.handlers type = some handler → ∀ payload,
    (handler payload).Within (fun _ => True) (fun e e' => e'.ledger = e.ledger) True

theorem defaultWorker_sparesQueue (rt : Runtime) : (defaultWorker rt).SparesQueue :=
  fun _ _ hhandler payload => within_buildHandlers (fun _ _ h => h.ledger) hhandler payload
    trivial trivial trivial trivial

/-- Nothing is asked of the rest of the application. -/
def queueOnly (rt : Runtime) : Custodian rt QueueClient where
  base := .free QueueClient fun _ => True
  worker client := client = .worker
  done _ _ := True
  clean _ := True
  clean_empty := trivial
  step _ _ _ _ _ _ := ⟨trivial, trivial⟩
  draw _ _ _ _ := ⟨trivial, trivial⟩
  acknowledge _ _ _ _ _ _ _ _ := ⟨trivial, trivial⟩
  done_rely _ _ _ _ _ _ _ := trivial
  done_step _ _ _ _ _ := trivial

theorem queueOnly_handles (hspares : worker.SparesQueue) :
    (queueOnly rt).Handles worker .worker := by
  intro job handler hhandler σ s _ hnow
  have hbody := wp_within (hspares _ _ hhandler job.payload)
    (Custodian.restrict_tolerates job)
    (fun _ σ s hs _ => ⟨⟨⟨trivial, hs.inv.1.2.conserved, hs.inv.1.2.fresh⟩, hs.inv.2⟩, trivial,
      fun _ hmem => Or.inl hmem, fun _ => ⟨rfl, rfl⟩⟩) (fun _ h => absurd trivial h) hnow
  exact wp_mono (fun _ _ _ _ => ⟨trivial, trivial⟩) (fun _ _ _ _ => trivial) _ _ _ hbody

theorem startQueue_ok (hspares : worker.SparesQueue) {s : Shared schema Env QueueClient}
    (hdb : s.db.Integral) (hqueue : QueueState rt s) (life : Life) (lives : List Life)
    (calls : List (String × List (String × Value))) :
    (startQueue rt worker s life lives calls).Ok (queueOnly rt).protocol fun _ _ _ _ => True := by
  refine Custodian.launch (fun _ _ _ _ _ _ _ _ => trivial) ⟨trivial, hqueue⟩ hdb rfl (fun th hth => ?_)
    fun th hth p hp s hinv hdb => ?_
  · obtain ⟨call, _, rfl⟩ := List.mem_map.mp hth
    exact ⟨rfl, by simp [queueOnly]⟩
  · rcases List.mem_cons.mp hth with rfl | hth
    · obtain ⟨life, rfl⟩ : ∃ life : Life, p = worker.runForever rt life.fuel life.polls := by
        rcases hp with hp | hp
        · exact ⟨life, (Option.some.inj hp).symm⟩
        · obtain ⟨life, _, rfl⟩ := List.mem_map.mp hp
          exact ⟨life, rfl⟩
      exact wp_runForever rfl (queueOnly_handles hspares) life.fuel life.polls trivial
    · obtain ⟨call, _, rfl⟩ := List.mem_map.mp hth
      obtain rfl : (do let _ ← RedisJobQueue.enqueue rt call.1 call.2) = p :=
        hp.elim Option.some.inj fun hnone => nomatch hnone
      simp only [Prog.bind_eq, wp_bind]
      exact wp_enqueue harmless_true (.refl hinv hdb (.of_writes_empty hdb rfl)) fun _ _ _ _ _ _ _ _ =>
        trivial

/-- **Every enqueued job is in one place**, in every state of every run: in the main queue, in the
processing list, in the dead-letter list or, after its handler returned and it was acknowledged, in none
of them. -/
theorem conserved_of_reach (rt : Runtime) (worker : Worker) (hspares : worker.SparesQueue)
    (s : Shared schema Env QueueClient) (hdb : s.db.Integral) (hqueue : QueueState rt s) (life : Life)
    (lives : List Life) (calls : List (String × List (String × Value)))
    (w : World schema Env Exn QueueClient Unit)
    (hreach : (startQueue rt worker s life lives calls).Reach w) :
    ∀ id ∈ w.shared.env.enqueued, w.shared.env.ledger.places rt id = 1 ∧
      (id ∈ w.shared.env.acknowledged → id ∈ w.shared.env.finished) := by
  have hmeets : Meets (X := Exn) (α := Unit) (queueOnly rt).protocol fun _ _ => True := by
    intro w i _ th prog _ _
    cases prog <;> trivial
  have hok := hreach.ok hmeets (fun _ _ => stable_true) (startQueue_ok hspares hdb hqueue life lives calls)
  exact fun id hid => ⟨hok.inv.2.conserved.places_eq_one hid, hok.inv.2.conserved.finished id⟩

namespace Reference

/-- Two jobs are enqueued. The worker pops one and is killed, and recovers it in its next life. -/
def killedInFlight : World schema Env Exn QueueClient Unit :=
  (startQueue runtime (defaultWorker runtime) (shared QueueClient (fun _ => noon 1) {}) ⟨3, 3⟩ [⟨3, 3⟩]
    [("send_invitation_email", []), ("write_usage_rollup", [])]).playAll
    (List.replicate 3 (Move.run 1) ++ List.replicate 3 (Move.run 2) ++ [Move.run 0, .run 0, .crash 0] ++
      List.replicate 3 (Move.run 0))

theorem conserved_killedInFlight :
    killedInFlight.shared.env.enqueued.length = 2 ∧
      ∀ id ∈ killedInFlight.shared.env.enqueued, killedInFlight.shared.env.ledger.places runtime id = 1 ∧
        (id ∈ killedInFlight.shared.env.acknowledged → id ∈ killedInFlight.shared.env.finished) :=
  ⟨by decide +kernel, conserved_of_reach runtime (defaultWorker runtime)
    (defaultWorker_sparesQueue runtime) _ (ValidDb.integral (by decide +kernel)) (.of_empty rfl) ⟨3, 3⟩
    [⟨3, 3⟩] [("send_invitation_email", []), ("write_usage_rollup", [])] killedInFlight
    (World.reach_playAll _ _)⟩

end Reference

end TenantForge
