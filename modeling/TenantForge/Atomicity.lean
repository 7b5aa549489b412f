import TenantForge.ReadCommitted.Atomic
import TenantForge.RowVersions
/-!
# Every request is one transaction

Any number of requests and workers, in any interleaving, aborts and crashes included: what the run has made
of the database is what one transaction of each request, at most, makes of it, one after another. A request
that has been answered has had its transaction. A request that has not, or never will be, has had none; only
the two routes that hand something to the queue after their commit may fail with their transaction done.
-/

namespace TenantForge

open Gregorian ReadCommitted Prog

section Requests

variable {rt : Runtime} {α : Type}

theorem atomic_getSession {Q : Bool → Prop} {body : App α} (h : body.Atomic Q false) :
    (getSession body).Atomic (· = true) false :=
  Atomic.handle (Atomic.bind h fun _ _ _ => atomic_commit_bind rfl) fun _ _ => trivial

/-- The mail of an invitation goes to the queue, not to the database. -/
theorem atomic_createInvitationRoute {organizationId : Uuid} {user : User} {data : InvitationCreate} :
    (createInvitationRoute rt organizationId user data).Atomic (· = true) false := by
  refine Within.bind_atomic (W := fun _ => True) (D := fun _ _ => True)
    (within_createInvitation (fun _ _ _ => trivial) trivial trivial) fun result => ?_
  exact atomic_commit_bind ((Within.atomic_done (D := fun _ _ => True) (C := False)
    (within_mail fun _ _ _ => trivial)).bind fun _ _ hdone => hdone)

theorem atomic_billingWebhook {delivery : Delivery} :
    (billingWebhook rt delivery).Atomic (· = true) false := by
  refine Within.bind_atomic (W := fun _ => True) (D := fun _ _ => True) within_ofExcept fun _ => ?_
  refine Within.bind_atomic (W := fun _ => True) (D := fun _ _ => True) within_orRaise fun event => ?_
  refine Within.bind_atomic (W := fun _ => True) (D := fun _ _ => True)
    (within_validateWebhook fun _ _ _ => trivial) fun _ => ?_
  refine Within.bind_atomic (W := fun _ => True) (D := fun _ _ => True)
    (within_storeWebhookEvent (fun _ _ _ => trivial) trivial) fun result => ?_
  have henqueue : ∀ payload, (RedisJobQueue.enqueue rt "process_billing_webhook" payload).Within
      (fun _ => False) (fun _ _ => True) False := fun payload => within_enqueue fun _ _ _ => trivial
  refine atomic_commit_bind (Atomic.bind (Within.atomic_done (D := fun _ _ => True) (C := False)
    (within_runIf ((henqueue _).bind fun _ => ?_))) fun _ _ hdone => hdone)
  trivial

/-- **Every request is atomic**. -/
theorem atomic_request (rt : Runtime) (request : Request) :
    (request.handle rt).Atomic (· = true) false := by
  by_cases hearly : request.commitsEarly = false
  · refine atomic_getSession (Within.atomic (W := fun _ => True) (D := fun _ _ => True)
      (within_endpoint_early (fun _ _ _ => trivial) (fun _ _ => trivial) ?_))
    simp [hearly]
  · cases request with
    | tenant organizationId credentials call =>
      cases call with
      | createInvitation data =>
        refine atomic_getSession (Q := (· = true)) (Within.bind_atomic (W := fun _ => True) (D := fun _ _ => True)
          (within_getCurrentUser fun _ _ _ => trivial) fun user => ?_)
        refine Within.bind_atomic (W := fun _ => True) (D := fun _ _ => True)
          (within_scalar.bind fun _ => within_orRaise) fun membership => ?_
        exact Within.bind_atomic (W := fun _ => True) (D := fun _ _ => True) within_raiseIf
          fun _ => atomic_createInvitationRoute
      | _ => exact absurd rfl hearly
    | billingWebhook delivery => exact atomic_getSession atomic_billingWebhook
    | _ => exact absurd rfl hearly

/-- A request that commits last commits nothing unless it returns. -/
theorem commitsLast_request (rt : Runtime) {request : Request} (hearly : request.commitsEarly = false) :
    (request.handle rt).CommitsLast := by
  refine commitsLast_getSession (W := fun _ => True) (D := fun _ _ => True)
    (within_endpoint_early (fun _ _ _ => trivial) (fun _ _ => trivial) ?_)
  simp [hearly]

end Requests

/-! ### Whole runs -/

/-- A party and its number: equal requests are different processes. -/
abbrev NumberedParty := Party × Nat

/-- The parties, numbered, none of which has done anything yet. -/
def startNumberedParties (rt : Runtime) (s : Shared schema Env NumberedParty) (parties : List Party) :
    World schema Env Exn NumberedParty (Option Response) :=
  World.start s parties.zipIdx fun job => job.1.program rt

def Party.isSession : Party → Bool
  | .session _ => true
  | .worker _ _ => false

/-- What became of a request: its transaction is done if it has been answered, and only then unless the
request commits early. -/
structure Transacted (history : List (Commit schema NumberedParty))
    (th : Thread schema Env Exn NumberedParty (Option Response)) (request : Request) : Prop where
  answered : ∀ response, th.prog = some (.pure response) → ∃ c ∈ history, c.tag = th.tag
  unanswered : request.commitsEarly = false → (∀ response, th.prog ≠ some (.pure response)) →
    ∀ c ∈ history, c.tag ≠ th.tag

/-- **One transaction a request**: the run has made of the database what a history with at most one
transaction of each request makes of it. -/
theorem transactions_of_reach (rt : Runtime) {s : Shared schema Env NumberedParty}
    {parties : List Party} {w : World schema Env Exn NumberedParty (Option Response)} (hlog : s.log = [])
    (hreach : (startNumberedParties rt s parties).Reach w) :
    ∃ history, History (fun tag => tag.1.isSession = true) s.db w.shared.log w.shared.db history ∧
      ∀ th ∈ w.threads, ∀ request, th.tag.1 = .session request → Transacted history th request := by
  have hjobs : parties.zipIdx.Nodup := by
    refine List.Nodup.of_map Prod.snd ?_
    rw [List.zipIdx_map_snd]
    exact List.nodup_range'
  have hone : w.OneTransaction fun tag => tag.1.isSession = true := by
    refine World.oneTransaction_of_reach hjobs hlog (fun job _ hsession => ?_) hreach
    obtain ⟨party, number⟩ := job
    cases party with
    | session request => exact (atomic_request rt request).bind fun _ _ hdone => hdone
    | worker fuel polls => cases hsession
  have hleads := World.leads_of_reach hlog hreach
  obtain ⟨history, hhistory⟩ := History.of_leads hleads hone.log
  refine ⟨history, hhistory, fun th hth request htag => ⟨fun response hresponse => ?_, ?_⟩⟩
  · have hsession : th.tag.1.isSession = true := by rw [htag]; rfl
    obtain ⟨c, hc, hct⟩ := (hone.threads th hth hsession).committed hresponse
    obtain ⟨c', hc', hct'⟩ := hhistory.complete c hc
    exact ⟨c', hc', hct'.trans hct⟩
  · intro hearly hopen c hc
    have hlast : (th.tag.1.program rt).CommitsLast := by
      rw [htag]
      exact (commitsLast_request rt hearly).map some
    rcases World.uncommitted_of_reach hjobs hlog hreach th hth hlast with ⟨response, hresponse⟩ | hnone
    · exact absurd hresponse (hopen response)
    · exact hnone.1 c (hhistory.sublist.subset hc)

namespace Reference

/-- The owner creates the same project twice, a stranger tries to, and an invitation is sent. -/
def eagerOwner : List Party :=
  [.session (.tenant 15 (bearer 1) (.createProject ⟨"Project", none⟩)),
    .session (.tenant 15 (bearer 1) (.createProject ⟨"Project", none⟩)),
    .session (.tenant 15 (bearer 2) (.createProject ⟨"Project", none⟩)),
    .session (.tenant 15 (bearer 1) (.createInvitation ⟨"user-3", .member⟩)), .worker 1 1]

def neighbours : Tables := { ownedProject with users := [user 1, user 2] }

def eager : World schema Env Exn NumberedParty (Option Response) :=
  (startNumberedParties runtime (shared NumberedParty daily neighbours) eagerOwner).playAll
    (List.replicate 80 [Move.run 0, .run 1, .run 2, .run 3, .run 4]).flatten

theorem transactions_of_eager :
    ∃ history, History (fun tag => tag.1.isSession = true) (shared NumberedParty daily neighbours).db
        eager.shared.log eager.shared.db history ∧
      ∀ th ∈ eager.threads, ∀ request, th.tag.1 = .session request → Transacted history th request :=
  transactions_of_reach (w := eager) runtime rfl (World.reach_playAll _ _)

/-- Both projects are there, and the second commit of the invitation has changed nothing. -/
example : eager.shared.log.length = 4 ∧ (eager.shared.db .projects).length = 3 := by decide +kernel

end Reference

end TenantForge
