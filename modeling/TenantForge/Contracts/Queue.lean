import TenantForge.AppRules
import TenantForge.JobLedger
import TenantForge.ReadCommitted.FreshKeys
import TenantForge.Workers.Worker
/-!
# Contracts of the job queue

A `Custodian` adds the queue to a protocol: the ledger is conserved, only the process that drew an id
enqueues a job under it, and only the worker takes entries out of the processing list. The worker may
acknowledge a job when what its handler has `done` is known (`wp_runForever`).
-/

namespace TenantForge

open Gregorian ReadCommitted

variable {T : Type} {rt : Runtime}

theorem uuidText_injective (rt : Runtime) : Function.Injective rt.uuidText := fun a b h =>
  Option.some.inj (by rw [← rt.parseUuid_uuidText a, h, rt.parseUuid_uuidText b])

/-- The environment after a command was sent. -/
def Env.sent (e : Env) : Env := { e with commands := e.commands + 1 }

theorem Env.Drawn.ledger {e e' : Env} (h : e.Drawn e') : e'.ledger = e.ledger := by
  simp only [Env.ledger, h.jobs, h.processing, h.deadLetters, h.enqueued, h.finished, h.acknowledged]

/-- The entries that are being processed, and the handlers that have finished, stayed the same. -/
structure Env.KeepsWork (e e' : Env) : Prop where
  processing : e'.processing = e.processing
  finished : e'.finished = e.finished

/-- The ledger is conserved, and no job has an id that is still to be drawn. -/
structure QueueState (rt : Runtime) (s : Shared schema Env T) : Prop where
  conserved : Conserved rt s.env.ledger
  fresh : ∀ id, s.ids.Holds id → rt.uuidText id ∉ s.env.enqueued

/-- Nothing was enqueued yet. -/
theorem QueueState.of_empty {s : Shared schema Env T} (h : s.env.ledger = ⟨[], [], [], [], [], []⟩) :
    QueueState rt s where
  conserved := h ▸ .empty
  fresh id _ hmem := by
    rw [show s.env.enqueued = [] from congrArg Ledger.enqueued h] at hmem
    cases hmem

/-- The job is in the processing list. -/
def InFlight (rt : Runtime) (job : Job) (s : Shared schema Env T) : Prop :=
  job.toJson rt ∈ s.env.processing

/-- A protocol for the rest of the application that lets the queue change, and lets the worker
acknowledge a job when its handler has `done` what it is for. Between two jobs the worker's session is
`clean`. -/
structure Custodian (rt : Runtime) (T : Type) where
  base : Protocol schema Env T
  worker : T → Prop
  done : Job → Shared schema Env T → Prop
  clean : Session schema → Prop
  clean_empty : clean .empty
  step : ∀ tag σ s env', base.inv s → Ledger.Step rt s.env.ledger env'.ledger →
    base.Allows tag σ s { s with env := env' }
  draw : ∀ tag σ s, base.inv s → base.Allows tag σ s s.draw
  acknowledge : ∀ tag σ s env' job, base.inv s → done job s →
    env'.ledger = s.env.ledger.acknowledge rt job → base.Allows tag σ s { s with env := env' }
  done_rely : ∀ tag locks s s' job, base.rely tag locks s s' → done job s → done job s'
  done_step : ∀ s env' job, Ledger.Step rt s.env.ledger env'.ledger → done job s →
    done job { s with env := env' }

namespace Custodian

variable (c : Custodian rt T)

/-- The protocol with the queue. -/
def protocol : Protocol schema Env T where
  inv s := c.base.inv s ∧ QueueState rt s
  rely tag locks s s' := c.base.rely tag locks s s' ∧
    (∀ id, HoldsName id locks → rt.uuidText id ∈ s'.env.enqueued → rt.uuidText id ∈ s.env.enqueued) ∧
    (c.worker tag → s.env.KeepsWork s'.env)
  guar tag σ s s' := c.base.guar tag σ s s' ∧
    (∀ text ∈ s'.env.enqueued, text ∈ s.env.enqueued ∨
      ∃ id, text = rt.uuidText id ∧ HoldsName id σ.locks) ∧
    (¬c.worker tag → s.env.KeepsWork s'.env)
  assume := c.base.assume
  assumeInsert := c.base.assumeInsert
  rely_refl _ _ _ := ⟨c.base.rely_refl _ _ _, fun _ _ h => h, fun _ => ⟨rfl, rfl⟩⟩
  rely_trans _ _ _ _ _ h₁ h₂ := ⟨c.base.rely_trans _ _ _ _ _ h₁.1 h₂.1,
    fun id hheld hmem => h₁.2.1 id hheld (h₂.2.1 id hheld hmem),
    fun hworker => ⟨(h₂.2.2 hworker).1.trans (h₁.2.2 hworker).1,
      (h₂.2.2 hworker).2.trans (h₁.2.2 hworker).2⟩⟩
  rely_mono _ _ _ _ _ hl h := ⟨c.base.rely_mono _ _ _ _ _ hl h.1,
    fun id hheld => h.2.1 id (hheld.mono hl), h.2.2⟩

variable {c}

/-- Processes respect each other if they do so without the queue, and one of them is no worker. -/
theorem respects {a b : T} (hbase : Respects c.base a b) (hone : ¬(c.worker a ∧ c.worker b)) :
    Respects c.protocol a b := by
  intro σ locks s s' hcompat hguar
  refine ⟨hbase σ locks s s' hcompat hguar.1, fun id hheld hmem => ?_,
    fun hb => hguar.2.2 fun ha => hone ⟨ha, hb⟩⟩
  rcases hguar.2.1 _ hmem with hold | ⟨other, htext, hown⟩
  · exact hold
  · obtain rfl := uuidText_injective rt htext
    exact (hown.not_both hheld hcompat).elim

variable {tag : T} {σ : Session schema} {s s' : Shared schema Env T} {env' : Env}

/-- A step of the ledger that enqueues nothing. -/
theorem allows_step (hinv : c.protocol.inv s) (hstep : Ledger.Step rt s.env.ledger env'.ledger)
    (henqueued : env'.enqueued = s.env.enqueued) (hwork : c.worker tag ∨ s.env.KeepsWork env') :
    c.protocol.Allows tag σ s { s with env := env' } := by
  obtain ⟨hbase, hguar⟩ := c.step tag σ s env' hinv.1 hstep
  refine ⟨⟨hbase, hstep.conserved hinv.2.conserved, fun id hid => ?_⟩, hguar, fun text hmem => Or.inl ?_,
    fun hno => hwork.resolve_left hno⟩
  · exact henqueued ▸ hinv.2.fresh id hid
  · exact henqueued ▸ hmem

/-- A job is enqueued under an id that its process drew. -/
theorem allows_push {id : Uuid} (job : Job) (hinv : c.protocol.inv s)
    (hstep : Ledger.Step rt s.env.ledger env'.ledger) (hid : job.id = rt.uuidText id)
    (henqueued : env'.enqueued = job.id :: s.env.enqueued) (hwork : s.env.KeepsWork env')
    (hheld : HoldsName id σ.locks) (hdrawn : ¬s.ids.Holds id) :
    c.protocol.Allows tag σ s { s with env := env' } := by
  obtain ⟨hbase, hguar⟩ := c.step tag σ s env' hinv.1 hstep
  refine ⟨⟨hbase, hstep.conserved hinv.2.conserved, fun other hother hmem => ?_⟩, hguar,
    fun text hmem => ?_, fun _ => hwork⟩
  · rcases List.mem_cons.mp (henqueued ▸ hmem) with hsame | hold
    · obtain rfl := uuidText_injective rt (hsame.trans hid)
      exact hdrawn hother
    · exact hinv.2.fresh other hother hold
  · rcases List.mem_cons.mp (henqueued ▸ hmem) with hsame | hold
    · exact Or.inr ⟨id, hsame.trans hid, hheld⟩
    · exact Or.inl hold

/-- Anything that leaves the ledger alone is allowed. -/
theorem tolerates : c.protocol.Tolerates fun e e' => e'.ledger = e.ledger where
  env tag σ s env' hinv hsame := by
    refine allows_step hinv (hsame ▸ .stay) (congrArg Ledger.enqueued hsame) (Or.inr ⟨?_, ?_⟩)
    · exact congrArg Ledger.processing hsame
    · exact congrArg Ledger.finished hsame
  draw tag σ s hinv := by
    obtain ⟨hbase, hguar⟩ := c.draw tag σ s hinv.1
    exact ⟨⟨hbase, hinv.2.conserved, fun id hid => hinv.2.fresh id ((Supply.leads_tail s.ids).holds hid)⟩,
      hguar, fun _ hmem => Or.inl hmem, fun _ => ⟨rfl, rfl⟩⟩

theorem tolerates_drawn : c.protocol.Tolerates Env.Drawn where
  env tag σ s env' hinv hd := tolerates.env tag σ s env' hinv hd.ledger
  draw := tolerates.draw

/-- While a job is being processed as well. -/
theorem restrict_tolerates (job : Job) :
    (c.protocol.restrict (InFlight rt job)).Tolerates fun e e' => e'.ledger = e.ledger where
  env tag σ s env' hinv hsame := by
    obtain ⟨hinv', hguar⟩ := tolerates.env tag σ s env' hinv.1 hsame
    have hprocessing : env'.processing = s.env.processing := congrArg Ledger.processing hsame
    refine ⟨⟨hinv', ?_⟩, hguar⟩
    show job.toJson rt ∈ env'.processing
    rw [hprocessing]
    exact hinv.2
  draw tag σ s hinv := by
    obtain ⟨hinv', hguar⟩ := tolerates.draw tag σ s hinv.1
    exact ⟨⟨hinv', hinv.2⟩, hguar⟩

theorem restrict_tolerates_drawn (job : Job) :
    (c.protocol.restrict (InFlight rt job)).Tolerates Env.Drawn where
  env tag σ s env' hinv hd := (restrict_tolerates job).env tag σ s env' hinv hd.ledger
  draw := (restrict_tolerates job).draw

/-- A drawn id stays unused until its process uses it. -/
theorem unused {id : Uuid} (h : Named c.protocol tag id σ s) :
    HoldsName id σ.locks ∧ ¬s.ids.Holds id ∧ rt.uuidText id ∉ s.env.enqueued := by
  obtain ⟨s₁, locks, hinv, rfl, hname, hsub, hlater⟩ := h
  have hname : HoldsName s₁.ids.head locks := hname
  refine ⟨hname.mono hsub, hlater.ids.not_holds_head, ?_⟩
  induction hlater with
  | refl => exact hinv.2.fresh _ s₁.ids.holds_head
  | others _ _ hrely _ _ ih => exact fun hmem => ih (hrely.2.1 _ hname hmem)
  | drawn _ hd ih => rwa [hd.enqueued]
  | named _ ih => exact ih

end Custodian

/-! ### Commands -/

section Commands

variable {P : Protocol schema Env T} {tag : T} {R : Exn → Assertion schema Env T} {σ : Session schema}
  {s : Shared schema Env T}

/-- A command is executed, or fails without effect. -/
theorem wp_redisCommand {β : Type} {command : Env → β × Env} {Q : β → Assertion schema Env T}
    (hsent : ∀ s', P.inv s' → P.Allows tag σ s' { s' with env := s'.env.sent })
    (hallows : ∀ s', Interferes P tag σ s s' →
      P.Allows tag σ s' { s' with env := (command s'.env.sent).2 })
    (hR : ∀ s', Interferes P tag σ s' s' → R .redisError σ s')
    (h : ∀ s', Interferes P tag σ s s' →
      let s'' := { s' with env := (command s'.env.sent).2 }
      Interferes P tag σ s'' s'' → Q (command s'.env.sent).1 σ s'') :
    wp P tag Q R (redisCommand command) σ s := by
  rw [redisCommand, Prog.bind_eq, wp_bind]
  refine wp_act fun s' hs => ?_
  by_cases hfault : s'.env.redisFaults s'.env.commands = true
  · simp only [hfault, if_true]
    exact ⟨hsent s' hs.inv, hR _ (hs.of_allows (hsent s' hs.inv))⟩
  · simp only [hfault]
    exact ⟨hallows s' hs, h s' hs (hs.of_allows (hallows s' hs))⟩

variable {c : Custodian rt T}

theorem Custodian.allows_sent (s' : Shared schema Env T) (hinv : c.protocol.inv s') :
    c.protocol.Allows tag σ s' { s' with env := s'.env.sent } :=
  Custodian.tolerates.env tag σ s' _ hinv rfl

theorem wp_enqueue {type : String} {payload : List (String × Value)}
    {Q : Job → Assertion schema Env T} (hR : Harmless c.protocol R)
    (hnow : Interferes c.protocol tag σ s s)
    (h : ∀ job σ' s', Interferes c.protocol tag σ' s' s' → σ.Extends σ' → job.type = type →
      job.payload = payload → job.toJson rt ∈ s'.env.jobs → Q job σ' s') :
    wp c.protocol tag Q R (RedisJobQueue.enqueue rt type payload) σ s := by
  rw [RedisJobQueue.enqueue, Job.create]
  simp only [Prog.bind_eq, wp_bind]
  refine wp_raiseIf (fun _ => hR _ _ _ hnow.inv hnow.integral) fun _ => ?_
  refine wp_uuid4 Custodian.tolerates_drawn fun id σ₁ s₁ hext _ _ hnamed => ?_
  refine wp_now Custodian.tolerates_drawn fun s₂ h₂ hlater _ => ?_
  have hnamed := hnamed.later hlater (List.Subset.refl _)
  simp only [Prog.pure_eq, wp]
  refine wp_redisCommand Custodian.allows_sent (fun s₃ h₃ => ?_)
    (fun s₃ h₃ => hR _ _ _ h₃.inv h₃.integral)
    fun s₃ _ hnow₃ => h _ σ₁ _ hnow₃ hext rfl rfl List.mem_cons_self
  obtain ⟨hheld, hdrawn, hunused⟩ :=
    Custodian.unused (hnamed.later (.of_interferes h₃) (List.Subset.refl _))
  exact Custodian.allows_push
    ⟨rt.uuidText id, type, payload, 0, rt.isoFormat (s₂.env.clock s₂.env.ticks)⟩ h₃.inv
    (.push _ hunused) rfl rfl ⟨rfl, rfl⟩ hheld hdrawn

/-! ### The worker -/

variable {worker : Worker} {job : Job}

/-- The handlers end with a clean session, and do what their job is for if they return. -/
def Custodian.Handles (c : Custodian rt T) (worker : Worker) (tag : T) : Prop :=
  ∀ job handler, worker.handlers job.type = some handler → ∀ σ s, c.clean σ →
    Interferes (c.protocol.restrict (InFlight rt job)) tag σ s s →
    wp (c.protocol.restrict (InFlight rt job)) tag (fun _ σ s => c.clean σ ∧ c.done job s)
      (fun _ σ _ => c.clean σ) (handler job.payload) σ s

/-- What the worker knows after a handler. -/
def Custodian.Handled (c : Custodian rt T) (job : Job) (s : Shared schema Env T) : Option Exn → Prop
  | none => c.done job s ∧ job.id ∈ s.env.finished
  | some _ => True

section Worker

variable (hworker : c.worker tag)

include hworker

theorem InFlight.interferes {s' : Shared schema Env T} (h : InFlight rt job s)
    (hs : Interferes c.protocol tag σ s s') : InFlight rt job s' := by
  rw [InFlight, (hs.rely.2.2 hworker).processing]
  exact h

theorem Custodian.Handled.interferes {s' : Shared schema Env T} {outcome : Option Exn}
    (h : c.Handled job s outcome) (hs : Interferes c.protocol tag σ s s') :
    c.Handled job s' outcome := by
  cases outcome with
  | some exc => trivial
  | none =>
    refine ⟨c.done_rely _ _ _ _ _ hs.rely.1 h.1, ?_⟩
    rw [(hs.rely.2.2 hworker).finished]
    exact h.2

theorem wp_dequeue {Q : Option Job → Assertion schema Env T} (hR : ∀ error s', R error σ s')
    (hnone : ∀ s', Q none σ s')
    (hsome : ∀ job s', Interferes c.protocol tag σ s' s' → InFlight rt job s' → Q (some job) σ s') :
    wp c.protocol tag Q R (RedisJobQueue.dequeue rt) σ s := by
  rw [RedisJobQueue.dequeue, Prog.bind_eq, wp_bind]
  have hempty : ∀ e : Env, e.jobs.getLast? = none → rpoplpush e.jobs e.processing =
      (none, e.jobs, e.processing) := fun e hlast => by rw [rpoplpush, hlast]
  have hmoved : ∀ (e : Env) raw, e.jobs.getLast? = some raw → rpoplpush e.jobs e.processing =
      (some raw, e.jobs.dropLast, raw :: e.processing) := fun e raw hlast => by rw [rpoplpush, hlast]
  refine wp_redisCommand Custodian.allows_sent (fun s₁ h₁ => ?_) (fun s₁ _ => hR _ _) fun s₁ h₁ => ?_
  · cases hlast : s₁.env.jobs.getLast? with
    | none =>
      rw [hempty s₁.env.sent hlast]
      exact Custodian.allows_sent s₁ h₁.inv
    | some raw =>
      rw [hmoved s₁.env.sent raw hlast]
      refine Custodian.allows_step h₁.inv (.deliver _ raw ?_) rfl (Or.inl hworker)
      exact (List.dropLast_append_getLast? raw hlast).symm
  · dsimp only
    cases hlast : s₁.env.jobs.getLast? with
    | none =>
      rw [hempty s₁.env.sent hlast]
      exact fun _ => hnone _
    | some raw =>
      rw [hmoved s₁.env.sent raw hlast]
      intro hnow
      obtain ⟨job, rfl⟩ := h₁.inv.2.conserved.encoded raw (Or.inl (List.mem_of_getLast? hlast))
      simp only [RedisJobQueue.decodeMoved, Job.fromJson_toJson]
      exact hsome job _ hnow List.mem_cons_self

theorem wp_handleJob (hhandles : c.Handles worker tag) (hclean : c.clean σ)
    (hnow : Interferes c.protocol tag σ s s) (hflight : InFlight rt job s) :
    wp c.protocol tag (fun _ σ s => c.clean σ ∧ InFlight rt job s ∧ c.Handled job s none)
      (fun _ σ s => c.clean σ ∧ InFlight rt job s) (worker.handleJob job) σ s := by
  rw [Worker.handleJob]
  cases hhandler : worker.handlers job.type with
  | none => exact ⟨hclean, hflight⟩
  | some handler =>
    have hkept : ∀ locks s s', c.protocol.rely tag locks s s' → InFlight rt job s → InFlight rt job s' := by
      intro locks s s' hrely h
      rw [InFlight, (hrely.2.2 hworker).processing]
      exact h
    have hbody := wp_restrict hkept hflight (hhandles job handler hhandler σ s hclean
      (.refl ⟨hnow.inv, hflight⟩ hnow.integral hnow.sound))
    simp only [Prog.bind_eq, wp_bind]
    refine hbody.then fun value σ s ⟨⟨hclean, hdone⟩, hflight⟩ => ?_
    refine wp_act fun s' hs => ?_
    have hdone' := c.done_rely _ _ _ _ _ hs.rely.1 hdone
    have hflight' : InFlight rt job s' := hflight.interferes hworker hs
    exact ⟨Custodian.allows_step hs.inv (.finish job.id) rfl (Or.inl hworker), hclean, hflight',
      c.done_step _ _ _ (.finish job.id) hdone', List.mem_cons_self⟩

theorem wp_acknowledge {Q : Unit → Assertion schema Env T} (hR : ∀ error s', R error σ s')
    (hflight : InFlight rt job s) (hhandled : c.Handled job s none) (h : ∀ s', Q () σ s') :
    wp c.protocol tag Q R (RedisJobQueue.acknowledge rt job) σ s := by
  refine wp_redisCommand Custodian.allows_sent (fun s₁ h₁ => ?_) (fun s₁ _ => hR _ _) fun s₁ _ _ => h _
  obtain ⟨hdone, hfinished⟩ := hhandled.interferes hworker h₁
  obtain ⟨hbase, hguar⟩ := c.acknowledge tag σ s₁
    { s₁.env.sent with processing := s₁.env.processing.erase (job.toJson rt)
                       acknowledged := job.id :: s₁.env.acknowledged } job h₁.inv.1 hdone rfl
  exact ⟨⟨hbase, h₁.inv.2.conserved.acknowledge (hflight.interferes hworker h₁) hfinished, h₁.inv.2.fresh⟩,
    hguar, fun _ hmem => Or.inl hmem, fun hno => absurd hworker hno⟩

theorem wp_settleFailed {exc : Exn} {Q : Unit → Assertion schema Env T} (hR : ∀ error s', R error σ s')
    (hflight : InFlight rt job s) (h : ∀ s', Q () σ s') :
    wp c.protocol tag Q R (worker.settleFailed rt job exc) σ s := by
  rw [Worker.settleFailed]
  split
  · rw [RedisJobQueue.moveToDeadLetter, Prog.bind_eq, wp_bind]
    refine wp_now Custodian.tolerates_drawn fun s₁ h₁ _ _ => ?_
    refine wp_redisCommand Custodian.allows_sent (fun s₂ h₂ => ?_) (fun s₂ _ => hR _ _)
      fun s₂ _ _ => h _
    have hflight₁ : InFlight rt job s₁ := hflight.interferes hworker h₁
    have hflight₂ : job.toJson rt ∈ s₂.env.ledger.processing := by
      refine InFlight.interferes hworker ?_ h₂
      exact hflight₁
    exact Custodian.allows_step h₂.inv (.bury job hflight₂ _ exc) rfl (Or.inl hworker)
  · simp only [Prog.bind_eq, wp_bind]
    refine wp_orRaise (fun _ => hR _ _) fun pause _ => ?_
    refine wp_act fun s₁ h₁ => ⟨Custodian.tolerates.env tag σ s₁ _ h₁.inv rfl, ?_⟩
    rw [RedisJobQueue.retry, Prog.bind_eq, wp_bind]
    refine wp_redisCommand Custodian.allows_sent (fun s₂ h₂ => ?_) (fun s₂ _ => hR _ _)
      fun s₂ _ _ => h _
    have hflight₁ : InFlight rt job s₁ := hflight.interferes hworker h₁
    have hflight₂ : job.toJson rt ∈ s₂.env.ledger.processing := by
      refine InFlight.interferes hworker ?_ h₂
      exact hflight₁
    exact Custodian.allows_step h₂.inv (.retry job hflight₂) rfl (Or.inl hworker)

theorem wp_runOnce (hhandles : c.Handles worker tag) (hclean : c.clean σ) :
    wp c.protocol tag (fun _ σ _ => c.clean σ) (fun _ σ _ => c.clean σ) (worker.runOnce rt) σ s := by
  rw [Worker.runOnce]
  simp only [Prog.bind_eq, wp_bind]
  refine wp_dequeue hworker (fun _ _ => hclean) (fun _ => hclean) fun job s₁ hnow₁ hflight => ?_
  simp only [Prog.tryCatch_eq, wp_bind, wp_handle]
  -- how the handler ended
  have hsettle : ∀ (outcome : Option Exn) (σ : Session schema) (s : Shared schema Env T), c.clean σ →
      InFlight rt job s → c.Handled job s outcome →
      wp c.protocol tag (fun _ σ _ => c.clean σ) (fun _ σ _ => c.clean σ)
        (worker.settle rt job outcome) σ s := by
    intro outcome σ s hclean hflight hhandled
    cases outcome with
    | none => exact wp_acknowledge hworker (fun _ _ => hclean) hflight hhandled fun _ => hclean
    | some exc => exact wp_settleFailed hworker (fun _ _ => hclean) hflight fun _ => hclean
  refine wp_mono (fun _ σ s h => ?_) (fun exc σ s h => ?_) _ σ s₁
    (wp_handleJob hworker hhandles hclean hnow₁ hflight)
  · exact hsettle none σ s h.1 h.2.1 h.2.2
  · exact hsettle (some exc) σ s h.1 h.2 trivial

theorem wp_poll (hhandles : c.Handles worker tag) (polls : Nat) (hclean : c.clean σ) :
    wp c.protocol tag (fun _ σ _ => c.clean σ) (fun _ σ _ => c.clean σ) (worker.poll rt polls) σ s := by
  induction polls generalizing σ s with
  | zero => exact hclean
  | succ polls ih =>
    rw [Worker.poll]
    simp only [Prog.bind_eq, Prog.tryCatch_eq, wp_bind, wp_handle]
    refine wp_mono (fun _ σ s h => ih h) (fun _ σ s h => ?_) _ σ s (wp_runOnce hworker hhandles hclean)
    exact wp_act fun s₁ h₁ => ⟨Custodian.tolerates.env tag σ s₁ _ h₁.inv rfl, ih h⟩

theorem wp_recoverInFlight (fuel : Nat) {Q : Option Nat → Assertion schema Env T}
    (hR : ∀ error s', R error σ s') (h : ∀ recovered s', Q recovered σ s') :
    wp c.protocol tag Q R (RedisJobQueue.recoverInFlight fuel) σ s := by
  induction fuel generalizing s Q with
  | zero => exact h none s
  | succ fuel ih =>
    rw [RedisJobQueue.recoverInFlight, Prog.bind_eq, wp_bind]
    refine wp_redisCommand Custodian.allows_sent (fun s₁ h₁ => ?_) (fun s₁ _ => hR _ _) fun s₁ _ _ => ?_
    · cases hlast : s₁.env.processing.getLast? with
      | none =>
        have hempty : rpoplpush s₁.env.sent.processing s₁.env.sent.jobs =
            (none, s₁.env.processing, s₁.env.jobs) := by
          rw [rpoplpush, show s₁.env.sent.processing.getLast? = none from hlast]
          rfl
        rw [hempty]
        exact Custodian.allows_sent s₁ h₁.inv
      | some raw =>
        have hmoved : rpoplpush s₁.env.sent.processing s₁.env.sent.jobs =
            (some raw, s₁.env.processing.dropLast, raw :: s₁.env.jobs) := by
          rw [rpoplpush, show s₁.env.sent.processing.getLast? = some raw from hlast]
          rfl
        rw [hmoved]
        refine Custodian.allows_step h₁.inv (.recover _ raw ?_) rfl (Or.inl hworker)
        exact (List.dropLast_append_getLast? raw hlast).symm
    · split
      · exact h _ _
      · simp only [Prog.bind_eq, wp_bind]
        exact ih fun recovered s' => h _ s'

/-- **The worker keeps the protocol**, however its handlers end. -/
theorem wp_runForever (hhandles : c.Handles worker tag) (fuel polls : Nat) (hclean : c.clean σ) :
    wp c.protocol tag (fun _ _ _ => True) (fun _ _ _ => True) (worker.runForever rt fuel polls) σ s := by
  rw [Worker.runForever, Prog.bind_eq, wp_bind]
  refine wp_recoverInFlight hworker fuel (fun _ _ => trivial) fun recovered s₁ => ?_
  cases recovered with
  | none => trivial
  | some count =>
    exact wp_mono (fun _ _ _ _ => trivial) (fun _ _ _ _ => trivial) _ _ _
      (wp_poll hworker hhandles polls hclean)

end Worker

end Commands

/-! ### Whole runs -/

/-- One worker and any other processes, none of which has begun, are in order if each of them is correct
from a new session. -/
theorem Custodian.launch {α : Type} {c : Custodian rt T} {Post : T → α → Assertion schema Env T}
    {s : Shared schema Env T} {first : Thread schema Env Exn T α}
    {others : List (Thread schema Env Exn T α)} (hbase : ∀ a b, Respects c.base a b)
    (hinv : c.protocol.inv s) (hdb : s.db.Integral) (hfirst : first.session = .empty)
    (hothers : ∀ th ∈ others, th.session = .empty ∧ ¬c.worker th.tag)
    (hwp : ∀ th ∈ first :: others, ∀ p, th.prog = some p ∨ p ∈ th.restarts → ∀ s, c.protocol.inv s →
      s.db.Integral → wp c.protocol th.tag (Post th.tag) (fun _ _ _ => True) p .empty s) :
    World.Ok c.protocol Post ⟨s, first :: others⟩ := by
  have hrespects : ∀ a b : T, ¬c.worker a ∨ ¬c.worker b → Respects c.protocol a b := fun a b hone =>
    Custodian.respects (hbase a b) fun hboth => hone.elim (· hboth.1) (· hboth.2)
  refine .launch hinv hdb ?_ (List.forall_mem_cons.mpr ⟨hfirst, fun th hth => (hothers th hth).1⟩) hwp
  refine List.pairwise_cons.mpr ⟨fun tag htag => ?_, List.pairwise_map.mpr ?_⟩
  · obtain ⟨th, hth, rfl⟩ := List.mem_map.mp htag
    exact ⟨hrespects _ _ (Or.inr (hothers th hth).2), hrespects _ _ (Or.inl (hothers th hth).2)⟩
  · refine List.pairwise_of_forall_mem_list fun a ha b hb => ?_
    exact ⟨hrespects _ _ (Or.inl (hothers a ha).2), hrespects _ _ (Or.inl (hothers b hb).2)⟩

end TenantForge
