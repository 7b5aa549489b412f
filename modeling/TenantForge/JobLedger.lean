import TenantForge.Infrastructure.Queue
/-!
# The ledger of the job queue

The lists of the queue with the history of its jobs, and the ways in which a command may change them.
`Conserved` says that each enqueued job is in exactly one place: in the main queue, in the processing
list, in the dead-letter list or, after its acknowledgement, in none of them. Every step keeps it
(`Ledger.Step.conserved`), because an entry of the first two lists is always the encoding of its job: only
then does a removal by value hit the entry that was meant.
-/

namespace TenantForge

open Gregorian ReadCommitted

structure Ledger where
  jobs : List String
  processing : List String
  deadLetters : List String
  enqueued : List String
  finished : List String
  acknowledged : List String

def Env.ledger (e : Env) : Ledger :=
  ⟨e.jobs, e.processing, e.deadLetters, e.enqueued, e.finished, e.acknowledged⟩

variable {rt : Runtime}

/-! ### Jobs of entries -/

section Entries

variable (rt)

/-- The fields of the job that an entry of a queue holds. -/
def entryFields (raw : String) : Option (List (String × Value)) :=
  match rt.loads raw with
  | .ok (.dict fields) => some fields
  | _ => none

/-- The fields of the job that an envelope holds. -/
def buriedFields (raw : String) : Option (List (String × Value)) :=
  match (entryFields rt raw).bind fun envelope => Value.get? envelope "job" with
  | some (.dict fields) => some fields
  | _ => none

def fieldsId (fields : List (String × Value)) : Option String :=
  match Value.get? fields "id" with
  | some (.str id) => some id
  | _ => none

/-- The ids of the jobs in a queue. -/
def jobIds (entries : List String) : List String :=
  entries.filterMap fun raw => (entryFields rt raw).bind fieldsId

/-- The ids of the jobs in a dead-letter list. -/
def buriedIds (envelopes : List String) : List String :=
  envelopes.filterMap fun raw => (buriedFields rt raw).bind fieldsId

end Entries

@[simp] theorem entryFields_toJson (job : Job) : entryFields rt (job.toJson rt) = some job.asDict := by
  simp [entryFields, Job.toJson, rt.loads_dumps]

@[simp] theorem fieldsId_asDict (job : Job) : fieldsId job.asDict = some job.id := rfl

@[simp] theorem buriedFields_deadLetter (job : Job) (failedAt : DateTime) (error : Exn) :
    buriedFields rt (RedisJobQueue.deadLetter rt job failedAt error) =
      some { job with payload := redactItems rt job.payload }.asDict := by
  simp [buriedFields, entryFields, RedisJobQueue.deadLetter, rt.loads_dumps, Value.get?]

@[simp] theorem jobIds_nil : jobIds rt [] = [] := rfl

@[simp] theorem jobIds_cons_toJson (job : Job) (entries : List String) :
    jobIds rt (job.toJson rt :: entries) = job.id :: jobIds rt entries := by
  simp [jobIds]

theorem jobIds_concat_toJson (job : Job) (entries : List String) :
    jobIds rt (entries ++ [job.toJson rt]) = jobIds rt entries ++ [job.id] := by
  simp [jobIds]

@[simp] theorem buriedIds_cons_deadLetter (job : Job) (failedAt : DateTime) (error : Exn)
    (envelopes : List String) :
    buriedIds rt (RedisJobQueue.deadLetter rt job failedAt error :: envelopes) =
      job.id :: buriedIds rt envelopes := by
  simp [buriedIds]

/-- Removing an entry removes one occurrence of its job. -/
theorem count_jobIds_erase {job : Job} {entries : List String} (h : job.toJson rt ∈ entries)
    (id : String) : (jobIds rt entries).count id =
      (jobIds rt (entries.erase (job.toJson rt))).count id + if job.id = id then 1 else 0 := by
  have hperm : (jobIds rt entries).Perm (jobIds rt (job.toJson rt :: entries.erase (job.toJson rt))) :=
    (List.perm_cons_erase h).filterMap _
  rw [hperm.count_eq, jobIds_cons_toJson, List.count_cons]
  simp

/-! ### Steps -/

namespace Ledger

/-- An entry of the processing list is taken out. -/
def take (l : Ledger) (raw : String) : Ledger := { l with processing := l.processing.erase raw }

/-- A job is acknowledged. -/
def acknowledge (l : Ledger) (rt : Runtime) (job : Job) : Ledger :=
  { l.take (job.toJson rt) with acknowledged := job.id :: l.acknowledged }

/-- What a command may do, acknowledging apart. -/
inductive Step (rt : Runtime) (l : Ledger) : Ledger → Prop
  | stay : Step rt l l
  | finish (id : String) : Step rt l { l with finished := id :: l.finished }
  | push (job : Job) (hfresh : job.id ∉ l.enqueued) :
    Step rt l { l with jobs := job.toJson rt :: l.jobs, enqueued := job.id :: l.enqueued }
  | deliver (rest : List String) (raw : String) (hjobs : l.jobs = rest ++ [raw]) :
    Step rt l { l with jobs := rest, processing := raw :: l.processing }
  | recover (rest : List String) (raw : String) (hprocessing : l.processing = rest ++ [raw]) :
    Step rt l { l with jobs := raw :: l.jobs, processing := rest }
  | retry (job : Job) (hmem : job.toJson rt ∈ l.processing) :
    Step rt l { l.take (job.toJson rt) with jobs := job.nextAttempt.toJson rt :: l.jobs }
  | bury (job : Job) (hmem : job.toJson rt ∈ l.processing) (failedAt : DateTime) (error : Exn) :
    Step rt l { l.take (job.toJson rt) with
      deadLetters := RedisJobQueue.deadLetter rt job failedAt error :: l.deadLetters }

variable (rt)

/-- In how many places a job is. -/
def places (l : Ledger) (id : String) : Nat :=
  (jobIds rt l.jobs).count id + (jobIds rt l.processing).count id + (buriedIds rt l.deadLetters).count id +
    l.acknowledged.count id

end Ledger

/-- The entries are encodings of jobs, and each enqueued job is in one place. -/
structure Conserved (rt : Runtime) (l : Ledger) : Prop where
  encoded : ∀ raw, raw ∈ l.jobs ∨ raw ∈ l.processing → ∃ job : Job, raw = job.toJson rt
  places : ∀ id, l.places rt id = l.enqueued.count id
  distinct : l.enqueued.Nodup
  finished : ∀ id ∈ l.acknowledged, id ∈ l.finished

/-- Nothing was enqueued yet. -/
theorem Conserved.empty : Conserved rt ⟨[], [], [], [], [], []⟩ where
  encoded raw hraw := by simp at hraw
  places id := by simp [Ledger.places, buriedIds]
  distinct := List.nodup_nil
  finished id hid := nomatch hid

theorem Conserved.places_eq_one {l : Ledger} (h : Conserved rt l) {id : String} (hid : id ∈ l.enqueued) :
    l.places rt id = 1 :=
  (h.places id).trans (List.count_eq_one_of_mem h.distinct hid)

theorem Conserved.acknowledge {l : Ledger} (h : Conserved rt l) {job : Job}
    (hmem : job.toJson rt ∈ l.processing) (hfinished : job.id ∈ l.finished) :
    Conserved rt (l.acknowledge rt job) where
  encoded raw hraw := h.encoded raw (hraw.imp_right List.mem_of_mem_erase)
  places id := by
    have hplaces := h.places id
    have herase := count_jobIds_erase hmem id
    simp only [Ledger.places, Ledger.acknowledge, Ledger.take, List.count_cons, beq_iff_eq] at hplaces ⊢
    omega
  distinct := h.distinct
  finished id hid := by
    rcases List.mem_cons.mp hid with rfl | hid
    · exact hfinished
    · exact h.finished id hid

/-- **The step**: no job is lost or duplicated. -/
theorem Ledger.Step.conserved {l l' : Ledger} (hstep : Step rt l l') (h : Conserved rt l) :
    Conserved rt l' := by
  cases hstep with
  | stay => exact h
  | finish id => exact { h with finished := fun other hother => List.mem_cons_of_mem id (h.finished other hother) }
  | push job hfresh =>
    refine ⟨fun raw hraw => ?_, fun id => ?_, List.nodup_cons.mpr ⟨hfresh, h.distinct⟩, h.finished⟩
    · rcases hraw with hraw | hraw
      · rcases List.mem_cons.mp hraw with rfl | hraw
        · exact ⟨job, rfl⟩
        · exact h.encoded raw (Or.inl hraw)
      · exact h.encoded raw (Or.inr hraw)
    · have hplaces := h.places id
      simp only [places, jobIds_cons_toJson, List.count_cons] at hplaces ⊢
      omega
  | deliver rest raw hjobs =>
    obtain ⟨job, rfl⟩ := h.encoded raw (Or.inl (by simp [hjobs]))
    refine ⟨fun other hother => h.encoded other ?_, fun id => ?_, h.distinct, h.finished⟩
    · rw [hjobs]
      simp only [List.mem_append, List.mem_cons, List.not_mem_nil, or_false] at hother ⊢
      tauto
    · have hplaces := h.places id
      simp only [places, hjobs, jobIds_concat_toJson, jobIds_cons_toJson, List.count_append,
        List.count_cons, List.count_nil] at hplaces ⊢
      omega
  | recover rest raw hprocessing =>
    obtain ⟨job, rfl⟩ := h.encoded raw (Or.inr (by simp [hprocessing]))
    refine ⟨fun other hother => h.encoded other ?_, fun id => ?_, h.distinct, h.finished⟩
    · rw [hprocessing]
      simp only [List.mem_append, List.mem_cons, List.not_mem_nil, or_false] at hother ⊢
      tauto
    · have hplaces := h.places id
      simp only [places, hprocessing, jobIds_concat_toJson, jobIds_cons_toJson, List.count_append,
        List.count_cons, List.count_nil] at hplaces ⊢
      omega
  | retry job hmem =>
    refine ⟨fun raw hraw => ?_, fun id => ?_, h.distinct, h.finished⟩
    · rcases hraw with hraw | hraw
      · rcases List.mem_cons.mp hraw with rfl | hraw
        · exact ⟨job.nextAttempt, rfl⟩
        · exact h.encoded raw (Or.inl hraw)
      · exact h.encoded raw (Or.inr (List.mem_of_mem_erase hraw))
    · have hplaces := h.places id
      have herase := count_jobIds_erase hmem id
      simp only [places, take, jobIds_cons_toJson, Job.nextAttempt, List.count_cons, beq_iff_eq]
        at hplaces ⊢
      omega
  | bury job hmem failedAt error =>
    refine ⟨fun raw hraw => h.encoded raw (hraw.imp_right List.mem_of_mem_erase), fun id => ?_, h.distinct,
      h.finished⟩
    have hplaces := h.places id
    have herase := count_jobIds_erase hmem id
    simp only [places, take, buriedIds_cons_deadLetter, List.count_cons, beq_iff_eq] at hplaces ⊢
    omega

end TenantForge
