import TenantForge.ReadCommitted.Revisions
/-!
# Commits as the steps of an abstract machine

An abstract machine is a relation between its states, one for each label. A run of processes refines it if
every commit is a step of the machine, labelled with the process, between the abstractions of the stores
before and after: then the commits of the run are a path of the machine (`Leads.path`). Processes whose
programs are proved in the protocol `Protocol.stepping` have runs of this kind, and what a program is proved
to return with holds of its answer (`World.stepping_of_reach`).
-/

namespace ReadCommitted

/-! ### Paths -/

section Paths

variable {A T : Type} {Step : T → A → A → Prop}

/-- The machine goes from the first state to the second in steps with these labels. -/
inductive Path (Step : T → A → A → Prop) (a : A) : List T → A → Prop where
  | refl : Path Step a [] a
  | step {labels : List T} {label : T} {b c : A} : Path Step a labels b → Step label b c →
      Path Step a (labels ++ [label]) c

end Paths

variable {S : Schema} {E X T A : Type} {α : Type}

/-- The commits in the order in which they were made. -/
def Commit.tags (log : List (Commit S T)) : List T := log.reverse.map Commit.tag

@[simp] theorem Commit.mem_tags {log : List (Commit S T)} {tag : T} :
    tag ∈ Commit.tags log ↔ ∃ c ∈ log, c.tag = tag := by
  simp [Commit.tags]

/-- Commits that are steps are a path. -/
theorem Leads.path {Step : T → A → A → Prop} {abs : Store S → A} {db₀ db : Store S}
    {log : List (Commit S T)} (h : Leads db₀ log db)
    (hsteps : ∀ c ∈ log, Step c.tag (abs c.before) (abs c.after)) :
    Path Step (abs db₀) (Commit.tags log) (abs db) := by
  induction log generalizing db with
  | nil =>
    obtain rfl : db = db₀ := h
    exact .refl
  | cons c log ih =>
    obtain ⟨rfl, hbefore⟩ := h
    obtain ⟨hfirst, hrest⟩ := List.forall_mem_cons.mp hsteps
    rw [Commit.tags, List.reverse_cons, List.map_append]
    exact .step (ih hbefore hrest) hfirst

/-- The store between two parts of the log. -/
theorem Leads.split {db₀ db : Store S} {newer older : List (Commit S T)}
    (h : Leads db₀ (newer ++ older) db) : ∃ mid, Leads db₀ older mid ∧ Leads mid newer db := by
  induction newer generalizing db with
  | nil => exact ⟨db, h, rfl⟩
  | cons c newer ih =>
    obtain ⟨rfl, hbefore⟩ := h
    obtain ⟨mid, holder, hnewer⟩ := ih hbefore
    exact ⟨mid, holder, rfl, hnewer⟩

/-! ### Processes whose commits are steps -/

variable {IsStep : Commit S T → Prop}

/-- Every commit is a step, and the log only grows. -/
def Protocol.stepping (IsStep : Commit S T → Prop) : Protocol S E T where
  inv s := ∀ c ∈ s.log, IsStep c
  rely _ _ s s' := s.log ⊆ s'.log
  guar _ _ s s' := s.log ⊆ s'.log
  assume _ _ _ _ _ := True
  rely_refl _ _ s := List.Subset.refl s.log
  rely_trans _ _ _ _ _ := List.Subset.trans
  rely_mono _ _ _ _ _ _ h := h

theorem stepping_logOnly : (Protocol.stepping (E := E) IsStep).LogOnly := by
  intro tag σ s s' hinv hlog
  exact ⟨fun c hc => hinv c (hlog ▸ hc), fun c hc => hlog ▸ hc⟩

/-- A session may commit a step. -/
theorem stepping_allows {tag : T} {σ : Session S} {s s' : Shared S E T}
    (hs : Interferes (Protocol.stepping IsStep) tag σ s s') (hstep : IsStep ⟨tag, σ, s'.db⟩) :
    (Protocol.stepping IsStep).Allows tag σ s' (s'.commit tag σ) := by
  refine ⟨fun c hc => ?_, List.subset_cons_self _ _⟩
  rcases List.mem_cons.mp hc with rfl | hc
  · exact hstep
  · exact hs.inv c hc

/-- **The run**: every commit is a step, and what a process was proved to return with holds. -/
theorem World.stepping_of_reach {Post : T → α → List (Commit S T) → Prop}
    (hmono : ∀ tag value log log', log ⊆ log' → Post tag value log → Post tag value log')
    {s : Shared S E T} {jobs : List T} {program : T → Prog S E X α} {w : World S E X T α}
    (hdb : s.db.Integral) (hlog : s.log = [])
    (hwp : ∀ job ∈ jobs, wp (Protocol.stepping IsStep) job (fun value _ s => Post job value s.log)
      (fun _ _ _ => True) (program job) .empty s)
    (hreach : (World.start s jobs program).Reach w) :
    (∀ c ∈ w.shared.log, IsStep c) ∧ w.shared.db.Integral ∧
      ∀ th ∈ w.threads, ∀ value, th.prog = some (.pure value) → Post th.tag value w.shared.log := by
  have hmeets : Meets (X := X) (α := α) (Protocol.stepping (E := E) IsStep) fun _ _ => True := by
    intro w i _ th prog _ _
    cases prog <;> trivial
  have hinv : ∀ c ∈ s.log, IsStep c := by simp [hlog]
  have hstart : (World.start s jobs program).Ok (Protocol.stepping IsStep)
      fun tag value _ s => Post tag value s.log :=
    .start hinv hdb (.of_forall (fun _ _ _ _ _ _ _ h => h) jobs) hwp
  have hok := hreach.ok hmeets (fun tag value _ _ _ hs h => hmono tag value _ _ hs.rely h) hstart
  exact ⟨hok.inv, hok.integral, fun th hth value hvalue => hok.safe th hth _ hvalue⟩

end ReadCommitted
