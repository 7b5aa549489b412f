import TenantForge.ReadCommitted.Frame
/-!
# Programs that commit last

A program that ends with its only commit has committed nothing as long as it has not returned: if it
ends with an exception, or is killed, the others never see anything of it (`World.Run.uncommitted`).
-/

namespace ReadCommitted

variable {S : Schema} {E X T : Type} {α β : Type}

namespace Prog

/-- Nothing follows a commit but the result. -/
def CommitsLast : Prog S E X α → Prop
  | .pure _ => True
  | .throw _ => True
  | .read _ next failed => (∀ answer, (next answer).CommitsLast) ∧ failed.CommitsLast
  | .lock _ _ _ next failed => next.CommitsLast ∧ failed.CommitsLast
  | .insert _ next failed => (∀ ok, (next ok).CommitsLast) ∧ failed.CommitsLast
  | .update _ _ _ next failed => (∀ result, (next result).CommitsLast) ∧ failed.CommitsLast
  | .delete _ _ next failed => next.CommitsLast ∧ failed.CommitsLast
  | .attach _ next => ∀ copy, (next copy).CommitsLast
  | .env _ next => ∀ answer, (next answer).CommitsLast
  | .fresh next => ∀ id, (next id).CommitsLast
  | .commit next failed => (∃ value, next = .pure value) ∧ failed.CommitsLast
  | .rollback next => next.CommitsLast

variable {W : S.Table → Prop} {D : E → E → Prop}

/-- A program that commits nothing may be followed by one that commits last. -/
theorem CommitsLast.bind {p : Prog S E X α} {f : α → Prog S E X β} (hp : p.Within W D False)
    (hf : ∀ value, (f value).CommitsLast) : (p.bind f).CommitsLast := by
  induction p with
  | pure value => exact hf value
  | throw error => trivial
  | read query next failed ih ihf => exact ⟨fun a => ih a (hp.1 a), ihf hp.2⟩
  | lock t id mode next failed ih ihf => exact ⟨ih hp.1, ihf hp.2⟩
  | insert row next failed ih ihf => exact ⟨fun ok => ih ok (hp.2.1 ok), ihf hp.2.2⟩
  | update t id set next failed ih ihf => exact ⟨fun r => ih r (hp.2.1 r), ihf hp.2.2⟩
  | delete t id next failed ih ihf => exact ⟨ih hp.2.1, ihf hp.2.2⟩
  | attach row next ih => exact fun copy => ih copy (hp copy)
  | env act next ih => exact fun a => ih a (hp.2 a)
  | fresh next ih => exact fun id => ih id (hp id)
  | commit next failed ih ihf => exact hp.1.elim
  | rollback next ih => exact ih hp

theorem CommitsLast.handle {p : Prog S E X α} {h : X → Prog S E X α} (hp : p.CommitsLast)
    (hh : ∀ error, (h error).CommitsLast) : (p.handle h).CommitsLast := by
  induction p with
  | pure value => trivial
  | throw error => exact hh error
  | read query next failed ih ihf => exact ⟨fun a => ih a (hp.1 a), ihf hp.2⟩
  | lock t id mode next failed ih ihf => exact ⟨ih hp.1, ihf hp.2⟩
  | insert row next failed ih ihf => exact ⟨fun ok => ih ok (hp.1 ok), ihf hp.2⟩
  | update t id set next failed ih ihf => exact ⟨fun r => ih r (hp.1 r), ihf hp.2⟩
  | delete t id next failed ih ihf => exact ⟨ih hp.1, ihf hp.2⟩
  | attach row next ih => exact fun copy => ih copy (hp copy)
  | env act next ih => exact fun a => ih a (hp a)
  | fresh next ih => exact fun id => ih id (hp id)
  | commit next failed ih ihf =>
    obtain ⟨⟨value, rfl⟩, hfailed⟩ := hp
    exact ⟨⟨value, rfl⟩, ihf hfailed⟩
  | rollback next ih => exact ih hp

theorem CommitsLast.map {p : Prog S E X α} (hp : p.CommitsLast) (f : α → β) :
    (p.bind fun value => .pure (f value)).CommitsLast := by
  induction p with
  | pure value => trivial
  | throw error => trivial
  | read query next failed ih ihf => exact ⟨fun a => ih a (hp.1 a), ihf hp.2⟩
  | lock t id mode next failed ih ihf => exact ⟨ih hp.1, ihf hp.2⟩
  | insert row next failed ih ihf => exact ⟨fun ok => ih ok (hp.1 ok), ihf hp.2⟩
  | update t id set next failed ih ihf => exact ⟨fun r => ih r (hp.1 r), ihf hp.2⟩
  | delete t id next failed ih ihf => exact ⟨ih hp.1, ihf hp.2⟩
  | attach row next ih => exact fun copy => ih copy (hp copy)
  | env act next ih => exact fun a => ih a (hp a)
  | fresh next ih => exact fun id => ih id (hp id)
  | commit next failed ih ihf =>
    obtain ⟨⟨value, rfl⟩, hfailed⟩ := hp
    exact ⟨⟨f value, rfl⟩, ihf hfailed⟩
  | rollback next ih => exact ih hp

/-- A statement that is no commit leaves a program that commits last. -/
theorem CommitsLast.advance {p : Prog S E X α} (hp : p.CommitsLast) {tag : T} {σ : Session S}
    {s : Shared S E T} {next : Local S E X T α} (hnext : p.advance tag σ s = some next) :
    (∃ value, next.prog = .pure value) ∨ (next.prog.CommitsLast ∧ next.shared.log = s.log) := by
  cases p with
  | pure value => cases hnext
  | throw error => cases hnext
  | commit next' failed =>
    cases hnext
    exact Or.inl hp.1
  | read | insert | update => cases hnext; exact Or.inr ⟨hp.1 _, rfl⟩
  | lock | delete => cases hnext; exact Or.inr ⟨hp.1, rfl⟩
  | attach | env | fresh => cases hnext; exact Or.inr ⟨hp _, rfl⟩
  | rollback => cases hnext; exact Or.inr ⟨hp, rfl⟩

theorem CommitsLast.onAbort {p failed : Prog S E X α} (hp : p.CommitsLast)
    (hfailed : p.onAbort = some failed) : failed.CommitsLast := by
  cases p with
  | read | lock | insert | update | delete | commit => cases hfailed; exact hp.2
  | pure | throw | attach | env | fresh | rollback => cases hfailed

/-- A statement adds no commit, or the one of its session. -/
theorem advance_commit {p : Prog S E X α} {tag : T} {σ : Session S} {s : Shared S E T}
    {next : Local S E X T α} (hnext : p.advance tag σ s = some next) :
    next.shared.log = s.log ∨ next.shared.log = ⟨tag, σ, s.db⟩ :: s.log := by
  cases p with
  | pure | throw => cases hnext
  | commit => cases hnext; exact Or.inr rfl
  | read | lock | insert | update | delete | attach | env | fresh | rollback =>
    cases hnext
    exact Or.inl rfl

/-- Every statement adds at most a commit of its own to the log. -/
theorem advance_log {p : Prog S E X α} {tag : T} {σ : Session S} {s : Shared S E T}
    {next : Local S E X T α} (hnext : p.advance tag σ s = some next) {c : Commit S T}
    (hc : c ∈ next.shared.log) : c ∈ s.log ∨ c.tag = tag := by
  cases p with
  | pure | throw => cases hnext
  | commit next' failed =>
    cases hnext
    rcases List.mem_cons.mp hc with rfl | hc
    · exact Or.inr rfl
    · exact Or.inl hc
  | read | lock | insert | update | delete | attach | env | fresh | rollback =>
    cases hnext
    exact Or.inl hc

end Prog

/-! ### The log -/

/-- The commits, newest first, lead from the first store to the second. -/
def Leads (db₀ : Store S) : List (Commit S T) → Store S → Prop
  | [], db => db = db₀
  | c :: log, db => db = c.after ∧ Leads db₀ log c.before

/-- Nothing but a commit changes the committed store. -/
theorem Prog.advance_leads {db₀ : Store S} {p : Prog S E X α} {tag : T} {σ : Session S}
    {s : Shared S E T} {next : Local S E X T α} (hnext : p.advance tag σ s = some next)
    (h : Leads db₀ s.log s.db) : Leads db₀ next.shared.log next.shared.db := by
  cases p with
  | pure | throw => cases hnext
  | commit => cases hnext; exact ⟨rfl, h⟩
  | read | lock | insert | update | delete | attach | env | fresh | rollback => cases hnext; exact h

theorem World.leads_of_reach {s : Shared S E T} {jobs : List T} {program : T → Prog S E X α}
    {w : World S E X T α} (hlog : s.log = []) (hreach : (World.start s jobs program).Reach w) :
    Leads s.db w.shared.log w.shared.db := by
  induction hreach with
  | refl => rw [World.start, hlog]; rfl
  | step m _ _ hstep ih =>
    cases m with
    | run i =>
      obtain ⟨th, prog, next, _, _, hnext, _, rfl⟩ := step_run hstep
      exact Prog.advance_leads hnext ih
    | abort i => obtain ⟨th, prog, failed, _, _, _, rfl⟩ := step_abort hstep; exact ih
    | crash i => obtain ⟨th, prog, next, _, _, _, rfl⟩ := step_crash hstep; exact ih

/-! ### Processes that did not return -/

/-- The process has returned, or it has committed nothing and will commit last. -/
def Thread.Uncommitted (log : List (Commit S T)) (th : Thread S E X T α) : Prop :=
  (∃ value, th.prog = some (.pure value)) ∨
    (∀ c ∈ log, c.tag ≠ th.tag) ∧ (∀ p, th.prog = some p → p.CommitsLast) ∧ th.restarts = []

/-- What a process other than the moving one makes of the longer log. -/
theorem Thread.Uncommitted.mono {log log' : List (Commit S T)} {th : Thread S E X T α}
    (h : th.Uncommitted log) (hlog : ∀ c ∈ log', c ∈ log ∨ c.tag ≠ th.tag) : th.Uncommitted log' :=
  h.imp_right fun ⟨hnone, hrest⟩ => ⟨fun c hc => (hlog c hc).elim (hnone c) id, hrest⟩

theorem World.step_uncommitted {w w' : World S E X T α} {m : Move} (watched : T → Prop)
    (hnodup : (w.threads.map Thread.tag).Nodup) (hstep : w.step m = some w')
    (h : ∀ th ∈ w.threads, watched th.tag → th.Uncommitted w.shared.log) :
    ∀ th ∈ w'.threads, watched th.tag → th.Uncommitted w'.shared.log := by
  intro other hother hwatched
  cases m with
  | run i =>
    obtain ⟨th, prog, next, hth, hprog, hnext, _, rfl⟩ := step_run hstep
    rcases mem_set_cases hth hother with rfl | ⟨j, hji, hj⟩
    · rcases h th (List.mem_of_getElem? hth) hwatched with ⟨value, hpure⟩ | ⟨hnone, hlast, hrestarts⟩
      · rw [hpure] at hprog
        cases hprog
        cases hnext
      · rcases (hlast prog hprog).advance hnext with ⟨value, hpure⟩ | ⟨hlast', hlog⟩
        · exact Or.inl ⟨value, congrArg some hpure⟩
        · refine Or.inr ⟨fun c hc => hnone c (hlog ▸ hc), fun p hp => ?_, hrestarts⟩
          cases hp
          exact hlast'
    · refine (h other (List.mem_of_getElem? hj) hwatched).mono fun c hc => ?_
      refine (Prog.advance_log hnext hc).imp_right fun htag hsame => ?_
      -- the moving process has another tag
      have hi : i < (w.threads.map Thread.tag).length := by
        rw [List.length_map]
        exact (List.getElem?_eq_some_iff.mp hth).1
      refine hji ((List.getElem?_inj hi hnodup).mp ?_).symm
      simp [hth, hj, ← htag, hsame]
  | abort i =>
    obtain ⟨th, prog, failed, hth, hprog, hfailed, rfl⟩ := step_abort hstep
    rcases mem_set_cases hth hother with rfl | ⟨j, _, hj⟩
    · rcases h th (List.mem_of_getElem? hth) hwatched with ⟨value, hpure⟩ | ⟨hnone, hlast, hrestarts⟩
      · rw [hpure] at hprog
        cases hprog
        cases hfailed
      · refine Or.inr ⟨hnone, fun p hp => ?_, hrestarts⟩
        cases hp
        exact (hlast prog hprog).onAbort hfailed
    · exact h other (List.mem_of_getElem? hj) hwatched
  | crash i =>
    obtain ⟨th, prog, next, hth, hprog, hnext, rfl⟩ := step_crash hstep
    rcases mem_set_cases hth hother with rfl | ⟨j, _, hj⟩
    · rcases h th (List.mem_of_getElem? hth) hwatched with ⟨value, hpure⟩ | ⟨hnone, _, hrestarts⟩
      · rw [hpure] at hprog
        cases hprog
        cases hnext
      · refine Or.inr ⟨hnone, fun p hp => ?_, ?_⟩
        · simp [Thread.restart, hrestarts] at hp
        · simp [Thread.restart, hrestarts]
    · exact h other (List.mem_of_getElem? hj) hwatched

/-- **Failure without traces**: a process whose program commits last and which has not returned has
committed nothing. -/
theorem World.uncommitted_of_reach {s : Shared S E T} {jobs : List T} {program : T → Prog S E X α}
    {w : World S E X T α} (hjobs : jobs.Nodup) (hlog : s.log = [])
    (hreach : (World.start s jobs program).Reach w) :
    ∀ th ∈ w.threads, (program th.tag).CommitsLast → th.Uncommitted w.shared.log := by
  suffices h : (w.threads.map Thread.tag).Nodup ∧
      ∀ th ∈ w.threads, (program th.tag).CommitsLast → th.Uncommitted w.shared.log from h.2
  induction hreach with
  | refl =>
    refine ⟨by simpa [World.start, Function.comp_def] using hjobs, fun th hth hlast => ?_⟩
    obtain ⟨job, _, rfl⟩ := List.mem_map.mp hth
    refine Or.inr ⟨fun c hc => ?_, fun p hp => ?_, rfl⟩
    · rw [World.start, hlog] at hc
      cases hc
    · cases hp
      exact hlast
  | step m _ _ hstep ih =>
    refine ⟨?_, World.step_uncommitted (fun tag => (program tag).CommitsLast) ih.1 hstep ih.2⟩
    rw [World.step_tags hstep]
    exact ih.1

/-- A process whose program commits last commits once, at most. The newest commit comes first. -/
theorem World.once_of_reach {watched : T → Prop} {s : Shared S E T} {jobs : List T}
    {program : T → Prog S E X α} {w : World S E X T α} (hjobs : jobs.Nodup) (hlog : s.log = [])
    (hlast : ∀ tag, watched tag → (program tag).CommitsLast)
    (hreach : (World.start s jobs program).Reach w) :
    w.shared.log.Pairwise fun later earlier => watched later.tag → later.tag ≠ earlier.tag := by
  induction hreach with
  | refl => rw [World.start, hlog]; exact .nil
  | step m hreach _ hstep ih =>
    cases m with
    | run i =>
      obtain ⟨th, prog, next, hth, hprog, hnext, _, rfl⟩ := step_run hstep
      rcases Prog.advance_commit hnext with hsame | hcommit
      · exact hsame ▸ ih
      · change next.shared.log.Pairwise _
        rw [hcommit]
        refine List.pairwise_cons.mpr ⟨fun earlier hearlier hwatched htag => ?_, ih⟩
        -- the process has not returned, so it has committed nothing
        rcases World.uncommitted_of_reach hjobs hlog hreach th (List.mem_of_getElem? hth)
          (hlast th.tag hwatched) with ⟨value, hvalue⟩ | ⟨hnone, _⟩
        · rw [hprog] at hvalue
          cases hvalue
          cases hnext
        · exact hnone earlier hearlier htag.symm
    | abort i => obtain ⟨th, prog, failed, _, _, _, rfl⟩ := step_abort hstep; exact ih
    | crash i => obtain ⟨th, prog, next, _, _, _, rfl⟩ := step_crash hstep; exact ih

end ReadCommitted
