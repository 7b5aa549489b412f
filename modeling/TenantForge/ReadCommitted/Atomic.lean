import TenantForge.ReadCommitted.CommitsLast
/-!
# Programs that are one transaction

An atomic program writes before its first commit only, and returns only after a commit
(`Prog.Atomic`). Its other commits, if it has any, change nothing. So a run of atomic programs among
others has a `History`: a part of its commits, at most one of each atomic program, that makes of the first
store what the run made of it.
-/

namespace ReadCommitted

variable {S : Schema} {E X T : Type} {α β : Type}

namespace Prog

/-- The program writes before its first commit only. The flag says whether this commit is over already; `Q`
holds of the flag where the program returns. -/
def Atomic (Q : Bool → Prop) : Bool → Prog S E X α → Prop
  | done, .pure _ => Q done
  | _, .throw _ => True
  | done, .read _ next failed => (∀ answer, (next answer).Atomic Q done) ∧ failed.Atomic Q done
  | done, .lock _ _ _ next failed => next.Atomic Q done ∧ failed.Atomic Q done
  | done, .insert _ next failed =>
    done = false ∧ (∀ ok, (next ok).Atomic Q done) ∧ failed.Atomic Q done
  | done, .update _ _ _ next failed =>
    done = false ∧ (∀ result, (next result).Atomic Q done) ∧ failed.Atomic Q done
  | done, .delete _ _ next failed => done = false ∧ next.Atomic Q done ∧ failed.Atomic Q done
  | done, .attach _ next => ∀ copy, (next copy).Atomic Q done
  | done, .env _ next => ∀ answer, (next answer).Atomic Q done
  | done, .fresh next => ∀ id, (next id).Atomic Q done
  | done, .commit next failed => next.Atomic Q true ∧ failed.Atomic Q done
  | done, .rollback next => next.Atomic Q done

variable {Q Q' : Bool → Prop} {done : Bool} {W : S.Table → Prop} {D : E → E → Prop}

theorem Atomic.bind {p : Prog S E X α} {f : α → Prog S E X β} (hp : p.Atomic Q done)
    (hf : ∀ value stage, Q stage → (f value).Atomic Q' stage) : (p.bind f).Atomic Q' done := by
  induction p generalizing done with
  | pure value => exact hf value done hp
  | throw error => trivial
  | read query next failed ih ihf => exact ⟨fun a => ih a (hp.1 a), ihf hp.2⟩
  | lock t id mode next failed ih ihf => exact ⟨ih hp.1, ihf hp.2⟩
  | insert row next failed ih ihf => exact ⟨hp.1, fun ok => ih ok (hp.2.1 ok), ihf hp.2.2⟩
  | update t id set next failed ih ihf => exact ⟨hp.1, fun r => ih r (hp.2.1 r), ihf hp.2.2⟩
  | delete t id next failed ih ihf => exact ⟨hp.1, ih hp.2.1, ihf hp.2.2⟩
  | attach row next ih => exact fun copy => ih copy (hp copy)
  | env act next ih => exact fun a => ih a (hp a)
  | fresh next ih => exact fun id => ih id (hp id)
  | commit next failed ih ihf => exact ⟨ih hp.1, ihf hp.2⟩
  | rollback next ih => exact ih hp

theorem Atomic.handle {p : Prog S E X α} {h : X → Prog S E X α} (hp : p.Atomic Q done)
    (hh : ∀ error stage, (h error).Atomic Q stage) : (p.handle h).Atomic Q done := by
  induction p generalizing done with
  | pure value => exact hp
  | throw error => exact hh error done
  | read query next failed ih ihf => exact ⟨fun a => ih a (hp.1 a), ihf hp.2⟩
  | lock t id mode next failed ih ihf => exact ⟨ih hp.1, ihf hp.2⟩
  | insert row next failed ih ihf => exact ⟨hp.1, fun ok => ih ok (hp.2.1 ok), ihf hp.2.2⟩
  | update t id set next failed ih ihf => exact ⟨hp.1, fun r => ih r (hp.2.1 r), ihf hp.2.2⟩
  | delete t id next failed ih ihf => exact ⟨hp.1, ih hp.2.1, ihf hp.2.2⟩
  | attach row next ih => exact fun copy => ih copy (hp copy)
  | env act next ih => exact fun a => ih a (hp a)
  | fresh next ih => exact fun id => ih id (hp id)
  | commit next failed ih ihf => exact ⟨ih hp.1, ihf hp.2⟩
  | rollback next ih => exact ih hp

/-- A program that commits nothing, before the first commit. -/
theorem Within.atomic {p : Prog S E X α} (hp : p.Within W D False) : p.Atomic (· = false) false := by
  induction p with
  | pure value => rfl
  | throw error => trivial
  | read query next failed ih ihf => exact ⟨fun a => ih a (hp.1 a), ihf hp.2⟩
  | lock t id mode next failed ih ihf => exact ⟨ih hp.1, ihf hp.2⟩
  | insert row next failed ih ihf => exact ⟨rfl, fun ok => ih ok (hp.2.1 ok), ihf hp.2.2⟩
  | update t id set next failed ih ihf => exact ⟨rfl, fun r => ih r (hp.2.1 r), ihf hp.2.2⟩
  | delete t id next failed ih ihf => exact ⟨rfl, ih hp.2.1, ihf hp.2.2⟩
  | attach row next ih => exact fun copy => ih copy (hp copy)
  | env act next ih => exact fun a => ih a (hp.2 a)
  | fresh next ih => exact fun id => ih id (hp id)
  | commit next failed ih ihf => exact hp.1.elim
  | rollback next ih => exact ih hp

/-- A program that writes nothing, after the first commit. -/
theorem Within.atomic_done {C : Prop} {p : Prog S E X α} (hp : p.Within (fun _ => False) D C) :
    p.Atomic (· = true) true := by
  induction p with
  | pure value => rfl
  | throw error => trivial
  | read query next failed ih ihf => exact ⟨fun a => ih a (hp.1 a), ihf hp.2⟩
  | lock t id mode next failed ih ihf => exact ⟨ih hp.1, ihf hp.2⟩
  | insert row next failed ih ihf => exact hp.1.elim
  | update t id set next failed ih ihf => exact hp.1.elim
  | delete t id next failed ih ihf => exact hp.1.elim
  | attach row next ih => exact fun copy => ih copy (hp copy)
  | env act next ih => exact fun a => ih a (hp.2 a)
  | fresh next ih => exact fun id => ih id (hp id)
  | commit next failed ih ihf => exact ⟨ih hp.2.1, ihf hp.2.2⟩
  | rollback next ih => exact ih hp

theorem Within.bind_atomic {p : Prog S E X α} {f : α → Prog S E X β} (hp : p.Within W D False)
    (hf : ∀ value, (f value).Atomic Q false) : (p.bind f).Atomic Q false :=
  hp.atomic.bind fun value _ hstage => hstage ▸ hf value

theorem atomic_commit_bind [DatabaseError X] {f : Unit → Prog S E X β} (hf : (f ()).Atomic Q true) :
    (commitTransaction.bind f).Atomic Q done := ⟨hf, trivial⟩

theorem Atomic.onAbort {p failed : Prog S E X α} (hp : p.Atomic Q done)
    (hfailed : p.onAbort = some failed) : failed.Atomic Q done := by
  cases p with
  | read | lock | commit => cases hfailed; exact hp.2
  | insert | update | delete => cases hfailed; exact hp.2.2
  | pure | throw | attach | env | fresh | rollback => cases hfailed

/-- **The step of an atomic program**: it commits, or it stays where it is. After the first commit there is
nothing to write. -/
theorem Atomic.advance {p : Prog S E X α} (hp : p.Atomic Q done) {tag : T} {σ : Session S}
    {s : Shared S E T} {next : Local S E X T α} (hclean : done = true → σ.writes = .empty)
    (hnext : p.advance tag σ s = some next) :
    (next.prog.Atomic Q true ∧ next.session.writes = .empty ∧ ∃ c ∈ next.shared.log, c.tag = tag) ∨
      (next.prog.Atomic Q done ∧ (done = true → next.session.writes = .empty) ∧
        next.shared.log = s.log) := by
  cases p with
  | pure value => cases hnext
  | throw error => cases hnext
  | commit next' failed => cases hnext; exact Or.inl ⟨hp.1, rfl, _, List.mem_cons_self, rfl⟩
  | read => cases hnext; exact Or.inr ⟨hp.1 _, hclean, rfl⟩
  | lock => cases hnext; exact Or.inr ⟨hp.1, hclean, rfl⟩
  | insert | update => cases hnext; exact Or.inr ⟨hp.2.1 _, by simp [hp.1], rfl⟩
  | delete => cases hnext; exact Or.inr ⟨hp.2.1, by simp [hp.1], rfl⟩
  | attach | env | fresh => cases hnext; exact Or.inr ⟨hp _, hclean, rfl⟩
  | rollback => cases hnext; exact Or.inr ⟨hp, fun _ => rfl, rfl⟩

end Prog

/-! ### Histories -/

section Histories

variable (watched : T → Prop)

/-- Of the commits of a watched process, all but the first one change nothing. The newest commit comes
first. -/
def WritesOnce (log : List (Commit S T)) : Prop :=
  log.Pairwise fun later earlier =>
    watched later.tag → later.tag = earlier.tag → later.after = later.before

/-- The commits of `history` do one after another what all the commits of `log` did, and there is exactly
one of each watched process that has committed. -/
structure History (db₀ : Store S) (log : List (Commit S T)) (db : Store S)
    (history : List (Commit S T)) : Prop where
  leads : Leads db₀ history db
  sublist : history.Sublist log
  once : history.Pairwise fun later earlier => watched later.tag → later.tag ≠ earlier.tag
  complete : ∀ c ∈ log, ∃ c' ∈ history, c'.tag = c.tag

variable {watched} {db₀ db : Store S} {log : List (Commit S T)}

theorem History.of_leads (hleads : Leads db₀ log db) (honce : WritesOnce watched log) :
    ∃ history, History watched db₀ log db history := by
  induction log generalizing db with
  | nil => exact ⟨[], hleads, .slnil, .nil, by simp⟩
  | cons c log ih =>
    obtain ⟨rfl, hbefore⟩ := hleads
    obtain ⟨hfirst, hrest⟩ := List.pairwise_cons.mp honce
    obtain ⟨history, hhistory⟩ := ih hbefore hrest
    by_cases hagain : watched c.tag ∧ ∃ c' ∈ history, c'.tag = c.tag
    · -- the process has committed before, so the commit is left out
      obtain ⟨hwatched, c', hc', htag⟩ := hagain
      have hsame : c.after = c.before := hfirst c' (hhistory.sublist.subset hc') hwatched htag.symm
      refine ⟨history, hsame ▸ hhistory.leads, hhistory.sublist.cons c, hhistory.once, ?_⟩
      exact List.forall_mem_cons.mpr ⟨⟨c', hc', htag⟩, hhistory.complete⟩
    · refine ⟨c :: history, ⟨rfl, hhistory.leads⟩, hhistory.sublist.cons_cons c, ?_, ?_⟩
      · refine List.pairwise_cons.mpr ⟨fun c' hc' hwatched htag => ?_, hhistory.once⟩
        exact hagain ⟨hwatched, c', hc', htag.symm⟩
      · refine List.forall_mem_cons.mpr ⟨⟨c, List.mem_cons_self, rfl⟩, fun c' hc' => ?_⟩
        obtain ⟨c'', hc'', htag⟩ := hhistory.complete c' hc'
        exact ⟨c'', List.mem_cons_of_mem c hc'', htag⟩

end Histories

/-! ### Whole runs -/

/-- How far an atomic process has come: it has committed nothing yet, or it has nothing to write. -/
structure Thread.OneTransaction (log : List (Commit S T)) (th : Thread S E X T α) : Prop where
  restarts : th.restarts = []
  stage : ∀ p, th.prog = some p → ∃ done, p.Atomic (· = true) done ∧
    (done = false → ∀ c ∈ log, c.tag ≠ th.tag) ∧
    (done = true → th.session.writes = .empty ∧ ∃ c ∈ log, c.tag = th.tag)

/-- What a process other than the moving one makes of the longer log. -/
theorem Thread.OneTransaction.mono {log log' : List (Commit S T)} {th : Thread S E X T α}
    (h : th.OneTransaction log) (hkept : ∀ c ∈ log, c ∈ log')
    (hnew : ∀ c ∈ log', c ∈ log ∨ c.tag ≠ th.tag) : th.OneTransaction log' := by
  refine ⟨h.restarts, fun p hp => ?_⟩
  obtain ⟨done, hatomic, hnone, hsome⟩ := h.stage p hp
  refine ⟨done, hatomic, fun hdone c hc => (hnew c hc).elim (hnone hdone c) id, fun hdone => ?_⟩
  obtain ⟨hclean, c, hc, htag⟩ := hsome hdone
  exact ⟨hclean, c, hkept c hc, htag⟩

/-- A process that has returned has committed. -/
theorem Thread.OneTransaction.committed {log : List (Commit S T)} {th : Thread S E X T α}
    (h : th.OneTransaction log) {value : α} (hvalue : th.prog = some (.pure value)) :
    ∃ c ∈ log, c.tag = th.tag := by
  obtain ⟨done, hatomic, _, hsome⟩ := h.stage _ hvalue
  exact (hsome hatomic).2

/-- The invariant of a run in which the watched processes are atomic. -/
structure World.OneTransaction (watched : T → Prop) (w : World S E X T α) : Prop where
  nodup : (w.threads.map Thread.tag).Nodup
  log : WritesOnce watched w.shared.log
  threads : ∀ th ∈ w.threads, watched th.tag → th.OneTransaction w.shared.log

/-- Two different processes have different tags. -/
theorem World.OneTransaction.tag_ne {watched : T → Prop} {w : World S E X T α} (h : w.OneTransaction watched)
    {i j : Nat} {th th' : Thread S E X T α} (hi : w.threads[i]? = some th) (hj : w.threads[j]? = some th')
    (hne : j ≠ i) : th.tag ≠ th'.tag := by
  intro hsame
  have hlt : i < (w.threads.map Thread.tag).length := by
    rw [List.length_map]
    exact (List.getElem?_eq_some_iff.mp hi).1
  exact hne ((List.getElem?_inj hlt h.nodup).mp (by simp [hi, hj, hsame])).symm

theorem World.OneTransaction.step {watched : T → Prop} {w w' : World S E X T α} {m : Move}
    (h : w.OneTransaction watched) (hstep : w.step m = some w') : w'.OneTransaction watched := by
  have hnodup : (w'.threads.map Thread.tag).Nodup := by
    rw [World.step_tags hstep]
    exact h.nodup
  cases m with
  | run i =>
    obtain ⟨th, prog, next, hth, hprog, hnext, _, rfl⟩ := step_run hstep
    have hmem := List.mem_of_getElem? hth
    have hlog := Prog.advance_commit hnext
    have hkept : ∀ c ∈ w.shared.log, c ∈ next.shared.log := by
      rcases hlog with hsame | hcommit
      · exact fun c hc => hsame ▸ hc
      · exact fun c hc => hcommit ▸ List.mem_cons_of_mem _ hc
    refine ⟨hnodup, ?_, fun other hother hwatched => ?_⟩
    · change WritesOnce watched next.shared.log
      rcases hlog with hsame | hcommit
      · exact hsame ▸ h.log
      · rw [hcommit]
        refine List.pairwise_cons.mpr ⟨fun earlier hearlier hwatched htag => ?_, h.log⟩
        -- an earlier commit of this process leaves nothing to write
        obtain ⟨done, _, hnone, hsome⟩ := (h.threads th hmem hwatched).stage prog hprog
        cases done with
        | false => exact absurd htag.symm (hnone rfl earlier hearlier)
        | true =>
          change th.session.view w.shared.db = w.shared.db
          rw [Session.view, (hsome rfl).1, Overlay.apply_empty]
    · rcases mem_set_cases hth hother with rfl | ⟨j, hji, hj⟩
      · have hthread := h.threads th hmem hwatched
        refine ⟨hthread.restarts, fun p hp => ?_⟩
        cases hp
        obtain ⟨done, hatomic, hnone, hsome⟩ := hthread.stage prog hprog
        rcases hatomic.advance (fun hdone => (hsome hdone).1) hnext with
          ⟨hatomic', hclean, hcommitted⟩ | ⟨hatomic', hclean, hsame⟩
        · exact ⟨true, hatomic', by simp, fun _ => ⟨hclean, hcommitted⟩⟩
        · refine ⟨done, hatomic', fun hdone c hc => hnone hdone c (hsame ▸ hc), fun hdone => ?_⟩
          obtain ⟨_, c, hc, htag⟩ := hsome hdone
          exact ⟨hclean hdone, c, hkept c hc, htag⟩
      · refine (h.threads other (List.mem_of_getElem? hj) hwatched).mono hkept fun c hc => ?_
        refine (Prog.advance_log hnext hc).imp_right fun htag => ?_
        rw [htag]
        exact h.tag_ne hth hj hji
  | abort i =>
    obtain ⟨th, prog, failed, hth, hprog, hfailed, rfl⟩ := step_abort hstep
    refine ⟨hnodup, h.log, fun other hother hwatched => ?_⟩
    rcases mem_set_cases hth hother with rfl | ⟨j, _, hj⟩
    · have hthread := h.threads th (List.mem_of_getElem? hth) hwatched
      refine ⟨hthread.restarts, fun p hp => ?_⟩
      cases hp
      obtain ⟨done, hatomic, hnone, hsome⟩ := hthread.stage prog hprog
      exact ⟨done, hatomic.onAbort hfailed, hnone, fun hdone => ⟨rfl, (hsome hdone).2⟩⟩
    · exact h.threads other (List.mem_of_getElem? hj) hwatched
  | crash i =>
    obtain ⟨th, prog, next, hth, hprog, hnext, rfl⟩ := step_crash hstep
    refine ⟨hnodup, h.log, fun other hother hwatched => ?_⟩
    rcases mem_set_cases hth hother with rfl | ⟨j, _, hj⟩
    · have hthread := h.threads th (List.mem_of_getElem? hth) hwatched
      refine ⟨by simp [Thread.restart, hthread.restarts], fun p hp => ?_⟩
      simp [Thread.restart, hthread.restarts] at hp
    · exact h.threads other (List.mem_of_getElem? hj) hwatched

/-- **Runs of atomic programs**: the watched processes have done one transaction each, at most. -/
theorem World.oneTransaction_of_reach {watched : T → Prop} {s : Shared S E T} {jobs : List T}
    {program : T → Prog S E X α} {w : World S E X T α} (hjobs : jobs.Nodup) (hlog : s.log = [])
    (hatomic : ∀ job ∈ jobs, watched job → (program job).Atomic (· = true) false)
    (hreach : (World.start s jobs program).Reach w) : w.OneTransaction watched := by
  induction hreach with
  | refl =>
    refine ⟨by simpa [World.start, Function.comp_def] using hjobs, ?_, fun th hth hwatched => ?_⟩
    · rw [World.start, hlog]
      exact .nil
    · obtain ⟨job, hjob, rfl⟩ := List.mem_map.mp hth
      refine ⟨rfl, fun p hp => ⟨false, ?_, fun _ c hc => ?_, fun hdone => by cases hdone⟩⟩
      · cases hp
        exact hatomic job hjob hwatched
      · rw [World.start, hlog] at hc
        cases hc
  | step m _ _ hstep ih => exact ih.step hstep

end ReadCommitted
