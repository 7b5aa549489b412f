import TenantForge.ReadCommitted.Program
/-!
# Processes running side by side

A world is the shared state and a list of processes. A move lets one process execute its next
statement, provided that no other process holds a conflicting lock; or aborts the transaction of a
process at its next statement (a deadlock victim), which raises an exception there; or kills a process
between two of its statements, after which it goes on with its next restart program if it has one.
Blocked statements simply cannot move.
-/

namespace ReadCommitted

variable {S : Schema} {E X T α : Type}

/-- A process with the transaction it has open. `prog` is `none` once it was killed for good. -/
structure Thread (S : Schema) (E X T α : Type) where
  tag : T
  prog : Option (Prog S E X α)
  session : Session S
  restarts : List (Prog S E X α)

structure World (S : Schema) (E X T α : Type) where
  shared : Shared S E T
  threads : List (Thread S E X T α)

inductive Move where
  | run (i : Nat)
  | abort (i : Nat)
  | crash (i : Nat)
  deriving DecidableEq, Repr

/-- The process after it was killed. -/
def Thread.restart (th : Thread S E X T α) : Thread S E X T α :=
  { th with prog := th.restarts.head?, session := .empty, restarts := th.restarts.tail }

namespace World

/-- None of the needed locks conflicts with a lock of another process. -/
def Granted (w : World S E X T α) (i : Nat) (needs : Needs S) : Prop :=
  ∀ th ∈ w.threads.eraseIdx i, ∀ need ∈ needs, ∀ held ∈ th.session.locks,
    held.key = need.1 → held.mode.conflicts need.2 = false

instance (w : World S E X T α) (i : Nat) (needs : Needs S) : Decidable (w.Granted i needs) :=
  inferInstanceAs (Decidable (∀ th ∈ w.threads.eraseIdx i, ∀ need ∈ needs,
    ∀ held ∈ th.session.locks, held.key = need.1 → held.mode.conflicts need.2 = false))

def step (w : World S E X T α) : Move → Option (World S E X T α)
  | .run i => do
    let th ← w.threads[i]?
    let prog ← th.prog
    let next ← prog.advance th.tag th.session w.shared
    if w.Granted i (prog.needs th.session w.shared.db) then
      some ⟨next.shared, w.threads.set i
        { th with prog := some next.prog, session := next.session }⟩
    else none
  | .abort i => do
    let th ← w.threads[i]?
    let prog ← th.prog
    let failed ← prog.onAbort
    some { w with threads := w.threads.set i { th with prog := some failed, session := .empty } }
  | .crash i => do
    let th ← w.threads[i]?
    let prog ← th.prog
    let _ ← prog.advance th.tag th.session w.shared
    some { w with threads := w.threads.set i th.restart }

/-- The worlds that moves allowed by `ok` lead to. -/
inductive Run (ok : World S E X T α → Move → Prop) (w : World S E X T α) :
    World S E X T α → Prop where
  | refl : Run ok w w
  | step {w₁ w₂ : World S E X T α} (m : Move) : Run ok w w₁ → ok w₁ m → w₁.step m = some w₂ →
      Run ok w w₂

/-- Any moves at all. -/
abbrev Reach (w w' : World S E X T α) : Prop := Run (fun _ _ => True) w w'

theorem Run.head {ok : World S E X T α → Move → Prop} {w w₁ w₂ : World S E X T α} {m : Move}
    (hok : ok w m) (hstep : w.step m = some w₁) (h : Run ok w₁ w₂) : Run ok w w₂ := by
  induction h with
  | refl => exact .step m .refl hok hstep
  | step m' _ hok' hstep' ih => exact .step m' ih hok' hstep'

theorem Run.mono {ok ok' : World S E X T α → Move → Prop} {w w' : World S E X T α}
    (hok : ∀ w m, ok w m → ok' w m) (h : Run ok w w') : Run ok' w w' := by
  induction h with
  | refl => exact .refl
  | step m _ hm hstep ih => exact .step m ih (hok _ _ hm) hstep

/-- A schedule: the moves one after another, without those that are impossible or not allowed. -/
def play (ok : World S E X T α → Move → Prop) [∀ w m, Decidable (ok w m)] (w : World S E X T α) :
    List Move → World S E X T α
  | [] => w
  | m :: ms => play ok (if ok w m then (w.step m).getD w else w) ms

theorem run_play (ok : World S E X T α → Move → Prop) [∀ w m, Decidable (ok w m)]
    (w : World S E X T α) (ms : List Move) : Run ok w (w.play ok ms) := by
  induction ms generalizing w with
  | nil => exact .refl
  | cons m ms ih =>
    rw [play]
    by_cases hok : ok w m
    · rw [if_pos hok]
      cases hstep : w.step m with
      | none => exact ih w
      | some w' => exact .head hok hstep (ih w')
    · rw [if_neg hok]
      exact ih w

/-- A schedule with any moves at all. -/
def playAll (w : World S E X T α) (ms : List Move) : World S E X T α := w.play (fun _ _ => True) ms

theorem reach_playAll (w : World S E X T α) (ms : List Move) : w.Reach (w.playAll ms) :=
  run_play _ w ms

/-- The processes of `jobs`, none of which has done anything yet. -/
def start (shared : Shared S E T) (jobs : List T) (program : T → Prog S E X α) :
    World S E X T α where
  shared := shared
  threads := jobs.map fun job => ⟨job, some (program job), .empty, []⟩

/-- What a granted statement of process `i` did. -/
theorem step_run {w w' : World S E X T α} {i : Nat} (h : w.step (.run i) = some w') :
    ∃ th prog next, w.threads[i]? = some th ∧ th.prog = some prog ∧
      prog.advance th.tag th.session w.shared = some next ∧
      w.Granted i (prog.needs th.session w.shared.db) ∧
      w' = ⟨next.shared, w.threads.set i
        { th with prog := some next.prog, session := next.session }⟩ := by
  obtain ⟨th, hth, h⟩ := Option.bind_eq_some_iff.mp h
  obtain ⟨prog, hprog, h⟩ := Option.bind_eq_some_iff.mp h
  obtain ⟨next, hnext, h⟩ := Option.bind_eq_some_iff.mp h
  split at h
  · rename_i hgranted
    exact ⟨th, prog, next, hth, hprog, hnext, hgranted, (Option.some.inj h).symm⟩
  · cases h

/-- What an abort at the next statement of process `i` did. -/
theorem step_abort {w w' : World S E X T α} {i : Nat} (h : w.step (.abort i) = some w') :
    ∃ th prog failed, w.threads[i]? = some th ∧ th.prog = some prog ∧ prog.onAbort = some failed ∧
      w' = { w with
        threads := w.threads.set i { th with prog := some failed, session := .empty } } := by
  obtain ⟨th, hth, h⟩ := Option.bind_eq_some_iff.mp h
  obtain ⟨prog, hprog, h⟩ := Option.bind_eq_some_iff.mp h
  obtain ⟨failed, hfailed, h⟩ := Option.bind_eq_some_iff.mp h
  exact ⟨th, prog, failed, hth, hprog, hfailed, (Option.some.inj h).symm⟩

theorem step_crash {w w' : World S E X T α} {i : Nat} (h : w.step (.crash i) = some w') :
    ∃ th prog next, w.threads[i]? = some th ∧ th.prog = some prog ∧
      prog.advance th.tag th.session w.shared = some next ∧
      w' = { w with threads := w.threads.set i th.restart } := by
  obtain ⟨th, hth, h⟩ := Option.bind_eq_some_iff.mp h
  obtain ⟨prog, hprog, h⟩ := Option.bind_eq_some_iff.mp h
  obtain ⟨next, hnext, h⟩ := Option.bind_eq_some_iff.mp h
  exact ⟨th, prog, next, hth, hprog, hnext, (Option.some.inj h).symm⟩

/-- A move changes one process, and never which request it serves. -/
theorem step_tags {w w' : World S E X T α} {m : Move} (h : w.step m = some w') :
    w'.threads.map Thread.tag = w.threads.map Thread.tag := by
  have hset : ∀ i (th th' : Thread S E X T α), w.threads[i]? = some th → th'.tag = th.tag →
      (w.threads.set i th').map Thread.tag = w.threads.map Thread.tag := by
    intro i th th' hth htag
    obtain ⟨hlt, hget⟩ := List.getElem?_eq_some_iff.mp hth
    have hlt' : i < (w.threads.map Thread.tag).length := by simpa using hlt
    have hself : th.tag = (w.threads.map Thread.tag)[i] := by simp [hget]
    rw [List.map_set, htag, hself]
    exact List.set_getElem_self _
  cases m with
  | run i =>
    obtain ⟨th, prog, next, hth, _, _, _, rfl⟩ := step_run h
    exact hset i th _ hth rfl
  | abort i =>
    obtain ⟨th, prog, failed, hth, _, _, rfl⟩ := step_abort h
    exact hset i th _ hth rfl
  | crash i =>
    obtain ⟨th, _, _, hth, _, _, rfl⟩ := step_crash h
    exact hset i th _ hth rfl

/-- A process that has finished stays as it is. -/
theorem step_finished {w w' : World S E X T α} {m : Move} (h : w.step m = some w') {i : Nat}
    {th : Thread S E X T α} {value : α} (hth : w.threads[i]? = some th)
    (hvalue : th.prog = some (.pure value)) : w'.threads[i]? = some th := by
  have hset : ∀ j other (th' : Thread S E X T α), w.threads[j]? = some other → other.prog ≠ th.prog →
      (w.threads.set j th')[i]? = some th := by
    intro j other th' hother hne
    rw [List.getElem?_set_ne fun hji => hne ?_]
    · exact hth
    · subst hji
      rw [Option.some.inj (hother.symm.trans hth)]
  cases m with
  | run j =>
    obtain ⟨other, prog, next, hother, hprog, hnext, _, rfl⟩ := step_run h
    refine hset j other _ hother fun hsame => ?_
    rw [hprog, hvalue] at hsame
    cases hsame
    cases hnext
  | abort j =>
    obtain ⟨other, prog, failed, hother, hprog, hfailed, rfl⟩ := step_abort h
    refine hset j other _ hother fun hsame => ?_
    rw [hprog, hvalue] at hsame
    cases hsame
    cases hfailed
  | crash j =>
    obtain ⟨other, prog, next, hother, hprog, hnext, rfl⟩ := step_crash h
    refine hset j other _ hother fun hsame => ?_
    rw [hprog, hvalue] at hsame
    cases hsame
    cases hnext

theorem Run.finished {ok : World S E X T α → Move → Prop} {w w' : World S E X T α} (h : Run ok w w')
    {i : Nat} {th : Thread S E X T α} {value : α} (hth : w.threads[i]? = some th)
    (hvalue : th.prog = some (.pure value)) : w'.threads[i]? = some th := by
  induction h with
  | refl => exact hth
  | step m _ _ hstep ih => exact step_finished hstep ih hvalue

theorem Run.trans {ok : World S E X T α → Move → Prop} {w₁ w₂ w₃ : World S E X T α} (h₁ : Run ok w₁ w₂)
    (h₂ : Run ok w₂ w₃) : Run ok w₁ w₃ := by
  induction h₂ with
  | refl => exact h₁
  | step m _ hok hstep ih => exact .step m ih hok hstep

end World

end ReadCommitted
