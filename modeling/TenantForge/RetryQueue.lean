import Mathlib.Data.List.Perm.Basic
import Mathlib.Algebra.BigOperators.Group.List.Basic
import Mathlib.Algebra.GroupWithZero.Nat
/-!
# Queues that retry within a budget

A queue executes its oldest task. A task that fails goes to the back of the queue, behind all that wait;
a task that has failed as often as the budget allows is abandoned at its next failure. `first` assigns to
each task the execution at which it first succeeds, if there is one.

However the tasks are interleaved, the executions of each of them are those it would have alone:

* `Accounted`: where each task is, and how often it was executed so far. Every step keeps it
  (`Accounted.step`).
* `exists_drained`: a run ends with nobody waiting, because each step takes one execution off the
  `potential`.
-/

namespace RetryQueue

variable {α κ : Type*}

/-- A task, and how often it has failed. -/
structure Entry (α : Type*) where
  task : α
  failures : Nat

/-- The newest entry of each list is at its left end. -/
structure Queue (α : Type*) where
  waiting : List (Entry α)
  finished : List (Entry α)
  abandoned : List (Entry α)

/-- Tasks that were not executed yet. -/
def start (tasks : List α) : Queue α := ⟨tasks.map (⟨·, 0⟩), [], []⟩

section Budget

variable (budget : Nat)

/-- How often a task is executed that first succeeds at this execution. -/
def executions : Option Nat → Nat
  | none => budget + 1
  | some n => min n (budget + 1)

/-- The task succeeds before its budget is spent. -/
def InBudget (n : Option Nat) : Prop := ∃ k ∈ n, k ≤ budget + 1

instance (n : Option Nat) : Decidable (InBudget budget n) := by
  unfold InBudget
  infer_instance

variable (first : α → Option Nat)

/-- One execution. -/
inductive Step : Queue α → Entry α → Queue α → Prop
  | finish (rest finished abandoned : List (Entry α)) (e : Entry α)
    (hsucceeds : first e.task = some (e.failures + 1)) :
    Step ⟨rest ++ [e], finished, abandoned⟩ e ⟨rest, e :: finished, abandoned⟩
  | retry (rest finished abandoned : List (Entry α)) (e : Entry α)
    (hfails : first e.task ≠ some (e.failures + 1)) (hroom : e.failures < budget) :
    Step ⟨rest ++ [e], finished, abandoned⟩ e ⟨⟨e.task, e.failures + 1⟩ :: rest, finished, abandoned⟩
  | abandon (rest finished abandoned : List (Entry α)) (e : Entry α)
    (hfails : first e.task ≠ some (e.failures + 1)) (hspent : budget ≤ e.failures) :
    Step ⟨rest ++ [e], finished, abandoned⟩ e ⟨rest, finished, e :: abandoned⟩

/-- The log holds what was executed, the oldest execution first. -/
inductive Run (q : Queue α) : List (Entry α) → Queue α → Prop
  | nil : Run q [] q
  | snoc {log : List (Entry α)} {e : Entry α} {q' q'' : Queue α} (hrun : Run q log q')
    (hstep : Step budget first q' e q'') : Run q (log ++ [e]) q''

end Budget

variable {budget : Nat} {first : α → Option Nat} {q q' : Queue α} {e : Entry α}

/-! ### Counting executions -/

section Counting

variable {n : Option Nat} {failures : Nat}

theorem executions_pos (hn : n ≠ some 0) : 0 < executions budget n := by
  cases n with
  | none => exact Nat.succ_pos budget
  | some k =>
    have hk : k ≠ 0 := fun h => hn (congrArg some h)
    simp only [executions]
    omega

theorem executions_succeeds (hlt : failures < executions budget n) (hn : n = some (failures + 1)) :
    InBudget budget n ∧ executions budget n = failures + 1 := by
  subst hn
  simp only [executions] at hlt ⊢
  exact ⟨⟨failures + 1, rfl, by omega⟩, by omega⟩

theorem executions_retry (hlt : failures < executions budget n) (hn : n ≠ some (failures + 1))
    (hroom : failures < budget) : failures + 1 < executions budget n := by
  cases n with
  | none => exact Nat.succ_lt_succ hroom
  | some k =>
    have hk : k ≠ failures + 1 := fun h => hn (congrArg some h)
    simp only [executions] at hlt ⊢
    omega

theorem executions_abandon (hlt : failures < executions budget n) (hn : n ≠ some (failures + 1))
    (hspent : budget ≤ failures) :
    failures = budget ∧ ¬InBudget budget n ∧ executions budget n = failures + 1 := by
  cases n with
  | none =>
    simp only [executions] at hlt ⊢
    exact ⟨by omega, fun ⟨_, hk, _⟩ => (nomatch hk), by omega⟩
  | some k =>
    have hk : k ≠ failures + 1 := fun h => hn (congrArg some h)
    simp only [executions] at hlt ⊢
    refine ⟨by omega, fun ⟨k', hk', hle⟩ => ?_, by omega⟩
    obtain rfl := Option.mem_some_iff.mp hk'
    omega

end Counting

/-! ### Histories -/

section History

variable [DecidableEq κ] {key : α → κ} {log : List (Entry α)}

/-- The executions of one task. -/
def history (key : α → κ) (log : List (Entry α)) (task : α) : List (Entry α) :=
  log.filter fun e => key e.task = key task

/-- The first executions of a task. -/
def attempts (task : α) (n : Nat) : List (Entry α) := (List.range n).map (Entry.mk task)

@[simp] theorem history_nil (task : α) : history key [] task = [] := rfl

theorem history_concat_self (e : Entry α) :
    history key (log ++ [e]) e.task = history key log e.task ++ [e] := by
  simp [history]

theorem history_concat_of_ne {e : Entry α} {task : α} (hne : key e.task ≠ key task) :
    history key (log ++ [e]) task = history key log task := by
  simp [history, hne]

theorem attempts_succ (e : Entry α) :
    attempts e.task (e.failures + 1) = attempts e.task e.failures ++ [e] := by
  simp [attempts, List.range_succ]

/-- Each task is in one place, which says how often it was executed. -/
structure Accounted (budget : Nat) (first : α → Option Nat) (key : α → κ) (tasks : List α)
    (log : List (Entry α)) (q : Queue α) : Prop where
  placed : ((q.waiting ++ q.finished ++ q.abandoned).map Entry.task).Perm tasks
  waiting : ∀ e ∈ q.waiting, e.failures < executions budget (first e.task) ∧
    history key log e.task = attempts e.task e.failures
  finished : ∀ e ∈ q.finished, InBudget budget (first e.task) ∧
    history key log e.task = attempts e.task (executions budget (first e.task))
  abandoned : ∀ e ∈ q.abandoned, e.failures = budget ∧ ¬InBudget budget (first e.task) ∧
    history key log e.task = attempts e.task (executions budget (first e.task))
  executed : ∀ e ∈ log, e.task ∈ tasks

theorem Accounted.start {tasks : List α} (hfirst : ∀ task ∈ tasks, first task ≠ some 0) :
    Accounted budget first key tasks [] (start tasks) where
  placed := by simp [RetryQueue.start, Function.comp_def]
  waiting e he := by
    obtain ⟨task, htask, rfl⟩ := List.mem_map.mp he
    exact ⟨executions_pos (hfirst task htask), rfl⟩
  finished e he := nomatch he
  abandoned e he := nomatch he
  executed e he := nomatch he

section Step

variable {tasks : List α} {rest finished abandoned : List (Entry α)}

theorem Accounted.key_ne (h : Accounted budget first key tasks log ⟨rest ++ [e], finished, abandoned⟩)
    (hkeys : (tasks.map key).Nodup) {other : Entry α}
    (hother : other ∈ rest ++ finished ++ abandoned) : key e.task ≠ key other.task := by
  have hperm : (e :: (rest ++ finished ++ abandoned)).Perm
      (rest ++ [e] ++ finished ++ abandoned) := by
    simp only [List.append_assoc, List.cons_append, List.nil_append]
    exact List.perm_middle.symm
  have hnodup := ((hperm.map Entry.task).trans h.placed).map key |>.nodup_iff.mpr hkeys
  simp only [List.map_cons, List.nodup_cons, List.map_map, List.mem_map, not_exists, not_and] at hnodup
  exact fun heq => hnodup.1 other hother heq.symm

/-- Executing an entry leaves the histories of the others as they are. -/
theorem Accounted.history_other
    (h : Accounted budget first key tasks log ⟨rest ++ [e], finished, abandoned⟩)
    (hkeys : (tasks.map key).Nodup) {other : Entry α}
    (hother : other ∈ rest ++ finished ++ abandoned) :
    history key (log ++ [e]) other.task = history key log other.task :=
  history_concat_of_ne (h.key_ne hkeys hother)

theorem Accounted.history_executed
    (h : Accounted budget first key tasks log ⟨rest ++ [e], finished, abandoned⟩) :
    history key (log ++ [e]) e.task = attempts e.task (e.failures + 1) := by
  rw [history_concat_self, (h.waiting e (by simp)).2, attempts_succ]

theorem Accounted.executed_concat
    (h : Accounted budget first key tasks log ⟨rest ++ [e], finished, abandoned⟩) :
    ∀ other ∈ log ++ [e], other.task ∈ tasks := by
  intro other hother
  rcases List.mem_append.mp hother with hother | hother
  · exact h.executed other hother
  · rw [List.mem_singleton.mp hother]
    exact h.placed.mem_iff.mp (by simp)

end Step

/-- **The step**: every task stays accounted for. -/
theorem Accounted.step {tasks : List α} (h : Accounted budget first key tasks log q)
    (hkeys : (tasks.map key).Nodup) (hstep : Step budget first q e q') :
    Accounted budget first key tasks (log ++ [e]) q' := by
  cases hstep with
  | finish rest finished abandoned e hsucceeds =>
    have hlt := (h.waiting e (by simp)).1
    obtain ⟨hin, hcount⟩ := executions_succeeds hlt hsucceeds
    refine ⟨?_, fun other hother => ?_, fun other hother => ?_, fun other hother => ?_, h.executed_concat⟩
    · refine List.Perm.trans (List.Perm.map _ ?_) h.placed
      simp
    · rw [h.history_other hkeys (by simp [hother])]
      exact h.waiting other (by simp [hother])
    · rcases List.mem_cons.mp hother with rfl | hother
      · rw [hcount]
        exact ⟨hin, h.history_executed⟩
      · rw [h.history_other hkeys (by simp [hother])]
        exact h.finished other hother
    · rw [h.history_other hkeys (by simp [hother])]
      exact h.abandoned other hother
  | retry rest finished abandoned e hfails hroom =>
    have hlt := (h.waiting e (by simp)).1
    refine ⟨?_, fun other hother => ?_, fun other hother => ?_, fun other hother => ?_, h.executed_concat⟩
    · refine List.Perm.trans ?_ h.placed
      simp only [List.map_append, List.map_cons, List.append_assoc, List.cons_append, List.nil_append]
      exact List.perm_middle.symm
    · rcases List.mem_cons.mp hother with rfl | hother
      · exact ⟨executions_retry hlt hfails hroom, h.history_executed⟩
      · rw [h.history_other hkeys (by simp [hother])]
        exact h.waiting other (by simp [hother])
    · rw [h.history_other hkeys (by simp [hother])]
      exact h.finished other hother
    · rw [h.history_other hkeys (by simp [hother])]
      exact h.abandoned other hother
  | abandon rest finished abandoned e hfails hspent =>
    have hlt := (h.waiting e (by simp)).1
    obtain ⟨hbudget, hout, hcount⟩ := executions_abandon hlt hfails hspent
    refine ⟨?_, fun other hother => ?_, fun other hother => ?_, fun other hother => ?_, h.executed_concat⟩
    · refine List.Perm.trans (List.Perm.map _ ?_) h.placed
      simp only [List.append_assoc, List.singleton_append, List.perm_append_left_iff]
      exact List.perm_middle
    · rw [h.history_other hkeys (by simp [hother])]
      exact h.waiting other (by simp [hother])
    · rw [h.history_other hkeys (by simp [hother])]
      exact h.finished other hother
    · rcases List.mem_cons.mp hother with rfl | hother
      · rw [hcount]
        exact ⟨hbudget, hout, h.history_executed⟩
      · rw [h.history_other hkeys (by simp [hother])]
        exact h.abandoned other hother

theorem Run.accounted {tasks : List α} (hkeys : (tasks.map key).Nodup)
    (hfirst : ∀ task ∈ tasks, first task ≠ some 0) (hrun : Run budget first (RetryQueue.start tasks) log q) :
    Accounted budget first key tasks log q := by
  induction hrun with
  | nil => exact .start hfirst
  | snoc _ hstep ih => exact ih.step hkeys hstep

/-! ### Drained queues -/

section Drained

variable {tasks : List α} (h : Accounted budget first key tasks log q) (hdrained : q.waiting = [])

include h hdrained

theorem Accounted.drained_tasks :
    (q.finished.map Entry.task ++ q.abandoned.map Entry.task).Perm tasks := by
  have hplaced := h.placed
  rwa [hdrained, List.nil_append, List.map_append] at hplaced

/-- The tasks that finish are those that succeed within their budget. -/
theorem Accounted.finished_perm :
    (q.finished.map Entry.task).Perm (tasks.filter fun task => InBudget budget (first task)) := by
  have hperm := (h.drained_tasks hdrained).filter fun task => InBudget budget (first task)
  rw [List.filter_append, List.filter_eq_self.mpr, List.filter_eq_nil_iff.mpr, List.append_nil] at hperm
  · exact hperm
  · intro task htask
    obtain ⟨e, he, rfl⟩ := List.mem_map.mp htask
    simpa using (h.abandoned e he).2.1
  · intro task htask
    obtain ⟨e, he, rfl⟩ := List.mem_map.mp htask
    simpa using (h.finished e he).1

/-- The tasks that are abandoned are the others. -/
theorem Accounted.abandoned_perm :
    (q.abandoned.map Entry.task).Perm (tasks.filter fun task => ¬InBudget budget (first task)) := by
  have hperm := (h.drained_tasks hdrained).filter fun task => ¬InBudget budget (first task)
  rw [List.filter_append, List.filter_eq_nil_iff.mpr, List.filter_eq_self.mpr, List.nil_append] at hperm
  · exact hperm
  · intro task htask
    obtain ⟨e, he, rfl⟩ := List.mem_map.mp htask
    simpa using (h.abandoned e he).2.1
  · intro task htask
    obtain ⟨e, he, rfl⟩ := List.mem_map.mp htask
    simpa using (h.finished e he).1

/-- **A task is executed** until it succeeds or its budget is spent. -/
theorem Accounted.history_eq {task : α} (htask : task ∈ tasks) :
    history key log task = attempts task (executions budget (first task)) := by
  have hmem := (h.drained_tasks hdrained).mem_iff.mpr htask
  rcases List.mem_append.mp hmem with hmem | hmem
  · obtain ⟨e, he, rfl⟩ := List.mem_map.mp hmem
    exact (h.finished e he).2
  · obtain ⟨e, he, rfl⟩ := List.mem_map.mp hmem
    exact (h.abandoned e he).2.2

end Drained

end History

/-! ### Termination -/

/-- The executions that are left, if every entry has its turns alone. -/
def potential (budget : Nat) (first : α → Option Nat) (entries : List (Entry α)) : Nat :=
  (entries.map fun e => executions budget (first e.task) - e.failures).sum

/-- Whoever waits has an execution left. -/
def Live (budget : Nat) (first : α → Option Nat) (q : Queue α) : Prop :=
  ∀ e ∈ q.waiting, e.failures < executions budget (first e.task)

theorem Step.live (hstep : Step budget first q e q') (hlive : Live budget first q) :
    Live budget first q' := by
  have hrest {rest : List (Entry α)} (hwaiting : q.waiting = rest ++ [e]) :
      ∀ other ∈ rest, other.failures < executions budget (first other.task) :=
    fun other hother => hlive other (hwaiting ▸ List.mem_append_left _ hother)
  cases hstep with
  | finish => exact hrest rfl
  | abandon => exact hrest rfl
  | retry rest finished abandoned e hfails hroom =>
    intro other hother
    rcases List.mem_cons.mp hother with rfl | hother
    · exact executions_retry (hlive e (by simp)) hfails hroom
    · exact hrest rfl other hother

theorem Step.potential_lt (hstep : Step budget first q e q') (hlive : Live budget first q) :
    potential budget first q'.waiting < potential budget first q.waiting := by
  have hlt : e.failures < executions budget (first e.task) := by
    cases hstep <;> exact hlive _ (by simp)
  cases hstep with
  | finish =>
    simp only [potential, List.map_append, List.sum_append, List.map_cons, List.map_nil,
      List.sum_singleton]
    omega
  | abandon =>
    simp only [potential, List.map_append, List.sum_append, List.map_cons, List.map_nil,
      List.sum_singleton]
    omega
  | retry =>
    simp only [potential, List.map_append, List.sum_append, List.map_cons, List.map_nil, List.sum_cons]
    omega

/-- Somebody who waits is executed next. -/
theorem exists_step (budget : Nat) (first : α → Option Nat) (hwaiting : q.waiting ≠ []) :
    ∃ e q', Step budget first q e q' := by
  rcases List.eq_nil_or_concat q.waiting with hnil | ⟨rest, e, hconcat⟩
  · exact absurd hnil hwaiting
  · obtain ⟨waiting, finished, abandoned⟩ := q
    obtain rfl : waiting = rest ++ [e] := hconcat.trans List.concat_eq_append
    by_cases hsucceeds : first e.task = some (e.failures + 1)
    · exact ⟨e, _, .finish rest finished abandoned e hsucceeds⟩
    · rcases Nat.lt_or_ge e.failures budget with hroom | hspent
      · exact ⟨e, _, .retry rest finished abandoned e hsucceeds hroom⟩
      · exact ⟨e, _, .abandon rest finished abandoned e hsucceeds hspent⟩

theorem Run.drains {log : List (Entry α)} (hrun : Run budget first q log q')
    (hlive : Live budget first q') :
    ∃ log' final, Run budget first q (log ++ log') final ∧ final.waiting = [] := by
  -- each execution takes one off the potential
  induction hn : potential budget first q'.waiting using Nat.strongRecOn generalizing log q' with
  | _ n ih =>
    by_cases hwaiting : q'.waiting = []
    · exact ⟨[], q', by rwa [List.append_nil], hwaiting⟩
    · obtain ⟨e, q'', hstep⟩ := exists_step budget first hwaiting
      obtain ⟨log', final, hfinal, hempty⟩ :=
        ih _ (hn ▸ hstep.potential_lt hlive) (hrun.snoc hstep) (hstep.live hlive) rfl
      refine ⟨e :: log', final, ?_, hempty⟩
      rwa [List.append_assoc, List.singleton_append] at hfinal

/-- **Every queue drains.** -/
theorem exists_drained (budget : Nat) {tasks : List α} (hfirst : ∀ task ∈ tasks, first task ≠ some 0) :
    ∃ log q, Run budget first (start tasks) log q ∧ q.waiting = [] := by
  have hlive : Live budget first (start tasks) := by
    intro e he
    obtain ⟨task, htask, rfl⟩ := List.mem_map.mp he
    exact executions_pos (hfirst task htask)
  obtain ⟨log, q, hrun, hempty⟩ := Run.drains .nil hlive
  exact ⟨log, q, hrun, hempty⟩

end RetryQueue
