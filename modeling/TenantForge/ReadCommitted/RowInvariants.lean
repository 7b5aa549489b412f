import TenantForge.ReadCommitted.Frame
import TenantForge.ReadCommitted.Machine
/-!
# Row invariants

A property of single rows that every write establishes. `Prog.Upholds K` reads it off the text of a
program: an inserted row has the property, and an update gives it to every row that had it before. Then
no interleaving, abort or crash brings a row without the property into the store (`World.Run.satisfies`).
-/

namespace ReadCommitted

variable {S : Schema} {E X T : Type} {α β : Type} {K : (t : S.Table) → S.Row t → Prop}

/-! ### Stores and sessions -/

def Store.Satisfies (K : (t : S.Table) → S.Row t → Prop) (db : Store S) : Prop :=
  ∀ t, ∀ row ∈ db t, K t row

/-- The new versions have the property. -/
def Session.Satisfies (K : (t : S.Table) → S.Row t → Prop) (σ : Session S) : Prop :=
  ∀ t, ∀ entry ∈ σ.writes t, ∀ row, entry.2 = some row → K t row

namespace Session.Satisfies

variable {σ : Session S} {db : Store S}

theorem empty : (Session.empty : Session S).Satisfies K := fun _ _ h => nomatch h

theorem view (hσ : σ.Satisfies K) (hdb : db.Satisfies K) : (σ.view db).Satisfies K := by
  intro t row hrow
  rcases List.mem_append.mp hrow with hrow | hrow
  · exact hdb t row (List.mem_of_mem_filter hrow)
  · obtain ⟨entry, hentry, hversion⟩ := List.mem_filterMap.mp hrow
    exact hσ t entry hentry row hversion

theorem write (hσ : σ.Satisfies K) (needs : Needs S) (seen : Store S) (t : S.Table) (id : S.Id)
    {version : Option (S.Row t)} (hversion : ∀ row, version = some row → K t row) :
    (σ.write needs seen t id version).Satisfies K := by
  intro t' entry hentry row hrow
  rw [Session.writes_write] at hentry
  by_cases ht : t' = t
  · subst ht
    rw [Overlay.put_table_self] at hentry
    rcases List.mem_cons.mp hentry with rfl | hentry
    · exact hversion row hrow
    · exact hσ t' entry (List.mem_of_mem_filter hentry) row hrow
  · rw [Overlay.put_table_ne _ ht] at hentry
    exact hσ t' entry hentry row hrow

theorem insert (hσ : σ.Satisfies K) {t : S.Table} {row : S.Row t} (hrow : K t row) :
    (σ.insert db row).2.Satisfies K := by
  rw [Session.insert]
  split
  · exact hσ.write _ _ _ _ fun _ hsome => Option.some.inj hsome ▸ hrow
  · exact hσ

theorem update (hσ : σ.Satisfies K) (hdb : db.Satisfies K) {t : S.Table} {id : S.Id}
    {set : S.Row t → S.Row t} (hset : ∀ row, K t row → K t (set row)) :
    (σ.update db t id set).2.Satisfies K := by
  rw [Session.update]
  split
  · exact hσ
  · rename_i old hold
    split
    · exact hσ.write _ _ _ _ fun _ hsome =>
        Option.some.inj hsome ▸ hset old (hσ.view hdb t old (Store.lookup_mem hold))
    · exact hσ

theorem delete (hσ : σ.Satisfies K) {t : S.Table} {id : S.Id} : (σ.delete db t id).Satisfies K := by
  rw [Session.delete]
  split
  · exact hσ
  · refine hσ.write _ _ _ _ fun _ hsome => ?_
    cases hsome

end Session.Satisfies

/-! ### Programs -/

namespace Prog

def Upholds (K : (t : S.Table) → S.Row t → Prop) : Prog S E X α → Prop
  | .pure _ => True
  | .throw _ => True
  | .read _ next failed => (∀ answer, (next answer).Upholds K) ∧ failed.Upholds K
  | .lock _ _ _ next failed => next.Upholds K ∧ failed.Upholds K
  | .insert row next failed => K _ row ∧ (∀ ok, (next ok).Upholds K) ∧ failed.Upholds K
  | .update t _ set next failed =>
    (∀ row, K t row → K t (set row)) ∧ (∀ result, (next result).Upholds K) ∧ failed.Upholds K
  | .delete _ _ next failed => next.Upholds K ∧ failed.Upholds K
  | .attach _ next => ∀ copy, (next copy).Upholds K
  | .env _ next => ∀ answer, (next answer).Upholds K
  | .fresh next => ∀ id, (next id).Upholds K
  | .commit next failed => next.Upholds K ∧ failed.Upholds K
  | .rollback next => next.Upholds K

theorem Upholds.bind {p : Prog S E X α} {f : α → Prog S E X β} (hp : p.Upholds K)
    (hf : ∀ value, (f value).Upholds K) : (p.bind f).Upholds K := by
  induction p with
  | pure value => exact hf value
  | throw error => trivial
  | read query next failed ih ihf => exact ⟨fun a => ih a (hp.1 a), ihf hp.2⟩
  | lock t id mode next failed ih ihf => exact ⟨ih hp.1, ihf hp.2⟩
  | insert row next failed ih ihf => exact ⟨hp.1, fun ok => ih ok (hp.2.1 ok), ihf hp.2.2⟩
  | update t id set next failed ih ihf => exact ⟨hp.1, fun r => ih r (hp.2.1 r), ihf hp.2.2⟩
  | delete t id next failed ih ihf => exact ⟨ih hp.1, ihf hp.2⟩
  | attach row next ih => exact fun copy => ih copy (hp copy)
  | env act next ih => exact fun a => ih a (hp a)
  | fresh next ih => exact fun id => ih id (hp id)
  | commit next failed ih ihf => exact ⟨ih hp.1, ihf hp.2⟩
  | rollback next ih => exact ih hp

theorem Upholds.handle {p : Prog S E X α} {h : X → Prog S E X α} (hp : p.Upholds K)
    (hh : ∀ error, (h error).Upholds K) : (p.handle h).Upholds K := by
  induction p with
  | pure value => trivial
  | throw error => exact hh error
  | read query next failed ih ihf => exact ⟨fun a => ih a (hp.1 a), ihf hp.2⟩
  | lock t id mode next failed ih ihf => exact ⟨ih hp.1, ihf hp.2⟩
  | insert row next failed ih ihf => exact ⟨hp.1, fun ok => ih ok (hp.2.1 ok), ihf hp.2.2⟩
  | update t id set next failed ih ihf => exact ⟨hp.1, fun r => ih r (hp.2.1 r), ihf hp.2.2⟩
  | delete t id next failed ih ihf => exact ⟨ih hp.1, ihf hp.2⟩
  | attach row next ih => exact fun copy => ih copy (hp copy)
  | env act next ih => exact fun a => ih a (hp a)
  | fresh next ih => exact fun id => ih id (hp id)
  | commit next failed ih ihf => exact ⟨ih hp.1, ihf hp.2⟩
  | rollback next ih => exact ih hp

/-- A program upholds what it says of the tables that it never writes. -/
theorem Within.upholds {W : S.Table → Prop} {D : E → E → Prop} {C : Prop} {p : Prog S E X α}
    (hp : p.Within W D C) (hK : ∀ t, W t → ∀ row, K t row) : p.Upholds K := by
  induction p with
  | pure value => trivial
  | throw error => trivial
  | read query next failed ih ihf => exact ⟨fun a => ih a (hp.1 a), ihf hp.2⟩
  | lock t id mode next failed ih ihf => exact ⟨ih hp.1, ihf hp.2⟩
  | insert row next failed ih ihf => exact ⟨hK _ hp.1 row, fun ok => ih ok (hp.2.1 ok), ihf hp.2.2⟩
  | update t id set next failed ih ihf =>
    exact ⟨fun row _ => hK t hp.1 (set row), fun r => ih r (hp.2.1 r), ihf hp.2.2⟩
  | delete t id next failed ih ihf => exact ⟨ih hp.2.1, ihf hp.2.2⟩
  | attach row next ih => exact fun copy => ih copy (hp copy)
  | env act next ih => exact fun a => ih a (hp.2 a)
  | fresh next ih => exact fun id => ih id (hp id)
  | commit next failed ih ihf => exact ⟨ih hp.2.1, ihf hp.2.2⟩
  | rollback next ih => exact ih hp

section Statements

variable [DatabaseError X]

theorem upholds_insertRow {t : S.Table} {row : S.Row t} (hrow : K t row) :
    (insertRow row : Prog S E X Bool).Upholds K := ⟨hrow, fun _ => trivial, trivial⟩

theorem upholds_updateRow {t : S.Table} {id : S.Id} {set : S.Row t → S.Row t}
    (hset : ∀ row, K t row → K t (set row)) :
    (updateRow t id set : Prog S E X UpdateResult).Upholds K := ⟨hset, fun _ => trivial, trivial⟩

theorem upholds_deleteRow {t : S.Table} {id : S.Id} : (deleteRow t id : Prog S E X Unit).Upholds K :=
  ⟨trivial, trivial⟩

theorem upholds_deleteAll {t : S.Table} (ids : List S.Id) :
    (deleteAll t ids : Prog S E X Unit).Upholds K := by
  induction ids with
  | nil => trivial
  | cons id ids ih => exact ⟨ih, trivial⟩

end Statements

/-- One statement of a program that upholds the property. -/
theorem Upholds.advance {p : Prog S E X α} (hp : p.Upholds K) {tag : T} {σ : Session S}
    {s : Shared S E T} (hσ : σ.Satisfies K) (hs : s.db.Satisfies K) {next : Local S E X T α}
    (h : p.advance tag σ s = some next) :
    next.prog.Upholds K ∧ next.session.Satisfies K ∧ next.shared.db.Satisfies K := by
  cases p with
  | pure value => cases h
  | throw error => cases h
  | read query next failed => cases h; exact ⟨hp.1 _, hσ, hs⟩
  | lock t id mode next failed => cases h; exact ⟨hp.1, hσ, hs⟩
  | insert row next failed => cases h; exact ⟨hp.2.1 _, hσ.insert hp.1, hs⟩
  | update t id set next failed => cases h; exact ⟨hp.2.1 _, hσ.update hs hp.1, hs⟩
  | delete t id next failed => cases h; exact ⟨hp.1, hσ.delete, hs⟩
  | attach row next => cases h; exact ⟨hp _, hσ, hs⟩
  | env act next => cases h; exact ⟨hp _, hσ, hs⟩
  | fresh next => cases h; exact ⟨hp _, hσ, hs⟩
  | commit next failed => cases h; exact ⟨hp.1, .empty, hσ.view hs⟩
  | rollback next => cases h; exact ⟨hp, .empty, hs⟩

theorem Upholds.onAbort {p failed : Prog S E X α} (hp : p.Upholds K) (h : p.onAbort = some failed) :
    failed.Upholds K := by
  cases p with
  | read | lock | delete | commit => cases h; exact hp.2
  | insert | update => cases h; exact hp.2.2
  | pure | throw | attach | env | fresh | rollback => cases h

end Prog

/-! ### Worlds -/

/-- What a process has written and will write has the property. -/
structure Thread.Upholds (K : (t : S.Table) → S.Row t → Prop) (th : Thread S E X T α) : Prop where
  prog : ∀ p, th.prog = some p → p.Upholds K
  session : th.session.Satisfies K
  restarts : ∀ p ∈ th.restarts, p.Upholds K

structure World.Satisfies (K : (t : S.Table) → S.Row t → Prop) (w : World S E X T α) : Prop where
  db : w.shared.db.Satisfies K
  threads : ∀ th ∈ w.threads, th.Upholds K

theorem Thread.Upholds.restart {th : Thread S E X T α} (h : th.Upholds K) : th.restart.Upholds K where
  prog p hp := h.restarts p (List.mem_of_head? hp)
  session := .empty
  restarts p hp := h.restarts p (List.mem_of_mem_tail hp)

namespace World

theorem Satisfies.set {w : World S E X T α} (h : w.Satisfies K) {shared : Shared S E T}
    (hdb : shared.db.Satisfies K) (i : Nat) {th : Thread S E X T α} (hth : th.Upholds K) :
    (⟨shared, w.threads.set i th⟩ : World S E X T α).Satisfies K where
  db := hdb
  threads other hother := by
    rcases List.mem_or_eq_of_mem_set hother with hother | rfl
    · exact h.threads other hother
    · exact hth

/-- **The step**: every move keeps the invariant. -/
theorem Satisfies.step {w w' : World S E X T α} {m : Move} (h : w.Satisfies K)
    (hstep : w.step m = some w') : w'.Satisfies K := by
  cases m with
  | run i =>
    obtain ⟨th, prog, next, hth, hprog, hnext, _, rfl⟩ := step_run hstep
    have hupholds := h.threads th (List.mem_of_getElem? hth)
    obtain ⟨hp, hσ, hdb⟩ := (hupholds.prog prog hprog).advance hupholds.session h.db hnext
    exact h.set hdb i ⟨fun _ hsome => Option.some.inj hsome ▸ hp, hσ, hupholds.restarts⟩
  | abort i =>
    obtain ⟨th, prog, failed, hth, hprog, hfailed, rfl⟩ := step_abort hstep
    have hupholds := h.threads th (List.mem_of_getElem? hth)
    exact h.set h.db i ⟨fun _ hsome => Option.some.inj hsome ▸ (hupholds.prog prog hprog).onAbort hfailed,
      .empty, hupholds.restarts⟩
  | crash i =>
    obtain ⟨th, _, _, hth, _, _, rfl⟩ := step_crash hstep
    exact h.set h.db i (h.threads th (List.mem_of_getElem? hth)).restart

/-- **The run**: a store whose rows have the property keeps it. -/
theorem Run.satisfies {ok : World S E X T α → Move → Prop} {w w' : World S E X T α} (h : Run ok w w')
    (hw : w.Satisfies K) : w'.Satisfies K := by
  induction h with
  | refl => exact hw
  | step m _ _ hstep ih => exact ih.step hstep

theorem satisfies_start {shared : Shared S E T} {jobs : List T} {program : T → Prog S E X α}
    (hdb : shared.db.Satisfies K) (hprogram : ∀ job ∈ jobs, (program job).Upholds K) :
    (start shared jobs program).Satisfies K where
  db := hdb
  threads th hth := by
    obtain ⟨job, hjob, rfl⟩ := List.mem_map.mp hth
    exact ⟨fun _ hsome => Option.some.inj hsome ▸ hprogram job hjob, .empty, fun _ h => nomatch h⟩

end World

end ReadCommitted
