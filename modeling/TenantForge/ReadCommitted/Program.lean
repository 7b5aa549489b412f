import TenantForge.ReadCommitted.Session
/-!
# Programs over a session

`Prog` is the syntax of a process that talks to the database through one session and to the rest of
the world (a clock, a cache, a queue) through atomic environment actions. A statement is one node, so
other processes may run between any two of them. `Prog.advance` is what the next statement does once
its locks are granted, and `Prog.run` is the run of a program that nobody interrupts.
-/

namespace ReadCommitted

/-- What processes share: the committed store, the environment, and the commits so far (newest
first), which no statement reads. A commit records the session that made it. -/
structure Commit (S : Schema) (T : Type) where
  tag : T
  session : Session S
  before : Store S

/-- The committed store after a commit. -/
def Commit.after {S : Schema} {T : Type} (c : Commit S T) : Store S := c.session.view c.before

/-- The source of fresh ids: it never gives the same id twice. -/
structure Supply (Id : Type) where
  value : Nat → Id
  distinct : Function.Injective value
  drawn : Nat

def Supply.head {Id : Type} (ids : Supply Id) : Id := ids.value ids.drawn

def Supply.tail {Id : Type} (ids : Supply Id) : Supply Id := { ids with drawn := ids.drawn + 1 }

/-- The same source, some draws later. -/
structure Supply.Leads {Id : Type} (ids ids' : Supply Id) : Prop where
  value : ids'.value = ids.value
  drawn : ids.drawn ≤ ids'.drawn

theorem Supply.Leads.refl {Id : Type} (ids : Supply Id) : ids.Leads ids := ⟨rfl, Nat.le_refl _⟩

theorem Supply.Leads.trans {Id : Type} {ids₁ ids₂ ids₃ : Supply Id} (h₁ : ids₁.Leads ids₂)
    (h₂ : ids₂.Leads ids₃) : ids₁.Leads ids₃ :=
  ⟨h₂.value.trans h₁.value, Nat.le_trans h₁.drawn h₂.drawn⟩

theorem Supply.leads_tail {Id : Type} (ids : Supply Id) : ids.Leads ids.tail :=
  ⟨rfl, Nat.le_succ _⟩

/-- The ids that are still to be drawn. -/
def Supply.Holds {Id : Type} (ids : Supply Id) (id : Id) : Prop :=
  ∃ n, ids.drawn ≤ n ∧ ids.value n = id

theorem Supply.holds_head {Id : Type} (ids : Supply Id) : ids.Holds ids.head := ⟨_, Nat.le_refl _, rfl⟩

theorem Supply.Leads.holds {Id : Type} {ids ids' : Supply Id} (h : ids.Leads ids') {id : Id}
    (hid : ids'.Holds id) : ids.Holds id := by
  obtain ⟨n, hn, rfl⟩ := hid
  exact ⟨n, Nat.le_trans h.drawn hn, by rw [h.value]⟩

/-- What was drawn is gone. -/
theorem Supply.Leads.not_holds_head {Id : Type} {ids ids' : Supply Id} (h : ids.tail.Leads ids') :
    ¬ids'.Holds ids.head := by
  rintro ⟨n, hn, hid⟩
  rw [h.value] at hid
  have hdrawn := ids.distinct hid
  have hlt : ids.drawn + 1 ≤ n := Nat.le_trans h.drawn hn
  omega

structure Shared (S : Schema) (E T : Type) where
  db : Store S
  env : E
  ids : Supply S.Id
  log : List (Commit S T)

/-- The shared state after a commit of session `σ`. -/
def Shared.commit {S : Schema} {E T : Type} (tag : T) (σ : Session S) (s : Shared S E T) :
    Shared S E T :=
  { s with db := σ.view s.db, log := ⟨tag, σ, s.db⟩ :: s.log }

section Commit

variable {S : Schema} {E T : Type} (tag : T) (σ : Session S) (s : Shared S E T)

@[simp] theorem Shared.commit_db : (s.commit tag σ).db = σ.view s.db := rfl

@[simp] theorem Shared.commit_env : (s.commit tag σ).env = s.env := rfl

@[simp] theorem Shared.commit_ids : (s.commit tag σ).ids = s.ids := rfl

@[simp] theorem Shared.commit_log : (s.commit tag σ).log = ⟨tag, σ, s.db⟩ :: s.log := rfl

end Commit

/-- The shared state after an id was drawn. -/
def Shared.draw {S : Schema} {E T : Type} (s : Shared S E T) : Shared S E T :=
  { s with ids := s.ids.tail }

/-- A process: its result, an exception, or a statement, what follows each of its answers, and the way
out when the database aborts the transaction instead of answering. -/
inductive Prog (S : Schema) (E X : Type) (α : Type) : Type 1 where
  | pure (value : α)
  | throw (error : X)
  | read {β : Type} (query : Store S → β) (next : β → Prog S E X α) (failed : Prog S E X α)
  | lock (t : S.Table) (id : S.Id) (mode : Mode) (next failed : Prog S E X α)
  | insert {t : S.Table} (row : S.Row t) (next : Bool → Prog S E X α) (failed : Prog S E X α)
  | update (t : S.Table) (id : S.Id) (set : S.Row t → S.Row t)
      (next : UpdateResult → Prog S E X α) (failed : Prog S E X α)
  | delete (t : S.Table) (id : S.Id) (next failed : Prog S E X α)
  | attach {t : S.Table} (row : S.Row t) (next : S.Row t → Prog S E X α)
  | env {β : Type} (act : E → β × E) (next : β → Prog S E X α)
  | fresh (next : S.Id → Prog S E X α)
  | commit (next failed : Prog S E X α)
  | rollback (next : Prog S E X α)

/-- The exception of a statement whose transaction the database aborted. -/
class DatabaseError (X : Type) where
  aborted : X

export DatabaseError (aborted)

namespace Prog

variable {S : Schema} {E X T : Type} {α β : Type}

def bind : Prog S E X α → (α → Prog S E X β) → Prog S E X β
  | .pure value, f => f value
  | .throw error, _ => .throw error
  | .read query next failed, f => .read query (fun answer => (next answer).bind f) (failed.bind f)
  | .lock t id mode next failed, f => .lock t id mode (next.bind f) (failed.bind f)
  | .insert row next failed, f => .insert row (fun ok => (next ok).bind f) (failed.bind f)
  | .update t id set next failed, f =>
    .update t id set (fun result => (next result).bind f) (failed.bind f)
  | .delete t id next failed, f => .delete t id (next.bind f) (failed.bind f)
  | .attach row next, f => .attach row fun copy => (next copy).bind f
  | .env act next, f => .env act fun answer => (next answer).bind f
  | .fresh next, f => .fresh fun id => (next id).bind f
  | .commit next failed, f => .commit (next.bind f) (failed.bind f)
  | .rollback next, f => .rollback (next.bind f)

/-- `try ... except`: the handler sees every exception of the body. -/
def handle : Prog S E X α → (X → Prog S E X α) → Prog S E X α
  | .pure value, _ => .pure value
  | .throw error, h => h error
  | .read query next failed, h =>
    .read query (fun answer => (next answer).handle h) (failed.handle h)
  | .lock t id mode next failed, h => .lock t id mode (next.handle h) (failed.handle h)
  | .insert row next failed, h => .insert row (fun ok => (next ok).handle h) (failed.handle h)
  | .update t id set next failed, h =>
    .update t id set (fun result => (next result).handle h) (failed.handle h)
  | .delete t id next failed, h => .delete t id (next.handle h) (failed.handle h)
  | .attach row next, h => .attach row fun copy => (next copy).handle h
  | .env act next, h => .env act fun answer => (next answer).handle h
  | .fresh next, h => .fresh fun id => (next id).handle h
  | .commit next failed, h => .commit (next.handle h) (failed.handle h)
  | .rollback next, h => .rollback (next.handle h)

instance : Monad (Prog S E X) where
  pure := .pure
  bind := bind

instance : MonadExceptOf X (Prog S E X) where
  throw := .throw
  tryCatch := handle

@[simp] theorem pure_eq (value : α) : (Pure.pure value : Prog S E X α) = .pure value := rfl

@[simp] theorem throw_eq (error : X) :
    (MonadExcept.throw error : Prog S E X α) = .throw error := rfl

@[simp] theorem tryCatch_eq (body : Prog S E X α) (h : X → Prog S E X α) :
    (tryCatch body h : Prog S E X α) = body.handle h := rfl

@[simp] theorem bind_eq (p : Prog S E X α) (f : α → Prog S E X β) : (p >>= f) = p.bind f := rfl

@[simp] theorem map_eq (f : α → β) (p : Prog S E X α) :
    (f <$> p) = p.bind fun value => .pure (f value) := rfl

/-! ### Statements -/

section Statements

variable [DatabaseError X]

/-- A plain `SELECT`: it sees the rows committed before it starts, and the session's own writes. -/
def query (q : Store S → β) : Prog S E X β := .read q .pure (.throw aborted)

def act (f : E → β × E) : Prog S E X β := .env f .pure

/-- Draw an id that nobody had before. -/
def freshId : Prog S E X S.Id := .fresh .pure

def insertRow {t : S.Table} (row : S.Row t) : Prog S E X Bool := .insert row .pure (.throw aborted)

def updateRow (t : S.Table) (id : S.Id) (set : S.Row t → S.Row t) : Prog S E X UpdateResult :=
  .update t id set .pure (.throw aborted)

def deleteRow (t : S.Table) (id : S.Id) : Prog S E X Unit := .delete t id (.pure ()) (.throw aborted)

def commitTransaction : Prog S E X Unit := .commit (.pure ()) (.throw aborted)

def rollbackTransaction : Prog S E X Unit := .rollback (.pure ())

/-- The rows of table `t` that satisfy a `WHERE` clause. -/
def matching (t : S.Table) (cond : S.Row t → Bool) (db : Store S) : List (S.Row t) :=
  (db t).filter cond

/-- Lock the rows a `SELECT ... FOR UPDATE` found, one after another; each one is read again once its
lock is granted, and kept if its newest committed version is still there and still qualifies. -/
def lockMatching (t : S.Table) (cond : S.Row t → Bool) : List S.Id → Prog S E X (List (S.Row t))
  | [] => .pure []
  | id :: ids =>
    .lock t id .forUpdate
      (.read (fun db => (db.lookup t id).filter cond)
        (fun found => (lockMatching t cond ids).bind fun rows => .pure (found.toList ++ rows))
        (.throw aborted))
      (.throw aborted)

/-- `SELECT ... WHERE cond FOR UPDATE`. -/
def selectForUpdate (t : S.Table) (cond : S.Row t → Bool) : Prog S E X (List (S.Row t)) :=
  (query fun db => (matching t cond db).map S.id).bind (lockMatching t cond)

/-- The unit of work's copy of the first row of a result. -/
def first {t : S.Table} : List (S.Row t) → Prog S E X (Option (S.Row t))
  | [] => .pure none
  | row :: _ => .attach row fun copy => .pure (some copy)

/-- `session.scalar(select(Entity).where(cond))`. -/
def scalar (t : S.Table) (cond : S.Row t → Bool) : Prog S E X (Option (S.Row t)) :=
  (query (matching t cond)).bind first

/-- `session.scalar(select(Entity).where(cond).with_for_update())`. -/
def scalarForUpdate (t : S.Table) (cond : S.Row t → Bool) : Prog S E X (Option (S.Row t)) :=
  (selectForUpdate t cond).bind first

/-- The pairs of rows of two tables that satisfy a join condition. -/
def joined (t t' : S.Table) (cond : S.Row t → S.Row t' → Bool) (db : Store S) :
    List (S.Row t × S.Row t') :=
  (db t).flatMap fun row => ((db t').filter (cond row)).map fun row' => (row, row')

/-- Lock both rows of each pair that a join found, and keep the pairs that still qualify. -/
def lockJoined (t t' : S.Table) (cond : S.Row t → S.Row t' → Bool) :
    List (S.Id × S.Id) → Prog S E X (List (S.Row t × S.Row t'))
  | [] => .pure []
  | (id, id') :: ids =>
    .lock t id .forUpdate
      (.lock t' id' .forUpdate
        (.read (fun db => (db.lookup t id).bind fun row =>
            (db.lookup t' id').bind fun row' => if cond row row' then some (row, row') else none)
          (fun found => (lockJoined t t' cond ids).bind fun rows => .pure (found.toList ++ rows))
          (.throw aborted))
        (.throw aborted))
      (.throw aborted)

/-- `session.scalar(select(Entity).join(Other).where(cond).with_for_update())`. -/
def scalarJoinForUpdate (t t' : S.Table) (cond : S.Row t → S.Row t' → Bool) :
    Prog S E X (Option (S.Row t)) :=
  ((query fun db => (joined t t' cond db).map fun pair => (S.id pair.1, S.id pair.2)).bind
    (lockJoined t t' cond)).bind fun pairs => first (pairs.map Prod.fst)

/-- The unit of work's copies of all rows of a result. -/
def attachAll {t : S.Table} : List (S.Row t) → Prog S E X (List (S.Row t))
  | [] => .pure []
  | row :: rows => .attach row fun copy => (attachAll rows).bind fun copies => .pure (copy :: copies)

def deleteAll (t : S.Table) : List S.Id → Prog S E X Unit
  | [] => .pure ()
  | id :: ids => .delete t id (deleteAll t ids) (.throw aborted)

/-- Delete the rows that qualify, waiting for each of them: what a cascade does to a child table. -/
def deleteMatching (t : S.Table) (cond : S.Row t → Bool) : Prog S E X Unit :=
  (selectForUpdate t cond).bind fun rows => deleteAll t (rows.map S.id)

end Statements

/-! ### One statement -/

/-- The locks the next statement waits for. -/
def needs (σ : Session S) (db : Store S) : Prog S E X α → Needs S
  | .lock t id mode _ _ => [(.row t id, mode)]
  | .insert row _ _ => Session.insertNeeds row
  | .update t id set _ _ => match (σ.view db).lookup t id with
    | none => []
    | some old => Session.updateNeeds old (set old)
  | .delete t id _ _ => match (σ.view db).lookup t id with
    | none => []
    | some old => Session.deleteNeeds old
  | _ => []

/-- A process between two statements. -/
structure Local (S : Schema) (E X T : Type) (α : Type) where
  prog : Prog S E X α
  session : Session S
  shared : Shared S E T

/-- The effect of the next statement, its locks being granted; `none` after the last one. -/
def advance (tag : T) (σ : Session S) (s : Shared S E T) :
    Prog S E X α → Option (Local S E X T α)
  | .pure _ => none
  | .throw _ => none
  | .read query next _ => some ⟨next (query (σ.view s.db)), σ, s⟩
  | .lock t id mode next _ => some ⟨next, σ.hold [(.row t id, mode)] s.db, s⟩
  | .insert row next _ => some ⟨next (σ.insert s.db row).1, (σ.insert s.db row).2, s⟩
  | .update t id set next _ =>
    some ⟨next (σ.update s.db t id set).1, (σ.update s.db t id set).2, s⟩
  | .delete t id next _ => some ⟨next, σ.delete s.db t id, s⟩
  | .attach row next => some ⟨next (σ.copyOf row), σ.attach row, s⟩
  | .env act next => some ⟨next (act s.env).1, σ, { s with env := (act s.env).2 }⟩
  | .fresh next => some ⟨next s.ids.head, σ.hold [(.name s.ids.head, .forUpdate)] s.db, s.draw⟩
  | .commit next _ => some ⟨next, σ.renew, s.commit tag σ⟩
  | .rollback next => some ⟨next, .empty, s⟩

/-- Where a process goes on when the database aborts its transaction at the next statement. -/
def onAbort : Prog S E X α → Option (Prog S E X α)
  | .read _ _ failed => some failed
  | .lock _ _ _ _ failed => some failed
  | .insert _ _ failed => some failed
  | .update _ _ _ _ failed => some failed
  | .delete _ _ _ failed => some failed
  | .commit _ failed => some failed
  | _ => none

/-- A process waits for rows and unique values only. -/
theorem name_not_needed (p : Prog S E X α) (σ : Session S) (db : Store S) (id : S.Id) (mode : Mode) :
    (.name id, mode) ∉ p.needs σ db := by
  cases p with
  | insert row next failed => simp [needs, Session.insertNeeds, Session.indexKeys]
  | update t id' set next failed =>
    simp only [needs]
    split <;> simp [Session.updateNeeds, Session.indexKeys]
  | delete t id' next failed =>
    simp only [needs]
    split <;> simp [Session.deleteNeeds, Session.indexKeys]
  | _ => simp [needs]

/-! ### Uninterrupted runs -/

/-- A program run from beginning to end with nobody else at work and no abort. -/
def run (tag : T) : Prog S E X α → Session S → Shared S E T → Except X α × Session S × Shared S E T
  | .pure value, σ, s => (.ok value, σ, s)
  | .throw error, σ, s => (.error error, σ, s)
  | .read query next _, σ, s => (next (query (σ.view s.db))).run tag σ s
  | .lock t id mode next _, σ, s => next.run tag (σ.hold [(.row t id, mode)] s.db) s
  | .insert row next _, σ, s => (next (σ.insert s.db row).1).run tag (σ.insert s.db row).2 s
  | .update t id set next _, σ, s =>
    (next (σ.update s.db t id set).1).run tag (σ.update s.db t id set).2 s
  | .delete t id next _, σ, s => next.run tag (σ.delete s.db t id) s
  | .attach row next, σ, s => (next (σ.copyOf row)).run tag (σ.attach row) s
  | .env act next, σ, s => (next (act s.env).1).run tag σ { s with env := (act s.env).2 }
  | .fresh next, σ, s =>
    (next s.ids.head).run tag (σ.hold [(.name s.ids.head, .forUpdate)] s.db) s.draw
  | .commit next _, σ, s => next.run tag σ.renew (s.commit tag σ)
  | .rollback next, _, s => next.run tag .empty s

theorem run_bind (tag : T) (p : Prog S E X α) (f : α → Prog S E X β) (σ : Session S)
    (s : Shared S E T) : (p.bind f).run tag σ s =
      match p.run tag σ s with
      | (.ok value, σ', s') => (f value).run tag σ' s'
      | (.error error, σ', s') => (.error error, σ', s') := by
  induction p generalizing σ s <;> simp only [bind, run, *]

theorem run_bind_ok {tag : T} {p : Prog S E X α} {σ σ' : Session S} {s s' : Shared S E T} {value : α}
    (h : p.run tag σ s = (.ok value, σ', s')) (f : α → Prog S E X β) :
    (p.bind f).run tag σ s = (f value).run tag σ' s' := by
  rw [run_bind, h]

theorem run_bind_error {tag : T} {p : Prog S E X α} {σ σ' : Session S} {s s' : Shared S E T} {error : X}
    (h : p.run tag σ s = (.error error, σ', s')) (f : α → Prog S E X β) :
    (p.bind f).run tag σ s = (.error error, σ', s') := by
  rw [run_bind, h]

theorem exists_run_of_bind {tag : T} {p : Prog S E X α} {f : α → Prog S E X β} {σ σ'' : Session S}
    {s s'' : Shared S E T} {value : β} (h : (p.bind f).run tag σ s = (.ok value, σ'', s'')) :
    ∃ answer σ' s', p.run tag σ s = (.ok answer, σ', s') ∧
      (f answer).run tag σ' s' = (.ok value, σ'', s'') := by
  rw [run_bind] at h
  split at h
  · rename_i answer σ' s' hrun
    exact ⟨answer, σ', s', hrun, h⟩
  · cases h

theorem run_handle (tag : T) (p : Prog S E X α) (h : X → Prog S E X α) (σ : Session S)
    (s : Shared S E T) : (p.handle h).run tag σ s =
      match p.run tag σ s with
      | (.ok value, σ', s') => (.ok value, σ', s')
      | (.error error, σ', s') => (h error).run tag σ' s' := by
  induction p generalizing σ s <;> simp only [handle, run, *]

theorem bind_assoc {γ : Type} (p : Prog S E X α) (f : α → Prog S E X β) (g : β → Prog S E X γ) :
    (p.bind f).bind g = p.bind fun value => (f value).bind g := by
  induction p <;> simp only [bind, *]

/-! ### Uninterrupted queries and cascades -/

section Undisturbed

variable [DatabaseError X]

/-- A `FOR UPDATE` that nobody disturbs finds what the session sees. -/
theorem run_lockMatching (tag : T) {t : S.Table} (cond : S.Row t → Bool) (ids : List S.Id)
    (σ : Session S) (s : Shared S E T) (hσ : σ.Sound s.db) :
    ∃ σ', σ'.Sound s.db ∧ σ'.writes = σ.writes ∧ σ'.loaded = σ.loaded ∧
      (lockMatching (E := E) (X := X) t cond ids).run tag σ s =
        (.ok (ids.filterMap fun id => ((σ.view s.db).lookup t id).filter cond), σ', s) := by
  induction ids generalizing σ with
  | nil => exact ⟨σ, hσ, rfl, rfl, rfl⟩
  | cons id ids ih =>
    obtain ⟨σ', hσ', hw, hloaded, hrun⟩ := ih (σ.hold [(.row t id, .forUpdate)] s.db) (hσ.hold _ _)
    refine ⟨σ', hσ', hw, hloaded, ?_⟩
    rw [lockMatching, run, run, run_bind, hrun]
    simp only [run, Session.view_hold]
    cases hfound : ((σ.view s.db).lookup t id).filter cond <;> simp [hfound]

theorem run_selectForUpdate (tag : T) {t : S.Table} (cond : S.Row t → Bool) (σ : Session S)
    (s : Shared S E T) (hdb : s.db.Integral) (hσ : σ.Sound s.db) :
    ∃ σ', σ'.Sound s.db ∧ σ'.writes = σ.writes ∧ σ'.loaded = σ.loaded ∧
      (selectForUpdate (E := E) (X := X) t cond).run tag σ s =
        (.ok (matching t cond (σ.view s.db)), σ', s) := by
  obtain ⟨σ', hσ', hw, hloaded, hrun⟩ := run_lockMatching (E := E) (X := X) tag cond
    ((matching t cond (σ.view s.db)).map S.id) σ s hσ
  refine ⟨σ', hσ', hw, hloaded, ?_⟩
  rw [selectForUpdate, query, bind, run]
  refine hrun.trans ?_
  -- each row that qualifies is found again under its own id
  have hself : ∀ row ∈ matching t cond (σ.view s.db),
      ((σ.view s.db).lookup t (S.id row)).filter cond = some row := by
    intro row hrow
    obtain ⟨hmem, hcond⟩ := List.mem_filter.mp hrow
    rw [(hσ.integral hdb).lookup_of_mem hmem, Option.filter_some, if_pos hcond]
  have hall := List.filterMap_congr hself
  rw [List.filterMap_map]
  exact congrArg (fun rows => (Except.ok rows, σ', s)) (hall.trans List.filterMap_some)

/-- The unit of work's copy of the first row that qualifies. -/
theorem run_scalarForUpdate (tag : T) {t : S.Table} (cond : S.Row t → Bool) (σ : Session S)
    (s : Shared S E T) (hdb : s.db.Integral) (hσ : σ.Sound s.db) :
    ∃ σ', σ'.Sound s.db ∧ σ'.writes = σ.writes ∧ (∀ t', t' ≠ t → σ'.loaded t' = σ.loaded t') ∧
      (scalarForUpdate (E := E) (X := X) t cond).run tag σ s =
        (.ok ((matching t cond (σ.view s.db)).head?.map σ.copyOf), σ', s) := by
  obtain ⟨σ₁, hσ₁, hw, hloaded, hrun⟩ := run_selectForUpdate (E := E) (X := X) tag cond σ s hdb hσ
  rw [scalarForUpdate, run_bind, hrun]
  cases matching t cond (σ.view s.db) with
  | nil => exact ⟨σ₁, hσ₁, hw, fun _ _ => by rw [hloaded], rfl⟩
  | cons row rows =>
    refine ⟨σ₁.attach row, hσ₁.attach row, hw, fun t' ht => ?_, ?_⟩
    · rw [Session.loaded_attach_ne _ ht, hloaded]
    · simp only [first, run, List.head?_cons, Option.map_some]
      rw [Session.copyOf, Session.copyOf, hloaded]

theorem run_scalar (tag : T) {t : S.Table} (cond : S.Row t → Bool) (σ : Session S) (s : Shared S E T)
    (hσ : σ.Sound s.db) :
    ∃ σ', σ'.Sound s.db ∧ σ'.writes = σ.writes ∧ (∀ t', t' ≠ t → σ'.loaded t' = σ.loaded t') ∧
      (scalar (E := E) (X := X) t cond).run tag σ s =
        (.ok ((matching t cond (σ.view s.db)).head?.map σ.copyOf), σ', s) := by
  rw [scalar, query, bind, run]
  cases hrows : matching t cond (σ.view s.db) with
  | nil => exact ⟨σ, hσ, rfl, fun _ _ => rfl, by simp [bind, first, run]⟩
  | cons row rows =>
    exact ⟨σ.attach row, hσ.attach row, rfl, fun t' ht => Session.loaded_attach_ne _ ht row,
      by simp [bind, first, run]⟩

theorem run_deleteAll (tag : T) (t : S.Table) (ids : List S.Id) (σ : Session S) (s : Shared S E T)
    (hσ : σ.Sound s.db) :
    ∃ σ', σ'.Sound s.db ∧ (∀ t', t' ≠ t → σ'.view s.db t' = σ.view s.db t') ∧
      (∀ row ∈ σ'.view s.db t, row ∈ σ.view s.db t ∧ S.id row ∉ ids) ∧
      (deleteAll (E := E) (X := X) t ids).run tag σ s = (.ok (), σ', s) := by
  induction ids generalizing σ with
  | nil => exact ⟨σ, hσ, fun _ _ => rfl, fun row hrow => ⟨hrow, List.not_mem_nil⟩, rfl⟩
  | cons id ids ih =>
    obtain ⟨σ', hσ', hothers, hrows, hrun⟩ := ih (σ.delete s.db t id) (hσ.delete t id)
    refine ⟨σ', hσ', fun t' ht => ?_, fun row hrow => ?_, by rw [deleteAll, run, hrun]⟩
    · rw [hothers t' ht, Session.view_delete_ne ht]
    · obtain ⟨hrow, hids⟩ := hrows row hrow
      obtain ⟨hrow, hid⟩ := hσ.mem_view_delete.mp hrow
      exact ⟨hrow, List.not_mem_cons_of_ne_of_not_mem hid hids⟩

/-- A cascade that nobody disturbs leaves no row that qualifies. -/
theorem run_deleteMatching (tag : T) (t : S.Table) (cond : S.Row t → Bool) (σ : Session S)
    (s : Shared S E T) (hdb : s.db.Integral) (hσ : σ.Sound s.db) :
    ∃ σ', σ'.Sound s.db ∧ (∀ t', t' ≠ t → σ'.view s.db t' = σ.view s.db t') ∧
      (∀ row ∈ σ'.view s.db t, row ∈ σ.view s.db t ∧ cond row = false) ∧
      (deleteMatching (E := E) (X := X) t cond).run tag σ s = (.ok (), σ', s) := by
  obtain ⟨σ₁, hσ₁, hw, _, hrun₁⟩ := run_selectForUpdate (E := E) (X := X) tag cond σ s hdb hσ
  have hview : σ₁.view s.db = σ.view s.db := by rw [Session.view, Session.view, hw]
  obtain ⟨σ', hσ', hothers, hrows, hrun⟩ := run_deleteAll (E := E) (X := X) tag t
    ((matching t cond (σ.view s.db)).map S.id) σ₁ s hσ₁
  rw [hview] at hothers hrows
  refine ⟨σ', hσ', hothers, fun row hrow => ?_, ?_⟩
  · obtain ⟨hrow, hid⟩ := hrows row hrow
    exact ⟨hrow, Bool.eq_false_iff.mpr fun hcond =>
      hid (List.mem_map_of_mem (List.mem_filter.mpr ⟨hrow, hcond⟩))⟩
  · rw [deleteMatching, run_bind, hrun₁]
    exact hrun

end Undisturbed

end Prog

end ReadCommitted
