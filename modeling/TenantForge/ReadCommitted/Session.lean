import TenantForge.ReadCommitted.Store
/-!
# Sessions, row locks and constraint checks

A session is what one transaction owns: its pending writes, the locks it was granted, and the rows
its unit of work has loaded. Writing a row takes the row lock, and a lock on every unique value that
the write adds to or removes from an index, so a writer that would violate a unique constraint waits
for the transaction that holds the value, as PostgreSQL does.

`Session.Sound` says that a session's writes are covered by its locks. Two facts follow:

* `Session.Sound.commit_frozen`: a commit leaves alone every row and unique value that a transaction
  with compatible locks holds;
* `Session.Sound.of_frozen`: such a commit keeps the other session sound.
-/

namespace ReadCommitted

variable {S : Schema}

/-- Row lock strengths: `FOR KEY SHARE` (taken on the row a new foreign key names),
`FOR NO KEY UPDATE` (an `UPDATE` that keeps the unique values) and `FOR UPDATE`. -/
inductive Mode where
  | keyShare
  | noKeyUpdate
  | forUpdate
  deriving DecidableEq, Repr

def Mode.conflicts : Mode → Mode → Bool
  | .keyShare, .forUpdate => true
  | .forUpdate, .keyShare => true
  | .keyShare, _ => false
  | _, .keyShare => false
  | _, _ => true

@[simp] theorem Mode.conflicts_forUpdate (m : Mode) : m.conflicts .forUpdate = true := by
  cases m <;> rfl

@[simp] theorem Mode.forUpdate_conflicts (m : Mode) : Mode.forUpdate.conflicts m = true := by
  cases m <;> rfl

theorem Mode.conflicts_of_ne_keyShare {m m' : Mode} (hm : m ≠ .keyShare) (hm' : m' ≠ .keyShare) :
    m.conflicts m' = true := by
  cases m <;> cases m' <;> simp_all [Mode.conflicts]

/-- What a lock is on: a row, or a value of a unique index. No statement waits for a `name`: a session
holds it because it drew this id, which nobody else can have drawn. -/
inductive Key (S : Schema) where
  | row (t : S.Table) (id : S.Id)
  | index (t : S.Table) (u : S.Index)
  | name (id : S.Id)
  deriving DecidableEq

/-- A granted lock. `seen` is the committed store at the moment of the grant; no statement reads it. -/
structure Held (S : Schema) where
  key : Key S
  mode : Mode
  seen : Store S

/-- The locks a statement needs before it runs. -/
abbrev Needs (S : Schema) := List (Key S × Mode)

structure Session (S : Schema) where
  writes : Overlay S
  locks : List (Held S)
  loaded : (t : S.Table) → List (S.Row t)

/-- How an `UPDATE` by primary key ended: a row was changed, no row matched, or a unique constraint
(or the immutability of primary keys) refused the new version. -/
inductive UpdateResult where
  | done
  | missing
  | clash
  deriving DecidableEq, Repr

namespace Session

def empty : Session S := ⟨.empty, [], fun _ => []⟩

/-- What the transaction sees of the database. -/
def view (σ : Session S) (db : Store S) : Store S := σ.writes.apply db

def hold (σ : Session S) (needs : Needs S) (db : Store S) : Session S :=
  { σ with locks := needs.map (fun need => ⟨need.1, need.2, db⟩) ++ σ.locks }

def indexKeys (t : S.Table) (us : List S.Index) : Needs S :=
  us.map fun u => (.index t u, .forUpdate)

def insertNeeds {t : S.Table} (row : S.Row t) : Needs S :=
  (.row t (S.id row), .forUpdate) :: indexKeys t (S.index row) ++
    (S.parents row).map fun parent => (.row parent.1 parent.2, .keyShare)

/-- The unique values that only one of two versions of a row has. -/
def changedIndex {t : S.Table} (old new : S.Row t) : List S.Index :=
  (S.index old ++ S.index new).filter fun u => ¬(u ∈ S.index old ∧ u ∈ S.index new)

def updateNeeds {t : S.Table} (old new : S.Row t) : Needs S :=
  (.row t (S.id old), if changedIndex old new = [] then .noKeyUpdate else .forUpdate) ::
    indexKeys t (changedIndex old new)

def deleteNeeds {t : S.Table} (old : S.Row t) : Needs S :=
  (.row t (S.id old), .forUpdate) :: indexKeys t (S.index old)

/-- The primary key and the unique values are free, and the rows the foreign keys name exist. -/
def Accepts (σ : Session S) (db : Store S) {t : S.Table} (row : S.Row t) : Prop :=
  (σ.view db).lookup t (S.id row) = none ∧ (∀ u ∈ S.index row, ¬(σ.view db).HasIndex t u) ∧
    ∀ parent ∈ S.parents row, ((σ.view db).lookup parent.1 parent.2).isSome

instance (σ : Session S) (db : Store S) {t : S.Table} (row : S.Row t) :
    Decidable (σ.Accepts db row) :=
  have : Decidable ((σ.view db).lookup t (S.id row) = none) :=
    decidable_of_iff (((σ.view db).lookup t (S.id row)).isNone = true) Option.isNone_iff_eq_none
  inferInstanceAs (Decidable (_ ∧ _ ∧ _))

/-- A new version of a row, under the locks that were granted for it. -/
def write (σ : Session S) (needs : Needs S) (db : Store S) (t : S.Table) (id : S.Id)
    (version : Option (S.Row t)) : Session S :=
  { σ.hold needs db with writes := σ.writes.put t id version }

/-- `INSERT`: `false` is an integrity error. -/
def insert (σ : Session S) (db : Store S) {t : S.Table} (row : S.Row t) : Bool × Session S :=
  if σ.Accepts db row then (true, σ.write (insertNeeds row) db t (S.id row) (some row))
  else (false, σ)

/-- The new version keeps its primary key and adds no unique value that another row has. -/
def Admits (σ : Session S) (db : Store S) {t : S.Table} (old new : S.Row t) : Prop :=
  S.id new = S.id old ∧ ∀ u ∈ S.index new, u ∉ S.index old → ¬(σ.view db).HasIndex t u

instance (σ : Session S) (db : Store S) {t : S.Table} (old new : S.Row t) :
    Decidable (σ.Admits db old new) :=
  inferInstanceAs (Decidable (_ ∧ _))

/-- `UPDATE ... WHERE id = ...`, setting the columns that `set` changes. -/
def update (σ : Session S) (db : Store S) (t : S.Table) (id : S.Id) (set : S.Row t → S.Row t) :
    UpdateResult × Session S :=
  match (σ.view db).lookup t id with
  | none => (.missing, σ)
  | some old =>
    if σ.Admits db old (set old) then
      (.done, σ.write (updateNeeds old (set old)) db t id (some (set old)))
    else (.clash, σ)

/-- `DELETE ... WHERE id = ...`. -/
def delete (σ : Session S) (db : Store S) (t : S.Table) (id : S.Id) : Session S :=
  match (σ.view db).lookup t id with
  | none => σ
  | some old => σ.write (deleteNeeds old) db t id none

/-- The unit of work's own copy of a row: the one loaded first, whatever the database holds now. -/
def copyOf (σ : Session S) {t : S.Table} (row : S.Row t) : S.Row t :=
  ((σ.loaded t).find? fun copy => S.id copy = S.id row).getD row

/-- Enter a row into the identity map, unless a copy of it is there. -/
def attach (σ : Session S) {t : S.Table} (row : S.Row t) : Session S :=
  let copies := σ.loaded t
  let present := copies.any fun copy => S.id copy = S.id row
  { σ with loaded := Function.update σ.loaded t (if present then copies else row :: copies) }

/-- A new transaction of the same session: the loaded copies stay. -/
def renew (σ : Session S) : Session S := ⟨.empty, [], σ.loaded⟩

@[simp] theorem writes_empty : (empty : Session S).writes = .empty := rfl

@[simp] theorem view_empty (db : Store S) : (empty : Session S).view db = db :=
  Overlay.apply_empty db

@[simp] theorem view_renew (σ : Session S) (db : Store S) : σ.renew.view db = db :=
  Overlay.apply_empty db

@[simp] theorem view_attach (σ : Session S) {t : S.Table} (row : S.Row t) (db : Store S) :
    (σ.attach row).view db = σ.view db := rfl

@[simp] theorem view_hold (σ : Session S) (needs : Needs S) (seen db : Store S) :
    (σ.hold needs seen).view db = σ.view db := rfl

section Write

variable (σ : Session S) (needs : Needs S) (db : Store S) (t : S.Table) (id : S.Id)
  (version : Option (S.Row t))

@[simp] theorem writes_write :
    (σ.write needs db t id version).writes = σ.writes.put t id version := rfl

@[simp] theorem loaded_write : (σ.write needs db t id version).loaded = σ.loaded := rfl

theorem locks_write : σ.locks ⊆ (σ.write needs db t id version).locks :=
  List.subset_append_right _ _

end Write

@[simp] theorem writes_attach (σ : Session S) {t : S.Table} (row : S.Row t) :
    (σ.attach row).writes = σ.writes := rfl

@[simp] theorem locks_attach (σ : Session S) {t : S.Table} (row : S.Row t) :
    (σ.attach row).locks = σ.locks := rfl

theorem loaded_attach_ne (σ : Session S) {t t' : S.Table} (h : t' ≠ t) (row : S.Row t) :
    (σ.attach row).loaded t' = σ.loaded t' :=
  Function.update_of_ne h _ _

/-- A copy has the primary key of the row it stands for. -/
theorem id_copyOf (σ : Session S) {t : S.Table} (row : S.Row t) : S.id (σ.copyOf row) = S.id row := by
  rw [copyOf]
  cases hfind : (σ.loaded t).find? fun copy => S.id copy = S.id row with
  | none => rfl
  | some copy => simpa using List.find?_some hfind

/-- Entering a row into the identity map fixes the copy of rows with its id. -/
theorem copyOf_attach (σ : Session S) {t : S.Table} (row row' : S.Row t) :
    (σ.attach row).copyOf row' = if S.id row = S.id row' then σ.copyOf row else σ.copyOf row' := by
  have hloaded : (σ.attach row).loaded t =
      if (σ.loaded t).any fun copy => S.id copy = S.id row then σ.loaded t else row :: σ.loaded t :=
    Function.update_self _ _ _
  rw [copyOf, copyOf, copyOf, hloaded]
  by_cases hpresent : ((σ.loaded t).any fun copy => S.id copy = S.id row) = true
  · rw [if_pos hpresent]
    split
    · rename_i hid
      obtain ⟨copy, hmem, hcopy⟩ := List.any_eq_true.mp hpresent
      cases hfind : (σ.loaded t).find? fun copy => S.id copy = S.id row with
      | none => exact absurd hcopy (List.find?_eq_none.mp hfind copy hmem)
      | some found => simp [← hid, hfind]
    · rfl
  · rw [if_neg hpresent]
    split
    · rename_i hid
      have hnone : (σ.loaded t).find? (fun copy => S.id copy = S.id row) = none := by
        simpa [List.find?_eq_none] using hpresent
      rw [List.find?_cons_of_pos (by simpa using hid), hnone]
      rfl
    · rename_i hid
      rw [List.find?_cons_of_neg (by simpa using hid)]

/-- A table without pending versions is seen as committed. -/
theorem view_of_nil {σ : Session S} {t : S.Table} (h : σ.writes t = []) (db : Store S) :
    σ.view db t = db t := by
  simp [view, Overlay.apply, Overlay.find, h]

/-- A table with one pending version, as it is seen. -/
theorem mem_view_single {σ : Session S} {t : S.Table} {id : S.Id} {version : Option (S.Row t)}
    (h : σ.writes t = [(id, version)]) (db : Store S) (row : S.Row t) :
    row ∈ σ.view db t ↔ (row ∈ db t ∧ S.id row ≠ id) ∨ version = some row :=
  Overlay.mem_apply_single h

theorem lookup_view_of_nil {σ : Session S} {t : S.Table} (h : σ.writes t = []) (db : Store S)
    (id : S.Id) : (σ.view db).lookup t id = db.lookup t id := by
  rw [Store.lookup, view_of_nil h, Store.lookup]

end Session

/-! ### Stability of what is locked -/

/-- What a transaction's locks promise it about a later committed store: a row locked for writing has
not changed, a row locked in `keyShare` mode is still there, and a locked unique value is as taken
or as free as before. -/
structure Frozen (locks : List (Held S)) (db db' : Store S) : Prop where
  row : ∀ held ∈ locks, ∀ t id, held.key = .row t id → held.mode ≠ .keyShare →
    db'.lookup t id = db.lookup t id
  shared : ∀ held ∈ locks, ∀ t id, held.key = .row t id →
    (db.lookup t id).isSome → (db'.lookup t id).isSome
  index : ∀ held ∈ locks, ∀ t u, held.key = .index t u → (db'.HasIndex t u ↔ db.HasIndex t u)

theorem Frozen.refl (locks : List (Held S)) (db : Store S) : Frozen locks db db :=
  ⟨fun _ _ _ _ _ _ => rfl, fun _ _ _ _ _ h => h, fun _ _ _ _ _ => Iff.rfl⟩

theorem Frozen.trans {locks : List (Held S)} {db₁ db₂ db₃ : Store S} (h₁ : Frozen locks db₁ db₂)
    (h₂ : Frozen locks db₂ db₃) : Frozen locks db₁ db₃ where
  row held hmem t id hkey hmode :=
    (h₂.row held hmem t id hkey hmode).trans (h₁.row held hmem t id hkey hmode)
  shared held hmem t id hkey hsome :=
    h₂.shared held hmem t id hkey (h₁.shared held hmem t id hkey hsome)
  index held hmem t u hkey :=
    (h₂.index held hmem t u hkey).trans (h₁.index held hmem t u hkey)

theorem Frozen.mono {locks locks' : List (Held S)} {db db' : Store S} (hsub : locks ⊆ locks')
    (h : Frozen locks' db db') : Frozen locks db db' :=
  ⟨fun held hmem => h.row held (hsub hmem), fun held hmem => h.shared held (hsub hmem),
    fun held hmem => h.index held (hsub hmem)⟩

/-- No lock of one list conflicts with a lock of the other. -/
def Compatible (locks locks' : List (Held S)) : Prop :=
  ∀ held ∈ locks, ∀ held' ∈ locks', held.key = held'.key → held.mode.conflicts held'.mode = false

theorem Mode.conflicts_comm (m m' : Mode) : m.conflicts m' = m'.conflicts m := by
  cases m <;> cases m' <;> rfl

theorem Compatible.symm {locks locks' : List (Held S)} (h : Compatible locks locks') :
    Compatible locks' locks := fun held hmem held' hmem' hkey => by
  rw [Mode.conflicts_comm]
  exact h held' hmem' held hmem hkey.symm

/-! ### Sound sessions -/

/-- The unique values of a version of a row; a deleted row has none. -/
def indexOf {t : S.Table} (version : Option (S.Row t)) : List S.Index := version.elim [] S.index

@[simp] theorem indexOf_none {t : S.Table} : indexOf (none : Option (S.Row t)) = [] := rfl

@[simp] theorem indexOf_some {t : S.Table} (row : S.Row t) : indexOf (some row) = S.index row := rfl

namespace Session

/-- The pending writes are covered by the granted locks, and together with the committed store they
violate no constraint. -/
structure Sound (σ : Session S) (db : Store S) : Prop where
  coherent : σ.writes.Coherent
  held : ∀ t id version, σ.writes.find t id = some version →
    ∃ held ∈ σ.locks, held.key = .row t id ∧ held.mode ≠ .keyShare ∧
      (version = none → held.mode = .forUpdate)
  covered : ∀ t id version, σ.writes.find t id = some version → ∀ u,
    ¬(u ∈ indexOf version ↔ u ∈ indexOf (db.lookup t id)) →
      ∃ held ∈ σ.locks, held.key = .index t u ∧ held.mode = .forUpdate
  unique : ∀ t, ∀ a ∈ σ.view db t, ∀ b ∈ σ.view db t, ∀ u ∈ S.index a, u ∈ S.index b → S.id a = S.id b

theorem Sound.integral {σ : Session S} {db : Store S} (h : σ.Sound db) (hdb : db.Integral) :
    (σ.view db).Integral :=
  ⟨h.coherent.nodup_apply hdb, h.unique⟩

theorem Sound.of_writes_empty {σ : Session S} {db : Store S} (hdb : db.Integral)
    (hσ : σ.writes = .empty) : σ.Sound db where
  coherent := hσ ▸ .empty
  held t id version h := by simp [hσ] at h
  covered t id version h := by simp [hσ] at h
  unique t a ha b hb := by
    simp only [view, hσ, Overlay.apply_empty] at ha hb
    exact hdb.unique t a ha b hb

theorem Sound.congr {σ σ' : Session S} {db : Store S} (h : σ.Sound db) (hw : σ'.writes = σ.writes)
    (hl : σ.locks ⊆ σ'.locks) : σ'.Sound db where
  coherent := hw ▸ h.coherent
  held t id version hfind := by
    obtain ⟨held, hmem, hrest⟩ := h.held t id version (hw ▸ hfind)
    exact ⟨held, hl hmem, hrest⟩
  covered t id version hfind u hu := by
    obtain ⟨held, hmem, hrest⟩ := h.covered t id version (hw ▸ hfind) u hu
    exact ⟨held, hl hmem, hrest⟩
  unique := by
    have hview : σ'.view db = σ.view db := by rw [view, view, hw]
    exact hview ▸ h.unique

theorem Sound.hold {σ : Session S} {db : Store S} (h : σ.Sound db) (needs : Needs S)
    (seen : Store S) : (σ.hold needs seen).Sound db :=
  h.congr rfl (List.subset_append_right _ _)

theorem Sound.attach {σ : Session S} {db : Store S} (h : σ.Sound db) {t : S.Table} (row : S.Row t) :
    (σ.attach row).Sound db :=
  h.congr rfl (List.Subset.refl _)

/-- A row the transaction has not written is as committed. -/
theorem Sound.mem_view {σ : Session S} {db : Store S} (h : σ.Sound db) {t : S.Table}
    {row : S.Row t} : row ∈ σ.view db t ↔
      (row ∈ db t ∧ σ.writes.find t (S.id row) = none) ∨
        σ.writes.find t (S.id row) = some (some row) :=
  h.coherent.mem_apply

/-- **A commit does not touch what another transaction has locked.** -/
theorem Sound.commit_frozen {σ : Session S} {db : Store S} (h : σ.Sound db) (hdb : db.Integral)
    {locks : List (Held S)} (hcompat : Compatible σ.locks locks) :
    Frozen locks db (σ.view db) := by
  have hlookup := h.coherent.lookup_apply db
  -- a unique value that a write adds or removes is locked by the writer, so nobody else holds it
  have hindex : ∀ held ∈ locks, ∀ t u, held.key = .index t u → ∀ id version,
      σ.writes.find t id = some version → (u ∈ indexOf version ↔ u ∈ indexOf (db.lookup t id)) := by
    intro held hmem t u hkey id version hfind
    by_contra hne
    obtain ⟨own, hown, hownKey, hmode⟩ := h.covered t id version hfind u hne
    have := hcompat own hown held hmem (hownKey.trans hkey.symm)
    simp [hmode] at this
  refine ⟨fun held hmem t id hkey hmode => ?_, fun held hmem t id hkey hsome => ?_,
    fun held hmem t u hkey => ⟨?_, ?_⟩⟩
  · rw [view, hlookup]
    cases hfind : σ.writes.find t id with
    | none => rfl
    | some version =>
      obtain ⟨own, hown, hownKey, hownMode, _⟩ := h.held t id version hfind
      have := hcompat own hown held hmem (hownKey.trans hkey.symm)
      rw [Mode.conflicts_of_ne_keyShare hownMode hmode] at this
      simp at this
  · rw [view, hlookup]
    cases hfind : σ.writes.find t id with
    | none => exact hsome
    | some version =>
      cases version with
      | some row => rfl
      | none =>
        obtain ⟨own, hown, hownKey, _, hownMode⟩ := h.held t id none hfind
        have := hcompat own hown held hmem (hownKey.trans hkey.symm)
        simp [hownMode rfl] at this
  · rintro ⟨row, hrow, hu⟩
    rcases h.mem_view.mp hrow with ⟨hrow, _⟩ | hfind
    · exact ⟨row, hrow, hu⟩
    · have hold := (hindex held hmem t u hkey _ _ hfind).mp hu
      cases hcommitted : db.lookup t (S.id row) with
      | none => simp [hcommitted] at hold
      | some old => exact ⟨old, Store.lookup_mem hcommitted, by simpa [hcommitted] using hold⟩
  · rintro ⟨row, hrow, hu⟩
    cases hfind : σ.writes.find t (S.id row) with
    | none => exact ⟨row, h.mem_view.mpr (Or.inl ⟨hrow, hfind⟩), hu⟩
    | some version =>
      have hnew := (hindex held hmem t u hkey _ _ hfind).mpr
        (by simpa [hdb.lookup_of_mem hrow] using hu)
      cases version with
      | none => simp at hnew
      | some new =>
        have hid := h.coherent.id_of_find hfind
        exact ⟨new, h.mem_view.mpr (Or.inr (hid ▸ hfind)), hnew⟩

/-- **Another transaction's commit keeps a session sound.** -/
theorem Sound.of_frozen {σ : Session S} {db db' : Store S} (h : σ.Sound db) (hdb : db.Integral)
    (hdb' : db'.Integral) (hfrozen : Frozen σ.locks db db') : σ.Sound db' := by
  have hsame : ∀ t id version, σ.writes.find t id = some version →
      db'.lookup t id = db.lookup t id := by
    intro t id version hfind
    obtain ⟨held, hmem, hkey, hmode, _⟩ := h.held t id version hfind
    exact hfrozen.row held hmem t id hkey hmode
  have hmem' : ∀ {t : S.Table} {row : S.Row t}, row ∈ σ.view db' t ↔
      (row ∈ db' t ∧ σ.writes.find t (S.id row) = none) ∨
        σ.writes.find t (S.id row) = some (some row) := h.coherent.mem_apply
  -- a written row and a row that another transaction may have committed share no unique value
  have hcross : ∀ t, ∀ a b : S.Row t, σ.writes.find t (S.id a) = some (some a) → b ∈ db' t →
      σ.writes.find t (S.id b) = none → ∀ u ∈ S.index a, u ∈ S.index b → S.id a = S.id b := by
    intro t a b ha hb hbnone u hua hub
    by_cases hold : u ∈ indexOf (db.lookup t (S.id a))
    · cases hlookup : db.lookup t (S.id a) with
      | none => simp [hlookup] at hold
      | some old =>
        have hlookup' : db'.lookup t (S.id a) = some old := (hsame t _ _ ha).trans hlookup
        have hid := hdb'.unique t old (Store.lookup_mem hlookup') b hb u
          (by simpa [hlookup] using hold) hub
        exact (Store.lookup_id hlookup').symm.trans hid
    · obtain ⟨held, hmem, hkey, hmode⟩ := h.covered t _ _ ha u (by simp [hua, hold])
      obtain ⟨row, hrow, hu⟩ := (hfrozen.index held hmem t u hkey).mp ⟨b, hb, hub⟩
      cases hfind : σ.writes.find t (S.id row) with
      | none =>
        have hid := h.unique t row (h.mem_view.mpr (Or.inl ⟨hrow, hfind⟩)) a
          (h.mem_view.mpr (Or.inr ha)) u hu hua
        rw [hid, ha] at hfind
        simp at hfind
      | some version =>
        have hlookup' : db'.lookup t (S.id row) = some row :=
          (hsame t _ _ hfind).trans (hdb.lookup_of_mem hrow)
        have hid := hdb'.unique t row (Store.lookup_mem hlookup') b hb u hu hub
        rw [← hid, hfind] at hbnone
        simp at hbnone
  refine ⟨h.coherent, h.held, fun t id version hfind u hu => ?_, fun t a ha b hb u hua hub => ?_⟩
  · rw [hsame t id version hfind] at hu
    exact h.covered t id version hfind u hu
  · rcases hmem'.mp ha with ⟨ha, hanone⟩ | ha <;> rcases hmem'.mp hb with ⟨hb, hbnone⟩ | hb
    · exact hdb'.unique t a ha b hb u hua hub
    · exact (hcross t b a hb ha hanone u hub hua).symm
    · exact hcross t a b ha hb hbnone u hua hub
    · exact h.unique t a (h.mem_view.mpr (Or.inr ha)) b (h.mem_view.mpr (Or.inr hb)) u hua hub

/-! ### Statements keep a session sound -/

theorem view_put_table_ne {σ σ' : Session S} (db : Store S) {t t' : S.Table} (ht : t' ≠ t)
    {id : S.Id} {version : Option (S.Row t)} (hw : σ'.writes = σ.writes.put t id version) :
    σ'.view db t' = σ.view db t' := by
  rw [view, view, hw, Overlay.apply_table_ne _ _ ht]

/-- The row that was written last is seen. -/
theorem Sound.lookup_put {σ σ' : Session S} {db : Store S} (h : σ'.Sound db) {t : S.Table} {id : S.Id}
    {version : Option (S.Row t)} (hw : σ'.writes = σ.writes.put t id version) :
    (σ'.view db).lookup t id = version := by
  rw [view, h.coherent.lookup_apply, hw, Overlay.find_put_self, Option.getD_some]

/-- One more write, covered by the locks it took. -/
theorem Sound.put {σ σ' : Session S} {db : Store S} (h : σ.Sound db) {t : S.Table} {id : S.Id}
    {version : Option (S.Row t)} (hw : σ'.writes = σ.writes.put t id version)
    (hl : σ.locks ⊆ σ'.locks) (hid : ∀ row, version = some row → S.id row = id)
    (hheld : ∃ held ∈ σ'.locks, held.key = .row t id ∧ held.mode ≠ .keyShare ∧
      (version = none → held.mode = .forUpdate))
    (hcovered : ∀ u, ¬(u ∈ indexOf version ↔ u ∈ indexOf ((σ.view db).lookup t id)) →
      ∃ held ∈ σ'.locks, held.key = .index t u ∧ held.mode = .forUpdate)
    (hunique : ∀ row, version = some row → ∀ b ∈ σ.view db t, S.id b ≠ id →
      ∀ u ∈ S.index row, u ∉ S.index b) : σ'.Sound db := by
  have hcoherent : σ'.writes.Coherent := hw ▸ h.coherent.put hid
  have hfind : ∀ t' id', σ'.writes.find t' id' = (σ.writes.put t id version).find t' id' := by
    intro t' id'
    rw [hw]
  refine ⟨hcoherent, fun t' id' version' hf => ?_, fun t' id' version' hf u hu => ?_,
    fun t' a ha b hb u hua hub => ?_⟩
  · by_cases hkey : t' = t ∧ id' = id
    · obtain ⟨rfl, rfl⟩ := hkey
      rw [hfind, Overlay.find_put_self] at hf
      cases hf
      exact hheld
    · have hf' : σ.writes.find t' id' = some version' := by
        rw [hfind] at hf
        by_cases ht : t' = t
        · subst ht
          rwa [Overlay.find_put_id_ne _ _ (fun hid => hkey ⟨rfl, hid⟩)] at hf
        · rwa [Overlay.find_put_table_ne _ ht] at hf
      obtain ⟨held, hmem, hrest⟩ := h.held t' id' version' hf'
      exact ⟨held, hl hmem, hrest⟩
  · by_cases hkey : t' = t ∧ id' = id
    · obtain ⟨rfl, rfl⟩ := hkey
      rw [hfind, Overlay.find_put_self] at hf
      cases hf
      by_cases hview : u ∈ indexOf version' ↔ u ∈ indexOf ((σ.view db).lookup t' id')
      · -- this write keeps the value, so an earlier write of the row changed it
        rw [view, h.coherent.lookup_apply] at hview
        cases hearlier : σ.writes.find t' id' with
        | none => simp [hearlier] at hview; exact absurd hview hu
        | some earlier =>
          rw [hearlier, Option.getD_some] at hview
          obtain ⟨held, hmem, hrest⟩ := h.covered t' id' earlier hearlier u (by rwa [← hview])
          exact ⟨held, hl hmem, hrest⟩
      · exact hcovered u hview
    · have hf' : σ.writes.find t' id' = some version' := by
        rw [hfind] at hf
        by_cases ht : t' = t
        · subst ht
          rwa [Overlay.find_put_id_ne _ _ (fun hid => hkey ⟨rfl, hid⟩)] at hf
        · rwa [Overlay.find_put_table_ne _ ht] at hf
      obtain ⟨held, hmem, hrest⟩ := h.covered t' id' version' hf' u hu
      exact ⟨held, hl hmem, hrest⟩
  · by_cases ht : t' = t
    · subst ht
      have hcases : ∀ row ∈ σ'.view db t', (S.id row = id ∧ version = some row) ∨
          (S.id row ≠ id ∧ row ∈ σ.view db t') := by
        intro row hrow
        have hrow' := hcoherent.mem_apply.mp hrow
        rw [hfind] at hrow'
        by_cases hrid : S.id row = id
        · rw [hrid, Overlay.find_put_self] at hrow'
          exact Or.inl ⟨hrid, by simpa using hrow'⟩
        · rw [Overlay.find_put_id_ne _ _ hrid] at hrow'
          exact Or.inr ⟨hrid, h.mem_view.mpr hrow'⟩
      rcases hcases a ha with ⟨haid, hav⟩ | ⟨haid, ha⟩ <;>
        rcases hcases b hb with ⟨hbid, hbv⟩ | ⟨hbid, hb⟩
      · rw [haid, hbid]
      · exact absurd hub (hunique a hav b hb hbid u hua)
      · exact absurd hua (hunique b hbv a ha haid u hub)
      · exact h.unique t' a ha b hb u hua hub
    · rw [view_put_table_ne db ht hw] at ha hb
      exact h.unique t' a ha b hb u hua hub

theorem mem_hold {σ : Session S} {needs : Needs S} {db : Store S} {key : Key S} {mode : Mode}
    (h : (key, mode) ∈ needs) : ⟨key, mode, db⟩ ∈ (σ.hold needs db).locks :=
  List.mem_append_left _ (List.mem_map.mpr ⟨_, h, rfl⟩)

theorem mem_hold_index {σ : Session S} {needs : Needs S} {db : Store S} {t : S.Table}
    (us : List S.Index) {u : S.Index} (hneeds : indexKeys t us ⊆ needs) (hu : u ∈ us) :
    ∃ held ∈ (σ.hold needs db).locks, held.key = .index t u ∧ held.mode = .forUpdate :=
  ⟨_, mem_hold (hneeds (List.mem_map.mpr ⟨u, hu, rfl⟩)), rfl, rfl⟩

theorem Sound.insert {σ : Session S} {db : Store S} (h : σ.Sound db) {t : S.Table} (row : S.Row t) :
    (σ.insert db row).2.Sound db := by
  rw [Session.insert]
  split
  · rename_i haccepts
    obtain ⟨hfree, hunique, _⟩ := haccepts
    refine h.put rfl (List.subset_append_right _ _) (fun other hother => by cases hother; rfl)
      ⟨⟨.row t (S.id row), .forUpdate, db⟩, mem_hold (by simp [insertNeeds]), rfl, by simp, by simp⟩
      (fun u hu => ?_) (fun other hother b hb _ u hu hub => ?_)
    · refine mem_hold_index (S.index row) (by simp [insertNeeds]) ?_
      simpa [hfree] using hu
    · cases hother
      exact hunique u hu ⟨b, hb, hub⟩
  · exact h

theorem Sound.update {σ : Session S} {db : Store S} (h : σ.Sound db) (t : S.Table) (id : S.Id)
    (set : S.Row t → S.Row t) : (σ.update db t id set).2.Sound db := by
  rw [Session.update]
  split
  · exact h
  · rename_i old hold
    have holdId := Store.lookup_id hold
    split
    · rename_i hadmits
      obtain ⟨hid, hnew⟩ := hadmits
      refine h.put rfl (List.subset_append_right _ _)
        (fun other hother => by cases hother; rw [hid, holdId])
        ⟨_, mem_hold (by rw [updateNeeds, holdId]; exact List.mem_cons_self), rfl, ?_, by simp⟩
        (fun u hu => ?_) (fun other hother b hb hbid u hu hub => ?_)
      · dsimp only
        split <;> simp
      · refine mem_hold_index (changedIndex old (set old)) (by simp [updateNeeds]) ?_
        simp only [indexOf_some, hold] at hu
        simp only [changedIndex, List.mem_filter, List.mem_append, decide_eq_true_eq]
        tauto
      · cases hother
        by_cases huold : u ∈ S.index old
        · have := h.unique t old (Store.lookup_mem hold) b hb u huold hub
          exact hbid (this.symm.trans holdId)
        · exact hnew u hu huold ⟨b, hb, hub⟩
    · exact h

theorem Sound.delete {σ : Session S} {db : Store S} (h : σ.Sound db) (t : S.Table) (id : S.Id) :
    (σ.delete db t id).Sound db := by
  rw [Session.delete]
  split
  · exact h
  · rename_i old hold
    have holdId := Store.lookup_id hold
    refine h.put rfl (List.subset_append_right _ _) (fun other hother => by cases hother)
      ⟨_, mem_hold (by rw [deleteNeeds, holdId]; exact List.mem_cons_self), rfl, by simp, by simp⟩
      (fun u hu => ?_) (fun other hother => by cases hother)
    refine mem_hold_index (S.index old) (by simp [deleteNeeds]) ?_
    simpa [hold] using hu

/-- After a deletion the row is gone from the view, and the other rows are still there. -/
theorem Sound.mem_view_delete {σ : Session S} {db : Store S} (h : σ.Sound db) {t : S.Table} {id : S.Id}
    {row : S.Row t} :
    row ∈ (σ.delete db t id).view db t ↔ row ∈ σ.view db t ∧ S.id row ≠ id := by
  rw [Session.delete]
  split
  · rename_i hnone
    exact ⟨fun hrow => ⟨hrow, Store.lookup_eq_none.mp hnone row hrow⟩, And.left⟩
  · rename_i old hold
    rw [view, writes_write, (h.coherent.put (by simp)).mem_apply, h.mem_view]
    by_cases hid : S.id row = id
    · simp [hid]
    · simp [hid, Overlay.find_put_id_ne]

theorem view_delete_ne {σ : Session S} {db : Store S} {t t' : S.Table} (ht : t' ≠ t) (id : S.Id) :
    (σ.delete db t id).view db t' = σ.view db t' := by
  rw [Session.delete]
  split
  · rfl
  · exact view_put_table_ne db ht rfl

end Session

end ReadCommitted
