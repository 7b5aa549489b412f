import Mathlib.Data.List.Nodup
import Mathlib.Logic.Function.Basic
/-!
# Relational stores and pending writes

A store gives every table of a schema its rows. A transaction keeps its uncommitted writes in an
`Overlay`: at most one pending version (a row, or a deletion) for each row id. What the transaction
sees, and what its commit installs, is the overlay applied to the committed store (`Overlay.apply`).

`Integral` is what the primary keys and the unique constraints of the schema promise of a store.
-/

namespace ReadCommitted

/-- The shape of a database: its tables, their rows, the primary key of a row, the values the row
puts into the unique indexes of its table, and the rows its foreign keys name. -/
structure Schema where
  Table : Type
  Row : Table → Type
  Id : Type
  Index : Type
  [decTable : DecidableEq Table]
  [decId : DecidableEq Id]
  [decIndex : DecidableEq Index]
  id : {t : Table} → Row t → Id
  index : {t : Table} → Row t → List Index
  parents : {t : Table} → Row t → List (Table × Id)

attribute [instance] Schema.decTable Schema.decId Schema.decIndex

variable {S : Schema}

/-- The rows of every table. -/
def Store (S : Schema) := (t : S.Table) → List (S.Row t)

namespace Store

def empty : Store S := fun _ => []

/-- The row of table `t` with primary key `id`. -/
def lookup (db : Store S) (t : S.Table) (id : S.Id) : Option (S.Row t) :=
  (db t).find? fun row => S.id row = id

/-- Some row of table `t` has the value `u` in a unique index. -/
def HasIndex (db : Store S) (t : S.Table) (u : S.Index) : Prop :=
  ∃ row ∈ db t, u ∈ S.index row

instance (db : Store S) (t : S.Table) (u : S.Index) : Decidable (db.HasIndex t u) :=
  inferInstanceAs (Decidable (∃ row ∈ db t, u ∈ S.index row))

/-- Primary keys are unique, and no two rows of a table share a unique value. -/
structure Integral (db : Store S) : Prop where
  nodup : ∀ t, ((db t).map S.id).Nodup
  unique : ∀ t, ∀ a ∈ db t, ∀ b ∈ db t, ∀ u ∈ S.index a, u ∈ S.index b → S.id a = S.id b

theorem Integral.empty : Integral (empty : Store S) :=
  ⟨fun _ => List.nodup_nil, fun _ _ h => absurd h List.not_mem_nil⟩

theorem lookup_mem {db : Store S} {t : S.Table} {id : S.Id} {row : S.Row t}
    (h : db.lookup t id = some row) : row ∈ db t :=
  List.mem_of_find?_eq_some h

theorem lookup_id {db : Store S} {t : S.Table} {id : S.Id} {row : S.Row t}
    (h : db.lookup t id = some row) : S.id row = id := by
  simpa using List.find?_some h

theorem lookup_eq_none {db : Store S} {t : S.Table} {id : S.Id} :
    db.lookup t id = none ↔ ∀ row ∈ db t, S.id row ≠ id := by
  simp [lookup]

theorem Integral.eq_of_id {db : Store S} (hdb : db.Integral) {t : S.Table} {a b : S.Row t}
    (ha : a ∈ db t) (hb : b ∈ db t) (hid : S.id a = S.id b) : a = b :=
  List.inj_on_of_nodup_map (hdb.nodup t) ha hb hid

/-- In an integral store a row is found under its own id. -/
theorem Integral.lookup_of_mem {db : Store S} (hdb : db.Integral) {t : S.Table} {row : S.Row t}
    (h : row ∈ db t) : db.lookup t (S.id row) = some row := by
  cases hfind : db.lookup t (S.id row) with
  | none => exact absurd rfl (lookup_eq_none.mp hfind row h)
  | some other => rw [hdb.eq_of_id (lookup_mem hfind) h (lookup_id hfind)]

end Store

/-! ### Overlays -/

/-- The pending versions of a transaction: for each table, row ids with their new row, or with `none`
for a deletion. -/
def Overlay (S : Schema) := (t : S.Table) → List (S.Id × Option (S.Row t))

namespace Overlay

def empty : Overlay S := fun _ => []

/-- The pending version of a row, if the transaction wrote it. -/
def find (ov : Overlay S) (t : S.Table) (id : S.Id) : Option (Option (S.Row t)) :=
  ((ov t).find? fun entry => entry.1 = id).map Prod.snd

/-- Record a new version of a row, in place of an earlier pending one. -/
def put (ov : Overlay S) (t : S.Table) (id : S.Id) (version : Option (S.Row t)) : Overlay S :=
  Function.update ov t ((id, version) :: (ov t).filter fun entry => entry.1 ≠ id)

/-- The store with the pending versions in place of the committed ones. -/
def apply (ov : Overlay S) (db : Store S) : Store S := fun t =>
  ((db t).filter fun row => (ov.find t (S.id row)).isNone) ++ (ov t).filterMap Prod.snd

/-- One version for each id, and under its own id. -/
structure Coherent (ov : Overlay S) : Prop where
  nodup : ∀ t, ((ov t).map Prod.fst).Nodup
  own : ∀ t, ∀ entry ∈ ov t, ∀ row, entry.2 = some row → S.id row = entry.1

theorem Coherent.empty : Coherent (empty : Overlay S) :=
  ⟨fun _ => List.nodup_nil, fun _ _ h => absurd h List.not_mem_nil⟩

@[simp] theorem empty_table (t : S.Table) : (empty : Overlay S) t = [] := rfl

@[simp] theorem find_empty (t : S.Table) (id : S.Id) : (empty : Overlay S).find t id = none := rfl

@[simp] theorem apply_empty (db : Store S) : (empty : Overlay S).apply db = db := by
  funext t
  simp [apply, empty, find]

@[simp] theorem put_table_ne (ov : Overlay S) {t t' : S.Table} (h : t' ≠ t) (id : S.Id)
    (version : Option (S.Row t)) : ov.put t id version t' = ov t' :=
  Function.update_of_ne h _ _

theorem put_table_self (ov : Overlay S) (t : S.Table) (id : S.Id) (version : Option (S.Row t)) :
    ov.put t id version t = (id, version) :: (ov t).filter fun entry => entry.1 ≠ id :=
  Function.update_self _ _ _

theorem put_table_of_nil {ov : Overlay S} {t : S.Table} (h : ov t = []) (id : S.Id)
    (version : Option (S.Row t)) : ov.put t id version t = [(id, version)] := by
  rw [put_table_self, h, List.filter_nil]

@[simp] theorem find_put_self (ov : Overlay S) (t : S.Table) (id : S.Id)
    (version : Option (S.Row t)) : (ov.put t id version).find t id = some version := by
  simp [find, put_table_self]

theorem find_put_table_ne (ov : Overlay S) {t t' : S.Table} (h : t' ≠ t) (id id' : S.Id)
    (version : Option (S.Row t)) : (ov.put t id version).find t' id' = ov.find t' id' := by
  simp [find, h]

theorem find_put_id_ne (ov : Overlay S) (t : S.Table) {id id' : S.Id} (h : id' ≠ id)
    (version : Option (S.Row t)) : (ov.put t id version).find t id' = ov.find t id' := by
  have hpred : (fun entry : S.Id × Option (S.Row t) =>
      decide (decide (entry.1 ≠ id) = true ∧ decide (entry.1 = id') = true)) =
        fun entry => decide (entry.1 = id') := by
    funext entry
    by_cases hentry : entry.1 = id'
    · simp [hentry, h]
    · simp [hentry]
  rw [find, put_table_self, List.find?_cons_of_neg (by simpa using Ne.symm h), List.find?_filter,
    hpred, find]

theorem find_put_ne (ov : Overlay S) {t t' : S.Table} {id id' : S.Id} (h : (t', id') ≠ (t, id))
    (version : Option (S.Row t)) : (ov.put t id version).find t' id' = ov.find t' id' := by
  by_cases ht : t' = t
  · subst ht
    exact find_put_id_ne ov t' (fun hid => h (by rw [hid])) version
  · exact find_put_table_ne ov ht id id' version

theorem apply_table_ne (ov : Overlay S) (db : Store S) {t t' : S.Table} (h : t' ≠ t) (id : S.Id)
    (version : Option (S.Row t)) : (ov.put t id version).apply db t' = ov.apply db t' := by
  have hfind : ∀ row : S.Row t', (ov.put t id version).find t' (S.id row) = ov.find t' (S.id row) :=
    fun row => find_put_table_ne ov h id (S.id row) version
  simp [apply, h, hfind]

theorem Coherent.put {ov : Overlay S} (hov : ov.Coherent) {t : S.Table} {id : S.Id}
    {version : Option (S.Row t)} (hid : ∀ row, version = some row → S.id row = id) :
    (ov.put t id version).Coherent := by
  refine ⟨fun t' => ?_, fun t' => ?_⟩
  · by_cases ht : t' = t
    · subst ht
      rw [put_table_self]
      refine List.nodup_cons.mpr ⟨?_, (hov.nodup t').sublist (List.filter_sublist.map _)⟩
      simp
    · rw [put_table_ne ov ht]
      exact hov.nodup t'
  · by_cases ht : t' = t
    · subst ht
      rw [put_table_self]
      intro entry hmem row hrow
      rcases List.mem_cons.mp hmem with rfl | hmem
      · exact hid row hrow
      · exact hov.own t' entry (List.mem_of_mem_filter hmem) row hrow
    · rw [put_table_ne ov ht]
      exact hov.own t'

theorem find_eq_none {ov : Overlay S} {t : S.Table} {id : S.Id} :
    ov.find t id = none ↔ ∀ entry ∈ ov t, entry.1 ≠ id := by
  simp [find]

theorem Coherent.find_of_mem {ov : Overlay S} (hov : ov.Coherent) {t : S.Table}
    {entry : S.Id × Option (S.Row t)} (h : entry ∈ ov t) : ov.find t entry.1 = some entry.2 := by
  cases hfind : (ov t).find? fun e => e.1 = entry.1 with
  | none => simpa using List.find?_eq_none.mp hfind entry h
  | some other =>
    have hother : other = entry :=
      List.inj_on_of_nodup_map (hov.nodup t) (List.mem_of_find?_eq_some hfind) h
        (by simpa using List.find?_some hfind)
    simp [find, hfind, hother]

theorem mem_of_find {ov : Overlay S} {t : S.Table} {id : S.Id} {version : Option (S.Row t)}
    (h : ov.find t id = some version) : (id, version) ∈ ov t := by
  simp only [find, Option.map_eq_some_iff] at h
  obtain ⟨entry, hfind, rfl⟩ := h
  have hid : entry.1 = id := by simpa using List.find?_some hfind
  exact hid ▸ List.mem_of_find?_eq_some hfind

theorem Coherent.id_of_find {ov : Overlay S} (hov : ov.Coherent) {t : S.Table} {id : S.Id}
    {row : S.Row t} (h : ov.find t id = some (some row)) : S.id row = id :=
  hov.own t _ (mem_of_find h) row rfl

/-- The rows a transaction sees: the committed rows it did not write, and its own new versions. -/
theorem Coherent.mem_apply {ov : Overlay S} (hov : ov.Coherent) {db : Store S} {t : S.Table}
    {row : S.Row t} : row ∈ ov.apply db t ↔
      (row ∈ db t ∧ ov.find t (S.id row) = none) ∨ ov.find t (S.id row) = some (some row) := by
  simp only [apply, List.mem_append, List.mem_filter, Option.isNone_iff_eq_none, List.mem_filterMap]
  refine or_congr Iff.rfl ⟨?_, fun h => ⟨_, mem_of_find h, rfl⟩⟩
  rintro ⟨entry, hmem, hrow⟩
  rw [hov.own t entry hmem row hrow, hov.find_of_mem hmem, hrow]

/-- A table by its pending versions. -/
theorem apply_table {ov : Overlay S} {t : S.Table} {entries : List (S.Id × Option (S.Row t))}
    (h : ov t = entries) (db : Store S) :
    ov.apply db t = (db t).filter (fun row => S.id row ∉ entries.map Prod.fst) ++
      entries.filterMap Prod.snd := by
  subst h
  refine congrArg (· ++ _) (List.filter_congr fun row _ => ?_)
  rw [Bool.eq_iff_iff, Option.isNone_iff_eq_none, find_eq_none]
  simp only [decide_eq_true_eq, List.mem_map, not_exists, not_and]

/-- A table with one pending version. -/
theorem mem_apply_single {ov : Overlay S} {db : Store S} {t : S.Table} {id : S.Id}
    {version : Option (S.Row t)} (h : ov t = [(id, version)]) {row : S.Row t} :
    row ∈ ov.apply db t ↔ (row ∈ db t ∧ S.id row ≠ id) ∨ version = some row := by
  have hfind : ov.find t (S.id row) = none ↔ S.id row ≠ id := by
    rw [find_eq_none, h]
    simp [eq_comm]
  simp only [apply, List.mem_append, List.mem_filter, Option.isNone_iff_eq_none, hfind, h,
    List.filterMap_cons, List.filterMap_nil]
  cases version with
  | none => simp
  | some new => simp [eq_comm]

/-- Reading a row: the pending version if there is one, else the committed row. -/
theorem Coherent.lookup_apply {ov : Overlay S} (hov : ov.Coherent) (db : Store S) (t : S.Table)
    (id : S.Id) : (ov.apply db).lookup t id = (ov.find t id).getD (db.lookup t id) := by
  have hpending : ((ov t).filterMap Prod.snd).find? (fun row => S.id row = id) =
      (ov.find t id).getD none := by
    cases hfind : ov.find t id with
    | none =>
      simp only [Option.getD_none, List.find?_eq_none, List.mem_filterMap, decide_eq_true_eq]
      rintro row ⟨entry, hmem, hrow⟩ hid
      exact find_eq_none.mp hfind entry hmem ((hov.own t entry hmem row hrow).symm.trans hid)
    | some version =>
      cases version with
      | none =>
        simp only [Option.getD_some, List.find?_eq_none, List.mem_filterMap, decide_eq_true_eq]
        rintro row ⟨entry, hmem, hrow⟩ hid
        have hentry := hov.find_of_mem hmem
        rw [← hov.own t entry hmem row hrow, hid, hfind, hrow] at hentry
        simp at hentry
      | some row =>
        simp only [Option.getD_some]
        have hmem : row ∈ (ov t).filterMap Prod.snd :=
          List.mem_filterMap.mpr ⟨_, mem_of_find hfind, rfl⟩
        cases hother : ((ov t).filterMap Prod.snd).find? (fun row => S.id row = id) with
        | none =>
          have hne := List.find?_eq_none.mp hother row hmem
          simp [hov.id_of_find hfind] at hne
        | some other =>
          obtain ⟨entry, hentry, hsome⟩ := List.mem_filterMap.mp (List.mem_of_find?_eq_some hother)
          have hid : S.id other = id := by simpa using List.find?_some hother
          have h := hov.find_of_mem hentry
          rw [← hov.own t entry hentry other hsome, hid, hfind, hsome] at h
          exact congrArg some (by simpa using h.symm)
  simp only [Store.lookup, apply, List.find?_append, hpending]
  cases hfind : ov.find t id with
  | none =>
    have hpred : (fun row : S.Row t =>
        decide ((ov.find t (S.id row)).isNone = true ∧ decide (S.id row = id) = true)) =
          fun row => decide (S.id row = id) := by
      funext row
      by_cases hid : S.id row = id
      · simp [hid, hfind]
      · simp [hid]
    rw [List.find?_filter, hpred]
    simp
  | some version =>
    have hnone : ((db t).filter fun row => (ov.find t (S.id row)).isNone).find?
        (fun row => S.id row = id) = none := by
      simp only [List.find?_eq_none, List.mem_filter, Option.isNone_iff_eq_none, decide_eq_true_eq]
      rintro row ⟨_, hnone⟩ rfl
      rw [hfind] at hnone
      simp at hnone
    rw [hnone]
    simp

/-- Primary keys stay unique under any coherent overlay. -/
theorem Coherent.nodup_apply {ov : Overlay S} (hov : ov.Coherent) {db : Store S}
    (hdb : db.Integral) (t : S.Table) : ((ov.apply db t).map S.id).Nodup := by
  have hkeys : ((ov t).filterMap Prod.snd).map S.id =
      ((ov t).filter fun entry => entry.2.isSome).map Prod.fst := by
    have hown := hov.own t
    generalize ov t = entries at hown
    induction entries with
    | nil => rfl
    | cons entry entries ih =>
      have htail := ih fun e he => hown e (List.mem_cons_of_mem _ he)
      rcases hentry : entry.2 with _ | row
      · simpa [List.filterMap_cons, hentry] using htail
      · simpa [List.filterMap_cons, hentry, hown entry List.mem_cons_self row hentry] using htail
  rw [apply, List.map_append, List.nodup_append]
  refine ⟨(hdb.nodup t).sublist (List.filter_sublist.map _), ?_, ?_⟩
  · rw [hkeys]
    exact (hov.nodup t).sublist (List.filter_sublist.map _)
  · simp only [List.mem_map, List.mem_filter, Option.isNone_iff_eq_none, List.mem_filterMap]
    rintro _ ⟨row, ⟨_, hnone⟩, rfl⟩ _ ⟨other, ⟨entry, hmem, hsome⟩, rfl⟩ hid
    rw [hid, hov.own t entry hmem other hsome, hov.find_of_mem hmem] at hnone
    simp at hnone

end Overlay

end ReadCommitted
