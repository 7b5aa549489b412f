import TenantForge.ReadCommitted.LockOrder
import TenantForge.ReadCommitted.Revisions
/-!
# Foreign keys

A store is closed if every row that a foreign key names is there. An inserted row takes a lock on each row
that it names, which keeps others from deleting it; so programs that delete only rows that nobody can name
(`Prog.Refers`) keep the store closed. A program may also delete a row that others name, if it holds the row
`FOR UPDATE` and deletes all rows that name it: no new ones can appear meanwhile (`Cascading`).
-/

namespace ReadCommitted

variable {S : Schema} {E X T : Type} {α β : Type}

/-! ### Stores -/

/-- Every row that a foreign key names is there. -/
def Store.Closed (db : Store S) : Prop :=
  ∀ t, ∀ row ∈ db t, ∀ parent ∈ S.parents row, (db.lookup parent.1 parent.2).isSome

/-- The row of table `t` with this id names the parent. -/
def Store.Names (db : Store S) (parent : S.Table × S.Id) (t : S.Table) (id : S.Id) : Prop :=
  ∃ row, db.lookup t id = some row ∧ parent ∈ S.parents row

namespace Session

/-- The session has a lock on the row. -/
def Uses (σ : Session S) (parent : S.Table × S.Id) : Prop :=
  ∃ held ∈ σ.locks, held.key = .row parent.1 parent.2

/-- Among these locks is one that keeps all others away from the row. -/
def Owns (locks : List (Held S)) (parent : S.Table × S.Id) : Prop :=
  ∃ held ∈ locks, held.key = .row parent.1 parent.2 ∧ held.mode = .forUpdate

variable {σ σ' : Session S} {db db' : Store S} {parent : S.Table × S.Id}

theorem Uses.mono (h : σ.Uses parent) (hl : σ.locks ⊆ σ'.locks) : σ'.Uses parent := by
  obtain ⟨held, hmem, hkey⟩ := h
  exact ⟨held, hl hmem, hkey⟩

theorem Owns.mono {locks locks' : List (Held S)} (h : Owns locks parent) (hl : locks ⊆ locks') :
    Owns locks' parent := by
  obtain ⟨held, hmem, hrest⟩ := h
  exact ⟨held, hl hmem, hrest⟩

theorem Owns.uses (h : Owns σ.locks parent) : σ.Uses parent := by
  obtain ⟨held, hmem, hkey, _⟩ := h
  exact ⟨held, hmem, hkey⟩

/-- What one session holds `FOR UPDATE`, no other session uses. -/
theorem Owns.not_uses {locks : List (Held S)} (h : Owns locks parent) (hcompat : Compatible σ.locks locks) :
    ¬σ.Uses parent := by
  rintro ⟨held, hmem, hkey⟩
  obtain ⟨held', hmem', hkey', hmode⟩ := h
  have hconflict := hcompat held hmem held' hmem' (hkey.trans hkey'.symm)
  simp [hmode] at hconflict

/-! ### Written rows in the view -/

section Put

variable {t : S.Table} {id : S.Id} {version : Option (S.Row t)}

theorem lookup_view_put_self (hσ' : σ'.Sound db) (hw : σ'.writes = σ.writes.put t id version) :
    (σ'.view db).lookup t id = version := by
  rw [view, hσ'.coherent.lookup_apply, hw, Overlay.find_put_self, Option.getD_some]

theorem lookup_view_put_ne (hσ : σ.Sound db) (hσ' : σ'.Sound db)
    (hw : σ'.writes = σ.writes.put t id version) {t' : S.Table} {id' : S.Id} (hne : (t', id') ≠ (t, id)) :
    (σ'.view db).lookup t' id' = (σ.view db).lookup t' id' := by
  rw [view, view, hσ'.coherent.lookup_apply, hσ.coherent.lookup_apply, hw, Overlay.find_put_ne _ hne]

/-- A row that is seen after a deletion was seen before, and is not the deleted one. -/
theorem lookup_view_delete (hσ : σ.Sound db) {t' : S.Table} {id' : S.Id} {row : S.Row t'}
    (h : ((σ.delete db t id).view db).lookup t' id' = some row) :
    (σ.view db).lookup t' id' = some row ∧ (t', id') ≠ (t, id) := by
  have hσ' := hσ.delete t id
  rw [Session.delete] at h hσ'
  split at h
  · rename_i hnone
    refine ⟨h, fun hsame => ?_⟩
    cases hsame
    cases hnone.symm.trans h
  · rename_i old hold
    simp only [hold] at hσ'
    by_cases hsame : (t', id') = (t, id)
    · cases hsame
      cases (lookup_view_put_self hσ' rfl).symm.trans h
    · rw [lookup_view_put_ne hσ hσ' rfl hsame] at h
      exact ⟨h, hsame⟩

/-- A deleted row names nobody, and the others name whom they named. -/
theorem names_view_delete (hσ : σ.Sound db) {t' : S.Table} {id' : S.Id}
    (h : ((σ.delete db t id).view db).Names parent t' id') :
    (σ.view db).Names parent t' id' ∧ (t', id') ≠ (t, id) := by
  obtain ⟨row, hrow, hparent⟩ := h
  obtain ⟨hseen, hne⟩ := lookup_view_delete hσ hrow
  exact ⟨⟨row, hseen, hparent⟩, hne⟩

end Put

/-! ### Anchored sessions -/

/-- The rows that the session has written name rows that it found and keeps in place. It has deleted rows
that nobody names, and rows `gone` that it owns. -/
structure Anchored (gone : S.Table × S.Id → Prop) (σ : Session S) (db : Store S) : Prop where
  written : ∀ t id row, σ.writes.find t id = some (some row) → ∀ parent ∈ S.parents row,
    gone parent ∨ db.Names parent t id ∨
      (σ.Uses parent ∧ ((σ.view db).lookup parent.1 parent.2).isSome)
  deleted : ∀ t id, σ.writes.find t id = some none → ¬S.Referenced t ∨ gone (t, id)
  owned : ∀ parent, gone parent → Owns σ.locks parent

variable {gone : S.Table × S.Id → Prop}

theorem Anchored.of_writes_empty (h : σ.writes = .empty) : σ.Anchored (fun _ => False) db where
  written t id row hfind := by simp [h] at hfind
  deleted t id hfind := by simp [h] at hfind
  owned _ h := h.elim

theorem Anchored.congr (h : σ.Anchored gone db) (hw : σ'.writes = σ.writes) (hl : σ.locks ⊆ σ'.locks) :
    σ'.Anchored gone db where
  written t id row hfind parent hparent := by
    rw [view, hw]
    refine (h.written t id row (hw ▸ hfind) parent hparent).imp_right fun hrest => ?_
    exact hrest.imp_right fun hused => ⟨hused.1.mono hl, hused.2⟩
  deleted t id hfind := h.deleted t id (hw ▸ hfind)
  owned parent hgone := (h.owned parent hgone).mono hl

/-- A session may have more rows to delete, if it owns them. -/
theorem Anchored.weaken {gone' : S.Table × S.Id → Prop} (h : σ.Anchored gone db)
    (hgone : ∀ parent, gone parent → gone' parent) (howned : ∀ parent, gone' parent → Owns σ.locks parent) :
    σ.Anchored gone' db where
  written t id row hfind parent hparent := (h.written t id row hfind parent hparent).imp_left (hgone parent)
  deleted t id hfind := (h.deleted t id hfind).imp_right (hgone (t, id))
  owned := howned

/-- Others take away neither the rows that the session has written nor those that these name. -/
theorem Anchored.frozen (h : σ.Anchored gone db) (hσ : σ.Sound db) (hf : Frozen σ.locks db db') :
    σ.Anchored gone db' where
  written t id row hfind parent hparent := by
    refine (h.written t id row hfind parent hparent).imp_right fun hrest => ?_
    rcases hrest with ⟨old, hold, holdParent⟩ | ⟨huses, hsome⟩
    · obtain ⟨held, hmem, hkey, hmode, -⟩ := hσ.held t id (some row) hfind
      exact Or.inl ⟨old, by rwa [hf.row held hmem t id hkey hmode], holdParent⟩
    · refine Or.inr ⟨huses, ?_⟩
      rw [view, hσ.coherent.lookup_apply] at hsome ⊢
      obtain ⟨held, hmem, hkey⟩ := huses
      cases hpending : σ.writes.find parent.1 parent.2 with
      | none =>
        rw [hpending] at hsome
        exact hf.shared held hmem _ _ hkey hsome
      | some version =>
        rwa [hpending] at hsome
  deleted := h.deleted
  owned := h.owned

/-- One more version. -/
theorem Anchored.put (h : σ.Anchored gone db) (hσ : σ.Sound db) (hσ' : σ'.Sound db) {t : S.Table}
    {id : S.Id} {version : Option (S.Row t)} (hw : σ'.writes = σ.writes.put t id version)
    (hl : σ.locks ⊆ σ'.locks)
    (hsome : ∀ row, version = some row → ∀ parent ∈ S.parents row, gone parent ∨
      db.Names parent t id ∨ (σ'.Uses parent ∧ ((σ.view db).lookup parent.1 parent.2).isSome))
    (hnone : version = none → ¬S.Referenced t ∨ gone (t, id)) : σ'.Anchored gone db := by
  -- a row that is named stays in the view
  have hkept : ∀ {t'} (row : S.Row t'), ∀ parent ∈ S.parents row, ¬gone parent →
      ((σ.view db).lookup parent.1 parent.2).isSome → ((σ'.view db).lookup parent.1 parent.2).isSome := by
    intro t' row parent hparent hstays hsome
    by_cases hsame : parent = (t, id)
    · subst hsame
      rw [lookup_view_put_self hσ' hw]
      cases version with
      | some row => rfl
      | none =>
        rcases hnone rfl with hunreferenced | hgone
        · exact absurd ⟨t', row, _, hparent, rfl⟩ hunreferenced
        · exact absurd hgone hstays
    · rwa [lookup_view_put_ne hσ hσ' hw hsame]
  refine ⟨fun t' id' row hfind parent hparent => ?_, fun t' id' hfind => ?_,
    fun parent hgone => (h.owned parent hgone).mono hl⟩
  · by_cases hstays : gone parent
    · exact Or.inl hstays
    · refine Or.inr ?_
      by_cases hsame : (t', id') = (t, id)
      · cases hsame
        rw [hw, Overlay.find_put_self] at hfind
        rcases hsome row (Option.some.inj hfind) parent hparent with hgone | hnames | ⟨huses, hsome⟩
        · exact absurd hgone hstays
        · exact Or.inl hnames
        · exact Or.inr ⟨huses, hkept row parent hparent hstays hsome⟩
      · rw [hw, Overlay.find_put_ne _ hsame] at hfind
        rcases h.written t' id' row hfind parent hparent with hgone | hnames | ⟨huses, hsome⟩
        · exact absurd hgone hstays
        · exact Or.inl hnames
        · exact Or.inr ⟨huses.mono hl, hkept row parent hparent hstays hsome⟩
  · by_cases hsame : (t', id') = (t, id)
    · cases hsame
      rw [hw, Overlay.find_put_self] at hfind
      exact hnone (Option.some.inj hfind)
    · rw [hw, Overlay.find_put_ne _ hsame] at hfind
      exact h.deleted t' id' hfind

theorem Anchored.insert (h : σ.Anchored gone db) (hσ : σ.Sound db) {t : S.Table} (row : S.Row t) :
    (σ.insert db row).2.Anchored gone db := by
  have hσ' := hσ.insert row
  rw [Session.insert] at hσ' ⊢
  split
  · rename_i haccepts
    rw [if_pos haccepts] at hσ'
    refine h.put hσ hσ' rfl (σ.locks_write _ _ _ _ _) (fun new hnew parent hparent => ?_) fun hnone => by cases hnone
    cases hnew
    have hneed : ((.row parent.1 parent.2, .keyShare) : Key S × Mode) ∈ insertNeeds row :=
      List.mem_append_right _ (List.mem_map_of_mem hparent)
    exact Or.inr (Or.inr ⟨⟨_, mem_hold hneed, rfl⟩, haccepts.2.2 parent hparent⟩)
  · exact h

/-- An update that keeps the foreign keys. -/
theorem Anchored.update (h : σ.Anchored gone db) (hσ : σ.Sound db) {t : S.Table} {id : S.Id}
    {set : S.Row t → S.Row t} (hset : ∀ row, S.parents (set row) = S.parents row) :
    (σ.update db t id set).2.Anchored gone db := by
  have hσ' := hσ.update t id set
  rw [Session.update] at hσ' ⊢
  split
  · exact h
  · rename_i old hold
    split
    · rename_i hadmits
      simp only [hold, if_pos hadmits] at hσ'
      have hl := σ.locks_write (updateNeeds old (set old)) db t id (some (set old))
      refine h.put hσ hσ' rfl hl (fun new hnew parent hparent => ?_) fun hnone => by cases hnone
      cases hnew
      rw [hset] at hparent
      rw [view, hσ.coherent.lookup_apply] at hold
      cases hpending : σ.writes.find t id with
      | none =>
        rw [hpending] at hold
        exact Or.inr (Or.inl ⟨old, hold, hparent⟩)
      | some version =>
        rw [hpending, Option.getD_some] at hold
        subst hold
        refine (h.written t id old hpending parent hparent).imp_right fun hrest => ?_
        exact hrest.imp_right fun hused => ⟨hused.1.mono hl, hused.2⟩
    · exact h

theorem Anchored.delete (h : σ.Anchored gone db) (hσ : σ.Sound db) {t : S.Table} {id : S.Id}
    (hdead : ¬S.Referenced t ∨ gone (t, id)) : (σ.delete db t id).Anchored gone db := by
  have hσ' := hσ.delete t id
  rw [Session.delete] at hσ' ⊢
  split
  · exact h
  · rename_i old hold
    simp only [hold] at hσ'
    exact h.put hσ hσ' rfl (σ.locks_write _ _ _ _ _) (fun new hnew => by cases hnew) fun _ => hdead

/-- **What a commit leaves**: a closed store, if nobody names the rows that are gone. -/
theorem Anchored.closed (h : σ.Anchored gone db) (hσ : σ.Sound db) (hdb : db.Integral)
    (hclosed : db.Closed) (hgone : ∀ parent, gone parent → ∀ t id, ¬(σ.view db).Names parent t id) :
    (σ.view db).Closed := by
  intro t row hrow parent hparent
  have hstays : ¬gone parent := fun h =>
    hgone parent h t (S.id row) ⟨row, (hσ.integral hdb).lookup_of_mem hrow, hparent⟩
  have hkept : (db.lookup parent.1 parent.2).isSome → ((σ.view db).lookup parent.1 parent.2).isSome := by
    intro hsome
    rw [view, hσ.coherent.lookup_apply]
    cases hpending : σ.writes.find parent.1 parent.2 with
    | none => exact hsome
    | some version =>
      cases version with
      | some row => rfl
      | none =>
        rcases h.deleted _ _ hpending with hunreferenced | hgone
        · exact absurd ⟨t, row, parent, hparent, rfl⟩ hunreferenced
        · exact absurd hgone hstays
  rcases hσ.mem_view.mp hrow with ⟨hcommitted, _⟩ | hwritten
  · exact hkept (hclosed t row hcommitted parent hparent)
  · rcases h.written t _ row hwritten parent hparent with hgone | ⟨old, hold, hnames⟩ | ⟨_, hsome⟩
    · exact absurd hgone hstays
    · exact hkept (hclosed t old (Store.lookup_mem hold) parent hnames)
    · exact hsome

/-- **What a commit promises**: rows that the session does not use are named by no more rows than before. -/
theorem Anchored.names (h : σ.Anchored gone db) (hσ : σ.Sound db) (hunused : ¬σ.Uses parent) {t : S.Table}
    {id : S.Id} (hnames : (σ.view db).Names parent t id) : db.Names parent t id := by
  obtain ⟨row, hrow, hparent⟩ := hnames
  rw [view, hσ.coherent.lookup_apply] at hrow
  cases hpending : σ.writes.find t id with
  | none =>
    rw [hpending] at hrow
    exact ⟨row, hrow, hparent⟩
  | some version =>
    rw [hpending, Option.getD_some] at hrow
    subst hrow
    rcases h.written t id row hpending parent hparent with hgone | hnames | ⟨huses, _⟩
    · exact absurd (h.owned parent hgone).uses hunused
    · exact hnames
    · exact absurd huses hunused

/-- A session sees no more names than before where the store has no more. -/
theorem names_view (hσ : σ.Sound db) (hσ' : σ.Sound db') {t : S.Table} {id : S.Id}
    (hdb : db'.Names parent t id → db.Names parent t id) (h : (σ.view db').Names parent t id) :
    (σ.view db).Names parent t id := by
  obtain ⟨row, hrow, hparent⟩ := h
  rw [view, hσ'.coherent.lookup_apply] at hrow
  cases hpending : σ.writes.find t id with
  | none =>
    rw [hpending] at hrow
    obtain ⟨old, hold, hnames⟩ := hdb ⟨row, hrow, hparent⟩
    refine ⟨old, ?_, hnames⟩
    rw [view, hσ.coherent.lookup_apply, hpending]
    exact hold
  | some version =>
    refine ⟨row, ?_, hparent⟩
    rw [view, hσ.coherent.lookup_apply, hpending]
    rwa [hpending] at hrow

end Session

/-! ### Programs that delete only rows that nobody names -/

namespace Prog

/-- The updates keep the foreign keys, and only rows that nobody can name are deleted. -/
def Refers : Prog S E X α → Prop
  | .pure _ => True
  | .throw _ => True
  | .read _ next failed => (∀ answer, (next answer).Refers) ∧ failed.Refers
  | .lock _ _ _ next failed => next.Refers ∧ failed.Refers
  | .insert _ next failed => (∀ ok, (next ok).Refers) ∧ failed.Refers
  | .update _ _ set next failed =>
    (∀ row, S.parents (set row) = S.parents row) ∧ (∀ result, (next result).Refers) ∧ failed.Refers
  | .delete t _ next failed => ¬S.Referenced t ∧ next.Refers ∧ failed.Refers
  | .attach _ next => ∀ copy, (next copy).Refers
  | .env _ next => ∀ answer, (next answer).Refers
  | .fresh next => ∀ id, (next id).Refers
  | .commit next failed => next.Refers ∧ failed.Refers
  | .rollback next => next.Refers

theorem Refers.bind {p : Prog S E X α} {f : α → Prog S E X β} (hp : p.Refers)
    (hf : ∀ value, (f value).Refers) : (p.bind f).Refers := by
  induction p with
  | pure value => exact hf value
  | throw error => trivial
  | read query next failed ih ihf => exact ⟨fun a => ih a (hp.1 a), ihf hp.2⟩
  | lock t id mode next failed ih ihf => exact ⟨ih hp.1, ihf hp.2⟩
  | insert row next failed ih ihf => exact ⟨fun ok => ih ok (hp.1 ok), ihf hp.2⟩
  | update t id set next failed ih ihf => exact ⟨hp.1, fun r => ih r (hp.2.1 r), ihf hp.2.2⟩
  | delete t id next failed ih ihf => exact ⟨hp.1, ih hp.2.1, ihf hp.2.2⟩
  | attach row next ih => exact fun copy => ih copy (hp copy)
  | env act next ih => exact fun a => ih a (hp a)
  | fresh next ih => exact fun id => ih id (hp id)
  | commit next failed ih ihf => exact ⟨ih hp.1, ihf hp.2⟩
  | rollback next ih => exact ih hp

theorem Refers.handle {p : Prog S E X α} {h : X → Prog S E X α} (hp : p.Refers)
    (hh : ∀ error, (h error).Refers) : (p.handle h).Refers := by
  induction p with
  | pure value => trivial
  | throw error => exact hh error
  | read query next failed ih ihf => exact ⟨fun a => ih a (hp.1 a), ihf hp.2⟩
  | lock t id mode next failed ih ihf => exact ⟨ih hp.1, ihf hp.2⟩
  | insert row next failed ih ihf => exact ⟨fun ok => ih ok (hp.1 ok), ihf hp.2⟩
  | update t id set next failed ih ihf => exact ⟨hp.1, fun r => ih r (hp.2.1 r), ihf hp.2.2⟩
  | delete t id next failed ih ihf => exact ⟨hp.1, ih hp.2.1, ihf hp.2.2⟩
  | attach row next ih => exact fun copy => ih copy (hp copy)
  | env act next ih => exact fun a => ih a (hp a)
  | fresh next ih => exact fun id => ih id (hp id)
  | commit next failed ih ihf => exact ⟨ih hp.1, ihf hp.2⟩
  | rollback next ih => exact ih hp

/-- A program that deletes nothing, and whose versions of a row keep its foreign keys. -/
theorem Revises.refers {R : Revision S} (hR : ∀ t old new, R.Allows t old new → S.parents new = S.parents old)
    {p : Prog S E X α} (hp : p.Revises R) : p.Refers := by
  induction p with
  | pure value => trivial
  | throw error => trivial
  | read query next failed ih ihf => exact ⟨fun a => ih a (hp.1 a), ihf hp.2⟩
  | lock t id mode next failed ih ihf => exact ⟨ih hp.1, ihf hp.2⟩
  | insert row next failed ih ihf => exact ⟨fun ok => ih ok (hp.1 ok), ihf hp.2⟩
  | update t id set next failed ih ihf =>
    exact ⟨fun row => hR t row (set row) (hp.1 row), fun r => ih r (hp.2.1 r), ihf hp.2.2⟩
  | delete t id next failed ih ihf => exact hp.elim
  | attach row next ih => exact fun copy => ih copy (hp copy)
  | env act next ih => exact fun a => ih a (hp a)
  | fresh next ih => exact fun id => ih id (hp id)
  | commit next failed ih ihf => exact ⟨ih hp.1, ihf hp.2⟩
  | rollback next ih => exact ih hp

end Prog

/-! ### From the text to the commits -/

/-- The store is closed, and every commit has left a closed store and kept its promise `Good`. A row that
a process holds `FOR UPDATE` is named by no more rows than before, whatever the others do. -/
def Protocol.references (Good : Commit S T → Prop) : Protocol S E T where
  inv s := s.db.Closed ∧ ∀ c ∈ s.log, c.after.Closed ∧ Good c
  rely _ locks s s' := ∀ parent, Session.Owns locks parent → ∀ t id,
    s'.db.Names parent t id → s.db.Names parent t id
  guar _ σ s s' := ∀ parent, ¬σ.Uses parent → ∀ t id, s'.db.Names parent t id → s.db.Names parent t id
  assume _ _ _ _ _ := True
  rely_refl _ _ _ _ _ _ _ h := h
  rely_trans _ _ _ _ _ h h' parent howns t id hnames := h parent howns t id (h' parent howns t id hnames)
  rely_mono _ _ _ _ _ hl h parent howns := h parent (howns.mono hl)

/-- The session is in order, and its writes are anchored. -/
structure Referring (P : Protocol S E T) (tag : T) (σ : Session S) (s : Shared S E T) : Prop where
  now : Interferes P tag σ s s
  anchored : σ.Anchored (fun _ => False) s.db

section Rules

variable {Good : Commit S T → Prop} {P : Protocol S E T} {tag : T} {σ : Session S} {s s' : Shared S E T}

theorem references_respects (a b : T) : Respects (Protocol.references (E := E) Good) a b :=
  fun _ _ _ _ hcompat hguar parent howns => hguar parent (howns.not_uses hcompat)

theorem references_tolerates (F : E → E → Prop) : (Protocol.references (E := E) Good).Tolerates F where
  env _ _ _ _ hinv _ := ⟨hinv, fun _ _ _ _ h => h⟩
  draw _ _ _ hinv := ⟨hinv, fun _ _ _ _ h => h⟩

/-- An anchored session may commit, if nobody names the rows that are gone. -/
theorem references_allows {gone : S.Table × S.Id → Prop}
    (hnow : Interferes (Protocol.references Good) tag σ s s) (h : σ.Anchored gone s.db)
    (hgone : ∀ parent, gone parent → ∀ t id, ¬(σ.view s.db).Names parent t id)
    (hgood : Good ⟨tag, σ, s.db⟩) : (Protocol.references Good).Allows tag σ s (s.commit tag σ) := by
  have hclosed := h.closed hnow.sound hnow.integral hnow.inv.1 hgone
  refine ⟨⟨hclosed, fun c hc => ?_⟩, fun parent hunused t id hnames => h.names hnow.sound hunused hnames⟩
  rcases List.mem_cons.mp hc with rfl | hc
  · exact ⟨hclosed, hgood⟩
  · exact hnow.inv.2 c hc

theorem Referring.interferes (h : Referring P tag σ s) (hs : Interferes P tag σ s s') :
    Referring P tag σ s' :=
  ⟨hs.now, h.anchored.frozen h.now.sound hs.frozen⟩

theorem Referring.empty (h : Interferes P tag σ s s') : Referring P tag .empty s' :=
  ⟨.refl h.inv h.integral (.of_writes_empty h.integral rfl), .of_writes_empty rfl⟩

theorem Referring.extend {σ' : Session S} (h : Referring P tag σ s) (hext : σ.Extends σ') :
    Referring P tag σ' s :=
  ⟨h.now.extend hext, h.anchored.congr hext.writes hext.locks⟩

/-- **The rule**: a program that refers keeps the session in order, however it ends. -/
theorem wp_refers {p : Prog S E X α} (hp : p.Refers) (hgood : ∀ σ db, Good ⟨tag, σ, db⟩)
    (h : Referring (Protocol.references Good) tag σ s) :
    wp (Protocol.references Good) tag (fun _ σ s => Referring (Protocol.references Good) tag σ s)
      (fun _ σ s => Referring (Protocol.references Good) tag σ s) p σ s := by
  have htolerates : (Protocol.references (E := E) Good).Tolerates fun _ _ => True := references_tolerates _
  induction p generalizing σ s with
  | pure value => exact h
  | throw error => exact h
  | read query next failed ih ihf =>
    exact fun s' hs => ⟨ih _ (hp.1 _) (h.interferes hs), ihf hp.2 (.empty hs)⟩
  | lock t id mode next failed ih ihf =>
    exact fun s' hs => ⟨fun _ => ih hp.1 ((h.interferes hs).extend (σ.extends_hold _ _)), ihf hp.2 (.empty hs)⟩
  | insert row next failed ih ihf =>
    intro s' hs
    have h' := h.interferes hs
    exact ⟨fun _ => ih _ (hp.1 _) ⟨.refl hs.inv hs.integral (hs.sound.insert row),
      h'.anchored.insert hs.sound row⟩, ihf hp.2 (.empty hs)⟩
  | update t id set next failed ih ihf =>
    intro s' hs
    have h' := h.interferes hs
    exact ⟨ih _ (hp.2.1 _) ⟨.refl hs.inv hs.integral (hs.sound.update t id set),
      h'.anchored.update hs.sound hp.1⟩, ihf hp.2.2 (.empty hs)⟩
  | delete t id next failed ih ihf =>
    intro s' hs
    have h' := h.interferes hs
    exact ⟨ih hp.2.1 ⟨.refl hs.inv hs.integral (hs.sound.delete t id),
      h'.anchored.delete hs.sound (Or.inl hp.1)⟩, ihf hp.2.2 (.empty hs)⟩
  | attach row next ih =>
    intro s' hs
    have h' := h.interferes hs
    exact ih _ (hp _) ⟨hs.attach row, h'.anchored.congr rfl (List.Subset.refl _)⟩
  | env act next ih =>
    intro s' hs
    have h' := h.interferes hs
    have hallows := htolerates.env tag σ s' (act s'.env).2 hs.inv trivial
    exact ⟨hallows, ih _ (hp _) ⟨.refl hallows.1 hs.integral hs.sound, h'.anchored⟩⟩
  | fresh next ih =>
    intro s' hs
    have h' := h.interferes hs
    have hallows := htolerates.draw tag σ s' hs.inv
    exact ⟨hallows, ih _ (hp _) ⟨.refl hallows.1 hs.integral (hs.sound.hold _ _),
      h'.anchored.congr rfl (List.subset_append_right _ _)⟩⟩
  | commit next failed ih ihf =>
    intro s' hs
    have h' := h.interferes hs
    have hallows := references_allows h'.now h'.anchored (fun _ hgone => hgone.elim) (hgood σ s'.db)
    have hdb := hs.sound.integral hs.integral
    exact ⟨hallows, ih hp.1 ⟨.refl hallows.1 hdb (.of_writes_empty hdb rfl), .of_writes_empty rfl⟩,
      ihf hp.2 (.empty hs)⟩
  | rollback next ih => exact fun s' hs => ih hp (.empty hs)

end Rules

/-! ### Cascades -/

/-- The session has deleted the parent, which it owns and which the others still see, and is to delete all rows
that name it; it is done with the tables `cleared`. -/
structure Cascading (P : Protocol S E T) (tag : T) (parent : S.Table × S.Id) (cleared : S.Table → Prop)
    (σ : Session S) (s : Shared S E T) : Prop where
  now : Interferes P tag σ s s
  anchored : σ.Anchored (· = parent) s.db
  cleared : ∀ t, cleared t → ∀ id, ¬(σ.view s.db).Names parent t id
  absent : (σ.view s.db).lookup parent.1 parent.2 = none
  present : (s.db.lookup parent.1 parent.2).isSome

section Cascades

variable {Good : Commit S T → Prop} {tag : T} {parent : S.Table × S.Id} {cleared : S.Table → Prop}
  {σ σ' : Session S} {s s' : Shared S E T} {t : S.Table}

/-- While the session owns the parent, it sees no new names of it. -/
theorem Cascading.names (h : Cascading (Protocol.references Good) tag parent cleared σ s)
    (hs : Interferes (Protocol.references Good) tag σ s s') {id : S.Id}
    (hnames : (σ.view s'.db).Names parent t id) : (σ.view s.db).Names parent t id :=
  Session.names_view h.now.sound hs.sound (hs.rely parent (h.anchored.owned parent rfl) t id) hnames

theorem Cascading.interferes (h : Cascading (Protocol.references Good) tag parent cleared σ s)
    (hs : Interferes (Protocol.references Good) tag σ s s') :
    Cascading (Protocol.references Good) tag parent cleared σ s' := by
  refine ⟨hs.now, h.anchored.frozen h.now.sound hs.frozen,
    fun t ht id hnames => h.cleared t ht id (h.names hs hnames), ?_, ?_⟩
  · obtain ⟨held, hmem, hkey, hmode⟩ := h.anchored.owned parent rfl
    rw [Session.lookup_view_frozen h.now.sound hs.sound ⟨held, hmem, hkey, by simp [hmode]⟩ hs.frozen]
    exact h.absent
  · obtain ⟨held, hmem, hkey, -⟩ := h.anchored.owned parent rfl
    exact hs.frozen.shared held hmem _ _ hkey h.present

theorem Cascading.extend {P : Protocol S E T} (h : Cascading P tag parent cleared σ s)
    (hext : σ.Extends σ') : Cascading P tag parent cleared σ' s := by
  have hview : σ'.view s.db = σ.view s.db := by rw [Session.view, hext.writes, Session.view]
  exact ⟨h.now.extend hext, h.anchored.congr hext.writes hext.locks, by rw [hview]; exact h.cleared,
    by rw [hview]; exact h.absent, h.present⟩

theorem Cascading.delete {P : Protocol S E T} (h : Cascading P tag parent cleared σ s)
    (ht : ¬S.Referenced t) {id : S.Id} : Cascading P tag parent cleared (σ.delete s.db t id) s := by
  refine ⟨.refl h.now.inv h.now.integral (h.now.sound.delete t id), h.anchored.delete h.now.sound (Or.inl ht),
    fun t' ht' id' hnames => h.cleared t' ht' id' (Session.names_view_delete h.now.sound hnames).1, ?_,
    h.present⟩
  refine Option.eq_none_iff_forall_ne_some.mpr fun row hrow => ?_
  cases h.absent.symm.trans (Session.lookup_view_delete h.now.sound hrow).1

variable [DatabaseError X] {R : X → Assertion S E T}

/-- The parent goes first. -/
theorem wp_deleteRow_cascading {id : S.Id} {Q : Unit → Assertion S E T}
    (hR : Escapes (Protocol.references Good) R) (h : Referring (Protocol.references Good) tag σ s)
    (howns : Session.Owns σ.locks (t, id)) (hpresent : (s.db.lookup t id).isSome)
    (hQ : ∀ σ' s', Cascading (Protocol.references Good) tag (t, id) (fun _ => False) σ' s' → Q () σ' s') :
    wp (Protocol.references Good) tag Q R (Prog.deleteRow t id) σ s := by
  refine fun s₁ h₁ => ⟨?_, hR.of_interferes h₁⟩
  have hanchored : σ.Anchored (· = (t, id)) s₁.db :=
    (h.interferes h₁).anchored.weaken (fun _ hgone => hgone.elim) fun _ hsame => hsame ▸ howns
  refine hQ _ s₁ ⟨.refl h₁.inv h₁.integral (h₁.sound.delete _ _), hanchored.delete h₁.sound (Or.inr rfl),
    fun _ hcleared => hcleared.elim, ?_, ?_⟩
  · refine Option.eq_none_iff_forall_ne_some.mpr fun row hrow => ?_
    exact (Session.lookup_view_delete h₁.sound hrow).2 rfl
  · obtain ⟨held, hmem, hkey, -⟩ := howns
    exact h₁.frozen.shared held hmem _ _ hkey hpresent

theorem wp_deleteAll_cascading {ids : List S.Id} {Q : Unit → Assertion S E T}
    (hR : Escapes (Protocol.references Good) R) (ht : ¬S.Referenced t)
    (h : Cascading (Protocol.references Good) tag parent cleared σ s)
    (hQ : ∀ σ' s', Cascading (Protocol.references Good) tag parent cleared σ' s' →
      (∀ id, (σ'.view s'.db).Names parent t id → (σ.view s.db).Names parent t id ∧ id ∉ ids) → Q () σ' s') :
    wp (Protocol.references Good) tag Q R (Prog.deleteAll t ids) σ s := by
  induction ids generalizing σ s with
  | nil => exact hQ σ s h fun id hnames => ⟨hnames, List.not_mem_nil⟩
  | cons id ids ih =>
    refine fun s₁ h₁ => ⟨?_, hR.of_interferes h₁⟩
    have hlater := h.interferes h₁
    refine ih (hlater.delete ht) fun σ' s' h' hrest => hQ σ' s' h' fun id' hnames => ?_
    obtain ⟨hnames', hids⟩ := hrest id' hnames
    obtain ⟨hseen, hne⟩ := Session.names_view_delete hlater.now.sound hnames'
    exact ⟨h.names h₁ hseen, List.not_mem_cons_of_ne_of_not_mem (fun hid => hne (by rw [hid])) hids⟩

/-- A `FOR UPDATE` of all rows that name the parent misses none. -/
theorem wp_lockMatching_cascading {cond : S.Row t → Bool} {ids : List S.Id}
    {Q : List (S.Row t) → Assertion S E T} (hR : Escapes (Protocol.references Good) R)
    (hcond : ∀ row, parent ∈ S.parents row → cond row = true)
    (h : Cascading (Protocol.references Good) tag parent cleared σ s)
    (hQ : ∀ rows σ' s', Cascading (Protocol.references Good) tag parent cleared σ' s' →
      (∀ id, (σ'.view s'.db).Names parent t id →
        (σ.view s.db).Names parent t id ∧ (id ∈ ids → id ∈ rows.map S.id)) → Q rows σ' s') :
    wp (Protocol.references Good) tag Q R (Prog.lockMatching t cond ids) σ s := by
  induction ids generalizing Q σ s with
  | nil => exact hQ [] σ s h fun id hnames => ⟨hnames, fun hid => absurd hid List.not_mem_nil⟩
  | cons id ids ih =>
    refine fun s₁ h₁ => ⟨fun _ => ?_, hR.of_interferes h₁⟩
    have hext := σ.extends_hold [(Key.row t id, .forUpdate)] s₁.db
    have hlocked := (h.interferes h₁).extend hext
    generalize σ.hold [(.row t id, .forUpdate)] s₁.db = σ₁ at hext hlocked ⊢
    refine fun s₂ h₂ => ⟨?_, hR.of_interferes h₂⟩
    rw [wp_bind]
    refine ih (hlocked.interferes h₂) fun rows σ' s' h' hrest => hQ _ σ' s' h' fun id' hnames => ?_
    obtain ⟨hseen, hids⟩ := hrest id' hnames
    have hview : σ₁.view s₁.db = σ.view s₁.db := by rw [Session.view, hext.writes, Session.view]
    refine ⟨h.names h₁ (hview ▸ hlocked.names h₂ hseen), fun hid => ?_⟩
    rw [List.map_append]
    rcases List.mem_cons.mp hid with rfl | hid
    · -- the row that is read again still names the parent
      obtain ⟨row, hrow, hparent⟩ := hseen
      have hfound : ((σ₁.view s₂.db).lookup t id').filter cond = some row := by
        rw [hrow, Option.filter_some, if_pos (hcond row hparent)]
      exact List.mem_append_left _ (List.mem_map.mpr
        ⟨row, Option.mem_toList.mpr hfound, Store.lookup_id hrow⟩)
    · exact List.mem_append_right _ (hids hid)

/-- A cascade into a table leaves no row there that names the parent. -/
theorem wp_deleteMatching_cascading {cond : S.Row t → Bool} {Q : Unit → Assertion S E T}
    (hR : Escapes (Protocol.references Good) R) (ht : ¬S.Referenced t)
    (hcond : ∀ row, parent ∈ S.parents row → cond row = true)
    (h : Cascading (Protocol.references Good) tag parent cleared σ s)
    (hQ : ∀ σ' s', Cascading (Protocol.references Good) tag parent (fun t' => t' = t ∨ cleared t') σ' s' →
      Q () σ' s') :
    wp (Protocol.references Good) tag Q R (Prog.deleteMatching t cond) σ s := by
  rw [Prog.deleteMatching, Prog.selectForUpdate, wp_bind, wp_bind]
  refine wp_query hR fun s₁ h₁ => ?_
  refine wp_lockMatching_cascading hR hcond (h.interferes h₁) fun rows σ₂ s₂ h₂ hlocked => ?_
  refine wp_deleteAll_cascading hR ht h₂ fun σ' s' h' hdeleted =>
    hQ σ' s' ⟨h'.now, h'.anchored, fun t' ht' id hnames => ?_, h'.absent, h'.present⟩
  rcases ht' with rfl | ht'
  · obtain ⟨hleft, hid⟩ := hdeleted id hnames
    obtain ⟨⟨row, hrow, hparent⟩, hfound⟩ := hlocked id hleft
    refine hid (hfound (List.mem_map.mpr ⟨row, ?_, Store.lookup_id hrow⟩))
    exact List.mem_filter.mpr ⟨Store.lookup_mem hrow, hcond row hparent⟩
  · exact h'.cleared t' ht' id hnames

end Cascades

/-! ### Whole runs -/

/-- **The run**: in every interleaving the store is closed, and so is what each commit has left. -/
theorem World.references_of_reach {Good : Commit S T → Prop} {s : Shared S E T} {jobs : List T}
    {program : T → Prog S E X α} {w : World S E X T α} (hdb : s.db.Integral) (hclosed : s.db.Closed)
    (hlog : s.log = [])
    (hwp : ∀ job ∈ jobs, wp (Protocol.references Good) job (fun _ _ _ => True) (fun _ _ _ => True)
      (program job) .empty s)
    (hreach : (World.start s jobs program).Reach w) :
    w.shared.db.Closed ∧ ∀ c ∈ w.shared.log, c.after.Closed ∧ Good c := by
  have hmeets : Meets (X := X) (α := α) (Protocol.references (E := E) Good) fun _ _ => True := by
    intro w i _ th prog _ _
    cases prog <;> trivial
  have hinv : (Protocol.references (E := E) Good).inv s := ⟨hclosed, by simp [hlog]⟩
  have hstart : (World.start s jobs program).Ok (Protocol.references Good) fun _ _ _ _ => True :=
    .start hinv hdb (.of_forall references_respects jobs) hwp
  exact (hreach.ok hmeets (fun _ _ => stable_true) hstart).inv

end ReadCommitted
