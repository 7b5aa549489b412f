import TenantForge.ReadCommitted.CommitsLast
/-!
# The life of a row

A `Revision` says which versions of a row may follow which. `Prog.Revises` reads off the text of a program
that its updates make such versions only, and that it deletes nothing; a deletion is justified where it
happens, by the lock on the row (`Session.Dooms`). Then in every interleaving each commit leaves an allowed
version of each row, except for rows that the committing process may delete (`World.revised_of_reach`).
-/

namespace ReadCommitted

variable {S : Schema} {E X T : Type} {α β : Type}

/-- Which versions of a row may follow which. -/
structure Revision (S : Schema) where
  Allows : (t : S.Table) → S.Row t → S.Row t → Prop
  refl : ∀ t row, Allows t row row
  trans : ∀ t a b c, Allows t a b → Allows t b c → Allows t a c

/-- Rows that may be deleted, by what is the same in all their versions. -/
structure Revision.Deletions (R : Revision S) where
  rows : (t : S.Table) → S.Row t → Prop
  earlier : ∀ t old new, R.Allows t old new → rows t new → rows t old

variable {R : Revision S} {D : R.Deletions}

/-- Each row of the first store is in the second one, in a later version, unless it may be deleted. -/
def Store.Revised (D : R.Deletions) (db db' : Store S) : Prop :=
  ∀ t, ∀ row ∈ db t, D.rows t row ∨ ∃ row' ∈ db' t, S.id row' = S.id row ∧ R.Allows t row row'

namespace Session

/-- What the session has written so far are later versions of the committed rows. -/
def Revising (D : R.Deletions) (σ : Session S) (db : Store S) : Prop :=
  ∀ t id version, σ.writes.find t id = some version → ∀ old, db.lookup t id = some old →
    D.rows t old ∨ ∃ new, version = some new ∧ R.Allows t old new

variable {σ σ' : Session S} {db db' : Store S} {t : S.Table}

theorem Revising.of_writes_empty (h : σ.writes = .empty) : σ.Revising D db := by
  intro t id version hfind
  simp [h] at hfind

theorem Revising.congr (h : σ.Revising D db) (hw : σ'.writes = σ.writes) : σ'.Revising D db := by
  unfold Revising
  rw [hw]
  exact h

/-- The rows that a session has written are locked, so their committed versions stay. -/
theorem Revising.frozen (h : σ.Revising D db) (hσ : σ.Sound db) (hf : Frozen σ.locks db db') :
    σ.Revising D db' := by
  intro t id version hfind old hold
  obtain ⟨held, hmem, hkey, hmode, -⟩ := hσ.held t id version hfind
  rw [hf.row held hmem t id hkey hmode] at hold
  exact h t id version hfind old hold

/-- A version that follows what the session sees follows the committed row. -/
theorem Revising.put (h : σ.Revising D db) (hσ : σ.Sound db) {id : S.Id} {version : Option (S.Row t)}
    (hw : σ'.writes = σ.writes.put t id version)
    (hversion : ∀ seen, (σ.view db).lookup t id = some seen →
      D.rows t seen ∨ ∃ new, version = some new ∧ R.Allows t seen new) : σ'.Revising D db := by
  have hlookup := hσ.coherent.lookup_apply db t id
  intro t' id' version' hfind old hold
  rw [hw] at hfind
  by_cases ht : t' = t
  · subst ht
    by_cases hid : id' = id
    · subst hid
      rw [Overlay.find_put_self] at hfind
      obtain rfl := Option.some.inj hfind
      cases hpending : σ.writes.find t' id' with
      | none =>
        rw [hpending, Option.getD_none, hold] at hlookup
        exact hversion old hlookup
      | some pending =>
        rw [hpending, Option.getD_some] at hlookup
        rcases h t' id' pending hpending old hold with hdead | ⟨new, rfl, hallows⟩
        · exact Or.inl hdead
        · rcases hversion new hlookup with hdead | ⟨newer, rfl, hallows'⟩
          · exact Or.inl (D.earlier t' old new hallows hdead)
          · exact Or.inr ⟨newer, rfl, R.trans t' old new newer hallows hallows'⟩
    · rw [Overlay.find_put_id_ne _ _ hid] at hfind
      exact h t' id' version' hfind old hold
  · rw [Overlay.find_put_table_ne _ ht] at hfind
    exact h t' id' version' hfind old hold

theorem Revising.insert (h : σ.Revising D db) (hσ : σ.Sound db) (row : S.Row t) :
    (σ.insert db row).2.Revising D db := by
  rw [Session.insert]
  split
  · rename_i haccepts
    refine h.put hσ rfl fun seen hseen => ?_
    rw [haccepts.1] at hseen
    cases hseen
  · exact h

theorem Revising.update (h : σ.Revising D db) (hσ : σ.Sound db) {id : S.Id} {set : S.Row t → S.Row t}
    (hset : ∀ row, R.Allows t row (set row)) : (σ.update db t id set).2.Revising D db := by
  rw [Session.update]
  split
  · exact h
  · rename_i old hold
    split
    · refine h.put hσ rfl fun seen hseen => Or.inr ⟨set old, rfl, ?_⟩
      obtain rfl := Option.some.inj (hold.symm.trans hseen)
      exact hset old
    · exact h

theorem Revising.delete (h : σ.Revising D db) (hσ : σ.Sound db) {id : S.Id}
    (hdead : ∀ row, (σ.view db).lookup t id = some row → D.rows t row) :
    (σ.delete db t id).Revising D db := by
  rw [Session.delete]
  split
  · exact h
  · exact h.put hσ rfl fun seen hseen => Or.inl (hdead seen hseen)

/-- What a commit does to the rows. -/
theorem Revising.commit (h : σ.Revising D db) (hdb : db.Integral) (hσ : σ.Sound db) :
    db.Revised D (σ.view db) := by
  intro t row hrow
  cases hfind : σ.writes.find t (S.id row) with
  | none => exact Or.inr ⟨row, hσ.mem_view.mpr (Or.inl ⟨hrow, hfind⟩), rfl, R.refl t row⟩
  | some version =>
    rcases h t (S.id row) version hfind row (hdb.lookup_of_mem hrow) with hdead | ⟨new, rfl, hallows⟩
    · exact Or.inl hdead
    · have hid := hσ.coherent.id_of_find hfind
      exact Or.inr ⟨new, hσ.mem_view.mpr (Or.inr (by rw [hid]; exact hfind)), hid, hallows⟩

/-! ### Deletions -/

/-- The row with this primary key is locked, and it may be deleted if it is there. -/
structure Dooms (D : R.Deletions) (σ : Session S) (db : Store S) (t : S.Table) (id : S.Id) : Prop where
  held : ∃ held ∈ σ.locks, held.key = .row t id ∧ held.mode ≠ .keyShare
  dead : ∀ row, (σ.view db).lookup t id = some row → D.rows t row

/-- A session sees a row that it has locked as before. -/
theorem lookup_view_frozen (hσ : σ.Sound db) (hσ' : σ.Sound db') {id : S.Id}
    (hheld : ∃ held ∈ σ.locks, held.key = .row t id ∧ held.mode ≠ .keyShare) (hf : Frozen σ.locks db db') :
    (σ.view db').lookup t id = (σ.view db).lookup t id := by
  obtain ⟨held, hmem, hkey, hmode⟩ := hheld
  rw [view, hσ'.coherent.lookup_apply, hf.row held hmem t id hkey hmode, ← hσ.coherent.lookup_apply, view]

theorem Dooms.frozen {id : S.Id} (h : σ.Dooms D db t id) (hσ : σ.Sound db) (hσ' : σ.Sound db')
    (hf : Frozen σ.locks db db') : σ.Dooms D db' t id :=
  ⟨h.held, fun row hrow => h.dead row (by rwa [lookup_view_frozen hσ hσ' h.held hf] at hrow)⟩

theorem Dooms.extends {id : S.Id} (h : σ.Dooms D db t id) (hext : σ.Extends σ') : σ'.Dooms D db t id := by
  obtain ⟨held, hmem, hrest⟩ := h.held
  refine ⟨⟨held, hext.locks hmem, hrest⟩, fun row hrow => h.dead row ?_⟩
  rwa [view, hext.writes] at hrow

theorem Dooms.delete {id id' : S.Id} (h : σ.Dooms D db t id) (hdb : db.Integral) (hσ : σ.Sound db) :
    (σ.delete db t id').Dooms D db t id := by
  constructor
  · obtain ⟨held, hmem, hrest⟩ := h.held
    refine ⟨held, ?_, hrest⟩
    rw [Session.delete]
    split
    · exact hmem
    · exact σ.locks_write _ _ _ _ _ hmem
  · intro row hrow
    have hseen := (hσ.mem_view_delete.mp (Store.lookup_mem hrow)).1
    refine h.dead row ?_
    rw [← Store.lookup_id hrow]
    exact (hσ.integral hdb).lookup_of_mem hseen

end Session

/-! ### Programs that delete nothing -/

namespace Prog

/-- The updates make later versions of the rows that they find. -/
def Revises (R : Revision S) : Prog S E X α → Prop
  | .pure _ => True
  | .throw _ => True
  | .read _ next failed => (∀ answer, (next answer).Revises R) ∧ failed.Revises R
  | .lock _ _ _ next failed => next.Revises R ∧ failed.Revises R
  | .insert _ next failed => (∀ ok, (next ok).Revises R) ∧ failed.Revises R
  | .update t _ set next failed =>
    (∀ row, R.Allows t row (set row)) ∧ (∀ result, (next result).Revises R) ∧ failed.Revises R
  | .delete _ _ _ _ => False
  | .attach _ next => ∀ copy, (next copy).Revises R
  | .env _ next => ∀ answer, (next answer).Revises R
  | .fresh next => ∀ id, (next id).Revises R
  | .commit next failed => next.Revises R ∧ failed.Revises R
  | .rollback next => next.Revises R

theorem Revises.bind {p : Prog S E X α} {f : α → Prog S E X β} (hp : p.Revises R)
    (hf : ∀ value, (f value).Revises R) : (p.bind f).Revises R := by
  induction p with
  | pure value => exact hf value
  | throw error => trivial
  | read query next failed ih ihf => exact ⟨fun a => ih a (hp.1 a), ihf hp.2⟩
  | lock t id mode next failed ih ihf => exact ⟨ih hp.1, ihf hp.2⟩
  | insert row next failed ih ihf => exact ⟨fun ok => ih ok (hp.1 ok), ihf hp.2⟩
  | update t id set next failed ih ihf => exact ⟨hp.1, fun r => ih r (hp.2.1 r), ihf hp.2.2⟩
  | delete t id next failed ih ihf => exact hp.elim
  | attach row next ih => exact fun copy => ih copy (hp copy)
  | env act next ih => exact fun a => ih a (hp a)
  | fresh next ih => exact fun id => ih id (hp id)
  | commit next failed ih ihf => exact ⟨ih hp.1, ihf hp.2⟩
  | rollback next ih => exact ih hp

theorem Revises.handle {p : Prog S E X α} {h : X → Prog S E X α} (hp : p.Revises R)
    (hh : ∀ error, (h error).Revises R) : (p.handle h).Revises R := by
  induction p with
  | pure value => trivial
  | throw error => exact hh error
  | read query next failed ih ihf => exact ⟨fun a => ih a (hp.1 a), ihf hp.2⟩
  | lock t id mode next failed ih ihf => exact ⟨ih hp.1, ihf hp.2⟩
  | insert row next failed ih ihf => exact ⟨fun ok => ih ok (hp.1 ok), ihf hp.2⟩
  | update t id set next failed ih ihf => exact ⟨hp.1, fun r => ih r (hp.2.1 r), ihf hp.2.2⟩
  | delete t id next failed ih ihf => exact hp.elim
  | attach row next ih => exact fun copy => ih copy (hp copy)
  | env act next ih => exact fun a => ih a (hp a)
  | fresh next ih => exact fun id => ih id (hp id)
  | commit next failed ih ihf => exact ⟨ih hp.1, ihf hp.2⟩
  | rollback next ih => exact ih hp

theorem revises_composes : Composes fun β (p : Prog S E X β) => p.Revises R where
  pure _ := trivial
  throw _ := trivial
  act _ _ := trivial
  bind := Revises.bind
  handle := Revises.handle

/-- A program that writes nothing. -/
theorem Within.revises {W : S.Table → Prop} {F : E → E → Prop} {C : Prop} {p : Prog S E X α}
    (hp : p.Within W F C) (hW : ∀ t, ¬W t) : p.Revises R := by
  induction p with
  | pure value => trivial
  | throw error => trivial
  | read query next failed ih ihf => exact ⟨fun a => ih a (hp.1 a), ihf hp.2⟩
  | lock t id mode next failed ih ihf => exact ⟨ih hp.1, ihf hp.2⟩
  | insert row next failed ih ihf => exact absurd hp.1 (hW _)
  | update t id set next failed ih ihf => exact absurd hp.1 (hW t)
  | delete t id next failed ih ihf => exact absurd hp.1 (hW t)
  | attach row next ih => exact fun copy => ih copy (hp copy)
  | env act next ih => exact fun a => ih a (hp.2 a)
  | fresh next ih => exact fun id => ih id (hp id)
  | commit next failed ih ihf => exact ⟨ih hp.2.1, ihf hp.2.2⟩
  | rollback next ih => exact ih hp

section Statements

variable [DatabaseError X]

theorem revises_insertRow {t : S.Table} (row : S.Row t) : (insertRow row : Prog S E X Bool).Revises R :=
  ⟨fun _ => trivial, trivial⟩

theorem revises_updateRow {t : S.Table} {id : S.Id} {set : S.Row t → S.Row t}
    (hset : ∀ row, R.Allows t row (set row)) :
    (updateRow t id set : Prog S E X UpdateResult).Revises R :=
  ⟨hset, fun _ => trivial, trivial⟩

end Statements

end Prog

/-! ### From the text to the commits -/

/-- The invariant and the guarantee of the protocol speak of commits only. -/
def Protocol.LogOnly (P : Protocol S E T) : Prop :=
  ∀ tag σ s s', P.inv s → s'.log = s.log → P.Allows tag σ s s'

theorem Protocol.LogOnly.tolerates {P : Protocol S E T} (h : P.LogOnly) (F : E → E → Prop) : P.Tolerates F where
  env tag σ s _ hinv _ := h tag σ s _ hinv rfl
  draw tag σ s hinv := h tag σ s _ hinv rfl

/-- The commits so far have left a later version of each row, unless it might be deleted. -/
def Protocol.revisions (R : Revision S) (D : T → R.Deletions) : Protocol S E T :=
  .free T fun s => ∀ c ∈ s.log, c.before.Revised (D c.tag) c.after

/-- The session is in order, and what it has written are later versions. -/
structure Revised (P : Protocol S E T) (tag : T) (D : R.Deletions) (σ : Session S) (s : Shared S E T) :
    Prop where
  now : Interferes P tag σ s s
  revising : σ.Revising D s.db

section Rules

variable {P : Protocol S E T} {tag : T} {σ : Session S} {s s' : Shared S E T}

theorem revisions_logOnly {D : T → R.Deletions} : (Protocol.revisions (E := E) R D).LogOnly := by
  intro tag σ s s' hinv hlog
  refine ⟨fun c hc => hinv c ?_, trivial⟩
  rwa [← hlog]

/-- A session in order may commit. -/
theorem Revised.allows {D : T → R.Deletions} (h : Revised (Protocol.revisions R D) tag (D tag) σ s) :
    (Protocol.revisions R D).Allows tag σ s (s.commit tag σ) := by
  refine ⟨fun c hc => ?_, trivial⟩
  rcases List.mem_cons.mp hc with rfl | hc
  · exact h.revising.commit h.now.integral h.now.sound
  · exact h.now.inv c hc

theorem Revised.interferes (h : Revised P tag D σ s) (hs : Interferes P tag σ s s') :
    Revised P tag D σ s' :=
  ⟨.refl hs.inv hs.integral hs.sound, h.revising.frozen h.now.sound hs.frozen⟩

theorem Revised.empty (h : Interferes P tag σ s s') : Revised P tag D .empty s' :=
  ⟨.refl h.inv h.integral (.of_writes_empty h.integral rfl), .of_writes_empty rfl⟩

/-- **The rule**: a program that only revises keeps the session in order, however it ends. -/
theorem wp_revises {p : Prog S E X α} (hp : p.Revises R) (hP : P.LogOnly)
    (hC : ∀ σ s, Revised P tag D σ s → P.Allows tag σ s (s.commit tag σ)) (h : Revised P tag D σ s) :
    wp P tag (fun _ σ s => Revised P tag D σ s) (fun _ σ s => Revised P tag D σ s) p σ s := by
  induction p generalizing σ s with
  | pure value => exact h
  | throw error => exact h
  | read query next failed ih ihf =>
    exact fun s' hs => ⟨ih _ (hp.1 _) (h.interferes hs), ihf hp.2 (.empty hs)⟩
  | lock t id mode next failed ih ihf =>
    intro s' hs
    have h' := h.interferes hs
    exact ⟨fun _ => ih hp.1 ⟨.refl hs.inv hs.integral (hs.sound.hold _ _), h'.revising.congr rfl⟩,
      ihf hp.2 (.empty hs)⟩
  | insert row next failed ih ihf =>
    intro s' hs
    have h' := h.interferes hs
    exact ⟨fun _ => ih _ (hp.1 _) ⟨.refl hs.inv hs.integral (hs.sound.insert row),
      h'.revising.insert hs.sound row⟩, ihf hp.2 (.empty hs)⟩
  | update t id set next failed ih ihf =>
    intro s' hs
    have h' := h.interferes hs
    exact ⟨ih _ (hp.2.1 _) ⟨.refl hs.inv hs.integral (hs.sound.update t id set),
      h'.revising.update hs.sound hp.1⟩, ihf hp.2.2 (.empty hs)⟩
  | delete t id next failed ih ihf => exact hp.elim
  | attach row next ih =>
    intro s' hs
    have h' := h.interferes hs
    exact ih _ (hp _) ⟨hs.attach row, h'.revising.congr rfl⟩
  | env act next ih =>
    intro s' hs
    have h' := h.interferes hs
    have hallows := hP tag σ s' { s' with env := (act s'.env).2 } hs.inv rfl
    exact ⟨hallows, ih _ (hp _) ⟨.refl hallows.1 hs.integral hs.sound, h'.revising⟩⟩
  | fresh next ih =>
    intro s' hs
    have h' := h.interferes hs
    have hallows := hP tag σ s' s'.draw hs.inv rfl
    exact ⟨hallows, ih _ (hp _) ⟨.refl hallows.1 hs.integral (hs.sound.hold _ _),
      h'.revising.congr rfl⟩⟩
  | commit next failed ih ihf =>
    intro s' hs
    have hallows := hC σ s' (h.interferes hs)
    have hdb := hs.sound.integral hs.integral
    exact ⟨hallows, ih hp.1 ⟨.refl hallows.1 hdb (.of_writes_empty hdb rfl), .of_writes_empty rfl⟩,
      ihf hp.2 (.empty hs)⟩
  | rollback next ih => exact fun s' hs => ih hp (.empty hs)

end Rules

section Deleting

variable [DatabaseError X] {P : Protocol S E T} {tag : T} {R' : X → Assertion S E T} {σ : Session S}
  {s : Shared S E T} {t : S.Table}

theorem wp_deleteAll_revised {ids : List S.Id} {Q : Unit → Assertion S E T} (hR : Escapes P R')
    (h : Revised P tag D σ s) (hdoomed : ∀ id ∈ ids, σ.Dooms D s.db t id)
    (hQ : ∀ σ' s', Revised P tag D σ' s' → Q () σ' s') :
    wp P tag Q R' (Prog.deleteAll t ids) σ s := by
  induction ids generalizing σ s with
  | nil => exact hQ σ s h
  | cons id ids ih =>
    refine fun s₁ h₁ => ⟨?_, hR.of_interferes h₁⟩
    have hlater : ∀ id' ∈ id :: ids, σ.Dooms D s₁.db t id' := fun id' hid' =>
      (hdoomed id' hid').frozen h.now.sound h₁.sound h₁.frozen
    refine ih ⟨.refl h₁.inv h₁.integral (h₁.sound.delete t id), ?_⟩ fun id' hid' => ?_
    · exact (h.interferes h₁).revising.delete h₁.sound (hlater id List.mem_cons_self).dead
    · exact (hlater id' (List.mem_cons_of_mem _ hid')).delete h₁.integral h₁.sound

theorem wp_deleteRow_revised {id : S.Id} {Q : Unit → Assertion S E T} (hR : Escapes P R')
    (h : Revised P tag D σ s) (hdoomed : σ.Dooms D s.db t id)
    (hQ : ∀ σ' s', Revised P tag D σ' s' → Q () σ' s') :
    wp P tag Q R' (Prog.deleteRow t id) σ s := by
  change wp P tag Q R' (Prog.deleteAll t [id]) σ s
  refine wp_deleteAll_revised hR h (fun id' hid' => ?_) hQ
  rwa [List.mem_singleton.mp hid']

/-- The rows that a `FOR UPDATE` found stay doomed. -/
theorem wp_lockMatching_revised {cond : S.Row t → Bool} {ids : List S.Id}
    {Q : List (S.Row t) → Assertion S E T} (hR : Escapes P R')
    (hcond : ∀ row, cond row = true → D.rows t row) (h : Revised P tag D σ s)
    (hQ : ∀ rows σ' s', Revised P tag D σ' s' → Interferes P tag σ s s' → σ.Extends σ' →
      (∀ row ∈ rows, σ'.Dooms D s'.db t (S.id row)) → Q rows σ' s') :
    wp P tag Q R' (Prog.lockMatching t cond ids) σ s := by
  induction ids generalizing Q σ s with
  | nil => exact hQ [] σ s h h.now (.refl σ) fun row hrow => absurd hrow List.not_mem_nil
  | cons id ids ih =>
    refine fun s₁ h₁ => ⟨fun _ => ?_, hR.of_interferes h₁⟩
    have hext := σ.extends_hold [(Key.row t id, .forUpdate)] s₁.db
    have hheld : ⟨Key.row t id, .forUpdate, s₁.db⟩ ∈ (σ.hold [(.row t id, .forUpdate)] s₁.db).locks :=
      List.mem_cons_self
    have hlocked : Revised P tag D (σ.hold [(.row t id, .forUpdate)] s₁.db) s₁ :=
      ⟨h₁.extend hext, (h.interferes h₁).revising.congr rfl⟩
    generalize σ.hold [(.row t id, .forUpdate)] s₁.db = σ₁ at hext hheld hlocked ⊢
    refine fun s₂ h₂ => ⟨?_, hR.of_interferes h₂⟩
    rw [wp_bind]
    refine ih (hlocked.interferes h₂) fun rows σ' s' h' hs hext' hrows => ?_
    refine hQ _ σ' s' h' (Interferes.weaken hext.locks (Interferes.weaken hext.locks h₁ h₂) hs)
      (hext.trans hext') fun row hrow => ?_
    rcases List.mem_append.mp hrow with hrow | hrow
    · obtain ⟨hfound, hqualifies⟩ := Option.filter_eq_some_iff.mp (Option.mem_toList.mp hrow)
      have hdoomed : σ₁.Dooms D s₂.db t (S.id row) := by
        rw [Store.lookup_id hfound]
        refine ⟨⟨_, hheld, rfl, by simp⟩, fun other hother => ?_⟩
        obtain rfl := Option.some.inj (hfound.symm.trans hother)
        exact hcond row hqualifies
      exact (hdoomed.frozen h₂.sound hs.sound hs.frozen).extends hext'
    · exact hrows row hrow

/-- A cascade deletes rows that qualify. -/
theorem wp_deleteMatching_revised {cond : S.Row t → Bool} {Q : Unit → Assertion S E T}
    (hR : Escapes P R') (hcond : ∀ row, cond row = true → D.rows t row) (h : Revised P tag D σ s)
    (hQ : ∀ σ' s', Revised P tag D σ' s' → Q () σ' s') :
    wp P tag Q R' (Prog.deleteMatching t cond) σ s := by
  rw [Prog.deleteMatching, Prog.selectForUpdate, wp_bind, wp_bind]
  refine wp_query hR fun s₁ h₁ => ?_
  refine wp_lockMatching_revised hR hcond (h.interferes h₁) fun rows σ' s' h' _ _ hrows => ?_
  refine wp_deleteAll_revised hR h' (fun id hid => ?_) hQ
  obtain ⟨row, hrow, rfl⟩ := List.mem_map.mp hid
  exact hrows row hrow

end Deleting

/-! ### Whole runs -/

/-- **The run**: in every interleaving each commit leaves a later version of each row, unless the process
may delete it. -/
theorem World.revised_of_reach {D : T → R.Deletions} {s : Shared S E T} {jobs : List T}
    {program : T → Prog S E X α} {w : World S E X T α} (hdb : s.db.Integral) (hlog : s.log = [])
    (hwp : ∀ job ∈ jobs, wp (Protocol.revisions R D) job (fun _ _ _ => True) (fun _ _ _ => True)
      (program job) .empty s)
    (hreach : (World.start s jobs program).Reach w) :
    ∀ c ∈ w.shared.log, c.before.Revised (D c.tag) c.after := by
  refine (World.free_of_reach _ ?_ hdb hwp hreach).1
  intro c hc
  rw [hlog] at hc
  cases hc

/-- What a commit left leads to the present. -/
theorem Leads.after {db₀ db : Store S} {newer older : List (Commit S T)} {c : Commit S T}
    (h : Leads db₀ (newer ++ c :: older) db) : Leads c.after newer db := by
  induction newer generalizing db with
  | nil => exact h.1
  | cons c' newer ih => exact ⟨h.1, ih h.2⟩

/-- What became of the rows of the first store, after the commits. -/
theorem Leads.revised {D : T → R.Deletions} {db₀ db : Store S} {log : List (Commit S T)}
    (h : Leads db₀ log db) (hlog : ∀ c ∈ log, c.before.Revised (D c.tag) c.after) {t : S.Table}
    {row : S.Row t} (hrow : row ∈ db₀ t) :
    (∃ row' ∈ db t, S.id row' = S.id row ∧ R.Allows t row row') ∨ ∃ c ∈ log, (D c.tag).rows t row := by
  induction log generalizing db with
  | nil =>
    obtain rfl : db = db₀ := h
    exact Or.inl ⟨row, hrow, rfl, R.refl t row⟩
  | cons c log ih =>
    obtain ⟨rfl, hbefore⟩ := h
    rcases ih hbefore fun c' hc' => hlog c' (List.mem_cons_of_mem _ hc') with
      ⟨later, hlater, hid, hallows⟩ | ⟨c', hc', hdead⟩
    · rcases hlog c List.mem_cons_self t later hlater with hdead | ⟨newer, hnewer, hid', hallows'⟩
      · exact Or.inr ⟨c, List.mem_cons_self, (D c.tag).earlier t row later hallows hdead⟩
      · exact Or.inl ⟨newer, hnewer, hid'.trans hid, R.trans t row later newer hallows hallows'⟩
    · exact Or.inr ⟨c', List.mem_cons_of_mem _ hc', hdead⟩

end ReadCommitted
