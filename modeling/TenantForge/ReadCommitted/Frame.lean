import TenantForge.ReadCommitted.Rules
/-!
# Frames

`Prog.Within W D C` bounds what a program can do by its text alone: it writes tables in `W` only, its
environment actions stay within `D`, and it commits nothing unless `C`. `wp_within` turns the bound into
a weakest precondition: every other table is as it was found.
-/

namespace ReadCommitted

variable {S : Schema} {E X T : Type} {α β : Type}

namespace Prog

/-- A property that a program has as soon as its parts have it. -/
structure Composes (K : ∀ β : Type, Prog S E X β → Prop) : Prop where
  pure : ∀ {β : Type} (value : β), K β (.pure value)
  throw : ∀ {β : Type} (error : X), K β (.throw error)
  act : ∀ {β : Type} (f : E → β × E), K β (act f)
  bind : ∀ {β γ : Type} {p : Prog S E X β} {f : β → Prog S E X γ},
    K β p → (∀ value, K γ (f value)) → K γ (p.bind f)
  handle : ∀ {β : Type} {p : Prog S E X β} {h : X → Prog S E X β},
    K β p → (∀ error, K β (h error)) → K β (p.handle h)

def Within (W : S.Table → Prop) (D : E → E → Prop) (C : Prop) : Prog S E X α → Prop
  | .pure _ => True
  | .throw _ => True
  | .read _ next failed => (∀ answer, (next answer).Within W D C) ∧ failed.Within W D C
  | .lock _ _ _ next failed => next.Within W D C ∧ failed.Within W D C
  | @Prog.insert _ _ _ _ t _ next failed => W t ∧ (∀ ok, (next ok).Within W D C) ∧ failed.Within W D C
  | .update t _ _ next failed => W t ∧ (∀ result, (next result).Within W D C) ∧ failed.Within W D C
  | .delete t _ next failed => W t ∧ next.Within W D C ∧ failed.Within W D C
  | .attach _ next => ∀ copy, (next copy).Within W D C
  | .env act next => (∀ e, D e (act e).2) ∧ ∀ answer, (next answer).Within W D C
  | .fresh next => ∀ id, (next id).Within W D C
  | .commit next failed => C ∧ next.Within W D C ∧ failed.Within W D C
  | .rollback next => next.Within W D C

variable {W : S.Table → Prop} {D : E → E → Prop} {C : Prop}

theorem Within.bind {p : Prog S E X α} {f : α → Prog S E X β} (hp : p.Within W D C)
    (hf : ∀ value, (f value).Within W D C) : (p.bind f).Within W D C := by
  induction p with
  | pure value => exact hf value
  | throw error => trivial
  | read query next failed ih ihf => exact ⟨fun a => ih a (hp.1 a), ihf hp.2⟩
  | lock t id mode next failed ih ihf => exact ⟨ih hp.1, ihf hp.2⟩
  | insert row next failed ih ihf => exact ⟨hp.1, fun ok => ih ok (hp.2.1 ok), ihf hp.2.2⟩
  | update t id set next failed ih ihf => exact ⟨hp.1, fun r => ih r (hp.2.1 r), ihf hp.2.2⟩
  | delete t id next failed ih ihf => exact ⟨hp.1, ih hp.2.1, ihf hp.2.2⟩
  | attach row next ih => exact fun copy => ih copy (hp copy)
  | env act next ih => exact ⟨hp.1, fun a => ih a (hp.2 a)⟩
  | fresh next ih => exact fun id => ih id (hp id)
  | commit next failed ih ihf => exact ⟨hp.1, ih hp.2.1, ihf hp.2.2⟩
  | rollback next ih => exact ih hp

theorem Within.handle {p : Prog S E X α} {h : X → Prog S E X α} (hp : p.Within W D C)
    (hh : ∀ error, (h error).Within W D C) : (p.handle h).Within W D C := by
  induction p with
  | pure value => trivial
  | throw error => exact hh error
  | read query next failed ih ihf => exact ⟨fun a => ih a (hp.1 a), ihf hp.2⟩
  | lock t id mode next failed ih ihf => exact ⟨ih hp.1, ihf hp.2⟩
  | insert row next failed ih ihf => exact ⟨hp.1, fun ok => ih ok (hp.2.1 ok), ihf hp.2.2⟩
  | update t id set next failed ih ihf => exact ⟨hp.1, fun r => ih r (hp.2.1 r), ihf hp.2.2⟩
  | delete t id next failed ih ihf => exact ⟨hp.1, ih hp.2.1, ihf hp.2.2⟩
  | attach row next ih => exact fun copy => ih copy (hp copy)
  | env act next ih => exact ⟨hp.1, fun a => ih a (hp.2 a)⟩
  | fresh next ih => exact fun id => ih id (hp id)
  | commit next failed ih ihf => exact ⟨hp.1, ih hp.2.1, ihf hp.2.2⟩
  | rollback next ih => exact ih hp

@[simp] theorem within_pure (value : α) : (Prog.pure value : Prog S E X α).Within W D C := trivial

@[simp] theorem within_throw (error : X) : (Prog.throw error : Prog S E X α).Within W D C := trivial

@[simp] theorem within_act {f : E → β × E} :
    (act f : Prog S E X β).Within W D C ↔ ∀ e, D e (f e).2 :=
  ⟨fun h => h.1, fun h => ⟨h, fun _ => trivial⟩⟩

theorem within_composes (hD : ∀ e e', D e e') :
    Composes fun β (p : Prog S E X β) => p.Within W D C where
  pure := within_pure
  throw := within_throw
  act _ := within_act.mpr fun _ => hD _ _
  bind := Within.bind
  handle := Within.handle

@[simp] theorem within_freshId : (freshId : Prog S E X S.Id).Within W D C := fun _ => trivial

theorem within_commit [DatabaseError X] (hC : C) :
    (commitTransaction : Prog S E X Unit).Within W D C := ⟨hC, trivial, trivial⟩

@[simp] theorem within_rollback : (rollbackTransaction : Prog S E X Unit).Within W D C := trivial

@[simp] theorem within_first {t : S.Table} (rows : List (S.Row t)) :
    (first rows : Prog S E X (Option (S.Row t))).Within W D C := by
  cases rows with
  | nil => trivial
  | cons row rows => exact fun _ => trivial

@[simp] theorem within_attachAll {t : S.Table} (rows : List (S.Row t)) :
    (attachAll rows : Prog S E X (List (S.Row t))).Within W D C := by
  induction rows with
  | nil => trivial
  | cons row rows ih => exact fun _ => ih.bind fun _ => trivial

section Statements

variable [DatabaseError X]

@[simp] theorem within_query (q : Store S → β) : (query q : Prog S E X β).Within W D C :=
  ⟨fun _ => trivial, trivial⟩

@[simp] theorem within_insertRow {t : S.Table} {row : S.Row t} :
    (insertRow row : Prog S E X Bool).Within W D C ↔ W t :=
  ⟨fun h => h.1, fun h => ⟨h, fun _ => trivial, trivial⟩⟩

@[simp] theorem within_updateRow {t : S.Table} {id : S.Id} {set : S.Row t → S.Row t} :
    (updateRow t id set : Prog S E X UpdateResult).Within W D C ↔ W t :=
  ⟨fun h => h.1, fun h => ⟨h, fun _ => trivial, trivial⟩⟩

@[simp] theorem within_deleteRow {t : S.Table} {id : S.Id} :
    (deleteRow t id : Prog S E X Unit).Within W D C ↔ W t :=
  ⟨fun h => h.1, fun h => ⟨h, trivial, trivial⟩⟩

theorem within_lockMatching {t : S.Table} {cond : S.Row t → Bool} (ids : List S.Id) :
    (lockMatching t cond ids : Prog S E X (List (S.Row t))).Within W D C := by
  induction ids with
  | nil => trivial
  | cons id ids ih => exact ⟨⟨fun _ => ih.bind fun _ => trivial, trivial⟩, trivial⟩

@[simp] theorem within_selectForUpdate {t : S.Table} {cond : S.Row t → Bool} :
    (selectForUpdate t cond : Prog S E X (List (S.Row t))).Within W D C :=
  (within_query _).bind within_lockMatching

@[simp] theorem within_scalar {t : S.Table} {cond : S.Row t → Bool} :
    (scalar t cond : Prog S E X (Option (S.Row t))).Within W D C :=
  (within_query _).bind within_first

@[simp] theorem within_scalarForUpdate {t : S.Table} {cond : S.Row t → Bool} :
    (scalarForUpdate t cond : Prog S E X (Option (S.Row t))).Within W D C :=
  within_selectForUpdate.bind within_first

theorem within_deleteAll {t : S.Table} (ht : W t) (ids : List S.Id) :
    (deleteAll t ids : Prog S E X Unit).Within W D C := by
  induction ids with
  | nil => trivial
  | cons id ids ih => exact ⟨ht, ih, trivial⟩

theorem within_deleteMatching {t : S.Table} {cond : S.Row t → Bool} (ht : W t) :
    (deleteMatching t cond : Prog S E X Unit).Within W D C :=
  within_selectForUpdate.bind fun _ => within_deleteAll ht _

end Statements

/-- A bounded program moves the environment within its bound. -/
theorem Within.run {p : Prog S E X α} (hp : p.Within W D C) (hrefl : ∀ e, D e e)
    (htrans : ∀ e e' e'', D e e' → D e' e'' → D e e'') {T : Type} (tag : T) (σ : Session S)
    (s : Shared S E T) : D s.env (p.run tag σ s).2.2.env := by
  induction p generalizing σ s with
  | pure value => exact hrefl s.env
  | throw error => exact hrefl s.env
  | read query next failed ih ihf => exact ih _ (hp.1 _) σ s
  | lock t id mode next failed ih ihf => exact ih hp.1 _ s
  | insert row next failed ih ihf => exact ih _ (hp.2.1 _) _ s
  | update t id set next failed ih ihf => exact ih _ (hp.2.1 _) _ s
  | delete t id next failed ih ihf => exact ih hp.2.1 _ s
  | attach row next ih => exact ih _ (hp _) _ s
  | env act next ih =>
    exact htrans _ _ _ (hp.1 s.env) (ih _ (hp.2 _) σ { s with env := (act s.env).2 })
  | fresh next ih => exact ih _ (hp _) _ s.draw
  | commit next failed ih ihf => exact ih hp.2.1 _ (s.commit tag σ)
  | rollback next ih => exact ih hp _ s

end Prog

/-! ### From the text to the weakest precondition -/

/-- The session wrote nothing outside `W`. -/
def Session.Spares (σ : Session S) (W : S.Table → Prop) : Prop :=
  ∀ t, ¬W t → σ.writes t = []

theorem Session.Spares.view {σ : Session S} {W : S.Table → Prop} (h : σ.Spares W) {t : S.Table}
    (ht : ¬W t) (db : Store S) : σ.view db t = db t :=
  Session.view_of_nil (h t ht) db

theorem Session.Spares.write {σ : Session S} {W : S.Table → Prop} (h : σ.Spares W) {t : S.Table}
    (ht : W t) (needs : Needs S) (db : Store S) (id : S.Id) (version : Option (S.Row t)) :
    (σ.write needs db t id version).Spares W := by
  intro t' ht'
  have hne : t' ≠ t := fun heq => ht' (heq ▸ ht)
  rw [Session.writes_write, Overlay.put_table_ne _ hne, h t' ht']

/-- Environment actions within `D` and draws of ids are allowed at any time. -/
structure Protocol.Tolerates (P : Protocol S E T) (D : E → E → Prop) : Prop where
  env : ∀ tag σ s env', P.inv s → D s.env env' → P.Allows tag σ s { s with env := env' }
  draw : ∀ tag σ s, P.inv s → P.Allows tag σ s s.draw

/-- **The frame rule**: a bounded program leaves every other table alone, however it ends. -/
theorem wp_within {P : Protocol S E T} {tag : T} {W : S.Table → Prop} {D : E → E → Prop} {C : Prop}
    {p : Prog S E X α} {σ : Session S} {s : Shared S E T} (hp : p.Within W D C)
    (hD : P.Tolerates D) (hC : C → ∀ σ s, Interferes P tag σ s s → σ.Spares W →
      P.Allows tag σ s (s.commit tag σ)) (hσ : σ.Spares W) (hnow : Interferes P tag σ s s) :
    wp P tag (fun _ σ' s' => σ'.Spares W ∧ Interferes P tag σ' s' s')
      (fun _ σ' s' => σ'.Spares W ∧ Interferes P tag σ' s' s') p σ s := by
  have hempty : ∀ {σ : Session S} {s s' : Shared S E T}, Interferes P tag σ s s' →
      (Session.empty : Session S).Spares W ∧ Interferes P tag .empty s' s' :=
    fun hs => ⟨fun _ _ => rfl, .refl hs.inv hs.integral (.of_writes_empty hs.integral rfl)⟩
  have hkeep : ∀ {σ σ' : Session S} {s s' : Shared S E T}, Interferes P tag σ s s' →
      σ'.Sound s'.db → Interferes P tag σ' s' s' :=
    fun hs hσ' => .refl hs.inv hs.integral hσ'
  induction p generalizing σ s with
  | pure value => exact ⟨hσ, hnow⟩
  | throw error => exact ⟨hσ, hnow⟩
  | read query next failed ih ihf =>
    exact fun s' hs => ⟨ih _ (hp.1 _) hσ hs.now, ihf hp.2 (hempty hs).1 (hempty hs).2⟩
  | lock t id mode next failed ih ihf =>
    exact fun s' hs => ⟨fun _ => ih hp.1 hσ (hkeep hs (hs.sound.hold _ _)),
      ihf hp.2 (hempty hs).1 (hempty hs).2⟩
  | insert row next failed ih ihf =>
    refine fun s' hs => ⟨fun _ => ih _ (hp.2.1 _) ?_ (hkeep hs (hs.sound.insert row)),
      ihf hp.2.2 (hempty hs).1 (hempty hs).2⟩
    rw [Session.insert]
    split
    · exact hσ.write hp.1 _ _ _ _
    · exact hσ
  | update t id set next failed ih ihf =>
    refine fun s' hs => ⟨ih _ (hp.2.1 _) ?_ (hkeep hs (hs.sound.update t id set)),
      ihf hp.2.2 (hempty hs).1 (hempty hs).2⟩
    rw [Session.update]
    split
    · exact hσ
    · split
      · exact hσ.write hp.1 _ _ _ _
      · exact hσ
  | delete t id next failed ih ihf =>
    refine fun s' hs => ⟨ih hp.2.1 ?_ (hkeep hs (hs.sound.delete t id)),
      ihf hp.2.2 (hempty hs).1 (hempty hs).2⟩
    rw [Session.delete]
    split
    · exact hσ
    · exact hσ.write hp.1 _ _ _ _
  | attach row next ih => exact fun s' hs => ih _ (hp _) hσ (hs.attach row)
  | env act next ih =>
    intro s' hs
    have hallow := hD.env tag σ s' _ hs.inv (hp.1 s'.env)
    exact ⟨hallow, ih _ (hp.2 _) hσ (.refl hallow.1 hs.integral hs.sound)⟩
  | fresh next ih =>
    intro s' hs
    have hallow := hD.draw tag σ s' hs.inv
    exact ⟨hallow, ih _ (hp _) hσ (.refl hallow.1 hs.integral (hs.sound.hold _ _))⟩
  | commit next failed ih ihf =>
    intro s' hs
    have hallow := hC hp.1 σ s' hs.now hσ
    have hdb := hs.sound.integral hs.integral
    exact ⟨hallow, ih hp.2.1 (fun _ _ => rfl) (.refl hallow.1 hdb (.of_writes_empty hdb rfl)),
      ihf hp.2.2 (hempty hs).1 (hempty hs).2⟩
  | rollback next ih => exact fun s' hs => ih hp (hempty hs).1 (hempty hs).2

end ReadCommitted
