import TenantForge.ReadCommitted.RelyGuarantee
/-!
# Proof rules for statements

One rule for each kind of statement. A rule tells what the statement found at the moment it ran, in
terms that stay true afterwards: the rows that a `FOR UPDATE` clause returns are `Locked`, and a
locked row keeps its committed version (`Session.Locked.interferes`).
-/

namespace ReadCommitted

variable {S : Schema} {E X T : Type} {α β : Type}

/-! ### Facts that last -/

/-- The committed version of `row` is `row`, it was when its lock was granted, and the lock is held. -/
structure Session.Locked (σ : Session S) (db : Store S) {t : S.Table} (row : S.Row t) : Prop where
  current : db.lookup t (S.id row) = some row
  held : ∃ held ∈ σ.locks, held.key = .row t (S.id row) ∧ held.mode = .forUpdate ∧
    held.seen.lookup t (S.id row) = some row

/-- The primary key is free, and the session's lock keeps it so. -/
structure Session.Vacant (σ : Session S) (db : Store S) (t : S.Table) (id : S.Id) : Prop where
  current : db.lookup t id = none
  held : ∃ held ∈ σ.locks, held.key = .row t id ∧ held.mode = .forUpdate

/-- The same transaction a few reads and locks later. -/
structure Session.Extends (σ σ' : Session S) : Prop where
  writes : σ'.writes = σ.writes
  loaded : σ'.loaded = σ.loaded
  locks : σ.locks ⊆ σ'.locks

namespace Session

theorem Extends.refl (σ : Session S) : σ.Extends σ := ⟨rfl, rfl, List.Subset.refl _⟩

theorem Extends.trans {σ₁ σ₂ σ₃ : Session S} (h₁ : σ₁.Extends σ₂) (h₂ : σ₂.Extends σ₃) :
    σ₁.Extends σ₃ :=
  ⟨h₂.writes.trans h₁.writes, h₂.loaded.trans h₁.loaded, fun _ h => h₂.locks (h₁.locks h)⟩

theorem extends_hold (σ : Session S) (needs : Needs S) (db : Store S) : σ.Extends (σ.hold needs db) :=
  ⟨rfl, rfl, List.subset_append_right _ _⟩

theorem Extends.copyOf {σ σ' : Session S} (h : σ.Extends σ') {t : S.Table} (row : S.Row t) :
    σ'.copyOf row = σ.copyOf row := by
  rw [Session.copyOf, h.loaded, Session.copyOf]

theorem Locked.mono {σ σ' : Session S} {db : Store S} {t : S.Table} {row : S.Row t}
    (h : σ.Locked db row) (hl : σ.locks ⊆ σ'.locks) : σ'.Locked db row := by
  obtain ⟨held, hmem, hrest⟩ := h.held
  exact ⟨h.current, held, hl hmem, hrest⟩

theorem Locked.frozen {σ : Session S} {db db' : Store S} {t : S.Table} {row : S.Row t}
    (h : σ.Locked db row) (hf : Frozen σ.locks db db') : σ.Locked db' row := by
  obtain ⟨held, hmem, hkey, hmode, _⟩ := h.held
  exact ⟨(hf.row held hmem t _ hkey (by simp [hmode])).trans h.current, h.held⟩

theorem Vacant.mono {σ σ' : Session S} {db : Store S} {t : S.Table} {id : S.Id}
    (h : σ.Vacant db t id) (hl : σ.locks ⊆ σ'.locks) : σ'.Vacant db t id := by
  obtain ⟨held, hmem, hrest⟩ := h.held
  exact ⟨h.current, held, hl hmem, hrest⟩

theorem Vacant.frozen {σ : Session S} {db db' : Store S} {t : S.Table} {id : S.Id}
    (h : σ.Vacant db t id) (hf : Frozen σ.locks db db') : σ.Vacant db' t id := by
  obtain ⟨held, hmem, hkey, hmode⟩ := h.held
  exact ⟨(hf.row held hmem t id hkey (by simp [hmode])).trans h.current, h.held⟩

/-- The key of a row that a session just inserted was free. -/
theorem Accepts.vacant {σ : Session S} {db : Store S} {t : S.Table} {row : S.Row t}
    (h : σ.Accepts db row) (hclean : σ.writes t = []) (version : Option (S.Row t)) :
    (σ.write (insertNeeds row) db t (S.id row) version).Vacant db t (S.id row) :=
  ⟨by rw [← lookup_view_of_nil hclean]; exact h.1, _, mem_hold List.mem_cons_self, rfl, rfl⟩

theorem Locked.mem {σ : Session S} {db : Store S} {t : S.Table} {row : S.Row t}
    (h : σ.Locked db row) : row ∈ db t :=
  Store.lookup_mem h.current

end Session

namespace Interferes

variable {P : Protocol S E T} {tag : T} {σ σ' : Session S} {s s' : Shared S E T}

/-- The later state is one in which the session can go on. -/
theorem now (h : Interferes P tag σ s s') : Interferes P tag σ s' s' :=
  .refl h.inv h.integral h.sound

theorem extend (h : Interferes P tag σ s s') (hext : σ.Extends σ') : Interferes P tag σ' s' s' :=
  .refl h.inv h.integral (h.sound.congr hext.writes hext.locks)

theorem attach (h : Interferes P tag σ s s') {t : S.Table} (row : S.Row t) :
    Interferes P tag (σ.attach row) s' s' :=
  .refl h.inv h.integral (h.sound.attach row)

/-- The state after one's own environment action. -/
theorem of_allows {env' : E} (h : Interferes P tag σ s s')
    (hallows : P.Allows tag σ s' { s' with env := env' }) :
    Interferes P tag σ { s' with env := env' } { s' with env := env' } :=
  .refl hallows.1 h.integral h.sound

theorem detach {t : S.Table} {row : S.Row t} (h : Interferes P tag (σ.attach row) s s') :
    Interferes P tag σ s s' :=
  ⟨h.inv, h.rely, h.frozen, h.ids, h.integral, h.sound.congr rfl (List.Subset.refl _)⟩

end Interferes

theorem Session.Locked.interferes {P : Protocol S E T} {tag : T} {σ : Session S}
    {s s' : Shared S E T} {t : S.Table} {row : S.Row t} (h : σ.Locked s.db row)
    (hs : Interferes P tag σ s s') : σ.Locked s'.db row :=
  h.frozen hs.frozen

/-- The protocol's assumption, for a lock whose grant found `row` committed. -/
def Assumed (P : Protocol S E T) (tag : T) (σ : Session S) {t : S.Table} (row : S.Row t) : Prop :=
  ∃ σ₀ db₀, σ₀.loaded = σ.loaded ∧ db₀.lookup t (S.id row) = some row ∧
    P.assume tag σ₀ t (S.id row) db₀

/-! ### Parts of a table -/

/-- A part of a table that a session has not touched is seen as committed. -/
theorem Session.Sound.filter_view {σ : Session S} {db : Store S} (h : σ.Sound db) (hdb : db.Integral)
    {t : S.Table} {part : S.Row t → Bool}
    (hw : ∀ id version, σ.writes.find t id = some version →
      (∀ row, version = some row → part row = false) ∧
        ∀ old, db.lookup t id = some old → part old = false) :
    (σ.view db t).filter part = (db t).filter part := by
  have hnew : ((σ.writes t).filterMap Prod.snd).filter part = [] := by
    rw [List.filter_eq_nil_iff]
    intro row hrow
    obtain ⟨entry, hmem, hsome⟩ := List.mem_filterMap.mp hrow
    simp [(hw _ _ (h.coherent.find_of_mem hmem)).1 row hsome]
  rw [Session.view, Overlay.apply, List.filter_append, hnew, List.append_nil, List.filter_filter]
  refine List.filter_congr fun row hrow => ?_
  cases hfind : σ.writes.find t (S.id row) with
  | none => simp
  | some version => simp [(hw _ _ hfind).2 row (hdb.lookup_of_mem hrow)]

/-- A table with one inserted row. -/
theorem Session.view_of_insert {σ : Session S} {db : Store S} {t : S.Table} {row : S.Row t}
    (hw : σ.writes t = [(S.id row, some row)]) (hvacant : db.lookup t (S.id row) = none) :
    σ.view db t = db t ++ [row] := by
  have hkeep : ∀ other ∈ db t, (σ.writes.find t (S.id other)).isNone = true := fun other hother => by
    rw [Option.isNone_iff_eq_none, Overlay.find_eq_none, hw]
    simpa using Ne.symm (Store.lookup_eq_none.mp hvacant other hother)
  rw [Session.view, Overlay.apply, List.filter_eq_self.mpr hkeep, hw]
  rfl

/-! ### Rules -/

section Silent

variable {P : Protocol S E T} {tag : T} {R : X → Assertion S E T} {σ : Session S} {s : Shared S E T}

theorem wp_freshId {Q : S.Id → Assertion S E T}
    (h : ∀ s', Interferes P tag σ s s' → P.Allows tag σ s' s'.draw ∧
      Q s'.ids.head (σ.hold [(.name s'.ids.head, .forUpdate)] s'.db) s'.draw) :
    wp P tag Q R Prog.freshId σ s :=
  h

theorem wp_act {f : E → β × E} {Q : β → Assertion S E T}
    (h : ∀ s', Interferes P tag σ s s' → P.Allows tag σ s' { s' with env := (f s'.env).2 } ∧
      Q (f s'.env).1 σ { s' with env := (f s'.env).2 }) :
    wp P tag Q R (Prog.act f) σ s :=
  h

end Silent

section Rules

variable [DatabaseError X] {P : Protocol S E T} {tag : T} {R : X → Assertion S E T}
  {σ : Session S} {s : Shared S E T}

/-- The program may be left by the exception of an aborted transaction. -/
def Escapes (P : Protocol S E T) (R : X → Assertion S E T) : Prop :=
  ∀ s, P.inv s → s.db.Integral → R aborted .empty s

theorem Escapes.of_interferes (h : Escapes P R) {s' : Shared S E T}
    (hs : Interferes P tag σ s s') : R aborted .empty s' :=
  h s' hs.inv hs.integral

theorem wp_query {Q : β → Assertion S E T} {q : Store S → β} (hR : Escapes P R)
    (h : ∀ s', Interferes P tag σ s s' → Q (q (σ.view s'.db)) σ s') :
    wp P tag Q R (Prog.query q) σ s :=
  fun s' hs => ⟨h s' hs, hR.of_interferes hs⟩

theorem wp_insertRow {t : S.Table} {row : S.Row t} {Q : Bool → Assertion S E T} (hR : Escapes P R)
    (hok : ∀ s', Interferes P tag σ s s' → σ.Accepts s'.db row → P.assumeInsert tag σ t row s' →
      Q true (σ.write (Session.insertNeeds row) s'.db t (S.id row) (some row)) s')
    (hno : ∀ s', Interferes P tag σ s s' → ¬σ.Accepts s'.db row → Q false σ s') :
    wp P tag Q R (Prog.insertRow row) σ s := by
  refine fun s' hs => ⟨fun hassumed => ?_, hR.of_interferes hs⟩
  by_cases h : σ.Accepts s'.db row
  · simpa only [Session.insert, h, if_true, wp] using hok s' hs h hassumed
  · simpa only [Session.insert, h, if_false, wp] using hno s' hs h

theorem wp_updateRow {t : S.Table} {id : S.Id} {set : S.Row t → S.Row t}
    {Q : UpdateResult → Assertion S E T} (hR : Escapes P R)
    (hdone : ∀ s' old, Interferes P tag σ s s' → (σ.view s'.db).lookup t id = some old →
      σ.Admits s'.db old (set old) →
      Q .done (σ.write (Session.updateNeeds old (set old)) s'.db t id (some (set old))) s')
    (hno : ∀ s' result, Interferes P tag σ s s' → result ≠ .done → Q result σ s') :
    wp P tag Q R (Prog.updateRow t id set) σ s := by
  refine fun s' hs => ⟨?_, hR.of_interferes hs⟩
  cases hold : (σ.view s'.db).lookup t id with
  | none => simpa only [Session.update, hold, wp] using hno s' .missing hs (by simp)
  | some old =>
    by_cases h : σ.Admits s'.db old (set old)
    · simpa only [Session.update, hold, h, if_true, wp] using hdone s' old hs hold h
    · simpa only [Session.update, hold, h, if_false, wp] using hno s' .clash hs (by simp)

theorem wp_deleteRow {t : S.Table} {id : S.Id} {Q : Unit → Assertion S E T} (hR : Escapes P R)
    (hnone : ∀ s', Interferes P tag σ s s' → (σ.view s'.db).lookup t id = none → Q () σ s')
    (hsome : ∀ s' old, Interferes P tag σ s s' → (σ.view s'.db).lookup t id = some old →
      Q () (σ.write (Session.deleteNeeds old) s'.db t id none) s') :
    wp P tag Q R (Prog.deleteRow t id) σ s := by
  refine fun s' hs => ⟨?_, hR.of_interferes hs⟩
  cases hold : (σ.view s'.db).lookup t id with
  | none => simpa only [Session.delete, hold, wp] using hnone s' hs hold
  | some old => simpa only [Session.delete, hold, wp] using hsome s' old hs hold

/-- Rows found by `FOR UPDATE` in a table that the session has not written are locked and qualify. The
statement only adds locks. -/
theorem wp_lockMatching {t : S.Table} {cond : S.Row t → Bool} {ids : List S.Id}
    {Q : List (S.Row t) → Assertion S E T} (hR : Escapes P R) (hnow : Interferes P tag σ s s)
    (h : ∀ rows σ' s', Interferes P tag σ s s' → σ.Extends σ' →
      (σ.writes t = [] → ∀ row ∈ rows,
        cond row = true ∧ σ'.Locked s'.db row ∧ Assumed P tag σ row) → Q rows σ' s') :
    wp P tag Q R (Prog.lockMatching t cond ids) σ s := by
  induction ids generalizing Q σ s with
  | nil => exact h [] σ s hnow (.refl σ) (fun _ _ hmem => absurd hmem List.not_mem_nil)
  | cons id ids ih =>
    refine fun s₁ h₁ => ⟨fun hassume => ?_, hR.of_interferes h₁⟩
    have hext := σ.extends_hold [(Key.row t id, .forUpdate)] s₁.db
    refine fun s₂ h₂ => ⟨?_, hR.of_interferes h₂⟩
    rw [wp_bind]
    have h₂' := Interferes.weaken hext.locks h₁ h₂
    have hfound : σ.writes t = [] → ∀ row,
        ((Session.view (σ.hold [(.row t id, .forUpdate)] s₁.db) s₂.db).lookup t id).filter cond =
          some row → cond row = true ∧ Assumed P tag σ row ∧
            (σ.hold [(.row t id, .forUpdate)] s₁.db).Locked s₂.db row := by
      intro hclean row hrow
      obtain ⟨hlookup, hcond⟩ := Option.filter_eq_some_iff.mp hrow
      rw [Session.view_hold, Session.lookup_view_of_nil hclean] at hlookup
      obtain rfl := Store.lookup_id hlookup
      have hseen : s₁.db.lookup t (S.id row) = some row := by
        rw [← h₂.frozen.row ⟨.row t (S.id row), .forUpdate, s₁.db⟩ (by simp [Session.hold]) t
          (S.id row) rfl (by simp)]
        exact hlookup
      exact ⟨hcond, ⟨σ, s₁.db, rfl, hseen, hassume⟩, hlookup, _, List.mem_cons_self, rfl, rfl, hseen⟩
    refine ih (σ := σ.hold [(.row t id, .forUpdate)] s₁.db) h₂.now fun rows σ' s₃ h₃ hext' hrows => ?_
    refine h _ σ' s₃ (Interferes.weaken hext.locks h₂' h₃) (hext.trans hext') fun hclean row hmem => ?_
    rcases List.mem_append.mp hmem with hmem | hmem
    · obtain ⟨hcond, hassumed, hlocked⟩ := hfound hclean row (Option.mem_toList.mp hmem)
      exact ⟨hcond, (hlocked.interferes h₃).mono hext'.locks, hassumed⟩
    · exact hrows hclean row hmem

theorem wp_selectForUpdate {t : S.Table} {cond : S.Row t → Bool}
    {Q : List (S.Row t) → Assertion S E T} (hR : Escapes P R)
    (h : ∀ rows σ' s', Interferes P tag σ s s' → σ.Extends σ' →
      (σ.writes t = [] → ∀ row ∈ rows,
        cond row = true ∧ σ'.Locked s'.db row ∧ Assumed P tag σ row) → Q rows σ' s') :
    wp P tag Q R (Prog.selectForUpdate t cond) σ s := by
  rw [Prog.selectForUpdate, wp_bind]
  refine wp_query hR fun s₁ h₁ => ?_
  exact wp_lockMatching hR h₁.now fun rows σ' s' hs => h rows σ' s' (h₁.trans hs)

/-- The unit of work's copy of a locked row may be older than the row. -/
theorem wp_scalarForUpdate {t : S.Table} {cond : S.Row t → Bool}
    {Q : Option (S.Row t) → Assertion S E T} (hR : Escapes P R) (hclean : σ.writes t = [])
    (hnone : ∀ σ' s', Interferes P tag σ s s' → σ.Extends σ' → Q none σ' s')
    (hsome : ∀ row σ' s', Interferes P tag σ s s' → σ.Extends σ' → cond row = true →
      σ'.Locked s'.db row → Assumed P tag σ row → Q (some (σ.copyOf row)) (σ'.attach row) s') :
    wp P tag Q R (Prog.scalarForUpdate t cond) σ s := by
  rw [Prog.scalarForUpdate, wp_bind]
  refine wp_selectForUpdate hR fun rows σ' s' hs hext hrows => ?_
  cases rows with
  | nil => exact hnone σ' s' hs hext
  | cons row rows =>
    refine fun s'' hs' => ?_
    obtain ⟨hcond, hlocked, hassumed⟩ := hrows hclean row List.mem_cons_self
    rw [hext.copyOf]
    exact hsome row σ' s'' (Interferes.weaken hext.locks hs hs') hext hcond
      (hlocked.interferes hs') hassumed

/-- Rows found by a join with `FOR UPDATE`, in tables that the session has not written. -/
theorem wp_lockJoined {t t' : S.Table} {cond : S.Row t → S.Row t' → Bool} {ids : List (S.Id × S.Id)}
    {Q : List (S.Row t × S.Row t') → Assertion S E T} (hR : Escapes P R) (hclean : σ.writes t = [])
    (hclean' : σ.writes t' = []) (hnow : Interferes P tag σ s s)
    (h : ∀ pairs σ' s', Interferes P tag σ s s' → σ.Extends σ' →
      (∀ pair ∈ pairs, cond pair.1 pair.2 = true ∧ σ'.Locked s'.db pair.1 ∧
        σ'.Locked s'.db pair.2) → Q pairs σ' s') :
    wp P tag Q R (Prog.lockJoined t t' cond ids) σ s := by
  induction ids generalizing Q σ s with
  | nil => exact h [] σ s hnow (.refl σ) (fun _ hmem => absurd hmem List.not_mem_nil)
  | cons id ids ih =>
    obtain ⟨id, id'⟩ := id
    refine fun s₁ h₁ => ⟨fun _ => ?_, hR.of_interferes h₁⟩
    have hext₁ := σ.extends_hold [(Key.row t id, .forUpdate)] s₁.db
    refine fun s₂ h₂ => ⟨fun _ => ?_, hR.of_interferes h₂⟩
    have hext₂ := (σ.hold [(Key.row t id, .forUpdate)] s₁.db).extends_hold
      [(Key.row t' id', .forUpdate)] s₂.db
    have hext := hext₁.trans hext₂
    refine fun s₃ h₃ => ⟨?_, hR.of_interferes h₃⟩
    rw [wp_bind]
    have h₃' := Interferes.weaken hext.locks (Interferes.weaken hext₁.locks h₁ h₂) h₃
    generalize hσ₂ : (σ.hold [(Key.row t id, .forUpdate)] s₁.db).hold
      [(Key.row t' id', .forUpdate)] s₂.db = σ₂ at hext hext₂ h₃ ⊢
    have hheld : ∀ {u : S.Table} {row : S.Row u} {db : Store S},
        ⟨.row u (S.id row), .forUpdate, db⟩ ∈ σ₂.locks → Frozen σ₂.locks db s₃.db →
          s₃.db.lookup u (S.id row) = some row → σ₂.Locked s₃.db row := by
      intro u row db hmem hfrozen hlookup
      have hseen := hfrozen.row _ hmem u _ rfl (by simp)
      exact ⟨hlookup, _, hmem, rfl, rfl, hseen.symm.trans hlookup⟩
    refine ih (σ := σ₂) (by rw [hext.writes, hclean]) (by rw [hext.writes, hclean']) h₃.now
      fun pairs σ' s₄ h₄ hext' hpairs => ?_
    refine h _ σ' s₄ (Interferes.weaken hext.locks h₃' h₄) (hext.trans hext') fun pair hmem => ?_
    rcases List.mem_append.mp hmem with hmem | hmem
    · obtain ⟨row, hrow, hfound⟩ := Option.bind_eq_some_iff.mp (Option.mem_toList.mp hmem)
      obtain ⟨row', hrow', hfound⟩ := Option.bind_eq_some_iff.mp hfound
      rw [Option.ite_none_right_eq_some] at hfound
      obtain ⟨hcond, hpair⟩ := hfound
      cases hpair
      rw [Session.lookup_view_of_nil (by rw [hext.writes, hclean])] at hrow
      rw [Session.lookup_view_of_nil (by rw [hext.writes, hclean'])] at hrow'
      obtain rfl := Store.lookup_id hrow
      obtain rfl := Store.lookup_id hrow'
      have hfirst := h₂.frozen.row ⟨.row t (S.id row), .forUpdate, s₁.db⟩ (by simp [Session.hold]) t
        (S.id row) rfl (by simp)
      have hlocked : σ₂.Locked s₃.db row := by
        have hmem₂ : ⟨.row t (S.id row), .forUpdate, s₁.db⟩ ∈ σ₂.locks := by
          subst hσ₂; simp [Session.hold]
        refine ⟨hrow, _, hmem₂, rfl, rfl, ?_⟩
        rw [← hfirst, ← h₃.frozen.row _ hmem₂ t _ rfl (by simp), hrow]
      have hlocked' : σ₂.Locked s₃.db row' :=
        hheld (by subst hσ₂; exact List.mem_cons_self) h₃.frozen hrow'
      exact ⟨hcond, (hlocked.interferes h₄).mono hext'.locks, (hlocked'.interferes h₄).mono hext'.locks⟩
    · exact hpairs pair hmem

theorem wp_scalarJoinForUpdate {t t' : S.Table} {cond : S.Row t → S.Row t' → Bool}
    {Q : Option (S.Row t) → Assertion S E T} (hR : Escapes P R) (hclean : σ.writes t = [])
    (hclean' : σ.writes t' = [])
    (hnone : ∀ σ' s', Interferes P tag σ s s' → σ.Extends σ' → Q none σ' s')
    (hsome : ∀ row row' σ' s', Interferes P tag σ s s' → σ.Extends σ' → cond row row' = true →
      σ'.Locked s'.db row → σ'.Locked s'.db row' → Q (some (σ.copyOf row)) (σ'.attach row) s') :
    wp P tag Q R (Prog.scalarJoinForUpdate t t' cond) σ s := by
  rw [Prog.scalarJoinForUpdate, wp_bind, wp_bind]
  refine wp_query hR fun s₁ h₁ => ?_
  refine wp_lockJoined hR hclean hclean' h₁.now fun pairs σ' s' hs hext hpairs => ?_
  cases pairs with
  | nil => exact hnone σ' s' (h₁.trans hs) hext
  | cons pair pairs =>
    refine fun s'' hs' => ?_
    obtain ⟨hcond, hlocked, hlocked'⟩ := hpairs pair List.mem_cons_self
    rw [hext.copyOf]
    exact hsome pair.1 pair.2 σ' s'' (Interferes.weaken hext.locks (h₁.trans hs) hs') hext hcond
      (hlocked.interferes hs') (hlocked'.interferes hs')

theorem wp_scalar {t : S.Table} {cond : S.Row t → Bool} {Q : Option (S.Row t) → Assertion S E T}
    (hR : Escapes P R)
    (hnone : ∀ s', Interferes P tag σ s s' → (∀ row ∈ σ.view s'.db t, cond row = false) → Q none σ s')
    (hsome : ∀ s' s'' row, Interferes P tag σ s s' → row ∈ σ.view s'.db t → cond row = true →
      Interferes P tag σ s' s'' → Q (some (σ.copyOf row)) (σ.attach row) s'') :
    wp P tag Q R (Prog.scalar t cond) σ s := by
  rw [Prog.scalar, wp_bind]
  refine wp_query hR fun s' hs => ?_
  cases hrows : Prog.matching t cond (σ.view s'.db) with
  | nil =>
    refine hnone s' hs fun row hrow => ?_
    simpa using List.filter_eq_nil_iff.mp hrows row hrow
  | cons row rows =>
    obtain ⟨hrow, hcond⟩ := List.mem_filter.mp (hrows ▸ List.mem_cons_self : row ∈ _)
    exact fun s'' hs' => hsome s' s'' row hs hrow hcond hs'

/-! ### Cascades -/

/-- What a cascade into table `t` leaves of a session: if it had not written the table before, its
versions are deletions of qualifying rows, which are locked. -/
structure Session.Cascaded (σ σ' : Session S) (db : Store S) (t : S.Table) (cond : S.Row t → Bool) :
    Prop where
  locks : σ.locks ⊆ σ'.locks
  loaded : σ'.loaded = σ.loaded
  others : ∀ t', t' ≠ t → σ'.writes t' = σ.writes t'
  deleted : σ.writes t = [] → ∀ id version, σ'.writes.find t id = some version → version = none ∧
    ∃ row, S.id row = id ∧ cond row = true ∧ σ'.Locked db row

theorem Session.Cascaded.interferes {σ σ' : Session S} {s s' : Shared S E T} {t : S.Table}
    {cond : S.Row t → Bool} (h : σ.Cascaded σ' s.db t cond) (hs : Interferes P tag σ' s s') :
    σ.Cascaded σ' s'.db t cond := by
  refine ⟨h.locks, h.loaded, h.others, fun hclean id version hfind => ?_⟩
  obtain ⟨hversion, row, hid, hcond, hlocked⟩ := h.deleted hclean id version hfind
  exact ⟨hversion, row, hid, hcond, hlocked.interferes hs⟩

theorem Session.Cascaded.delete {σ σ' : Session S} {db : Store S} {t : S.Table}
    {cond : S.Row t → Bool} (h : σ.Cascaded σ' db t cond) {row : S.Row t}
    (hrow : σ.writes t = [] → cond row = true ∧ σ'.Locked db row) :
    σ.Cascaded (σ'.delete db t (S.id row)) db t cond := by
  rw [Session.delete]
  split
  · exact h
  · rename_i old hold
    have hlocks := σ'.locks_write (Session.deleteNeeds old) db t (S.id row) none
    refine ⟨fun _ hmem => hlocks (h.locks hmem), h.loaded, fun t' ht => ?_,
      fun hclean id version hfind => ?_⟩
    · rw [Session.writes_write, Overlay.put_table_ne _ ht, h.others t' ht]
    · by_cases hid : id = S.id row
      · subst hid
        rw [Session.writes_write, Overlay.find_put_self] at hfind
        obtain ⟨hcond, hlocked⟩ := hrow hclean
        exact ⟨(Option.some.inj hfind).symm, row, rfl, hcond, hlocked.mono hlocks⟩
      · rw [Session.writes_write, Overlay.find_put_id_ne _ _ hid] at hfind
        obtain ⟨hversion, other, hother, hcond', hlocked'⟩ := h.deleted hclean id version hfind
        exact ⟨hversion, other, hother, hcond', hlocked'.mono hlocks⟩

theorem wp_deleteAll {t : S.Table} {cond : S.Row t → Bool} {rows : List (S.Row t)}
    {σ₀ : Session S} {s₀ : Shared S E T} {Q : Unit → Assertion S E T} (hR : Escapes P R)
    (hs : Interferes P tag σ₀ s₀ s) (hσ : σ₀.Cascaded σ s.db t cond)
    (hnow : Interferes P tag σ s s)
    (hrows : σ₀.writes t = [] → ∀ row ∈ rows, cond row = true ∧ σ.Locked s.db row)
    (h : ∀ σ' s', Interferes P tag σ₀ s₀ s' → σ₀.Cascaded σ' s'.db t cond →
      Interferes P tag σ' s' s' → Q () σ' s') :
    wp P tag Q R (Prog.deleteAll t (rows.map S.id)) σ s := by
  induction rows generalizing σ s with
  | nil => exact h σ s hs hσ hnow
  | cons row rows ih =>
    refine fun s₁ h₁ => ⟨?_, hR.of_interferes h₁⟩
    have hlocks : σ.locks ⊆ (σ.delete s₁.db t (S.id row)).locks := by
      rw [Session.delete]
      split
      · exact List.Subset.refl _
      · exact σ.locks_write _ _ _ _ _
    refine ih (Interferes.weaken hσ.locks hs h₁) ((hσ.interferes h₁).delete fun hclean => ?_)
      (.refl h₁.inv h₁.integral (h₁.sound.delete t (S.id row)))
      fun hclean r hr => ?_
    · obtain ⟨hcond, hlocked⟩ := hrows hclean row List.mem_cons_self
      exact ⟨hcond, hlocked.interferes h₁⟩
    · obtain ⟨hcond', hlocked'⟩ := hrows hclean r (List.mem_cons_of_mem _ hr)
      exact ⟨hcond', (hlocked'.interferes h₁).mono hlocks⟩

theorem wp_deleteMatching {t : S.Table} {cond : S.Row t → Bool} {Q : Unit → Assertion S E T}
    (hR : Escapes P R)
    (h : ∀ σ' s', Interferes P tag σ s s' → σ.Cascaded σ' s'.db t cond →
      Interferes P tag σ' s' s' → Q () σ' s') :
    wp P tag Q R (Prog.deleteMatching t cond) σ s := by
  rw [Prog.deleteMatching, wp_bind]
  refine wp_selectForUpdate hR fun rows σ' s' hs hext hrows => ?_
  have hσ : σ.Cascaded σ' s'.db t cond :=
    ⟨hext.locks, hext.loaded, fun t' _ => by rw [hext.writes], fun hclean id version hfind => by
      simp [Overlay.find, hext.writes, hclean] at hfind⟩
  exact wp_deleteAll hR hs hσ (hs.extend hext)
    (fun hclean row hrow => ⟨(hrows hclean row hrow).1, (hrows hclean row hrow).2.1⟩) h

end Rules

end ReadCommitted
