import TenantForge.ReadCommitted.Program
/-!
# Two runs side by side

A predicate on rows splits a store into its visible and its hidden rows. Two runs of one program, over
stores with the same visible rows, are compared: the program is secure (`Prog.Secure`) if both runs end
alike, whatever the hidden rows are, and leave the hidden rows alone. A statement is secure if its query
reads visible rows only, or if the row that it writes is visible; unique constraints range over hidden
rows too, so the values that they compare have to be hidden on both sides or on none (`Split.Balanced`).
-/

namespace ReadCommitted

variable {S : Schema} {E X T : Type} {α β : Type}

/-! ### Splitting a store -/

/-- What is visible, the hidden rows on either side, and what both runs know about the environment. -/
structure Split (S : Schema) (E : Type) where
  visible : {t : S.Table} → S.Row t → Bool
  left : Store S
  right : Store S
  env : E → Prop

namespace Split

variable (V : Split S E)

def seen (db : Store S) : Store S := fun t => (db t).filter V.visible

def hidden (db : Store S) : Store S := fun t => (db t).filter fun row => !V.visible row

/-- No hidden row has this id. -/
def Apart (t : S.Table) (id : S.Id) : Prop :=
  (∀ row ∈ V.left t, S.id row ≠ id) ∧ ∀ row ∈ V.right t, S.id row ≠ id

/-- A visible row, whose id no hidden row has. -/
def Ours {t : S.Table} (row : S.Row t) : Prop := V.visible row = true ∧ V.Apart t (S.id row)

/-- A unique value that hidden rows have on both sides or on none. -/
def Balanced (t : S.Table) (u : S.Index) : Prop := V.left.HasIndex t u ↔ V.right.HasIndex t u

/-- A store of one of the sides. -/
structure Fits (db : Store S) : Prop where
  hidden : V.hidden db = V.left ∨ V.hidden db = V.right
  apart : ∀ t, ∀ row ∈ db t, V.visible row = true → V.Apart t (S.id row)

variable {V} {db db' : Store S} {t : S.Table} {id : S.Id}

theorem mem_seen {row : S.Row t} : row ∈ V.seen db t ↔ row ∈ db t ∧ V.visible row = true := List.mem_filter

theorem mem_hidden {row : S.Row t} : row ∈ V.hidden db t ↔ row ∈ db t ∧ V.visible row = false := by
  rw [hidden, List.mem_filter, Bool.not_eq_true']

theorem Fits.id_ne (h : V.Fits db) (hid : V.Apart t id) {row : S.Row t} (hrow : row ∈ db t)
    (hvisible : V.visible row = false) : S.id row ≠ id := by
  have hmem : row ∈ V.hidden db t := mem_hidden.mpr ⟨hrow, hvisible⟩
  rcases h.hidden with hside | hside
  · exact hid.1 row (hside ▸ hmem)
  · exact hid.2 row (hside ▸ hmem)

/-- Among the rows that a condition selects there are no hidden ones. -/
theorem filter_seen {cond : S.Row t → Bool} (h : ∀ row ∈ db t, cond row = true → V.visible row = true) :
    (V.seen db t).filter cond = (db t).filter cond := by
  rw [seen, List.filter_filter]
  refine List.filter_congr fun row hrow => ?_
  cases hcond : cond row with
  | false => rfl
  | true => rw [h row hrow hcond, Bool.and_self]

theorem any_seen {cond : S.Row t → Bool} (h : ∀ row ∈ db t, cond row = true → V.visible row = true) :
    (V.seen db t).any cond = (db t).any cond := by
  rw [Bool.eq_iff_iff, List.any_eq_true, List.any_eq_true]
  exact ⟨fun ⟨row, hrow, hcond⟩ => ⟨row, (mem_seen.mp hrow).1, hcond⟩,
    fun ⟨row, hrow, hcond⟩ => ⟨row, mem_seen.mpr ⟨hrow, h row hrow hcond⟩, hcond⟩⟩

theorem Fits.lookup_seen (h : V.Fits db) (hid : V.Apart t id) : (V.seen db).lookup t id = db.lookup t id := by
  have hvisible : ∀ row ∈ db t, decide (S.id row = id) = true → V.visible row = true := by
    intro row hrow hsame
    by_contra hnot
    exact h.id_ne hid hrow (by simpa using hnot) (by simpa using hsame)
  rw [Store.lookup, Store.lookup, ← List.head?_filter, ← List.head?_filter, filter_seen hvisible]

theorem joined_seen {t' : S.Table} {cond : S.Row t → S.Row t' → Bool}
    (h : ∀ row ∈ db t, ∀ row' ∈ db t', cond row row' = true →
      V.visible row = true ∧ V.visible row' = true) :
    Prog.joined t t' cond (V.seen db) = Prog.joined t t' cond db := by
  have hinner : ∀ row ∈ db t, (V.seen db t').filter (cond row) = (db t').filter (cond row) :=
    fun row hrow => filter_seen fun row' hrow' hcond => (h row hrow row' hrow' hcond).2
  have houter : ∀ rows ⊆ db t, (rows.filter V.visible).flatMap
      (fun row => ((V.seen db t').filter (cond row)).map fun row' => (row, row')) =
      rows.flatMap fun row => ((db t').filter (cond row)).map fun row' => (row, row') := by
    intro rows hrows
    induction rows with
    | nil => rfl
    | cons row rows ih =>
      obtain ⟨hrow, hrest⟩ := List.cons_subset.mp hrows
      rw [List.filter_cons, List.flatMap_cons]
      split
      · rw [List.flatMap_cons, ih hrest, hinner row hrow]
      · -- a hidden row has no partners
        rename_i hhidden
        have hnone : (db t').filter (cond row) = [] :=
          List.filter_eq_nil_iff.mpr fun row' hrow' hcond => hhidden (h row hrow row' hrow' hcond).1
        rw [hnone, List.map_nil, List.nil_append, ih hrest]
  exact houter (db t) (List.Subset.refl _)

/-- The rows that a join pairs. -/
theorem Fits.ours_joined (hdb : V.Fits db) {t' : S.Table} {cond : S.Row t → S.Row t' → Bool}
    (h : ∀ row ∈ db t, ∀ row' ∈ db t', cond row row' = true → V.visible row = true ∧ V.visible row' = true)
    {pair : S.Row t × S.Row t'} (hpair : pair ∈ Prog.joined t t' cond db) : V.Ours pair.1 ∧ V.Ours pair.2 := by
  obtain ⟨row, hrow, hpair⟩ := List.mem_flatMap.mp hpair
  obtain ⟨row', hrow', rfl⟩ := List.mem_map.mp hpair
  obtain ⟨hrow', hcond⟩ := List.mem_filter.mp hrow'
  obtain ⟨hvisible, hvisible'⟩ := h row hrow row' hrow' hcond
  exact ⟨⟨hvisible, hdb.apart t row hrow hvisible⟩, hvisible', hdb.apart t' row' hrow' hvisible'⟩

/-! ### Alike sessions -/

/-- Two sessions that have done the same to the visible rows. -/
structure Alike (V : Split S E) (σ σ' : Session S) (s s' : Shared S E T) : Prop where
  hidden : V.hidden s.db = V.left
  hidden' : V.hidden s'.db = V.right
  seen : V.seen s'.db = V.seen s.db
  sameEnv : s'.env = s.env
  ids : s'.ids = s.ids
  writes : σ'.writes = σ.writes
  loaded : σ'.loaded = σ.loaded
  known : V.env s.env
  apart : ∀ t, ∀ row ∈ s.db t, V.visible row = true → V.Apart t (S.id row)
  pending : ∀ t, ∀ entry ∈ σ.writes t, V.Apart t entry.1 ∧
    ∀ row, entry.2 = some row → V.visible row = true ∧ S.id row = entry.1
  copies : ∀ t, ∀ copy ∈ σ.loaded t, V.Ours copy
  fresh : ∀ t id, s.ids.Holds id → V.Apart t id

variable {σ σ' : Session S} {s s' : Shared S E T}

/-- A commit leaves the hidden rows alone. -/
theorem hidden_apply {ov : Overlay S} (hpending : ∀ t, ∀ entry ∈ ov t, V.Apart t entry.1 ∧
      ∀ row, entry.2 = some row → V.visible row = true ∧ S.id row = entry.1)
    (hdb : V.hidden db = V.left ∨ V.hidden db = V.right) : V.hidden (ov.apply db) = V.hidden db := by
  funext t
  rw [hidden, hidden, Overlay.apply, List.filter_append, List.filter_filter]
  have hold : (db t).filter (fun row => !V.visible row && (ov.find t (S.id row)).isNone) =
      (db t).filter fun row => !V.visible row := by
    refine List.filter_congr fun row hrow => ?_
    cases hvisible : V.visible row with
    | true => rfl
    | false =>
      have hmem : row ∈ V.hidden db t := mem_hidden.mpr ⟨hrow, hvisible⟩
      have hnone : ov.find t (S.id row) = none := Overlay.find_eq_none.mpr fun entry hentry hsame => by
        obtain ⟨⟨hleft, hright⟩, -⟩ := hpending t entry hentry
        rcases hdb with hside | hside
        · exact hleft row (hside ▸ hmem) hsame.symm
        · exact hright row (hside ▸ hmem) hsame.symm
      rw [hnone]
      rfl
  have hnew : ((ov t).filterMap Prod.snd).filter (fun row => !V.visible row) = [] := by
    refine List.filter_eq_nil_iff.mpr fun row hrow => ?_
    obtain ⟨entry, hentry, hversion⟩ := List.mem_filterMap.mp hrow
    rw [((hpending t entry hentry).2 row hversion).1]
    exact Bool.false_ne_true
  rw [hold, hnew, List.append_nil]

/-- What is visible after a commit depends on what was visible before it. -/
theorem seen_apply {ov : Overlay S} (hseen : V.seen db' = V.seen db) :
    V.seen (ov.apply db') = V.seen (ov.apply db) := by
  have hold : ∀ db : Store S, ∀ t, ((db t).filter fun row => (ov.find t (S.id row)).isNone).filter V.visible =
      (V.seen db t).filter fun row => (ov.find t (S.id row)).isNone := by
    intro db t
    rw [seen, List.filter_filter, List.filter_filter]
    simp only [Bool.and_comm]
  funext t
  rw [seen, seen, Overlay.apply, Overlay.apply, List.filter_append, List.filter_append, hold db' t, hold db t, hseen]

namespace Alike

variable (h : V.Alike σ σ' s s')
include h

theorem fits_view : V.Fits (σ.view s.db) := by
  refine ⟨Or.inl ((hidden_apply h.pending (Or.inl h.hidden)).trans h.hidden), fun t row hrow hvisible => ?_⟩
  rw [Session.view, Overlay.apply, List.mem_append] at hrow
  rcases hrow with hold | hnew
  · exact h.apart t row (List.mem_filter.mp hold).1 hvisible
  · obtain ⟨entry, hentry, hversion⟩ := List.mem_filterMap.mp hnew
    obtain ⟨hid, hrows⟩ := h.pending t entry hentry
    rw [(hrows row hversion).2]
    exact hid

theorem seen_view : V.seen (σ'.view s'.db) = V.seen (σ.view s.db) := by
  rw [Session.view, Session.view, h.writes]
  exact seen_apply h.seen

theorem fits_view' : V.Fits (σ'.view s'.db) := by
  have hpending := h.pending
  rw [← h.writes] at hpending
  refine ⟨Or.inr ((hidden_apply hpending (Or.inr h.hidden')).trans h.hidden'), fun t row hrow hvisible => ?_⟩
  have hmem : row ∈ V.seen (σ'.view s'.db) t := mem_seen.mpr ⟨hrow, hvisible⟩
  rw [h.seen_view] at hmem
  exact h.fits_view.apart t row (mem_seen.mp hmem).1 hvisible

theorem lookup_view (hid : V.Apart t id) : (σ'.view s'.db).lookup t id = (σ.view s.db).lookup t id := by
  rw [← h.fits_view'.lookup_seen hid, ← h.fits_view.lookup_seen hid, h.seen_view]

theorem hidden_view : V.hidden (σ.view s.db) = V.left :=
  (hidden_apply h.pending (Or.inl h.hidden)).trans h.hidden

theorem hidden_view' : V.hidden (σ'.view s'.db) = V.right := by
  have hpending := h.pending
  rw [← h.writes] at hpending
  exact (hidden_apply hpending (Or.inr h.hidden')).trans h.hidden'

end Alike

variable (V db) in
theorem hasIndex_iff {u : S.Index} : db.HasIndex t u ↔ (V.seen db).HasIndex t u ∨ (V.hidden db).HasIndex t u := by
  constructor
  · rintro ⟨row, hrow, hu⟩
    cases hvisible : V.visible row with
    | true => exact Or.inl ⟨row, mem_seen.mpr ⟨hrow, hvisible⟩, hu⟩
    | false => exact Or.inr ⟨row, mem_hidden.mpr ⟨hrow, hvisible⟩, hu⟩
  · rintro (⟨row, hrow, hu⟩ | ⟨row, hrow, hu⟩)
    · exact ⟨row, (mem_seen.mp hrow).1, hu⟩
    · exact ⟨row, (mem_hidden.mp hrow).1, hu⟩

theorem Alike.hasIndex_view (h : V.Alike σ σ' s s') {u : S.Index} (hu : V.Balanced t u) :
    (σ'.view s'.db).HasIndex t u ↔ (σ.view s.db).HasIndex t u := by
  rw [V.hasIndex_iff, V.hasIndex_iff (σ.view s.db), h.seen_view, h.hidden_view, h.hidden_view']
  exact or_congr Iff.rfl hu.symm

/-! ### Alike steps -/

theorem Alike.hold (h : V.Alike σ σ' s s') (needs needs' : Needs S) (db db' : Store S) :
    V.Alike (σ.hold needs db) (σ'.hold needs' db') s s' :=
  { h with }

theorem Alike.env_act (h : V.Alike σ σ' s s') (act : E → β × E) (hact : V.env (act s.env).2) :
    (act s'.env).1 = (act s.env).1 ∧
      V.Alike σ σ' { s with env := (act s.env).2 } { s' with env := (act s'.env).2 } :=
  ⟨by rw [h.sameEnv], { h with sameEnv := by rw [h.sameEnv], known := hact }⟩

theorem Alike.draw (h : V.Alike σ σ' s s') : V.Alike σ σ' s.draw s'.draw :=
  { h with
    ids := congrArg Supply.tail h.ids
    fresh := fun t id hid => h.fresh t id (s.ids.leads_tail.holds hid) }

theorem Alike.copyOf (h : V.Alike σ σ' s s') (row : S.Row t) : σ'.copyOf row = σ.copyOf row := by
  rw [Session.copyOf, Session.copyOf, h.loaded]

theorem Alike.ours_copyOf (h : V.Alike σ σ' s s') {row : S.Row t} (hrow : V.Ours row) : V.Ours (σ.copyOf row) := by
  rw [Session.copyOf]
  cases hfind : (σ.loaded t).find? fun copy => S.id copy = S.id row with
  | none => exact hrow
  | some copy => exact h.copies t copy (List.mem_of_find?_eq_some hfind)

theorem Alike.attach (h : V.Alike σ σ' s s') {row : S.Row t} (hrow : V.Ours row) :
    V.Alike (σ.attach row) (σ'.attach row) s s' := by
  refine { h with loaded := by rw [Session.attach, Session.attach, h.loaded], copies := fun t' copy hcopy => ?_ }
  by_cases ht : t' = t
  · subst ht
    have hloaded : (σ.attach row).loaded t' =
        if (σ.loaded t').any fun copy => S.id copy = S.id row then σ.loaded t' else row :: σ.loaded t' :=
      Function.update_self _ _ _
    rw [hloaded] at hcopy
    split at hcopy
    · exact h.copies t' copy hcopy
    · rcases List.mem_cons.mp hcopy with rfl | hcopy
      · exact hrow
      · exact h.copies t' copy hcopy
  · rw [Session.loaded_attach_ne σ ht] at hcopy
    exact h.copies t' copy hcopy

theorem Alike.write (h : V.Alike σ σ' s s') {needs needs' : Needs S} (db db' : Store S)
    {version : Option (S.Row t)} (hid : V.Apart t id)
    (hversion : ∀ row, version = some row → V.visible row = true ∧ S.id row = id) :
    V.Alike (σ.write needs db t id version) (σ'.write needs' db' t id version) s s' := by
  refine { h with writes := ?_, pending := fun t' entry hentry => ?_ }
  · rw [Session.writes_write, Session.writes_write, h.writes]
  · rw [Session.writes_write] at hentry
    by_cases ht : t' = t
    · subst ht
      rw [Overlay.put_table_self] at hentry
      rcases List.mem_cons.mp hentry with rfl | hentry
      · exact ⟨hid, hversion⟩
      · exact h.pending t' entry (List.mem_filter.mp hentry).1
    · rw [Overlay.put_table_ne _ ht] at hentry
      exact h.pending t' entry hentry

theorem Alike.commit (h : V.Alike σ σ' s s') (tag : T) :
    V.Alike σ.renew σ'.renew (s.commit tag σ) (s'.commit tag σ') where
  hidden := h.hidden_view
  hidden' := h.hidden_view'
  seen := h.seen_view
  sameEnv := h.sameEnv
  ids := h.ids
  writes := rfl
  loaded := h.loaded
  known := h.known
  apart := h.fits_view.apart
  pending _ _ hentry := absurd hentry List.not_mem_nil
  copies := h.copies
  fresh := h.fresh

theorem Alike.rollback (h : V.Alike σ σ' s s') : V.Alike .empty .empty s s' :=
  { h with
    writes := rfl
    loaded := rfl
    pending := fun _ _ hentry => absurd hentry List.not_mem_nil
    copies := fun _ _ hcopy => absurd hcopy List.not_mem_nil }

theorem Alike.accepts_iff (h : V.Alike σ σ' s s') {row : S.Row t} (hid : V.Apart t (S.id row))
    (hindex : ∀ u ∈ S.index row, V.Balanced t u)
    (hparents : ∀ parent ∈ S.parents row, V.Apart parent.1 parent.2) :
    σ'.Accepts s'.db row ↔ σ.Accepts s.db row := by
  refine and_congr (by rw [h.lookup_view hid]) (and_congr (forall₂_congr fun u hu => ?_)
    (forall₂_congr fun parent hparent => ?_))
  · rw [h.hasIndex_view (hindex u hu)]
  · rw [h.lookup_view (hparents parent hparent)]

theorem Alike.admits_iff (h : V.Alike σ σ' s s') {old new : S.Row t}
    (hindex : ∀ u ∈ S.index new, u ∉ S.index old → V.Balanced t u) :
    σ'.Admits s'.db old new ↔ σ.Admits s.db old new := by
  refine and_congr Iff.rfl (forall₂_congr fun u hu => forall_congr' fun hold => ?_)
  rw [h.hasIndex_view (hindex u hu hold)]

/-- An insert of a visible row. -/
theorem Alike.insert (h : V.Alike σ σ' s s') {row : S.Row t} (hrow : V.visible row = true)
    (hid : V.Apart t (S.id row)) (hindex : ∀ u ∈ S.index row, V.Balanced t u)
    (hparents : ∀ parent ∈ S.parents row, V.Apart parent.1 parent.2) :
    (σ'.insert s'.db row).1 = (σ.insert s.db row).1 ∧
      V.Alike (σ.insert s.db row).2 (σ'.insert s'.db row).2 s s' := by
  have haccepts := h.accepts_iff hid hindex hparents
  unfold Session.insert
  by_cases hleft : σ.Accepts s.db row
  · rw [if_pos hleft, if_pos (haccepts.mpr hleft)]
    exact ⟨rfl, h.write _ _ hid fun _ hsame => Option.some.inj hsame ▸ ⟨hrow, rfl⟩⟩
  · rw [if_neg hleft, if_neg (haccepts.not.mpr hleft)]
    exact ⟨rfl, h⟩

/-- An update of a visible row. -/
theorem Alike.update (h : V.Alike σ σ' s s') {set : S.Row t → S.Row t} (hid : V.Apart t id)
    (hset : ∀ old, V.visible old = true → V.visible (set old) = true)
    (hindex : ∀ old, V.visible old = true → ∀ u ∈ S.index (set old), u ∉ S.index old → V.Balanced t u) :
    (σ'.update s'.db t id set).1 = (σ.update s.db t id set).1 ∧
      V.Alike (σ.update s.db t id set).2 (σ'.update s'.db t id set).2 s s' := by
  unfold Session.update
  rw [h.lookup_view hid]
  cases hfind : (σ.view s.db).lookup t id with
  | none => exact ⟨rfl, h⟩
  | some old =>
    have hold : V.visible old = true := by
      by_contra hnot
      exact h.fits_view.id_ne hid (Store.lookup_mem hfind) (by simpa using hnot) (Store.lookup_id hfind)
    have hadmits := h.admits_iff (hindex old hold)
    simp only
    by_cases hleft : σ.Admits s.db old (set old)
    · rw [if_pos hleft, if_pos (hadmits.mpr hleft)]
      have hsame : S.id (set old) = id := hleft.1.trans (Store.lookup_id hfind)
      exact ⟨rfl, h.write _ _ hid fun _ hnew => Option.some.inj hnew ▸ ⟨hset old hold, hsame⟩⟩
    · rw [if_neg hleft, if_neg (hadmits.not.mpr hleft)]
      exact ⟨rfl, h⟩

theorem Alike.delete (h : V.Alike σ σ' s s') (hid : V.Apart t id) :
    V.Alike (σ.delete s.db t id) (σ'.delete s'.db t id) s s' := by
  unfold Session.delete
  rw [h.lookup_view hid]
  cases (σ.view s.db).lookup t id with
  | none => exact h
  | some old => exact h.write _ _ hid fun _ hnone => nomatch hnone

end Split

/-! ### Secure programs -/

namespace Prog

variable {V : Split S E} {tag : T} {Q R : β → Prop} {P : α → Prop}

/-- Two runs from alike states end alike, with the same result. -/
def Secure (V : Split S E) (tag : T) (Q : β → Prop) (p : Prog S E X β) : Prop :=
  ∀ σ σ' s s', V.Alike σ σ' s s' →
    (p.run tag σ' s').1 = (p.run tag σ s).1 ∧
      V.Alike (p.run tag σ s).2.1 (p.run tag σ' s').2.1 (p.run tag σ s).2.2 (p.run tag σ' s').2.2 ∧
      ∀ value, (p.run tag σ s).1 = .ok value → Q value

namespace Secure

theorem pure {value : β} (h : Q value) : Secure V tag Q (.pure value : Prog S E X β) :=
  fun _ _ _ _ halike => ⟨rfl, halike, fun _ hvalue => Except.ok.inj hvalue ▸ h⟩

theorem throw (error : X) : Secure V tag Q (.throw error : Prog S E X β) :=
  fun _ _ _ _ halike => ⟨rfl, halike, fun _ hvalue => nomatch hvalue⟩

theorem mono {p : Prog S E X β} (h : Secure V tag R p) (himp : ∀ value, R value → Q value) :
    Secure V tag Q p := fun σ σ' s s' halike =>
  let ⟨hsame, hafter, hpost⟩ := h σ σ' s s' halike
  ⟨hsame, hafter, fun value hvalue => himp value (hpost value hvalue)⟩

theorem bind {p : Prog S E X α} {f : α → Prog S E X β} (hp : Secure V tag P p)
    (hf : ∀ value, P value → Secure V tag Q (f value)) : Secure V tag Q (p.bind f) := by
  intro σ σ' s s' halike
  obtain ⟨hsame, hafter, hpost⟩ := hp σ σ' s s' halike
  rw [run_bind, run_bind]
  generalize p.run tag σ s = result at hsame hafter hpost
  generalize p.run tag σ' s' = result' at hsame hafter
  obtain ⟨outcome, σ₁, s₁⟩ := result
  obtain ⟨outcome', σ₁', s₁'⟩ := result'
  obtain rfl : outcome' = outcome := hsame
  cases outcome' with
  | ok value => exact hf value (hpost value rfl) σ₁ σ₁' s₁ s₁' hafter
  | error error => exact ⟨rfl, hafter, fun _ hvalue => nomatch hvalue⟩

theorem map {p : Prog S E X α} {f : α → β} (h : Secure V tag (fun value => Q (f value)) p) :
    Secure V tag Q (f <$> p) :=
  bind h fun _ hvalue => pure hvalue

theorem handle {p : Prog S E X β} {f : X → Prog S E X β} (hp : Secure V tag Q p)
    (hf : ∀ error, Secure V tag Q (f error)) : Secure V tag Q (p.handle f) := by
  intro σ σ' s s' halike
  obtain ⟨hsame, hafter, hpost⟩ := hp σ σ' s s' halike
  rw [run_handle, run_handle]
  generalize p.run tag σ s = result at hsame hafter hpost
  generalize p.run tag σ' s' = result' at hsame hafter
  obtain ⟨outcome, σ₁, s₁⟩ := result
  obtain ⟨outcome', σ₁', s₁'⟩ := result'
  obtain rfl : outcome' = outcome := hsame
  cases outcome' with
  | ok value => exact ⟨rfl, hafter, hpost⟩
  | error error => exact hf error σ₁ σ₁' s₁ s₁' hafter

/-- A query that reads visible rows only. -/
theorem read {answer : Type} {q : Store S → answer} {next : answer → Prog S E X β} {failed : Prog S E X β}
    (hq : ∀ db, V.Fits db → q (V.seen db) = q db) (hnext : ∀ db, V.Fits db → Secure V tag Q (next (q db))) :
    Secure V tag Q (.read q next failed) := by
  intro σ σ' s s' halike
  have hsame : q (σ'.view s'.db) = q (σ.view s.db) := by
    rw [← hq _ halike.fits_view', ← hq _ halike.fits_view, halike.seen_view]
  have h := hnext _ halike.fits_view σ σ' s s' halike
  simp only [run]
  rwa [hsame]

theorem lock {t : S.Table} {id : S.Id} {mode : Mode} {next failed : Prog S E X β} (hnext : Secure V tag Q next) :
    Secure V tag Q (.lock t id mode next failed) :=
  fun _ _ _ _ halike => hnext _ _ _ _ (halike.hold _ _ _ _)

theorem attach {t : S.Table} {row : S.Row t} {next : S.Row t → Prog S E X β} (hrow : V.Ours row)
    (hnext : ∀ copy, V.Ours copy → S.id copy = S.id row → Secure V tag Q (next copy)) :
    Secure V tag Q (.attach row next) := by
  intro σ σ' s s' halike
  simp only [run]
  rw [halike.copyOf]
  exact hnext _ (halike.ours_copyOf hrow) (σ.id_copyOf row) _ _ _ _ (halike.attach hrow)

theorem act {f : E → β × E} (h : ∀ e, V.env e → V.env (f e).2 ∧ Q (f e).1) :
    Secure V tag Q (act f : Prog S E X β) := by
  intro σ σ' s s' halike
  obtain ⟨hknown, hpost⟩ := h s.env halike.known
  obtain ⟨hsame, hafter⟩ := halike.env_act f hknown
  exact ⟨congrArg Except.ok hsame, hafter, fun _ hvalue => Except.ok.inj hvalue ▸ hpost⟩

theorem freshId : Secure V tag (fun id => ∀ t, V.Apart t id) (freshId : Prog S E X S.Id) := by
  intro σ σ' s s' halike
  refine ⟨?_, halike.draw.hold _ _ _ _, fun id hid t => ?_⟩
  · exact congrArg (fun ids : Supply S.Id => Except.ok ids.head) halike.ids
  · exact Except.ok.inj hid ▸ halike.fresh t s.ids.head s.ids.holds_head

theorem rollbackTransaction : Secure V tag (fun _ => True) (rollbackTransaction : Prog S E X Unit) :=
  fun _ _ _ _ halike => ⟨rfl, halike.rollback, fun _ _ => trivial⟩

theorem first {t : S.Table} {rows : List (S.Row t)} (h : ∀ row ∈ rows, V.Ours row) :
    Secure V tag (fun row => ∀ copy ∈ row, V.Ours copy) (first rows : Prog S E X _) := by
  cases rows with
  | nil => exact pure fun _ hcopy => nomatch hcopy
  | cons row rows =>
    refine attach (h row List.mem_cons_self) fun copy hcopy _ => pure fun _ hsame => ?_
    exact Option.mem_some_iff.mp hsame ▸ hcopy

theorem attachAll {t : S.Table} {rows : List (S.Row t)} (h : ∀ row ∈ rows, V.Ours row) :
    Secure V tag (fun copies => ∀ copy ∈ copies, V.Ours copy) (attachAll rows : Prog S E X _) := by
  induction rows with
  | nil => exact pure fun _ hcopy => absurd hcopy List.not_mem_nil
  | cons row rows ih =>
    obtain ⟨hrow, hrows⟩ := List.forall_mem_cons.mp h
    refine attach hrow fun copy hcopy _ => bind (ih hrows) fun copies hcopies => pure ?_
    exact List.forall_mem_cons.mpr ⟨hcopy, hcopies⟩

section Statements

variable [DatabaseError X]

theorem query {q : Store S → β} (hq : ∀ db, V.Fits db → q (V.seen db) = q db)
    (hQ : ∀ db, V.Fits db → Q (q db)) :
    Secure V tag Q (query q : Prog S E X β) :=
  read hq fun db hdb => pure (hQ db hdb)

theorem insertRow {t : S.Table} {row : S.Row t} (hrow : V.visible row = true) (hid : V.Apart t (S.id row))
    (hindex : ∀ u ∈ S.index row, V.Balanced t u)
    (hparents : ∀ parent ∈ S.parents row, V.Apart parent.1 parent.2) :
    Secure V tag (fun _ => True) (insertRow row : Prog S E X Bool) := by
  intro σ σ' s s' halike
  obtain ⟨hsame, hafter⟩ := halike.insert hrow hid hindex hparents
  exact ⟨congrArg Except.ok hsame, hafter, fun _ _ => trivial⟩

theorem updateRow {t : S.Table} {id : S.Id} {set : S.Row t → S.Row t} (hid : V.Apart t id)
    (hset : ∀ old, V.visible old = true → V.visible (set old) = true)
    (hindex : ∀ old, V.visible old = true → ∀ u ∈ S.index (set old), u ∉ S.index old → V.Balanced t u) :
    Secure V tag (fun _ => True) (updateRow t id set : Prog S E X UpdateResult) := by
  intro σ σ' s s' halike
  obtain ⟨hsame, hafter⟩ := halike.update hid hset hindex
  exact ⟨congrArg Except.ok hsame, hafter, fun _ _ => trivial⟩

theorem deleteRow {t : S.Table} {id : S.Id} (hid : V.Apart t id) :
    Secure V tag (fun _ => True) (deleteRow t id : Prog S E X Unit) :=
  fun _ _ _ _ halike => ⟨rfl, halike.delete hid, fun _ _ => trivial⟩

theorem commitTransaction : Secure V tag (fun _ => True) (commitTransaction : Prog S E X Unit) :=
  fun _ _ _ _ halike => ⟨rfl, halike.commit tag, fun _ _ => trivial⟩

/-! #### Queries -/

/-- The condition selects visible rows only. -/
def Sees (V : Split S E) {t : S.Table} (cond : S.Row t → Bool) : Prop :=
  ∀ db, V.Fits db → ∀ row ∈ db t, cond row = true → V.visible row = true

/-- The join condition pairs visible rows only. -/
def SeesPairs (V : Split S E) (t t' : S.Table) (cond : S.Row t → S.Row t' → Bool) : Prop :=
  ∀ db, V.Fits db → ∀ row ∈ db t, ∀ row' ∈ db t', cond row row' = true →
    V.visible row = true ∧ V.visible row' = true

/-- The copy of a row that qualifies. -/
theorem scalar_found {t : S.Table} {cond : S.Row t → Bool} (hcond : Sees V cond) :
    Secure V tag (fun row => ∀ copy ∈ row, V.Ours copy ∧ ∃ found, cond found = true ∧ S.id copy = S.id found)
      (scalar t cond : Prog S E X _) := by
  refine bind (query (Q := fun rows => ∀ row ∈ rows, V.Ours row ∧ cond row = true)
    (fun db hdb => Split.filter_seen (hcond db hdb)) fun db hdb row hrow => ?_) fun rows hrows => ?_
  · obtain ⟨hmem, hselected⟩ := List.mem_filter.mp hrow
    have hvisible := hcond db hdb row hmem hselected
    exact ⟨⟨hvisible, hdb.apart t row hmem hvisible⟩, hselected⟩
  · cases rows with
    | nil => exact pure fun _ hcopy => nomatch hcopy
    | cons row rows =>
      obtain ⟨hrow, hselected⟩ := hrows row List.mem_cons_self
      refine attach hrow fun copy hcopy hid => pure fun _ hsame => ?_
      exact Option.mem_some_iff.mp hsame ▸ ⟨hcopy, row, hselected, hid⟩

theorem scalar {t : S.Table} {cond : S.Row t → Bool} (hcond : Sees V cond) :
    Secure V tag (fun row => ∀ copy ∈ row, V.Ours copy) (scalar t cond : Prog S E X _) :=
  (scalar_found hcond).mono fun _ h copy hcopy => (h copy hcopy).1

theorem lockMatching {t : S.Table} {cond : S.Row t → Bool} (hcond : Sees V cond) {ids : List S.Id}
    (h : ∀ id ∈ ids, V.Apart t id) :
    Secure V tag (fun rows => ∀ row ∈ rows, V.Ours row) (lockMatching t cond ids : Prog S E X _) := by
  induction ids with
  | nil => exact pure fun _ hrow => absurd hrow List.not_mem_nil
  | cons id ids ih =>
    obtain ⟨hid, hids⟩ := List.forall_mem_cons.mp h
    refine lock (read (fun db hdb => by rw [hdb.lookup_seen hid]) fun db hdb => ?_)
    refine bind (ih hids) fun rows hrows => pure fun row hrow => ?_
    rcases List.mem_append.mp hrow with hrow | hrow
    · obtain ⟨hfound, hselected⟩ := Option.filter_eq_some_iff.mp (Option.mem_toList.mp hrow)
      refine ⟨hcond db hdb row (Store.lookup_mem hfound) hselected, ?_⟩
      rw [Store.lookup_id hfound]
      exact hid
    · exact hrows row hrow

theorem selectForUpdate {t : S.Table} {cond : S.Row t → Bool} (hcond : Sees V cond) :
    Secure V tag (fun rows => ∀ row ∈ rows, V.Ours row) (selectForUpdate t cond : Prog S E X _) := by
  refine bind (query (Q := fun ids => ∀ id ∈ ids, V.Apart t id)
    (fun db hdb => congrArg _ (Split.filter_seen (hcond db hdb))) fun db hdb id hid => ?_)
    fun ids hids => lockMatching hcond hids
  obtain ⟨row, hrow, rfl⟩ := List.mem_map.mp hid
  obtain ⟨hmem, hselected⟩ := List.mem_filter.mp hrow
  exact hdb.apart t row hmem (hcond db hdb row hmem hselected)

theorem scalarForUpdate {t : S.Table} {cond : S.Row t → Bool} (hcond : Sees V cond) :
    Secure V tag (fun row => ∀ copy ∈ row, V.Ours copy) (scalarForUpdate t cond : Prog S E X _) :=
  bind (selectForUpdate hcond) fun _ hrows => first hrows

theorem lockJoined {t t' : S.Table} {cond : S.Row t → S.Row t' → Bool} (hcond : SeesPairs V t t' cond)
    {ids : List (S.Id × S.Id)} (h : ∀ pair ∈ ids, V.Apart t pair.1 ∧ V.Apart t' pair.2) :
    Secure V tag (fun pairs => ∀ pair ∈ pairs, V.Ours pair.1) (lockJoined t t' cond ids : Prog S E X _) := by
  induction ids with
  | nil => exact pure fun _ hpair => absurd hpair List.not_mem_nil
  | cons pair ids ih =>
    obtain ⟨⟨hid, hid'⟩, hids⟩ := List.forall_mem_cons.mp h
    refine lock (lock (read (fun db hdb => by rw [hdb.lookup_seen hid, hdb.lookup_seen hid']) fun db hdb => ?_))
    refine bind (ih hids) fun pairs hpairs => pure fun found hfound => ?_
    rcases List.mem_append.mp hfound with hfound | hfound
    · obtain ⟨row, hrow, hfound⟩ := Option.bind_eq_some_iff.mp (Option.mem_toList.mp hfound)
      obtain ⟨row', hrow', hfound⟩ := Option.bind_eq_some_iff.mp hfound
      split at hfound
      · rename_i hselected
        obtain rfl := Option.some.inj hfound
        refine ⟨(hcond db hdb row (Store.lookup_mem hrow) row' (Store.lookup_mem hrow') hselected).1, ?_⟩
        rw [Store.lookup_id hrow]
        exact hid
      · cases hfound
    · exact hpairs found hfound

theorem scalarJoinForUpdate {t t' : S.Table} {cond : S.Row t → S.Row t' → Bool} (hcond : SeesPairs V t t' cond) :
    Secure V tag (fun row => ∀ copy ∈ row, V.Ours copy) (scalarJoinForUpdate t t' cond : Prog S E X _) := by
  refine bind (bind (query (Q := fun ids => ∀ pair ∈ ids, V.Apart t pair.1 ∧ V.Apart t' pair.2)
    (fun db hdb => congrArg _ (Split.joined_seen (hcond db hdb))) fun db hdb pair hpair => ?_)
    fun ids hids => lockJoined hcond hids) fun pairs hpairs => first fun row hrow => ?_
  · obtain ⟨found, hfound, rfl⟩ := List.mem_map.mp hpair
    obtain ⟨hours, hours'⟩ := hdb.ours_joined (hcond db hdb) hfound
    exact ⟨hours.2, hours'.2⟩
  · obtain ⟨pair, hpair, rfl⟩ := List.mem_map.mp hrow
    exact hpairs pair hpair

theorem deleteAll {t : S.Table} {ids : List S.Id} (h : ∀ id ∈ ids, V.Apart t id) :
    Secure V tag (fun _ => True) (deleteAll t ids : Prog S E X Unit) := by
  induction ids with
  | nil => exact pure trivial
  | cons id ids ih =>
    obtain ⟨hid, hids⟩ := List.forall_mem_cons.mp h
    exact bind (deleteRow hid) fun _ _ => ih hids

theorem deleteMatching {t : S.Table} {cond : S.Row t → Bool} (hcond : Sees V cond) :
    Secure V tag (fun _ => True) (deleteMatching t cond : Prog S E X Unit) :=
  bind (selectForUpdate hcond) fun rows hrows => deleteAll fun id hid => by
    obtain ⟨row, hrow, rfl⟩ := List.mem_map.mp hid
    exact (hrows row hrow).2

end Statements

end Secure

end Prog

end ReadCommitted
