import TenantForge.ReadCommitted.Revisions
/-!
# Keys that are not used twice

A program mints the keys of a table if each row that it inserts there has an id that its transaction drew
(`Prog.Mints`). No id is drawn twice and nobody else uses it meanwhile, so in every interleaving a row that
is gone stays gone (`World.spent_of_reach`).
-/

namespace ReadCommitted

variable {S : Schema} {E X T : Type} {α β : Type}

/-- The session drew this id. -/
def HoldsName (id : S.Id) (locks : List (Held S)) : Prop :=
  ∃ held ∈ locks, held.key = .name id ∧ held.mode = .forUpdate

theorem HoldsName.mono {id : S.Id} {locks locks' : List (Held S)} (h : HoldsName id locks)
    (hl : locks ⊆ locks') : HoldsName id locks' := by
  obtain ⟨held, hmem, hrest⟩ := h
  exact ⟨held, hl hmem, hrest⟩

theorem HoldsName.not_both {id : S.Id} {locks locks' : List (Held S)} (h : HoldsName id locks)
    (h' : HoldsName id locks') (hcompat : Compatible locks locks') : False := by
  obtain ⟨held, hmem, hkey, hmode⟩ := h
  obtain ⟨held', hmem', hkey', _⟩ := h'
  have hconflict := hcompat held hmem held' hmem' (hkey.trans hkey'.symm)
  simp [hmode] at hconflict

/-! ### Programs that mint their keys -/

namespace Prog

/-- The ids of the inserted rows of the table are among the `names`, which the transaction drew. -/
def Mints (t : S.Table) : Prog S E X α → List S.Id → Prop
  | .pure _, _ => True
  | .throw _, _ => True
  | .read _ next failed, names => (∀ answer, (next answer).Mints t names) ∧ failed.Mints t []
  | .lock _ _ _ next failed, names => next.Mints t names ∧ failed.Mints t []
  | @Prog.insert _ _ _ _ t' row next failed, names =>
    (t' = t → S.id row ∈ names) ∧ (∀ ok, (next ok).Mints t names) ∧ failed.Mints t []
  | .update _ _ _ next failed, names => (∀ result, (next result).Mints t names) ∧ failed.Mints t []
  | .delete _ _ next failed, names => next.Mints t names ∧ failed.Mints t []
  | .attach _ next, names => ∀ copy, (next copy).Mints t names
  | .env _ next, names => ∀ answer, (next answer).Mints t names
  | .fresh next, names => ∀ id, (next id).Mints t (id :: names)
  | .commit next failed, _ => next.Mints t [] ∧ failed.Mints t []
  | .rollback next, _ => next.Mints t []

variable {t : S.Table} {names : List S.Id}

theorem Mints.mono {p : Prog S E X α} {names' : List S.Id} (hp : p.Mints t names) (hsub : names ⊆ names') :
    p.Mints t names' := by
  induction p generalizing names names' with
  | pure value => trivial
  | throw error => trivial
  | read query next failed ih ihf => exact ⟨fun a => ih a (hp.1 a) hsub, hp.2⟩
  | lock t id mode next failed ih ihf => exact ⟨ih hp.1 hsub, hp.2⟩
  | insert row next failed ih ihf =>
    exact ⟨fun ht => hsub (hp.1 ht), fun ok => ih ok (hp.2.1 ok) hsub, hp.2.2⟩
  | update t id set next failed ih ihf => exact ⟨fun r => ih r (hp.1 r) hsub, hp.2⟩
  | delete t id next failed ih ihf => exact ⟨ih hp.1 hsub, hp.2⟩
  | attach row next ih => exact fun copy => ih copy (hp copy) hsub
  | env act next ih => exact fun a => ih a (hp a) hsub
  | fresh next ih => exact fun id => ih id (hp id) (List.cons_subset_cons id hsub)
  | commit next failed ih ihf => exact hp
  | rollback next ih => exact hp

/-- What follows has to mint on its own: the names before may belong to an earlier transaction. -/
theorem Mints.bind {p : Prog S E X α} {f : α → Prog S E X β} (hp : p.Mints t names)
    (hf : ∀ value, (f value).Mints t []) : (p.bind f).Mints t names := by
  induction p generalizing names with
  | pure value => exact (hf value).mono (List.nil_subset _)
  | throw error => trivial
  | read query next failed ih ihf => exact ⟨fun a => ih a (hp.1 a), ihf hp.2⟩
  | lock t id mode next failed ih ihf => exact ⟨ih hp.1, ihf hp.2⟩
  | insert row next failed ih ihf => exact ⟨hp.1, fun ok => ih ok (hp.2.1 ok), ihf hp.2.2⟩
  | update t id set next failed ih ihf => exact ⟨fun r => ih r (hp.1 r), ihf hp.2⟩
  | delete t id next failed ih ihf => exact ⟨ih hp.1, ihf hp.2⟩
  | attach row next ih => exact fun copy => ih copy (hp copy)
  | env act next ih => exact fun a => ih a (hp a)
  | fresh next ih => exact fun id => ih id (hp id)
  | commit next failed ih ihf => exact ⟨ih hp.1, ihf hp.2⟩
  | rollback next ih => exact ih hp

theorem Mints.handle {p : Prog S E X α} {h : X → Prog S E X α} (hp : p.Mints t names)
    (hh : ∀ error, (h error).Mints t []) : (p.handle h).Mints t names := by
  induction p generalizing names with
  | pure value => trivial
  | throw error => exact (hh error).mono (List.nil_subset _)
  | read query next failed ih ihf => exact ⟨fun a => ih a (hp.1 a), ihf hp.2⟩
  | lock t id mode next failed ih ihf => exact ⟨ih hp.1, ihf hp.2⟩
  | insert row next failed ih ihf => exact ⟨hp.1, fun ok => ih ok (hp.2.1 ok), ihf hp.2.2⟩
  | update t id set next failed ih ihf => exact ⟨fun r => ih r (hp.1 r), ihf hp.2⟩
  | delete t id next failed ih ihf => exact ⟨ih hp.1, ihf hp.2⟩
  | attach row next ih => exact fun copy => ih copy (hp copy)
  | env act next ih => exact fun a => ih a (hp a)
  | fresh next ih => exact fun id => ih id (hp id)
  | commit next failed ih ihf => exact ⟨ih hp.1, ihf hp.2⟩
  | rollback next ih => exact ih hp

theorem mints_composes : Composes fun β (p : Prog S E X β) => p.Mints t [] where
  pure _ := trivial
  throw _ := trivial
  act _ _ := trivial
  bind := Mints.bind
  handle := Mints.handle

/-- A program that does not write the table. -/
theorem Within.mints {W : S.Table → Prop} {F : E → E → Prop} {C : Prop} {p : Prog S E X α}
    (hp : p.Within W F C) (ht : ¬W t) : p.Mints t names := by
  induction p generalizing names with
  | pure value => trivial
  | throw error => trivial
  | read query next failed ih ihf => exact ⟨fun a => ih a (hp.1 a), ihf hp.2⟩
  | lock t id mode next failed ih ihf => exact ⟨ih hp.1, ihf hp.2⟩
  | insert row next failed ih ihf =>
    exact ⟨fun hsame => absurd (hsame ▸ hp.1) ht, fun ok => ih ok (hp.2.1 ok), ihf hp.2.2⟩
  | update t id set next failed ih ihf => exact ⟨fun r => ih r (hp.2.1 r), ihf hp.2.2⟩
  | delete t id next failed ih ihf => exact ⟨ih hp.2.1, ihf hp.2.2⟩
  | attach row next ih => exact fun copy => ih copy (hp copy)
  | env act next ih => exact fun a => ih a (hp.2 a)
  | fresh next ih => exact fun id => ih id (hp id)
  | commit next failed ih ihf => exact ⟨ih hp.2.1, ihf hp.2.2⟩
  | rollback next ih => exact ih hp

end Prog

/-! ### Keys that were in use -/

/-- The table has a row with this key, or had one before some commit. -/
def Shared.Used (s : Shared S E T) (t : S.Table) (id : S.Id) : Prop :=
  (s.db.lookup t id).isSome ∨ ∃ c ∈ s.log, (c.before.lookup t id).isSome

/-- The commit took the row away. -/
def Commit.Removes (c : Commit S T) (t : S.Table) (id : S.Id) : Prop :=
  (c.before.lookup t id).isSome ∧ c.after.lookup t id = none

/-- No key that was in use is still to be drawn, and a row that a commit took away is not there after a later
commit, nor now. -/
structure KeysSpent (t : S.Table) (s : Shared S E T) : Prop where
  drawn : ∀ id, s.Used t id → ¬s.ids.Holds id
  gone : ∀ c ∈ s.log, ∀ id, c.Removes t id → s.db.lookup t id = none
  later : s.log.Pairwise fun newer older => ∀ id, older.Removes t id → newer.after.lookup t id = none

/-- Nobody uses a key that another process has drawn. -/
def Protocol.spending (E T : Type) (t : S.Table) : Protocol S E T where
  inv s := KeysSpent t s
  rely _ locks s s' := ∀ id, HoldsName id locks → s'.Used t id → s.Used t id
  guar _ σ s s' := ∀ id, s'.Used t id → s.Used t id ∨ HoldsName id σ.locks
  assume _ _ _ _ _ := True
  rely_refl _ _ _ _ _ h := h
  rely_trans _ _ _ _ _ h h' id hname hused := h id hname (h' id hname hused)
  rely_mono _ _ _ _ _ hl h id hname := h id (hname.mono hl)

/-- The session drew the id, and no row has it as its key. -/
structure Unspent (t : S.Table) (σ : Session S) (s : Shared S E T) (id : S.Id) : Prop where
  held : HoldsName id σ.locks
  unused : ¬s.Used t id
  drawn : ¬s.ids.Holds id

/-- The session is in order: the rows that it has written are there, or have a key that it drew. -/
structure Minting (t : S.Table) (tag : T) (names : List S.Id) (σ : Session S) (s : Shared S E T) : Prop where
  now : Interferes (Protocol.spending E T t) tag σ s s
  written : ∀ id row, σ.writes.find t id = some (some row) → (s.db.lookup t id).isSome ∨ Unspent t σ s id
  names : ∀ id ∈ names, Unspent t σ s id

section Rules

variable {t : S.Table} {tag : T} {names : List S.Id} {σ σ' : Session S} {s s' : Shared S E T}

theorem spending_respects (a b : T) : Respects (Protocol.spending E T t) a b :=
  fun _ _ _ _ hcompat hguar id hname hused =>
    (hguar id hused).resolve_right fun hname' => hname'.not_both hname hcompat

theorem used_commit {id : S.Id} :
    (s.commit tag σ).Used t id ↔ s.Used t id ∨ ((σ.view s.db).lookup t id).isSome := by
  simp only [Shared.Used, Shared.commit, List.mem_cons, exists_eq_or_imp]
  exact or_comm

theorem Unspent.interferes {id : S.Id} (h : Unspent t σ s id)
    (hs : Interferes (Protocol.spending E T t) tag σ s s') : Unspent t σ s' id where
  held := h.held
  unused hused := h.unused (hs.rely id h.held hused)
  drawn hholds := h.drawn (hs.ids.holds hholds)

theorem Unspent.mono {id : S.Id} (h : Unspent t σ s id) (hl : σ.locks ⊆ σ'.locks) : Unspent t σ' s id :=
  ⟨h.held.mono hl, h.unused, h.drawn⟩

theorem Minting.interferes (h : Minting t tag names σ s)
    (hs : Interferes (Protocol.spending E T t) tag σ s s') : Minting t tag names σ s' where
  now := hs.now
  written id row hfind := by
    obtain ⟨held, hmem, hkey, hmode, -⟩ := h.now.sound.held t id (some row) hfind
    rw [hs.frozen.row held hmem t id hkey hmode]
    exact (h.written id row hfind).imp_right fun hfresh => hfresh.interferes hs
  names id hid := (h.names id hid).interferes hs

theorem Minting.empty (h : Interferes (Protocol.spending E T t) tag σ s s') : Minting t tag [] .empty s' where
  now := .refl h.inv h.integral (.of_writes_empty h.integral rfl)
  written id row hfind := by simp at hfind
  names id hid := absurd hid List.not_mem_nil

/-- The same writes under more locks. -/
theorem Minting.congr (h : Minting t tag names σ s) (hσ' : σ'.Sound s.db) (hw : σ'.writes = σ.writes)
    (hl : σ.locks ⊆ σ'.locks) : Minting t tag names σ' s where
  now := .refl h.now.inv h.now.integral hσ'
  written id row hfind := (h.written id row (hw ▸ hfind)).imp_right fun hfresh => hfresh.mono hl
  names id hid := (h.names id hid).mono hl

/-- A row that the session sees is there, or its key is new. -/
theorem Minting.view (h : Minting t tag names σ s) {id : S.Id}
    (hsome : ((σ.view s.db).lookup t id).isSome) : (s.db.lookup t id).isSome ∨ Unspent t σ s id := by
  rw [Session.view, h.now.sound.coherent.lookup_apply] at hsome
  cases hpending : σ.writes.find t id with
  | none =>
    rw [hpending] at hsome
    exact Or.inl hsome
  | some version =>
    rw [hpending, Option.getD_some] at hsome
    obtain ⟨row, rfl⟩ := Option.isSome_iff_exists.mp hsome
    exact h.written id row hpending

/-- One more version: of another table, or of a row that the session sees, or under a drawn key. -/
theorem Minting.put (h : Minting t tag names σ s) (hσ' : σ'.Sound s.db) {t' : S.Table} {id : S.Id}
    {version : Option (S.Row t')} (hw : σ'.writes = σ.writes.put t' id version) (hl : σ.locks ⊆ σ'.locks)
    (hkey : t' = t → version ≠ none → id ∈ names ∨ ((σ.view s.db).lookup t' id).isSome) :
    Minting t tag names σ' s where
  now := .refl h.now.inv h.now.integral hσ'
  written id' row hfind := by
    by_cases hsame : (t, id') = (t', id)
    · cases hsame
      rw [hw, Overlay.find_put_self] at hfind
      rcases hkey rfl (by simp [Option.some.inj hfind]) with hname | hsome
      · exact Or.inr ((h.names id hname).mono hl)
      · exact (h.view hsome).imp_right fun hfresh => hfresh.mono hl
    · rw [hw, Overlay.find_put_ne _ hsame] at hfind
      exact (h.written id' row hfind).imp_right fun hfresh => hfresh.mono hl
  names id' hid := (h.names id' hid).mono hl

theorem Minting.insert (h : Minting t tag names σ s) {t' : S.Table} {row : S.Row t'}
    (hrow : t' = t → S.id row ∈ names) : Minting t tag names (σ.insert s.db row).2 s := by
  have hσ' := h.now.sound.insert row
  rw [Session.insert] at hσ' ⊢
  split
  · rename_i haccepts
    rw [if_pos haccepts] at hσ'
    exact h.put hσ' rfl (σ.locks_write _ _ _ _ _) fun ht _ => Or.inl (hrow ht)
  · exact h

theorem Minting.update (h : Minting t tag names σ s) {t' : S.Table} {id : S.Id} {set : S.Row t' → S.Row t'} :
    Minting t tag names (σ.update s.db t' id set).2 s := by
  have hσ' := h.now.sound.update t' id set
  rw [Session.update] at hσ' ⊢
  split
  · exact h
  · rename_i old hold
    split
    · rename_i hadmits
      simp only [hold, if_pos hadmits] at hσ'
      exact h.put hσ' rfl (σ.locks_write _ _ _ _ _) fun _ _ => Or.inr (by rw [hold]; rfl)
    · exact h

theorem Minting.delete (h : Minting t tag names σ s) {t' : S.Table} {id : S.Id} :
    Minting t tag names (σ.delete s.db t' id) s := by
  have hσ' := h.now.sound.delete t' id
  rw [Session.delete] at hσ' ⊢
  split
  · exact h
  · rename_i old hold
    simp only [hold] at hσ'
    exact h.put hσ' rfl (σ.locks_write _ _ _ _ _) fun _ hsome => absurd rfl hsome

/-- A drawn id is one more name. -/
theorem Minting.draw (h : Minting t tag names σ s) :
    Minting t tag (s.ids.head :: names) (σ.hold [(.name s.ids.head, .forUpdate)] s.db) s.draw := by
  have hl : σ.locks ⊆ (σ.hold [(.name s.ids.head, .forUpdate)] s.db).locks := List.subset_append_right _ _
  have hkept {id : S.Id} (hfresh : Unspent t σ s id) :
      Unspent t (σ.hold [(.name s.ids.head, .forUpdate)] s.db) s.draw id :=
    ⟨hfresh.held.mono hl, hfresh.unused, fun hholds => hfresh.drawn (s.ids.leads_tail.holds hholds)⟩
  have hinv : KeysSpent t s.draw :=
    ⟨fun id hused hholds => h.now.inv.drawn id hused (s.ids.leads_tail.holds hholds), h.now.inv.gone,
      h.now.inv.later⟩
  refine ⟨.refl hinv h.now.integral (h.now.sound.hold _ _), fun id row hfind =>
    (h.written id row hfind).imp_right hkept, List.forall_mem_cons.mpr ⟨?_, fun id hid => hkept (h.names id hid)⟩⟩
  exact ⟨⟨_, List.mem_cons_self, rfl, rfl⟩, fun hused => h.now.inv.drawn _ hused s.ids.holds_head,
    (Supply.Leads.refl _).not_holds_head⟩

/-- A session in order may commit. -/
theorem Minting.allows (h : Minting t tag names σ s) :
    (Protocol.spending E T t).Allows tag σ s (s.commit tag σ) := by
  have hgone : ∀ c ∈ s.log, ∀ id, c.Removes t id → (σ.view s.db).lookup t id = none := by
    intro c hc id hremoves
    refine Option.not_isSome_iff_eq_none.mp fun hsome => ?_
    rcases h.view hsome with hthere | hfresh
    · rw [h.now.inv.gone c hc id hremoves] at hthere
      cases hthere
    · exact hfresh.unused (Or.inr ⟨c, hc, hremoves.1⟩)
  refine ⟨⟨fun id hused => ?_, fun c hc id hremoves => ?_, List.pairwise_cons.mpr ⟨hgone, h.now.inv.later⟩⟩,
    fun id hused => ?_⟩
  · rcases used_commit.mp hused with hused | hsome
    · exact h.now.inv.drawn id hused
    · exact (h.view hsome).elim (fun hthere => h.now.inv.drawn id (Or.inl hthere)) Unspent.drawn
  · rcases List.mem_cons.mp hc with rfl | hc
    · exact hremoves.2
    · exact hgone c hc id hremoves
  · rcases used_commit.mp hused with hused | hsome
    · exact Or.inl hused
    · exact (h.view hsome).imp Or.inl Unspent.held

/-- **The rule**: a program that mints the keys of a table keeps the session in order. -/
theorem wp_mints {p : Prog S E X α} (hp : p.Mints t names) (h : Minting t tag names σ s) :
    wp (Protocol.spending E T t) tag (fun _ _ _ => True) (fun _ _ _ => True) p σ s := by
  induction p generalizing names σ s with
  | pure value => trivial
  | throw error => trivial
  | read query next failed ih ihf =>
    exact fun s' hs => ⟨ih _ (hp.1 _) (h.interferes hs), ihf hp.2 (.empty hs)⟩
  | lock t' id mode next failed ih ihf =>
    exact fun s' hs => ⟨fun _ => ih hp.1 ((h.interferes hs).congr (hs.sound.hold _ _) rfl
      (List.subset_append_right _ _)), ihf hp.2 (.empty hs)⟩
  | insert row next failed ih ihf =>
    exact fun s' hs => ⟨fun _ => ih _ (hp.2.1 _) ((h.interferes hs).insert hp.1), ihf hp.2.2 (.empty hs)⟩
  | update t' id set next failed ih ihf =>
    exact fun s' hs => ⟨ih _ (hp.1 _) (h.interferes hs).update, ihf hp.2 (.empty hs)⟩
  | delete t' id next failed ih ihf =>
    exact fun s' hs => ⟨ih hp.1 (h.interferes hs).delete, ihf hp.2 (.empty hs)⟩
  | attach row next ih =>
    exact fun s' hs => ih _ (hp _) ((h.interferes hs).congr (hs.sound.attach row) (σ.writes_attach row)
      (List.Subset.refl _))
  | env act next ih =>
    intro s' hs
    have h' := h.interferes hs
    have hinv : KeysSpent t { s' with env := (act s'.env).2 } := ⟨hs.inv.drawn, hs.inv.gone, hs.inv.later⟩
    have hkept {id : S.Id} (hfresh : Unspent t σ s' id) : Unspent t σ { s' with env := (act s'.env).2 } id :=
      ⟨hfresh.held, hfresh.unused, hfresh.drawn⟩
    exact ⟨⟨hinv, fun _ hused => Or.inl hused⟩, ih _ (hp _) ⟨.refl hinv hs.integral hs.sound,
      fun id row hfind => (h'.written id row hfind).imp_right hkept, fun id hid => hkept (h'.names id hid)⟩⟩
  | fresh next ih =>
    intro s' hs
    have hdraw := (h.interferes hs).draw
    exact ⟨⟨hdraw.now.inv, fun _ hused => Or.inl hused⟩, ih _ (hp _) hdraw⟩
  | commit next failed ih ihf =>
    intro s' hs
    have hallows := (h.interferes hs).allows
    have hdb := hs.sound.integral hs.integral
    exact ⟨hallows, ih hp.1 ⟨.refl hallows.1 hdb (.of_writes_empty hdb rfl), by simp [Session.renew],
      fun _ hid => absurd hid List.not_mem_nil⟩, ihf hp.2 (.empty hs)⟩
  | rollback next ih => exact fun s' hs => ih hp (.empty hs)

end Rules

/-! ### Whole runs -/

/-- **The run**: if the ids that are drawn are new at the beginning, no key is used again after its row is
gone, in every interleaving. -/
theorem World.spent_of_reach {t : S.Table} {s : Shared S E T} {jobs : List T} {program : T → Prog S E X α}
    {w : World S E X T α} (hdb : s.db.Integral) (hids : ∀ id, s.ids.Holds id → s.db.lookup t id = none)
    (hlog : s.log = []) (hmints : ∀ job ∈ jobs, (program job).Mints t [])
    (hreach : (World.start s jobs program).Reach w) : KeysSpent t w.shared := by
  have hmeets : Meets (X := X) (α := α) (Protocol.spending (S := S) E T t) fun _ _ => True := by
    intro w i _ th prog _ _
    cases prog <;> trivial
  have hinv : KeysSpent t s := by
    refine ⟨fun id hused hholds => ?_, by simp [hlog], by simp [hlog]⟩
    rcases hused with hsome | ⟨c, hc, -⟩
    · rw [hids id hholds] at hsome
      cases hsome
    · rw [hlog] at hc
      cases hc
  have hnow (job : T) : Interferes (Protocol.spending E T t) job .empty s s :=
    .refl hinv hdb (.of_writes_empty hdb rfl)
  have hstart : (World.start s jobs program).Ok (Protocol.spending E T t) fun _ _ _ _ => True :=
    .start hinv hdb (.of_forall spending_respects jobs) fun job hjob =>
      wp_mints (hmints job hjob) (.empty (hnow job))
  exact (hreach.ok hmeets (fun _ _ => stable_true) hstart).inv

end ReadCommitted
