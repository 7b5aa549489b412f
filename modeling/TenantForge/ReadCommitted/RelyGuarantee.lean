import TenantForge.ReadCommitted.Machine
/-!
# Rely and guarantee for interleaved transactions

A `Protocol` fixes an invariant of the shared state, what each kind of process relies on between its
own statements (given the locks it holds), and what its environment actions and commits guarantee.
`wp` is the weakest precondition of a program among other processes: before each statement the shared
state may have changed as the rely and the session's locks allow (`Interferes`).

`World.Run.ok`: if the processes respect each other and each satisfies its `wp`, the invariant holds
in every world that the moves lead to. `run_of_wp`: the same `wp` describes the uninterrupted run.
-/

namespace ReadCommitted

variable {S : Schema} {E X T : Type} {α β : Type}

structure Protocol (S : Schema) (E T : Type) where
  /-- holds of every committed state -/
  inv : Shared S E T → Prop
  /-- what a process with these locks may assume of the others' steps -/
  rely : T → List (Held S) → Shared S E T → Shared S E T → Prop
  /-- what a process promises of its own commits and environment actions -/
  guar : T → Session S → Shared S E T → Shared S E T → Prop
  /-- what is known whenever the process is granted a lock by a `FOR UPDATE` clause -/
  assume : T → Session S → S.Table → S.Id → Store S → Prop
  /-- what is known whenever the process is granted the locks of an `INSERT` -/
  assumeInsert : T → Session S → (t : S.Table) → S.Row t → Shared S E T → Prop := fun _ _ _ _ _ => True
  rely_refl : ∀ tag locks s, rely tag locks s s
  rely_trans : ∀ tag locks s₁ s₂ s₃, rely tag locks s₁ s₂ → rely tag locks s₂ s₃ →
    rely tag locks s₁ s₃
  rely_mono : ∀ tag locks locks' s s', locks ⊆ locks' → rely tag locks' s s' → rely tag locks s s'

/-- What a session may find changed between two of its statements. -/
structure Interferes (P : Protocol S E T) (tag : T) (σ : Session S) (s s' : Shared S E T) :
    Prop where
  inv : P.inv s'
  rely : P.rely tag σ.locks s s'
  frozen : Frozen σ.locks s.db s'.db
  ids : s.ids.Leads s'.ids
  integral : s'.db.Integral
  sound : σ.Sound s'.db

namespace Interferes

variable {P : Protocol S E T} {tag : T} {σ σ' : Session S} {s s₁ s₂ : Shared S E T}

theorem trans (h₁ : Interferes P tag σ s s₁) (h₂ : Interferes P tag σ s₁ s₂) :
    Interferes P tag σ s s₂ :=
  ⟨h₂.inv, P.rely_trans _ _ _ _ _ h₁.rely h₂.rely, h₁.frozen.trans h₂.frozen, h₁.ids.trans h₂.ids,
    h₂.integral, h₂.sound⟩

theorem refl (hinv : P.inv s) (hdb : s.db.Integral) (hσ : σ.Sound s.db) : Interferes P tag σ s s :=
  ⟨hinv, P.rely_refl _ _ _, .refl _ _, .refl _, hdb, hσ⟩

/-- What a session with more locks finds, the session with fewer locks may. -/
theorem weaken (hl : σ.locks ⊆ σ'.locks) (h₁ : Interferes P tag σ s s₁)
    (h₂ : Interferes P tag σ' s₁ s₂) : Interferes P tag σ s s₂ where
  inv := h₂.inv
  rely := P.rely_trans _ _ _ _ _ h₁.rely (P.rely_mono _ _ _ _ _ hl h₂.rely)
  frozen := h₁.frozen.trans (h₂.frozen.mono hl)
  ids := h₁.ids.trans h₂.ids
  integral := h₂.integral
  sound := h₁.sound.of_frozen h₁.integral h₂.integral (h₂.frozen.mono hl)

end Interferes

/-! ### Weakest preconditions -/

/-- An assertion about a session and the shared state. -/
abbrev Assertion (S : Schema) (E T : Type) := Session S → Shared S E T → Prop

/-- The state an environment action or a commit makes is allowed. -/
def Protocol.Allows (P : Protocol S E T) (tag : T) (σ : Session S) (s s' : Shared S E T) : Prop :=
  P.inv s' ∧ P.guar tag σ s s'

/-- The weakest precondition: before each statement the others may interfere, and instead of answering
the database may abort the transaction. -/
def wp (P : Protocol S E T) (tag : T) (Q : α → Assertion S E T) (R : X → Assertion S E T) :
    Prog S E X α → Assertion S E T
  | .pure value, σ, s => Q value σ s
  | .throw error, σ, s => R error σ s
  | .read query next failed, σ, s => ∀ s', Interferes P tag σ s s' →
      wp P tag Q R (next (query (σ.view s'.db))) σ s' ∧ wp P tag Q R failed .empty s'
  | .lock t id mode next failed, σ, s => ∀ s', Interferes P tag σ s s' →
      (P.assume tag σ t id s'.db → wp P tag Q R next (σ.hold [(.row t id, mode)] s'.db) s') ∧
        wp P tag Q R failed .empty s'
  | .insert row next failed, σ, s => ∀ s', Interferes P tag σ s s' →
      (P.assumeInsert tag σ _ row s' →
        wp P tag Q R (next (σ.insert s'.db row).1) (σ.insert s'.db row).2 s') ∧
      wp P tag Q R failed .empty s'
  | .update t id set next failed, σ, s => ∀ s', Interferes P tag σ s s' →
      wp P tag Q R (next (σ.update s'.db t id set).1) (σ.update s'.db t id set).2 s' ∧
        wp P tag Q R failed .empty s'
  | .delete t id next failed, σ, s => ∀ s', Interferes P tag σ s s' →
      wp P tag Q R next (σ.delete s'.db t id) s' ∧ wp P tag Q R failed .empty s'
  | .attach row next, σ, s => ∀ s', Interferes P tag σ s s' →
      wp P tag Q R (next (σ.copyOf row)) (σ.attach row) s'
  | .env act next, σ, s => ∀ s', Interferes P tag σ s s' →
      P.Allows tag σ s' { s' with env := (act s'.env).2 } ∧
        wp P tag Q R (next (act s'.env).1) σ { s' with env := (act s'.env).2 }
  | .fresh next, σ, s => ∀ s', Interferes P tag σ s s' → P.Allows tag σ s' s'.draw ∧
      wp P tag Q R (next s'.ids.head) (σ.hold [(.name s'.ids.head, .forUpdate)] s'.db) s'.draw
  | .commit next failed, σ, s => ∀ s', Interferes P tag σ s s' →
      P.Allows tag σ s' (s'.commit tag σ) ∧ wp P tag Q R next σ.renew (s'.commit tag σ) ∧
        wp P tag Q R failed .empty s'
  | .rollback next, σ, s => ∀ s', Interferes P tag σ s s' → wp P tag Q R next .empty s'

variable {P : Protocol S E T} {tag : T} {Q : α → Assertion S E T} {R : X → Assertion S E T}

theorem wp_bind (p : Prog S E X α) (f : α → Prog S E X β) {Q : β → Assertion S E T} :
    wp P tag Q R (p.bind f) = wp P tag (fun value => wp P tag Q R (f value)) R p := by
  induction p <;> funext σ s <;> simp only [Prog.bind, wp, *]

theorem wp_handle (p : Prog S E X α) (h : X → Prog S E X α) :
    wp P tag Q R (p.handle h) = wp P tag Q (fun error => wp P tag Q R (h error)) p := by
  induction p <;> funext σ s <;> simp only [Prog.handle, wp, *]

theorem wp_mono {Q' : α → Assertion S E T} {R' : X → Assertion S E T}
    (hQ : ∀ value σ s, Q value σ s → Q' value σ s) (hR : ∀ error σ s, R error σ s → R' error σ s)
    (p : Prog S E X α) (σ : Session S) (s : Shared S E T) (h : wp P tag Q R p σ s) :
    wp P tag Q' R' p σ s := by
  induction p generalizing σ s with
  | pure value => exact hQ value σ s h
  | throw error => exact hR error σ s h
  | read query next failed ih ihf =>
    exact fun s' hs => ⟨ih _ _ _ (h s' hs).1, ihf _ _ (h s' hs).2⟩
  | lock t id mode next failed ih ihf =>
    exact fun s' hs => ⟨fun ha => ih _ _ ((h s' hs).1 ha), ihf _ _ (h s' hs).2⟩
  | insert row next failed ih ihf =>
    exact fun s' hs => ⟨fun ha => ih _ _ _ ((h s' hs).1 ha), ihf _ _ (h s' hs).2⟩
  | update t id set next failed ih ihf =>
    exact fun s' hs => ⟨ih _ _ _ (h s' hs).1, ihf _ _ (h s' hs).2⟩
  | delete t id next failed ih ihf =>
    exact fun s' hs => ⟨ih _ _ (h s' hs).1, ihf _ _ (h s' hs).2⟩
  | attach row next ih => exact fun s' hs => ih _ _ _ (h s' hs)
  | env act next ih => exact fun s' hs => ⟨(h s' hs).1, ih _ _ _ (h s' hs).2⟩
  | fresh next ih => exact fun s' hs => ⟨(h s' hs).1, ih _ _ _ (h s' hs).2⟩
  | commit next failed ih ihf =>
    exact fun s' hs => ⟨(h s' hs).1, ih _ _ (h s' hs).2.1, ihf _ _ (h s' hs).2.2⟩
  | rollback next ih => exact fun s' hs => ih _ _ (h s' hs)

/-- Going on from a postcondition. -/
theorem wp.then {Q' : α → Assertion S E T} {p : Prog S E X α} {σ : Session S} {s : Shared S E T}
    (h : wp P tag Q R p σ s) (hQ : ∀ value σ s, Q value σ s → Q' value σ s) :
    wp P tag Q' R p σ s :=
  wp_mono hQ (fun _ _ _ h => h) p σ s h

/-- An assertion that others cannot falsify. -/
def Stable (P : Protocol S E T) (tag : T) (A : Assertion S E T) : Prop :=
  ∀ σ s s', Interferes P tag σ s s' → A σ s → A σ s'

theorem stable_true : Stable P tag (fun _ _ => True) := fun _ _ _ _ _ => trivial

/-- A weakest precondition survives what others do. -/
theorem wp_stable (hQ : ∀ value, Stable P tag (Q value)) (hR : ∀ error, Stable P tag (R error))
    (p : Prog S E X α) : Stable P tag (wp P tag Q R p) := by
  intro σ s s' hs h
  cases p with
  | pure value => exact hQ value σ s s' hs h
  | throw error => exact hR error σ s s' hs h
  | read | lock | insert | update | delete | attach | env | fresh | commit | rollback =>
    exact fun s'' hs' => h s'' (hs.trans hs')

/-- A fact about the shared state that neither the others nor the process's own steps end. -/
theorem wp_keep {A : Shared S E T → Prop} (hrely : ∀ locks s s', P.rely tag locks s s' → A s → A s')
    (hguar : ∀ σ s s', P.guar tag σ s s' → A s → A s') {p : Prog S E X α} {σ : Session S}
    {s : Shared S E T} (hA : A s) (h : wp P tag Q R p σ s) :
    wp P tag (fun value σ s => Q value σ s ∧ A s) (fun error σ s => R error σ s ∧ A s) p σ s := by
  have hkeep : ∀ {σ : Session S} {s s' : Shared S E T}, A s → Interferes P tag σ s s' → A s' :=
    fun hA hs => hrely _ _ _ hs.rely hA
  induction p generalizing σ s with
  | pure value => exact ⟨h, hA⟩
  | throw error => exact ⟨h, hA⟩
  | read query next failed ih ihf =>
    exact fun s' hs => ⟨ih _ (hkeep hA hs) (h s' hs).1, ihf (hkeep hA hs) (h s' hs).2⟩
  | lock t id mode next failed ih ihf =>
    exact fun s' hs => ⟨fun ha => ih (hkeep hA hs) ((h s' hs).1 ha), ihf (hkeep hA hs) (h s' hs).2⟩
  | insert row next failed ih ihf =>
    exact fun s' hs => ⟨fun ha => ih _ (hkeep hA hs) ((h s' hs).1 ha), ihf (hkeep hA hs) (h s' hs).2⟩
  | update t id set next failed ih ihf =>
    exact fun s' hs => ⟨ih _ (hkeep hA hs) (h s' hs).1, ihf (hkeep hA hs) (h s' hs).2⟩
  | delete t id next failed ih ihf =>
    exact fun s' hs => ⟨ih (hkeep hA hs) (h s' hs).1, ihf (hkeep hA hs) (h s' hs).2⟩
  | attach row next ih => exact fun s' hs => ih _ (hkeep hA hs) (h s' hs)
  | env act next ih =>
    exact fun s' hs => ⟨(h s' hs).1, ih _ (hguar _ _ _ (h s' hs).1.2 (hkeep hA hs)) (h s' hs).2⟩
  | fresh next ih =>
    exact fun s' hs => ⟨(h s' hs).1, ih _ (hguar _ _ _ (h s' hs).1.2 (hkeep hA hs)) (h s' hs).2⟩
  | commit next failed ih ihf =>
    exact fun s' hs => ⟨(h s' hs).1, ih (hguar _ _ _ (h s' hs).1.2 (hkeep hA hs)) (h s' hs).2.1,
      ihf (hkeep hA hs) (h s' hs).2.2⟩
  | rollback next ih => exact fun s' hs => ih (hkeep hA hs) (h s' hs)

/-- The same protocol with a fact that one process knows for a while. -/
def Protocol.restrict (P : Protocol S E T) (A : Shared S E T → Prop) : Protocol S E T :=
  { P with inv := fun s => P.inv s ∧ A s }

/-- A program that keeps a fact may use it, as long as the others keep it too. -/
theorem wp_restrict {A : Shared S E T → Prop} (hrely : ∀ locks s s', P.rely tag locks s s' → A s → A s')
    {p : Prog S E X α} {σ : Session S} {s : Shared S E T} (hA : A s)
    (h : wp (P.restrict A) tag Q R p σ s) :
    wp P tag (fun value σ s => Q value σ s ∧ A s) (fun error σ s => R error σ s ∧ A s) p σ s := by
  have hkeep : ∀ {σ : Session S} {s s' : Shared S E T}, A s → Interferes P tag σ s s' →
      A s' ∧ Interferes (P.restrict A) tag σ s s' := fun hA hs =>
    ⟨hrely _ _ _ hs.rely hA, ⟨hs.inv, hrely _ _ _ hs.rely hA⟩, hs.rely, hs.frozen, hs.ids, hs.integral,
      hs.sound⟩
  induction p generalizing σ s with
  | pure value => exact ⟨h, hA⟩
  | throw error => exact ⟨h, hA⟩
  | read query next failed ih ihf =>
    intro s' hs
    obtain ⟨hA', hs'⟩ := hkeep hA hs
    exact ⟨ih _ hA' (h s' hs').1, ihf hA' (h s' hs').2⟩
  | lock t id mode next failed ih ihf =>
    intro s' hs
    obtain ⟨hA', hs'⟩ := hkeep hA hs
    exact ⟨fun ha => ih hA' ((h s' hs').1 ha), ihf hA' (h s' hs').2⟩
  | insert row next failed ih ihf =>
    intro s' hs
    obtain ⟨hA', hs'⟩ := hkeep hA hs
    exact ⟨fun ha => ih _ hA' ((h s' hs').1 ha), ihf hA' (h s' hs').2⟩
  | update t id set next failed ih ihf =>
    intro s' hs
    obtain ⟨hA', hs'⟩ := hkeep hA hs
    exact ⟨ih _ hA' (h s' hs').1, ihf hA' (h s' hs').2⟩
  | delete t id next failed ih ihf =>
    intro s' hs
    obtain ⟨hA', hs'⟩ := hkeep hA hs
    exact ⟨ih hA' (h s' hs').1, ihf hA' (h s' hs').2⟩
  | attach row next ih =>
    intro s' hs
    obtain ⟨hA', hs'⟩ := hkeep hA hs
    exact ih _ hA' (h s' hs')
  | env act next ih =>
    intro s' hs
    obtain ⟨⟨⟨hinv, hA'⟩, hguar⟩, hwp⟩ := h s' (hkeep hA hs).2
    exact ⟨⟨hinv, hguar⟩, ih _ hA' hwp⟩
  | fresh next ih =>
    intro s' hs
    obtain ⟨⟨⟨hinv, hA'⟩, hguar⟩, hwp⟩ := h s' (hkeep hA hs).2
    exact ⟨⟨hinv, hguar⟩, ih _ hA' hwp⟩
  | commit next failed ih ihf =>
    intro s' hs
    obtain ⟨hnow, hs'⟩ := hkeep hA hs
    obtain ⟨⟨⟨hinv, hA'⟩, hguar⟩, hwp, hwp'⟩ := h s' hs'
    exact ⟨⟨hinv, hguar⟩, ih hA' hwp, ihf hnow hwp'⟩
  | rollback next ih =>
    intro s' hs
    obtain ⟨hA', hs'⟩ := hkeep hA hs
    exact ih hA' (h s' hs')

/-! ### One statement of one process -/

/-- The assumption on lock grants, for the statement that a program is at. -/
def Prog.Assumes (P : Protocol S E T) (tag : T) (σ : Session S) (s : Shared S E T) :
    Prog S E X α → Prop
  | .lock t id _ _ _ => P.assume tag σ t id s.db
  | .insert row _ _ => P.assumeInsert tag σ _ row s
  | _ => True

/-- What the others may see of one statement of a process. -/
structure Protocol.Visible (P : Protocol S E T) (tag : T) (σ : Session S) (s s' : Shared S E T) :
    Prop where
  inv : P.inv s'
  integral : s'.db.Integral
  guar : s' = s ∨ P.guar tag σ s s'
  ids : s.ids.Leads s'.ids
  frozen : ∀ locks, Compatible σ.locks locks → Frozen locks s.db s'.db

theorem Protocol.Visible.refl {σ : Session S} {s : Shared S E T} (hinv : P.inv s)
    (hdb : s.db.Integral) : P.Visible tag σ s s :=
  ⟨hinv, hdb, Or.inl rfl, .refl _, fun locks _ => Frozen.refl locks s.db⟩

/-- **The step lemma**: a statement keeps the weakest precondition and the soundness of the session,
and shows the others nothing but a guaranteed change of what they have not locked. -/
theorem wp_advance {p : Prog S E X α} {σ : Session S} {s : Shared S E T}
    {next : Prog.Local S E X T α} (hnext : p.advance tag σ s = some next) (hinv : P.inv s)
    (hdb : s.db.Integral) (hσ : σ.Sound s.db) (ha : p.Assumes P tag σ s)
    (h : wp P tag Q R p σ s) :
    wp P tag Q R next.prog next.session next.shared ∧ next.session.Sound next.shared.db ∧
      P.Visible tag σ s next.shared := by
  have hself : Interferes P tag σ s s := .refl hinv hdb hσ
  have hquiet : P.Visible tag σ s s := .refl hinv hdb
  cases p with
  | pure value => cases hnext
  | throw error => cases hnext
  | read query next failed => cases hnext; exact ⟨(h s hself).1, hσ, hquiet⟩
  | lock t id mode next failed => cases hnext; exact ⟨(h s hself).1 ha, hσ.hold _ _, hquiet⟩
  | insert row next failed => cases hnext; exact ⟨(h s hself).1 ha, hσ.insert row, hquiet⟩
  | update t id set next failed => cases hnext; exact ⟨(h s hself).1, hσ.update t id set, hquiet⟩
  | delete t id next failed => cases hnext; exact ⟨(h s hself).1, hσ.delete t id, hquiet⟩
  | attach row next => cases hnext; exact ⟨h s hself, hσ.attach row, hquiet⟩
  | rollback next => cases hnext; exact ⟨h s hself, .of_writes_empty hdb rfl, hquiet⟩
  | env act next =>
    cases hnext
    obtain ⟨⟨hinv', hguar⟩, hwp⟩ := h s hself
    exact ⟨hwp, hσ, hinv', hdb, Or.inr hguar, .refl _, fun locks _ => Frozen.refl locks s.db⟩
  | fresh next =>
    cases hnext
    obtain ⟨⟨hinv', hguar⟩, hwp⟩ := h s hself
    exact ⟨hwp, hσ.hold _ _, hinv', hdb, Or.inr hguar, s.ids.leads_tail,
      fun locks _ => Frozen.refl locks s.db⟩
  | commit next failed =>
    cases hnext
    obtain ⟨⟨hinv', hguar⟩, hwp, _⟩ := h s hself
    have hdb' := hσ.integral hdb
    exact ⟨hwp, .of_writes_empty hdb' rfl, hinv', hdb', Or.inr hguar, .refl _,
      fun locks hcompat => hσ.commit_frozen hdb hcompat⟩

/-- An abort leaves the process with the weakest precondition of its way out. -/
theorem wp_onAbort {p failed : Prog S E X α} {σ : Session S} {s : Shared S E T}
    (hfailed : p.onAbort = some failed) (hinv : P.inv s) (hdb : s.db.Integral) (hσ : σ.Sound s.db)
    (h : wp P tag Q R p σ s) : wp P tag Q R failed .empty s := by
  have hself : Interferes P tag σ s s := .refl hinv hdb hσ
  cases p with
  | read | lock | insert | update | delete => cases hfailed; exact (h s hself).2
  | commit => cases hfailed; exact (h s hself).2.2
  | pure | throw | attach | env | fresh | rollback => cases hfailed

/-- The locks of a process after a statement are the ones it had, the ones it waited for, and the name
that it drew. -/
theorem advance_locks {p : Prog S E X α} {σ : Session S} {s : Shared S E T}
    {next : Prog.Local S E X T α} (hnext : p.advance tag σ s = some next) :
    ∀ held ∈ next.session.locks, held ∈ σ.locks ∨ (held.key, held.mode) ∈ p.needs σ s.db ∨
      (held.key = .name s.ids.head ∧ next.shared = s.draw) := by
  have hhold : ∀ (needs : Needs S) (held : Held S), held ∈ (σ.hold needs s.db).locks →
      held ∈ σ.locks ∨ (held.key, held.mode) ∈ needs := by
    intro needs held hmem
    rcases List.mem_append.mp hmem with hmem | hmem
    · obtain ⟨need, hneed, rfl⟩ := List.mem_map.mp hmem
      exact Or.inr hneed
    · exact Or.inl hmem
  have hgranted : ∀ (needs : Needs S) (held : Held S), held ∈ (σ.hold needs s.db).locks →
      held ∈ σ.locks ∨ (held.key, held.mode) ∈ needs ∨
        (held.key = .name s.ids.head ∧ next.shared = s.draw) :=
    fun needs held hmem => (hhold needs held hmem).imp_right Or.inl
  intro held hmem
  cases p with
  | pure value => cases hnext
  | throw error => cases hnext
  | read query next failed => cases hnext; exact Or.inl hmem
  | lock t id mode next failed => cases hnext; exact hgranted _ held hmem
  | insert row next failed =>
    cases hnext
    simp only [Session.insert] at hmem
    split at hmem
    · exact hgranted _ held hmem
    · exact Or.inl hmem
  | update t id set next failed =>
    cases hnext
    simp only [Session.update, Prog.needs] at hmem ⊢
    cases hold : (σ.view s.db).lookup t id with
    | none => simp only [hold] at hmem; exact Or.inl hmem
    | some old =>
      simp only [hold] at hmem ⊢
      split at hmem
      · exact hgranted _ held hmem
      · exact Or.inl hmem
  | delete t id next failed =>
    cases hnext
    simp only [Session.delete, Prog.needs] at hmem ⊢
    cases hold : (σ.view s.db).lookup t id with
    | none => simp only [hold] at hmem; exact Or.inl hmem
    | some old => simp only [hold] at hmem ⊢; exact hgranted _ held hmem
  | attach row next => cases hnext; exact Or.inl hmem
  | env act next => cases hnext; exact Or.inl hmem
  | fresh next =>
    cases hnext
    rcases hhold _ held hmem with hmem | hmem
    · exact Or.inl hmem
    · exact Or.inr (Or.inr ⟨congrArg Prod.fst (List.mem_singleton.mp hmem), rfl⟩)
  | commit next failed => cases hnext; cases hmem
  | rollback next => cases hnext; cases hmem

/-! ### Whole runs -/

/-- What one process guarantees, another one with compatible locks may rely on. -/
def Respects (P : Protocol S E T) (tag tag' : T) : Prop :=
  ∀ σ locks s s', Compatible σ.locks locks → P.guar tag σ s s' → P.rely tag' locks s s'

/-- Any two of the processes respect each other. -/
def Peaceful (P : Protocol S E T) (tags : List T) : Prop :=
  tags.Pairwise fun a b => Respects P a b ∧ Respects P b a

theorem Peaceful.of_forall (h : ∀ a b, Respects P a b) (tags : List T) : Peaceful P tags :=
  List.pairwise_of_forall fun a b => ⟨h a b, h b a⟩

/-- The moves keep the assumption of the protocol on lock grants. -/
def Meets (P : Protocol S E T) (ok : World S E X T α → Move → Prop) : Prop :=
  ∀ w i, ok w (.run i) → ∀ th prog, w.threads[i]? = some th → th.prog = some prog →
    prog.Assumes P th.tag th.session w.shared

/-- The state of affairs between two moves. `Post` describes finished processes. -/
structure World.Ok (P : Protocol S E T) (Post : T → α → Assertion S E T) (w : World S E X T α) :
    Prop where
  inv : P.inv w.shared
  integral : w.shared.db.Integral
  peaceful : Peaceful P (w.threads.map Thread.tag)
  compatible : ∀ (i j : Nat) a b, i ≠ j → w.threads[i]? = some a → w.threads[j]? = some b →
    Compatible a.session.locks b.session.locks
  named : ∀ th ∈ w.threads, ∀ held ∈ th.session.locks, ∀ id, held.key = .name id →
    ∃ n < w.shared.ids.drawn, w.shared.ids.value n = id
  sound : ∀ th ∈ w.threads, th.session.Sound w.shared.db
  safe : ∀ th ∈ w.threads, ∀ p, th.prog = some p →
    wp P th.tag (Post th.tag) (fun _ _ _ => True) p th.session w.shared
  restarts : ∀ th ∈ w.threads, ∀ p ∈ th.restarts, ∀ s, P.inv s → s.db.Integral →
    wp P th.tag (Post th.tag) (fun _ _ _ => True) p .empty s

theorem Peaceful.respects {tags : List T} (h : Peaceful P tags) {i j : Nat} {a b : T} (hij : i ≠ j)
    (ha : tags[i]? = some a) (hb : tags[j]? = some b) : Respects P a b := by
  obtain ⟨hi, rfl⟩ := List.getElem?_eq_some_iff.mp ha
  obtain ⟨hj, rfl⟩ := List.getElem?_eq_some_iff.mp hb
  rcases Nat.lt_or_gt_of_ne hij with hlt | hlt
  · exact (List.pairwise_iff_getElem.mp h i j hi hj hlt).1
  · exact (List.pairwise_iff_getElem.mp h j i hj hi hlt).2

section Replace

variable {threads : List (Thread S E X T α)} {i : Nat} {th th' : Thread S E X T α}

theorem mem_set_cases (hth : threads[i]? = some th) {other : Thread S E X T α}
    (hother : other ∈ threads.set i th') :
    other = th' ∨ ∃ j, j ≠ i ∧ threads[j]? = some other := by
  obtain ⟨j, hj⟩ := List.mem_iff_getElem?.mp hother
  by_cases hij : j = i
  · subst hij
    obtain ⟨hlt, _⟩ := List.getElem?_eq_some_iff.mp hth
    rw [List.getElem?_set_self hlt] at hj
    exact Or.inl (Option.some.inj hj).symm
  · rw [List.getElem?_set_ne (Ne.symm hij)] at hj
    exact Or.inr ⟨j, hij, hj⟩

theorem compatible_set
    (h : ∀ (i j : Nat) a b, i ≠ j → threads[i]? = some a → threads[j]? = some b →
      Compatible a.session.locks b.session.locks) (hth : threads[i]? = some th)
    (hnew : ∀ j b, j ≠ i → threads[j]? = some b → Compatible th'.session.locks b.session.locks)
    (j k : Nat) (a b : Thread S E X T α) (hjk : j ≠ k) (ha : (threads.set i th')[j]? = some a)
    (hb : (threads.set i th')[k]? = some b) : Compatible a.session.locks b.session.locks := by
  obtain ⟨hlt, _⟩ := List.getElem?_eq_some_iff.mp hth
  by_cases hji : j = i
  · subst hji
    rw [List.getElem?_set_self hlt] at ha
    rw [List.getElem?_set_ne hjk] at hb
    cases ha
    exact hnew k b (Ne.symm hjk) hb
  · rw [List.getElem?_set_ne (Ne.symm hji)] at ha
    by_cases hki : k = i
    · subst hki
      rw [List.getElem?_set_self hlt] at hb
      cases hb
      exact (hnew j a hji ha).symm
    · rw [List.getElem?_set_ne (Ne.symm hki)] at hb
      exact h j k a b hjk ha hb

end Replace

variable {Post : T → α → Assertion S E T}

/-- A process that lost its transaction and goes on with a correct program. -/
theorem World.Ok.reset {w : World S E X T α} {i : Nat} {th th' : Thread S E X T α}
    (h : w.Ok P Post) (hth : w.threads[i]? = some th) (htag : th'.tag = th.tag)
    (hsession : th'.session = .empty) (hrestarts : th'.restarts ⊆ th.restarts)
    (hpeaceful : Peaceful P ((w.threads.set i th').map Thread.tag))
    (hwp : ∀ p, th'.prog = some p →
      wp P th.tag (Post th.tag) (fun _ _ _ => True) p .empty w.shared) :
    World.Ok P Post { w with threads := w.threads.set i th' } := by
  have hmem := List.mem_of_getElem? hth
  refine ⟨h.inv, h.integral, hpeaceful, compatible_set h.compatible hth ?_,
    fun other hother => ?_, fun other hother => ?_, fun other hother p hp => ?_,
    fun other hother p hp => ?_⟩
  · intro j b _ _ held hheld
    rw [hsession] at hheld
    cases hheld
  · rcases mem_set_cases hth hother with rfl | ⟨j, _, hj⟩
    · intro held hheld
      rw [hsession] at hheld
      cases hheld
    · exact h.named other (List.mem_of_getElem? hj)
  · rcases mem_set_cases hth hother with rfl | ⟨j, _, hj⟩
    · exact .of_writes_empty h.integral (by rw [hsession]; rfl)
    · exact h.sound other (List.mem_of_getElem? hj)
  · rcases mem_set_cases hth hother with rfl | ⟨j, _, hj⟩
    · rw [hsession, htag]
      exact hwp p hp
    · exact h.safe other (List.mem_of_getElem? hj) p hp
  · rcases mem_set_cases hth hother with rfl | ⟨j, _, hj⟩
    · rw [htag]
      exact h.restarts th hmem p (hrestarts hp)
    · exact h.restarts other (List.mem_of_getElem? hj) p hp

theorem World.Ok.step {w w' : World S E X T α} {m : Move}
    {ok : World S E X T α → Move → Prop} (hmeets : Meets P ok)
    (hPost : ∀ tag value, Stable P tag (Post tag value)) (h : w.Ok P Post) (hok : ok w m)
    (hstep : w.step m = some w') : w'.Ok P Post := by
  have hpeaceful : Peaceful P (w'.threads.map Thread.tag) := by
    rw [World.step_tags hstep]
    exact h.peaceful
  cases m with
  | run i =>
    obtain ⟨th, prog, next, hth, hprog, hnext, hgranted, rfl⟩ := World.step_run hstep
    have hmem := List.mem_of_getElem? hth
    have hassumes := hmeets w i hok th prog hth hprog
    obtain ⟨hwp, hsound, hvisible⟩ := wp_advance hnext h.inv h.integral (h.sound th hmem) hassumes
      (h.safe th hmem prog hprog)
    -- what the other processes find
    have hothers : ∀ (j : Nat) (b : Thread S E X T α), j ≠ i → w.threads[j]? = some b →
        Interferes P b.tag b.session w.shared next.shared := by
      intro j b hji hb
      have hcompat := h.compatible i j th b (Ne.symm hji) hth hb
      have hfrozen := hvisible.frozen b.session.locks hcompat
      refine ⟨hvisible.inv, ?_, hfrozen, hvisible.ids, hvisible.integral,
        (h.sound b (List.mem_of_getElem? hb)).of_frozen h.integral hvisible.integral hfrozen⟩
      rcases hvisible.guar with hsame | hguar
      · rw [hsame]
        exact P.rely_refl _ _ _
      · exact h.peaceful.respects (Ne.symm hji) (by simp [hth]) (by simp [hb]) _ _ _ _ hcompat hguar
    have hnamed : ∀ held ∈ next.session.locks, ∀ id, held.key = .name id →
        ∃ n < next.shared.ids.drawn, next.shared.ids.value n = id := by
      intro held hheld id hkey
      rcases advance_locks hnext held hheld with hold | hneed | ⟨hname, hshared⟩
      · obtain ⟨n, hn, hid⟩ := h.named th hmem held hold id hkey
        exact ⟨n, Nat.lt_of_lt_of_le hn hvisible.ids.drawn, by rw [hvisible.ids.value, hid]⟩
      · exact absurd (hkey ▸ hneed) (prog.name_not_needed _ _ _ _)
      · rw [hname] at hkey
        cases hkey
        exact ⟨w.shared.ids.drawn, by rw [hshared]; exact Nat.lt_succ_self _, by rw [hshared]; rfl⟩
    refine ⟨hvisible.inv, hvisible.integral, hpeaceful, compatible_set h.compatible hth ?_,
      fun other hother => ?_, fun other hother => ?_, fun other hother p hp => ?_,
      fun other hother => ?_⟩
    · intro j b hji hb held hheld held' hheld' hkey
      rcases advance_locks hnext held hheld with hold | hneed | ⟨hname, _⟩
      · exact h.compatible i j th b (Ne.symm hji) hth hb held hold held' hheld' hkey
      · rw [Mode.conflicts_comm]
        exact hgranted b (List.mem_eraseIdx_iff_getElem?.mpr ⟨j, hji, hb⟩) _ hneed held' hheld'
          hkey.symm
      · -- the other process drew its names before
        obtain ⟨n, hn, hid⟩ := h.named b (List.mem_of_getElem? hb) held' hheld' _
          (hkey.symm.trans hname)
        have := w.shared.ids.distinct hid
        omega
    · rcases mem_set_cases hth hother with rfl | ⟨j, _, hj⟩
      · exact hnamed
      · intro held hheld id hkey
        obtain ⟨n, hn, hid⟩ := h.named other (List.mem_of_getElem? hj) held hheld id hkey
        exact ⟨n, Nat.lt_of_lt_of_le hn hvisible.ids.drawn, by rw [hvisible.ids.value, hid]⟩
    · rcases mem_set_cases hth hother with rfl | ⟨j, hji, hj⟩
      · exact hsound
      · exact (hothers j other hji hj).sound
    · rcases mem_set_cases hth hother with rfl | ⟨j, hji, hj⟩
      · cases hp
        exact hwp
      · exact wp_stable (hPost other.tag) (fun _ => stable_true) p _ _ _ (hothers j other hji hj)
          (h.safe other (List.mem_of_getElem? hj) p hp)
    · rcases mem_set_cases hth hother with rfl | ⟨j, _, hj⟩
      · exact h.restarts th hmem
      · exact h.restarts other (List.mem_of_getElem? hj)
  | abort i =>
    obtain ⟨th, prog, failed, hth, hprog, hfailed, rfl⟩ := World.step_abort hstep
    have hmem := List.mem_of_getElem? hth
    refine h.reset hth rfl rfl (List.Subset.refl _) hpeaceful fun p hp => ?_
    cases hp
    exact wp_onAbort hfailed h.inv h.integral (h.sound th hmem) (h.safe th hmem prog hprog)
  | crash i =>
    obtain ⟨th, _, _, hth, _, _, rfl⟩ := World.step_crash hstep
    have hmem := List.mem_of_getElem? hth
    exact h.reset hth rfl rfl (fun _ => List.mem_of_mem_tail) hpeaceful fun p hp =>
      h.restarts th hmem p (List.mem_of_mem_head? hp) w.shared h.inv h.integral

/-- **Soundness**: whatever the schedule, the state of affairs is kept. -/
theorem World.Run.ok {w w' : World S E X T α} {ok : World S E X T α → Move → Prop}
    (hmeets : Meets P ok) (hPost : ∀ tag value, Stable P tag (Post tag value)) (h : w.Ok P Post)
    (hrun : World.Run ok w w') : w'.Ok P Post := by
  induction hrun with
  | refl => exact h
  | step m _ hok hstep ih => exact ih.step hmeets hPost hok hstep

/-- Processes that have not begun are in order if they are correct from a new session whenever they begin,
after a crash as well. -/
theorem World.Ok.launch {w : World S E X T α} (hinv : P.inv w.shared) (hdb : w.shared.db.Integral)
    (hpeaceful : Peaceful P (w.threads.map Thread.tag))
    (hsession : ∀ th ∈ w.threads, th.session = .empty)
    (hwp : ∀ th ∈ w.threads, ∀ p, th.prog = some p ∨ p ∈ th.restarts → ∀ s, P.inv s → s.db.Integral →
      wp P th.tag (Post th.tag) (fun _ _ _ => True) p .empty s) : w.Ok P Post where
  inv := hinv
  integral := hdb
  peaceful := hpeaceful
  compatible i j a b _ ha _ held hheld := by
    rw [hsession a (List.mem_of_getElem? ha)] at hheld
    cases hheld
  named th hth held hheld := by
    rw [hsession th hth] at hheld
    cases hheld
  sound th hth := .of_writes_empty hdb (by rw [hsession th hth]; rfl)
  safe th hth p hp := by
    rw [hsession th hth]
    exact hwp th hth p (Or.inl hp) w.shared hinv hdb
  restarts th hth p hp := hwp th hth p (Or.inr hp)

/-- Processes that have not begun are in order if each program is correct from a new session. -/
theorem World.Ok.start {s : Shared S E T} {jobs : List T} {program : T → Prog S E X α}
    (hinv : P.inv s) (hdb : s.db.Integral) (hpeaceful : Peaceful P jobs)
    (hwp : ∀ job ∈ jobs, wp P job (Post job) (fun _ _ _ => True) (program job) .empty s) :
    (World.start s jobs program).Ok P Post where
  inv := hinv
  integral := hdb
  peaceful := by simpa [World.start, Function.comp_def] using hpeaceful
  compatible i j a b _ ha _ := by
    obtain ⟨job, _, rfl⟩ := List.mem_map.mp (List.mem_of_getElem? ha)
    intro held hheld
    cases hheld
  named th hth := by
    obtain ⟨job, _, rfl⟩ := List.mem_map.mp hth
    intro held hheld
    cases hheld
  sound th hth := by
    obtain ⟨job, _, rfl⟩ := List.mem_map.mp hth
    exact .of_writes_empty hdb rfl
  safe th hth p hp := by
    obtain ⟨job, hjob, rfl⟩ := List.mem_map.mp hth
    cases hp
    exact hwp job hjob
  restarts th hth p hp := by
    obtain ⟨job, _, rfl⟩ := List.mem_map.mp hth
    cases hp

/-! ### Locks alone -/

/-- The protocol of processes that rely on nothing but their locks. -/
def Protocol.free (T : Type) (inv : Shared S E T → Prop) : Protocol S E T where
  inv := inv
  rely _ _ _ _ := True
  guar _ _ _ _ := True
  assume _ _ _ _ _ := True
  rely_refl _ _ _ := trivial
  rely_trans _ _ _ _ _ _ _ := trivial
  rely_mono _ _ _ _ _ _ _ := trivial

/-- An invariant that every process keeps on its own holds in every interleaving. -/
theorem World.free_of_reach (inv : Shared S E T → Prop) {s : Shared S E T} {jobs : List T}
    {program : T → Prog S E X α} {w : World S E X T α} (hinv : inv s) (hdb : s.db.Integral)
    (hwp : ∀ job ∈ jobs, wp (Protocol.free T inv) job (fun _ _ _ => True) (fun _ _ _ => True)
      (program job) .empty s)
    (hreach : (World.start s jobs program).Reach w) : inv w.shared ∧ w.shared.db.Integral := by
  have hmeets : Meets (X := X) (α := α) (Protocol.free (S := S) (E := E) T inv) fun _ _ => True := by
    intro w i _ th prog _ _
    cases prog <;> trivial
  have hstart : (World.start s jobs program).Ok (Protocol.free T inv) fun _ _ _ _ => True :=
    .start hinv hdb (.of_forall (fun _ _ _ _ _ _ _ _ => trivial) jobs) hwp
  have hok := hreach.ok hmeets (fun _ _ => stable_true) hstart
  exact ⟨hok.inv, hok.integral⟩

/-! ### Uninterrupted runs -/

/-- The protocol of a process that is alone: nothing changes between its statements, and it keeps
an invariant. -/
def Protocol.alone (T : Type) (inv : Shared S E T → Prop) : Protocol S E T where
  inv := inv
  rely _ _ s s' := s' = s
  guar _ _ _ _ := True
  assume _ _ _ _ _ := True
  rely_refl _ _ _ := rfl
  rely_trans _ _ _ _ _ h₁ h₂ := h₂.trans h₁
  rely_mono _ _ _ _ _ _ h := h

/-- What a weakest precondition says of an uninterrupted run: its postcondition, and the invariant. -/
theorem run_of_wp (hassume : ∀ σ t id db, P.assume tag σ t id db)
    (hassumeInsert : ∀ σ t row s, P.assumeInsert tag σ t row s) (p : Prog S E X α) (σ : Session S)
    (s : Shared S E T) (hinv : P.inv s) (hdb : s.db.Integral) (hσ : σ.Sound s.db)
    (h : wp P tag Q R p σ s) :
    (match p.run tag σ s with
      | (.ok value, σ', s') => Q value σ' s'
      | (.error error, σ', s') => R error σ' s') ∧
    P.inv (p.run tag σ s).2.2 ∧ (p.run tag σ s).2.2.db.Integral := by
  have hself : ∀ {σ : Session S} {s : Shared S E T}, P.inv s → s.db.Integral → σ.Sound s.db →
      Interferes P tag σ s s :=
    fun hinv hdb hσ => .refl hinv hdb hσ
  induction p generalizing σ s with
  | pure value => exact ⟨h, hinv, hdb⟩
  | throw error => exact ⟨h, hinv, hdb⟩
  | read query next failed ih => exact ih _ σ s hinv hdb hσ (h s (hself hinv hdb hσ)).1
  | lock t id mode next failed ih =>
    exact ih _ s hinv hdb (hσ.hold _ _) ((h s (hself hinv hdb hσ)).1 (hassume _ _ _ _))
  | insert row next failed ih =>
    exact ih _ _ s hinv hdb (hσ.insert row) ((h s (hself hinv hdb hσ)).1 (hassumeInsert _ _ _ _))
  | update t id set next failed ih =>
    exact ih _ _ s hinv hdb (hσ.update t id set) (h s (hself hinv hdb hσ)).1
  | delete t id next failed ih =>
    exact ih _ s hinv hdb (hσ.delete t id) (h s (hself hinv hdb hσ)).1
  | attach row next ih => exact ih _ _ s hinv hdb (hσ.attach row) (h s (hself hinv hdb hσ))
  | env act next ih =>
    obtain ⟨⟨hinv', _⟩, hwp⟩ := h s (hself hinv hdb hσ)
    exact ih _ σ _ hinv' hdb hσ hwp
  | fresh next ih =>
    obtain ⟨⟨hinv', _⟩, hwp⟩ := h s (hself hinv hdb hσ)
    exact ih _ _ s.draw hinv' hdb (hσ.hold _ _) hwp
  | commit next failed ih =>
    obtain ⟨⟨hinv', _⟩, hwp, _⟩ := h s (hself hinv hdb hσ)
    have hdb' := hσ.integral hdb
    exact ih σ.renew (s.commit tag σ) hinv' hdb' (.of_writes_empty hdb' rfl) hwp
  | rollback next ih =>
    exact ih _ s hinv hdb (.of_writes_empty hdb rfl) (h s (hself hinv hdb hσ))

end ReadCommitted
