import TenantForge.ReadCommitted.LockOrder
/-!
# Rules for programs that climb

One rule for each statement. `Grip.Leads` says what a process knows and holds later on in its transaction:
at least what it had, and no locks but those of the listed levels.
-/

namespace ReadCommitted

variable {S : Schema} {E X L : Type} {α β : Type} {O : LockOrder S L} {levels levels' : List L} {g g' g'' : Grip S}

/-- Apart from locks that need no rank, the locks are of these levels. -/
def Grip.Within (O : LockOrder S L) (levels : List L) (g : Grip S) : Prop :=
  ∀ held ∈ g.held, O.Shared held.1 ∨ held.1.Private g.Names ∨ O.level held.1 ∈ levels

theorem Grip.Within.mono (h : g.Within O levels) (hsub : levels ⊆ levels') : g.Within O levels' :=
  fun held hmem => (h held hmem).imp_right (Or.imp_right fun hlevel => hsub hlevel)

/-- A process that holds lower locks may wait for a higher one. -/
theorem Grip.Within.affords (h : g.Within O levels) {key : Key S} {mode : Mode} (hshared : ¬O.Shared key)
    (hrank : ∀ level ∈ levels, O.rank level < O.rank (O.level key)) : O.Affords g (key, mode) :=
  .above hshared fun held hmem => (h held hmem).imp_right (Or.imp_right (hrank _))

/-- The same process later in its transaction. -/
structure Grip.Leads (O : LockOrder S L) (levels : List L) (g g' : Grip S) : Prop where
  known : ∀ id, g.known id → g'.known id
  held : g.held ⊆ g'.held
  within : g'.Within O levels

namespace Grip.Leads

theorem refl (h : g.Within O levels) : g.Leads O levels g := ⟨fun _ => id, List.Subset.refl _, h⟩

theorem trans (h : g.Leads O levels g') (h' : g'.Leads O levels' g'') : g.Leads O levels' g'' :=
  ⟨fun id hid => h'.known id (h.known id hid), fun _ hmem => h'.held (h.held hmem), h'.within⟩

theorem mono (h : g.Leads O levels g') (hsub : levels ⊆ levels') : g.Leads O levels' g' :=
  ⟨h.known, h.held, h.within.mono hsub⟩

theorem names (h : g.Leads O levels g') {id : S.Id} (hid : g.Names id) : g'.Names id := h.held hid

theorem learn (h : g.Within O levels) (db : Store S) : g.Leads O levels (g.learn db) :=
  ⟨fun _ => Or.inl, List.Subset.refl _, h⟩

theorem attach (h : g.Within O levels) (t : S.Table) : g.Leads O levels (g.attach t) :=
  ⟨fun _ => id, List.Subset.refl _, h⟩

theorem take (h : g.Within O levels) {needs : Needs S} (hsub : levels ⊆ levels')
    (hneeds : ∀ need ∈ needs, O.Shared need.1 ∨ need.1.Private g.Names ∨ O.level need.1 ∈ levels') :
    g.Leads O levels' (g.take needs) := by
  have hnames : ∀ id, g.Names id → (g.take needs).Names id := fun id hid => List.mem_append_right _ hid
  refine ⟨fun _ => id, List.subset_append_right _ _, fun held hmem => ?_⟩
  rcases List.mem_append.mp hmem with hmem | hmem
  · exact (hneeds held hmem).imp_right (Or.imp_left fun hprivate => hprivate.mono hnames)
  · exact (h.mono hsub held hmem).imp_right (Or.imp_left fun hprivate => hprivate.mono hnames)

theorem draw (h : g.Within O levels) (id : S.Id) : g.Leads O levels (g.take [(.name id, .forUpdate)]) :=
  take h (List.Subset.refl _) fun need hneed => by
    rw [List.mem_singleton.mp hneed]
    exact Or.inr (Or.inl trivial)

end Grip.Leads

/-! ### Statements -/

namespace Prog

/-- The program only reads, and draws ids. -/
def Plain : Prog S E X α → Prop
  | .pure _ | .throw _ => True
  | .read _ next failed => (∀ answer, (next answer).Plain) ∧ ∃ error, failed = .throw error
  | .attach _ next => ∀ copy, (next copy).Plain
  | .env _ next => ∀ answer, (next answer).Plain
  | .fresh next => ∀ id, (next id).Plain
  | _ => False

theorem Plain.bind {p : Prog S E X α} {f : α → Prog S E X β} (hp : p.Plain) (hf : ∀ value, (f value).Plain) :
    (p.bind f).Plain := by
  induction p with
  | pure value => exact hf value
  | throw error => trivial
  | read query next failed ih _ =>
    obtain ⟨hnext, error, rfl⟩ := hp
    exact ⟨fun answer => ih answer (hnext answer), error, rfl⟩
  | attach row next ih => exact fun copy => ih copy (hp copy)
  | env act next ih => exact fun answer => ih answer (hp answer)
  | fresh next ih => exact fun id => ih id (hp id)
  | lock | insert | update | delete | commit | rollback => exact hp.elim

theorem Plain.climbs {R : X → Grip S → Prop} {Q : α → Grip S → Prop} {p : Prog S E X α} (hp : p.Plain)
    (hR : ∀ error g, R error g) (hwithin : g.Within O levels)
    (h : ∀ value g', g.Leads O levels g' → Q value g') : p.Climbs O Q R g := by
  induction p generalizing g with
  | pure value => exact h value g (.refl hwithin)
  | throw error => exact hR error g
  | read query next failed ih _ =>
    obtain ⟨hnext, error, rfl⟩ := hp
    exact ⟨fun db _ => ih _ (hnext _) hwithin fun value g' hg' => h value g' ((Grip.Leads.learn hwithin db).trans hg'),
      hR _ _⟩
  | attach row next ih =>
    exact fun copy _ _ => ih copy (hp copy) hwithin fun value g' hg' =>
      h value g' ((Grip.Leads.attach hwithin _).trans hg')
  | env act next ih => exact fun e => ih _ (hp _) hwithin h
  | fresh next ih =>
    intro id
    have hdraw := Grip.Leads.draw hwithin id
    exact ih id (hp id) hdraw.within fun value g' hg' => h value g' (hdraw.trans hg')
  | lock | insert | update | delete | commit | rollback => exact hp.elim

section Statements

variable [DatabaseError X] {R : X → Grip S → Prop} {t t' : S.Table}

theorem plain_query (q : Store S → β) : (query q : Prog S E X β).Plain := ⟨fun _ => trivial, aborted, rfl⟩

omit [DatabaseError X] in
theorem plain_first (rows : List (S.Row t)) : (first rows : Prog S E X (Option (S.Row t))).Plain := by
  cases rows with
  | nil => trivial
  | cons row rows => exact fun _ => trivial

theorem plain_scalar {cond : S.Row t → Bool} : (scalar t cond : Prog S E X (Option (S.Row t))).Plain :=
  (plain_query _).bind plain_first

omit [DatabaseError X] in
theorem plain_attachAll (rows : List (S.Row t)) : (attachAll rows : Prog S E X (List (S.Row t))).Plain := by
  induction rows with
  | nil => trivial
  | cons row rows ih => exact fun _ => ih.bind fun _ => trivial

theorem climbs_query {q : Store S → β} {Q : β → Grip S → Prop} (hR : R aborted g.release)
    (h : ∀ db, db.Integral → Q (q db) (g.learn db)) : (query q : Prog S E X β).Climbs O Q R g := ⟨h, hR⟩

omit [DatabaseError X] in
theorem climbs_first {rows : List (S.Row t)} {Q : Option (S.Row t) → Grip S → Prop}
    (hnone : rows = [] → Q none g)
    (hsome : ∀ row ∈ rows, ∀ copy, S.id copy = S.id row → (¬g.attached t → copy = row) →
      Q (some copy) (g.attach t)) : (first rows : Prog S E X (Option (S.Row t))).Climbs O Q R g := by
  cases rows with
  | nil => exact hnone rfl
  | cons row rows => exact fun copy => hsome row List.mem_cons_self copy

theorem climbs_scalar {cond : S.Row t → Bool} {Q : Option (S.Row t) → Grip S → Prop}
    (hR : R aborted g.release) (hnone : ∀ db, Q none (g.learn db))
    (hsome : ∀ db, ∀ row ∈ db t, cond row = true → ∀ copy, S.id copy = S.id row →
      (¬g.attached t → copy = row) → Q (some copy) ((g.learn db).attach t)) :
    (scalar t cond : Prog S E X (Option (S.Row t))).Climbs O Q R g := by
  rw [scalar, climbs_bind]
  refine climbs_query hR fun db _ => climbs_first (fun _ => hnone db) fun row hrow copy hid hcopy => ?_
  obtain ⟨hmem, hcond⟩ := List.mem_filter.mp hrow
  exact hsome db row hmem hcond copy hid hcopy

/-- The same row is locked again and again: the lock is held already. -/
theorem climbs_lockMatching_held {cond : S.Row t → Bool} {ids : List S.Id} {id : S.Id}
    {Q : List (S.Row t) → Grip S → Prop} (hids : ∀ id' ∈ ids, id' = id) (hshared : ¬O.shared t)
    (hR : ∀ error g, R error g) (hknown : g.known id) (hheld : (.row t id, .forUpdate) ∈ g.held)
    (hwithin : g.Within O levels)
    (h : ∀ rows g', g.Leads O levels g' → (∀ row ∈ rows, cond row = true ∧ S.id row = id) → Q rows g') :
    (lockMatching t cond ids : Prog S E X (List (S.Row t))).Climbs O Q R g := by
  induction ids generalizing g Q with
  | nil => exact h [] g (.refl hwithin) fun row hrow => absurd hrow List.not_mem_nil
  | cons id' ids ih =>
    obtain rfl := hids id' List.mem_cons_self
    refine ⟨hknown, .covered hshared hheld (.refl _), ⟨fun db _ => ?_, hR _ _⟩, hR _ _⟩
    have htaken : g.Leads O levels (g.take [(.row t id', .forUpdate)]) :=
      .take hwithin (List.Subset.refl _) fun need hneed => by
        rw [List.mem_singleton.mp hneed]
        exact hwithin _ hheld
    rw [climbs_bind]
    refine ih (fun other hother => hids other (List.mem_cons_of_mem _ hother)) (Or.inl hknown)
      (htaken.held hheld) htaken.within fun rows g' hg' hrows => ?_
    refine h _ g' (htaken.trans ((Grip.Leads.learn htaken.within db).trans hg')) fun row hrow => ?_
    rcases List.mem_append.mp hrow with hrow | hrow
    · obtain ⟨hfound, hcond⟩ := Option.filter_eq_some_iff.mp (Option.mem_toList.mp hrow)
      exact ⟨hcond, Store.lookup_id hfound⟩
    · exact hrows row hrow

/-- Lock the only row that a query found, if it found one. -/
theorem climbs_lockFound {cond : S.Row t → Bool} {found : Store S → List S.Id}
    {Q : List (S.Row t) → Grip S → Prop}
    (hfound : ∀ db : Store S, db.Integral → ∀ id ∈ found db, (∃ row ∈ db t, S.id row = id) ∧
      ∀ id' ∈ found db, id' = id)
    (hshared : ¬O.shared t) (hR : ∀ error g, R error g) (hwithin : g.Within O levels) {level : L}
    (hlevel : ∀ id, O.level (.row t id) = level) (hrank : ∀ lower ∈ levels, O.rank lower < O.rank level)
    (h : ∀ rows g', g.Leads O (level :: levels) g' →
      (∀ row ∈ rows, cond row = true ∧ g'.known (S.id row) ∧ (.row t (S.id row), .forUpdate) ∈ g'.held) →
      Q rows g') : ((query found).bind (lockMatching t cond) : Prog S E X (List (S.Row t))).Climbs O Q R g := by
  rw [climbs_bind]
  refine climbs_query (hR _ _) fun db hdb => ?_
  have hlearnt : g.Leads O levels (g.learn db) := .learn hwithin db
  cases hids : found db with
  | nil =>
    exact h [] _ (hlearnt.mono (List.subset_cons_self _ _)) fun row hrow => absurd hrow List.not_mem_nil
  | cons id rest =>
    obtain ⟨⟨first, hfirst, rfl⟩, hsame⟩ := hfound db hdb id (hids ▸ List.mem_cons_self)
    have hknown : (g.learn db).known (S.id first) := Or.inr ⟨t, first, hfirst, rfl⟩
    refine ⟨hknown, hlearnt.within.affords hshared fun lower hlower => by rw [hlevel]; exact hrank lower hlower,
      ⟨fun db' _ => ?_, hR _ _⟩, hR _ _⟩
    have htaken : (g.learn db).Leads O (level :: levels) ((g.learn db).take [(.row t (S.id first), .forUpdate)]) :=
      .take hlearnt.within (List.subset_cons_self _ _) fun need hneed => by
        rw [List.mem_singleton.mp hneed, hlevel]
        exact Or.inr (Or.inr List.mem_cons_self)
    have hheld : (Key.row t (S.id first), Mode.forUpdate) ∈
        (((g.learn db).take [(.row t (S.id first), .forUpdate)]).learn db').held := List.mem_cons_self
    have hlearnt' := htaken.trans (Grip.Leads.learn htaken.within db')
    rw [climbs_bind]
    refine climbs_lockMatching_held (fun id' hid' => hsame id' (hids ▸ List.mem_cons_of_mem _ hid')) hshared hR
      (hlearnt'.known _ hknown) hheld hlearnt'.within fun rows g' hg' hrows' => ?_
    refine h _ g' (hlearnt.trans (hlearnt'.trans hg')) fun row hrow => ?_
    have hrow' : cond row = true ∧ S.id row = S.id first := by
      rcases List.mem_append.mp hrow with hrow | hrow
      · obtain ⟨hfound', hcond⟩ := Option.filter_eq_some_iff.mp (Option.mem_toList.mp hrow)
        exact ⟨hcond, Store.lookup_id hfound'⟩
      · exact hrows' row hrow
    rw [hrow'.2]
    exact ⟨hrow'.1, hg'.known _ (hlearnt'.known _ hknown), hg'.held hheld⟩

/-- `FOR UPDATE` of at most one row. -/
theorem climbs_selectForUpdate {cond : S.Row t → Bool} {Q : List (S.Row t) → Grip S → Prop}
    (hunique : ∀ db : Store S, db.Integral → ∀ a ∈ db t, ∀ b ∈ db t, cond a = true → cond b = true →
      S.id a = S.id b)
    (hshared : ¬O.shared t) (hR : ∀ error g, R error g) (hwithin : g.Within O levels) {level : L}
    (hlevel : ∀ id, O.level (.row t id) = level) (hrank : ∀ lower ∈ levels, O.rank lower < O.rank level)
    (h : ∀ rows g', g.Leads O (level :: levels) g' →
      (∀ row ∈ rows, cond row = true ∧ g'.known (S.id row) ∧ (.row t (S.id row), .forUpdate) ∈ g'.held) →
      Q rows g') : (selectForUpdate t cond : Prog S E X (List (S.Row t))).Climbs O Q R g := by
  refine climbs_lockFound (fun db hdb id hid => ?_) hshared hR hwithin hlevel hrank h
  obtain ⟨row, hrow, rfl⟩ := List.mem_map.mp hid
  obtain ⟨hmem, hcond⟩ := List.mem_filter.mp hrow
  refine ⟨⟨row, hmem, rfl⟩, fun id' hid' => ?_⟩
  obtain ⟨row', hrow', rfl⟩ := List.mem_map.mp hid'
  obtain ⟨hmem', hcond'⟩ := List.mem_filter.mp hrow'
  exact hunique db hdb row' hmem' row hmem hcond' hcond

theorem climbs_scalarForUpdate {cond : S.Row t → Bool} {Q : Option (S.Row t) → Grip S → Prop}
    (hunique : ∀ db : Store S, db.Integral → ∀ a ∈ db t, ∀ b ∈ db t, cond a = true → cond b = true →
      S.id a = S.id b)
    (hshared : ¬O.shared t) (hR : ∀ error g, R error g) (hwithin : g.Within O levels) {level : L}
    (hlevel : ∀ id, O.level (.row t id) = level) (hrank : ∀ lower ∈ levels, O.rank lower < O.rank level)
    (hnone : ∀ g', g.Leads O (level :: levels) g' → Q none g')
    (hsome : ∀ row copy g', g.Leads O (level :: levels) g' → cond row = true → S.id copy = S.id row →
      g'.known (S.id row) → (.row t (S.id row), .forUpdate) ∈ g'.held → Q (some copy) g') :
    (scalarForUpdate t cond : Prog S E X (Option (S.Row t))).Climbs O Q R g := by
  rw [scalarForUpdate, climbs_bind]
  refine climbs_selectForUpdate hunique hshared hR hwithin hlevel hrank fun rows g' hg' hrows => ?_
  refine climbs_first (fun _ => hnone g' hg') fun row hrow copy hid _ => ?_
  obtain ⟨hcond, hknown, hheld⟩ := hrows row hrow
  exact hsome row copy _ (hg'.trans (.attach hg'.within t)) hcond hid hknown hheld

/-- A join that is locked again and again. -/
theorem climbs_lockJoined_held {cond : S.Row t → S.Row t' → Bool} {ids : List (S.Id × S.Id)} {id id' : S.Id}
    {Q : List (S.Row t × S.Row t') → Grip S → Prop} (hids : ∀ pair ∈ ids, pair = (id, id'))
    (hshared : ¬O.shared t) (hshared' : ¬O.shared t') (hR : ∀ error g, R error g) (hknown : g.known id)
    (hknown' : g.known id') (hheld : (.row t id, .forUpdate) ∈ g.held)
    (hheld' : (.row t' id', .forUpdate) ∈ g.held)
    (h : ∀ rows g', (∀ other, g.known other → g'.known other) →
      (∀ held, held ∈ g'.held ↔ held ∈ g.held) →
      (∀ pair ∈ rows, cond pair.1 pair.2 = true ∧ S.id pair.1 = id) → Q rows g') :
    (lockJoined t t' cond ids : Prog S E X (List (S.Row t × S.Row t'))).Climbs O Q R g := by
  induction ids generalizing g Q with
  | nil => exact h [] g (fun _ hid => hid) (fun _ => Iff.rfl) fun pair hpair => absurd hpair List.not_mem_nil
  | cons pair ids ih =>
    obtain rfl := hids pair List.mem_cons_self
    refine ⟨hknown, .covered hshared hheld (.refl _), ⟨hknown', .covered hshared' (List.mem_cons_of_mem _ hheld')
      (.refl _), ⟨fun db _ => ?_, hR _ _⟩, hR _ _⟩, hR _ _⟩
    rw [climbs_bind]
    refine ih (fun other hother => hids other (List.mem_cons_of_mem _ hother)) (Or.inl hknown) (Or.inl hknown')
      (List.mem_cons_of_mem _ (List.mem_cons_of_mem _ hheld))
      (List.mem_cons_of_mem _ (List.mem_cons_of_mem _ hheld')) fun rows g' hg' hsame hrows => ?_
    refine h _ g' (fun other hother => hg' other (Or.inl hother)) (fun held => ?_) fun pair hpair => ?_
    · rw [hsame held]
      refine ⟨fun hmem => ?_, fun hmem => List.mem_cons_of_mem _ (List.mem_cons_of_mem _ hmem)⟩
      rcases List.mem_cons.mp hmem with rfl | hmem
      · exact hheld'
      · rcases List.mem_cons.mp hmem with rfl | hmem
        · exact hheld
        · exact hmem
    · rcases List.mem_append.mp hpair with hpair | hpair
      · obtain ⟨row, hrow, hpair⟩ := Option.bind_eq_some_iff.mp (Option.mem_toList.mp hpair)
        obtain ⟨row', hrow', hpair⟩ := Option.bind_eq_some_iff.mp hpair
        split at hpair
        · rename_i hcond
          rw [← Option.some.inj hpair]
          exact ⟨hcond, Store.lookup_id hrow⟩
        · cases hpair
      · exact hrows pair hpair

/-- `FOR UPDATE` of at most one pair of rows. -/
theorem climbs_scalarJoinForUpdate {cond : S.Row t → S.Row t' → Bool} {Q : Option (S.Row t) → Grip S → Prop}
    (hunique : ∀ db : Store S, db.Integral → ∀ a ∈ db t, ∀ a' ∈ db t', ∀ b ∈ db t, ∀ b' ∈ db t',
      cond a a' = true → cond b b' = true → S.id a = S.id b ∧ S.id a' = S.id b')
    (hshared : ¬O.shared t) (hshared' : ¬O.shared t') (hR : ∀ error g, R error g)
    (hwithin : g.Within O levels) {level level' : L} (hlevel : ∀ id, O.level (.row t id) = level)
    (hlevel' : ∀ id, O.level (.row t' id) = level') (hrank : ∀ lower ∈ levels, O.rank lower < O.rank level)
    (hrank' : ∀ lower ∈ level :: levels, O.rank lower < O.rank level')
    (hnone : ∀ g', g.Leads O (level' :: level :: levels) g' → Q none g')
    (hsome : ∀ row row' copy g', g.Leads O (level' :: level :: levels) g' → cond row row' = true →
      S.id copy = S.id row → (.row t (S.id row), .forUpdate) ∈ g'.held → Q (some copy) g') :
    (scalarJoinForUpdate t t' cond : Prog S E X (Option (S.Row t))).Climbs O Q R g := by
  rw [scalarJoinForUpdate, climbs_bind, climbs_bind]
  refine climbs_query (hR _ _) fun db hdb => ?_
  have hlearnt : g.Leads O levels (g.learn db) := .learn hwithin db
  have hpairs : ∀ pair ∈ joined t t' cond db, pair.1 ∈ db t ∧ pair.2 ∈ db t' ∧ cond pair.1 pair.2 = true := by
    intro pair hpair
    obtain ⟨row, hrow, hpair⟩ := List.mem_flatMap.mp hpair
    obtain ⟨row', hrow', rfl⟩ := List.mem_map.mp hpair
    exact ⟨hrow, (List.mem_filter.mp hrow').1, (List.mem_filter.mp hrow').2⟩
  cases hjoined : joined t t' cond db with
  | nil =>
    exact climbs_first (fun _ => hnone _ (hlearnt.mono fun _ hmem =>
      List.mem_cons_of_mem _ (List.mem_cons_of_mem _ hmem))) fun row hrow => absurd hrow List.not_mem_nil
  | cons first rest =>
    rw [hjoined] at hpairs
    obtain ⟨hfirst, hfirst', hfound⟩ := hpairs first List.mem_cons_self
    have hknown : (g.learn db).known (S.id first.1) := Or.inr ⟨t, first.1, hfirst, rfl⟩
    have hknown' : (g.learn db).known (S.id first.2) := Or.inr ⟨t', first.2, hfirst', rfl⟩
    have hids : ∀ pair ∈ rest.map fun pair => (S.id pair.1, S.id pair.2),
        pair = (S.id first.1, S.id first.2) := by
      intro pair hpair
      obtain ⟨rows, hrows, rfl⟩ := List.mem_map.mp hpair
      obtain ⟨hmem, hmem', hcond⟩ := hpairs rows (List.mem_cons_of_mem _ hrows)
      obtain ⟨hid, hid'⟩ := hunique db hdb _ hmem _ hmem' _ hfirst _ hfirst' hcond hfound
      rw [hid, hid']
    let needs : Needs S := [(.row t (S.id first.1), .forUpdate)]
    let needs' : Needs S := [(.row t' (S.id first.2), .forUpdate)]
    have htaken : (g.learn db).Leads O (level :: levels) ((g.learn db).take needs) :=
      .take hlearnt.within (List.subset_cons_self _ _) fun need hneed => by
        rw [List.mem_singleton.mp hneed, hlevel]
        exact Or.inr (Or.inr List.mem_cons_self)
    have htaken' : ((g.learn db).take needs).Leads O (level' :: level :: levels)
        (((g.learn db).take needs).take needs') :=
      .take htaken.within (List.subset_cons_self _ _) fun need hneed => by
        rw [List.mem_singleton.mp hneed, hlevel']
        exact Or.inr (Or.inr List.mem_cons_self)
    refine ⟨hknown, hlearnt.within.affords hshared fun lower hlower => by rw [hlevel]; exact hrank lower hlower,
      ⟨hknown', htaken.within.affords hshared' fun lower hlower => by rw [hlevel']; exact hrank' lower hlower,
        ⟨fun db' _ => ?_, hR _ _⟩, hR _ _⟩, hR _ _⟩
    have hall := (hlearnt.trans (htaken.trans htaken')).trans (.learn htaken'.within db')
    rw [climbs_bind]
    refine climbs_lockJoined_held hids hshared hshared' hR (Or.inl hknown) (Or.inl hknown')
      (List.mem_cons_of_mem _ List.mem_cons_self) List.mem_cons_self fun rows g' hg' hsame hrows => ?_
    have hleads : g.Leads O (level' :: level :: levels) g' :=
      ⟨fun id hid => hg' id (hall.known id hid), fun held hmem => (hsame held).mpr (hall.held hmem),
        fun held hmem => (hall.within held ((hsame held).mp hmem)).imp_right (Or.imp_left fun hprivate =>
          hprivate.mono fun _ hname => (hsame _).mpr hname)⟩
    refine climbs_first (fun _ => hnone g' hleads) fun row hrow copy hid _ => ?_
    obtain ⟨pair, hpair, rfl⟩ := List.mem_map.mp hrow
    have hpair' : cond pair.1 pair.2 = true ∧ S.id pair.1 = S.id first.1 := by
      rcases List.mem_append.mp hpair with hpair | hpair
      · obtain ⟨row, hrow, hpair⟩ := Option.bind_eq_some_iff.mp (Option.mem_toList.mp hpair)
        obtain ⟨row', hrow', hpair⟩ := Option.bind_eq_some_iff.mp hpair
        split at hpair
        · rename_i hcond
          rw [← Option.some.inj hpair]
          exact ⟨hcond, Store.lookup_id hrow⟩
        · cases hpair
      · exact hrows pair hpair
    refine hsome pair.1 pair.2 copy _ (hleads.trans (.attach hleads.within t)) hpair'.1 hid ?_
    rw [hpair'.2]
    exact (hsame _).mpr (List.mem_cons_of_mem _ List.mem_cons_self)

theorem climbs_insertRow {row : S.Row t} {Q : Bool → Grip S → Prop} (hR : R aborted g.release)
    (hname : g.Names (S.id row)) (hneeds : ∀ need ∈ Session.insertNeeds row, O.Affords g need)
    (htrue : Q true (g.take (Session.insertNeeds row))) (hfalse : Q false g) :
    (insertRow row : Prog S E X Bool).Climbs O Q R g := ⟨hname, hneeds, htrue, hfalse, hR⟩

theorem climbs_updateRow {id : S.Id} {set : S.Row t → S.Row t} {Q : UpdateResult → Grip S → Prop}
    (hR : R aborted g.release)
    (hneeds : ∀ old, S.id old = id → ∀ need ∈ Session.updateNeeds old (set old), O.Affords g need)
    (hdone : ∀ old, S.id old = id → Q .done (g.take (Session.updateNeeds old (set old))))
    (hmissing : Q .missing g) (hclash : Q .clash g) :
    (updateRow t id set : Prog S E X UpdateResult).Climbs O Q R g :=
  ⟨fun old hold => ⟨hneeds old hold, hdone old hold⟩, hmissing, hclash, hR⟩

theorem climbs_deleteRow {id : S.Id} {Q : Unit → Grip S → Prop} (hR : R aborted g.release)
    (hneeds : ∀ old : S.Row t, S.id old = id → ∀ need ∈ Session.deleteNeeds old, O.Affords g need)
    (hdone : ∀ old : S.Row t, S.id old = id → Q () (g.take (Session.deleteNeeds old))) (hmissing : Q () g) :
    (deleteRow t id : Prog S E X Unit).Climbs O Q R g :=
  ⟨fun old hold => ⟨hneeds old hold, hdone old hold⟩, hmissing, hR⟩

end Statements

end Prog

end ReadCommitted
