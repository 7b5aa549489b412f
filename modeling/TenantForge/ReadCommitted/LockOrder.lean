import Mathlib.Logic.Hydra
import TenantForge.ReadCommitted.Frame
/-!
# Lock orders

A `LockOrder` ranks the locks. `Prog.Climbs` reads off the text of a program that whatever a statement waits
for ranks above everything that the process holds by then. Then no interleaving ends in a deadlock: in every
reachable world some process can move on, unless all have ended (`World.Orderly.progress`), and from there
all of them can be run to their ends without an abort (`World.Orderly.completes`).

Two kinds of locks need no rank. Nobody else can wait for the lock on a row that the process has just inserted,
because nobody else knows its id, unless foreign keys name rows of its table. And a table may be `shared`: its
rows are only ever locked in key-share mode, but for those that are just being inserted.
-/

namespace ReadCommitted

variable {S : Schema} {E X T : Type} {α β : Type}

/-- What is incompatible with the second mode is incompatible with the first one, too. -/
def Mode.Covers (m m' : Mode) : Prop := ∀ other : Mode, other.conflicts m' = true → other.conflicts m = true

theorem Mode.Covers.refl (m : Mode) : m.Covers m := fun _ h => h

theorem Mode.forUpdate_covers (m : Mode) : Mode.forUpdate.Covers m :=
  fun other _ => Mode.conflicts_forUpdate other

/-- Every lock has a level, and the levels have ranks. -/
structure LockOrder (S : Schema) (L : Type) where
  shared : S.Table → Prop
  level : Key S → L
  rank : L → Nat

variable {L : Type}

/-- The lock is on a row of a shared table. -/
def LockOrder.Shared (O : LockOrder S L) : Key S → Prop
  | .row t _ => O.shared t
  | _ => False

/-- What a process knows and holds: ids of rows that it has seen, the tables of which its identity map may
have copies, and locks. -/
structure Grip (S : Schema) where
  known : S.Id → Prop
  attached : S.Table → Prop
  held : Needs S

namespace Grip

def start : Grip S := ⟨fun _ => False, fun _ => False, []⟩

def take (g : Grip S) (needs : Needs S) : Grip S := { g with held := needs ++ g.held }

/-- A query shows the ids of rows. -/
def learn (g : Grip S) (db : Store S) : Grip S :=
  { g with known := fun id => g.known id ∨ ∃ t, ∃ row ∈ db t, S.id row = id }

def attach (g : Grip S) (t : S.Table) : Grip S := { g with attached := fun t' => g.attached t' ∨ t' = t }

/-- The transaction is over. -/
def release (g : Grip S) : Grip S := { g with held := [] }

/-- The process has drawn this id in its transaction. -/
def Names (g : Grip S) (id : S.Id) : Prop := (.name id, .forUpdate) ∈ g.held

end Grip

/-- Some foreign key names rows of this table. -/
def Schema.Referenced (S : Schema) (t : S.Table) : Prop :=
  ∃ t', ∃ row : S.Row t', ∃ parent ∈ S.parents row, parent.1 = t

/-- Locks that nobody can wait for but the process that has these names. -/
def Key.Private (names : S.Id → Prop) : Key S → Prop
  | .name _ => True
  | .row t id => ¬S.Referenced t ∧ names id
  | .index _ _ => False

theorem Key.Private.mono {names names' : S.Id → Prop} {key : Key S} (h : key.Private names)
    (hnames : ∀ id, names id → names' id) : key.Private names' := by
  cases key with
  | name => trivial
  | row t id => exact ⟨h.1, hnames id h.2⟩
  | index => exact h.elim

/-- With these names, and holding the first lock, a process may wait for the second one. -/
def LockOrder.Below (O : LockOrder S L) (names : S.Id → Prop) (key key' : Key S) : Prop :=
  O.Shared key ∨ key.Private names ∨ O.rank (O.level key) < O.rank (O.level key')

/-- The process may wait for this lock. -/
inductive LockOrder.Affords (O : LockOrder S L) (g : Grip S) : Key S × Mode → Prop where
  | fresh {t : S.Table} {id : S.Id} {mode : Mode} : g.Names id → O.Affords g (.row t id, mode)
  | shared {t : S.Table} {id : S.Id} : O.shared t → g.known id → O.Affords g (.row t id, .keyShare)
  | covered {key : Key S} {mode mode' : Mode} : ¬O.Shared key → (key, mode') ∈ g.held →
      mode'.Covers mode → O.Affords g (key, mode)
  | above {key : Key S} {mode : Mode} : ¬O.Shared key → (∀ held ∈ g.held, O.Below g.Names held.1 key) →
      O.Affords g (key, mode)

namespace Prog

/-- Each statement of the program waits only for what the process may wait for; `Q` and `R` say what it
knows and holds at the end. -/
def Climbs (O : LockOrder S L) (Q : α → Grip S → Prop) (R : X → Grip S → Prop) : Prog S E X α → Grip S → Prop
  | .pure value, g => Q value g
  | .throw error, g => R error g
  | .read query next failed, g =>
    (∀ db, db.Integral → (next (query db)).Climbs O Q R (g.learn db)) ∧ failed.Climbs O Q R g.release
  | .lock t id mode next failed, g =>
    g.known id ∧ O.Affords g (.row t id, mode) ∧ next.Climbs O Q R (g.take [(.row t id, mode)]) ∧
      failed.Climbs O Q R g.release
  | .insert row next failed, g =>
    g.Names (S.id row) ∧ (∀ need ∈ Session.insertNeeds row, O.Affords g need) ∧
      (next true).Climbs O Q R (g.take (Session.insertNeeds row)) ∧ (next false).Climbs O Q R g ∧
        failed.Climbs O Q R g.release
  | .update _ id set next failed, g =>
    (∀ old, S.id old = id → (∀ need ∈ Session.updateNeeds old (set old), O.Affords g need) ∧
        (next .done).Climbs O Q R (g.take (Session.updateNeeds old (set old)))) ∧
      (next .missing).Climbs O Q R g ∧ (next .clash).Climbs O Q R g ∧ failed.Climbs O Q R g.release
  | .delete t id next failed, g =>
    (∀ old : S.Row t, S.id old = id → (∀ need ∈ Session.deleteNeeds old, O.Affords g need) ∧
        next.Climbs O Q R (g.take (Session.deleteNeeds old))) ∧
      next.Climbs O Q R g ∧ failed.Climbs O Q R g.release
  | .attach (t := t) row next, g => ∀ copy, S.id copy = S.id row → (¬g.attached t → copy = row) →
    (next copy).Climbs O Q R (g.attach t)
  | .env act next, g => ∀ e, (next (act e).1).Climbs O Q R g
  | .fresh next, g => ∀ id, (next id).Climbs O Q R (g.take [(.name id, .forUpdate)])
  | .commit next failed, g => next.Climbs O Q R g.release ∧ failed.Climbs O Q R g.release
  | .rollback next, g => next.Climbs O Q R g.release

variable {O : LockOrder S L} {Q Q' : α → Grip S → Prop} {R R' : X → Grip S → Prop}

theorem climbs_bind (p : Prog S E X α) (f : α → Prog S E X β) {Q : β → Grip S → Prop} :
    (p.bind f).Climbs O Q R = p.Climbs O (fun value => (f value).Climbs O Q R) R := by
  induction p <;> funext g <;> simp only [bind, Climbs, *]

theorem climbs_handle (p : Prog S E X α) (h : X → Prog S E X α) :
    (p.handle h).Climbs O Q R = p.Climbs O Q fun error => (h error).Climbs O Q R := by
  induction p <;> funext g <;> simp only [handle, Climbs, *]

theorem climbs_mono (hQ : ∀ value g, Q value g → Q' value g) (hR : ∀ error g, R error g → R' error g)
    (p : Prog S E X α) (g : Grip S) (h : p.Climbs O Q R g) : p.Climbs O Q' R' g := by
  induction p generalizing g with
  | pure value => exact hQ value g h
  | throw error => exact hR error g h
  | read query next failed ih ihf => exact ⟨fun db hdb => ih _ _ (h.1 db hdb), ihf _ h.2⟩
  | lock t id mode next failed ih ihf => exact ⟨h.1, h.2.1, ih _ h.2.2.1, ihf _ h.2.2.2⟩
  | insert row next failed ih ihf =>
    exact ⟨h.1, h.2.1, ih _ _ h.2.2.1, ih _ _ h.2.2.2.1, ihf _ h.2.2.2.2⟩
  | update t id set next failed ih ihf =>
    exact ⟨fun old hold => ⟨(h.1 old hold).1, ih _ _ (h.1 old hold).2⟩, ih _ _ h.2.1, ih _ _ h.2.2.1,
      ihf _ h.2.2.2⟩
  | delete t id next failed ih ihf =>
    exact ⟨fun old hold => ⟨(h.1 old hold).1, ih _ (h.1 old hold).2⟩, ih _ h.2.1, ihf _ h.2.2⟩
  | attach row next ih => exact fun copy hid hcopy => ih copy _ (h copy hid hcopy)
  | env act next ih => exact fun e => ih _ g (h e)
  | fresh next ih => exact fun id => ih id _ (h id)
  | commit next failed ih ihf => exact ⟨ih _ h.1, ihf _ h.2⟩
  | rollback next ih => exact ih _ h

/-- What the next statement waits for. -/
theorem Climbs.affords {p : Prog S E X α} {g : Grip S} (h : p.Climbs O Q R g) (σ : Session S)
    (db : Store S) : ∀ need ∈ p.needs σ db, O.Affords g need := by
  intro need hneed
  cases p with
  | lock t id mode next failed =>
    obtain rfl := List.mem_singleton.mp hneed
    exact h.2.1
  | insert row next failed => exact h.2.1 need hneed
  | update t id set next failed =>
    simp only [needs] at hneed
    split at hneed
    · cases hneed
    · rename_i old hold
      exact (h.1 old (Store.lookup_id hold)).1 need hneed
  | delete t id next failed =>
    simp only [needs] at hneed
    split at hneed
    · cases hneed
    · rename_i old hold
      exact (h.1 old (Store.lookup_id hold)).1 need hneed
  | pure | throw | read | attach | env | fresh | commit | rollback => cases hneed

theorem Climbs.onAbort {p failed : Prog S E X α} {g : Grip S} (h : p.Climbs O Q R g)
    (hfailed : p.onAbort = some failed) : failed.Climbs O Q R g.release := by
  cases p with
  | read => cases hfailed; exact h.2
  | lock => cases hfailed; exact h.2.2.2
  | insert => cases hfailed; exact h.2.2.2.2
  | update => cases hfailed; exact h.2.2.2
  | delete => cases hfailed; exact h.2.2
  | commit => cases hfailed; exact h.2
  | pure | throw | attach | env | fresh | rollback => cases hfailed

end Prog

/-! ### One process -/

/-- The session has this id as a name. -/
def Session.Names (σ : Session S) (id : S.Id) : Prop :=
  ∃ held ∈ σ.locks, held.key = .name id ∧ held.mode = .forUpdate

/-- The session holds the locks, and the ids that are known or locked are settled. -/
structure Session.Grasps (O : LockOrder S L) (settled : S.Id → Prop) (σ : Session S) (g : Grip S) : Prop where
  known : ∀ id, g.known id → settled id
  sub : ∀ held ∈ σ.locks, (held.key, held.mode) ∈ g.held
  sup : ∀ need ∈ g.held, ∃ held ∈ σ.locks, held.key = need.1 ∧ held.mode = need.2
  rows : ∀ held ∈ σ.locks, ∀ t id, held.key = .row t id → settled id
  shared : ∀ held ∈ σ.locks, O.Shared held.key →
    held.mode = .keyShare ∨ ∃ t id, held.key = .row t id ∧ σ.Names id
  loaded : ∀ t, ¬g.attached t → σ.loaded t = []

namespace Session.Grasps

variable {O : LockOrder S L} {settled settled' : S.Id → Prop} {σ σ' : Session S} {g : Grip S} {s : Shared S E T}

theorem mono (h : σ.Grasps O settled g) (hsettled : ∀ id, settled id → settled' id) :
    σ.Grasps O settled' g :=
  ⟨fun id hid => hsettled id (h.known id hid), h.sub, h.sup,
    fun held hmem t id hkey => hsettled id (h.rows held hmem t id hkey), h.shared, h.loaded⟩

/-- The process has looked up its copy of a row. -/
theorem attach (h : σ.Grasps O settled g) {t : S.Table} (row : S.Row t) :
    (σ.attach row).Grasps O settled (g.attach t) := by
  refine ⟨h.known, h.sub, h.sup, h.rows, h.shared, fun t' ht' => ?_⟩
  obtain ⟨hattached, hne⟩ := not_or.mp ht'
  rw [Session.loaded_attach_ne σ hne row, h.loaded t' hattached]

theorem release (h : σ.Grasps O settled g) (hlocks : σ'.locks = [])
    (hloaded : ∀ t, σ.loaded t = [] → σ'.loaded t = []) : σ'.Grasps O settled g.release := by
  refine ⟨h.known, fun held hmem => ?_, fun need hneed => absurd hneed List.not_mem_nil,
    fun held hmem => ?_, fun held hmem => ?_, fun t ht => hloaded t (h.loaded t ht)⟩
  all_goals
    rw [hlocks] at hmem
    cases hmem

theorem learn (h : σ.Grasps O settled g) {db : Store S} (hdb : ∀ t, ∀ row ∈ db t, settled (S.id row)) :
    σ.Grasps O settled (g.learn db) := by
  refine ⟨fun id hid => ?_, h.sub, h.sup, h.rows, h.shared, h.loaded⟩
  rcases hid with hid | ⟨t, row, hrow, rfl⟩
  · exact h.known id hid
  · exact hdb t row hrow

theorem names (h : σ.Grasps O settled g) {id : S.Id} (hid : g.Names id) : σ.Names id := by
  exact h.sup _ hid

/-- Locks that the process might wait for were granted. -/
theorem take (h : σ.Grasps O settled g) {needs : Needs S} {db : Store S}
    (hafford : ∀ need ∈ needs, O.Affords g need)
    (hrows : ∀ need ∈ needs, ∀ t id, need.1 = .row t id → settled id)
    (hlocks : σ'.locks = (σ.hold needs db).locks) (hloaded : σ'.loaded = σ.loaded) :
    σ'.Grasps O settled (g.take needs) := by
  have hmem : ∀ held, held ∈ σ'.locks ↔
      (∃ need ∈ needs, (⟨need.1, need.2, db⟩ : Held S) = held) ∨ held ∈ σ.locks := by
    intro held
    rw [hlocks, hold, List.mem_append, List.mem_map]
  have hnames : ∀ id, σ.Names id → σ'.Names id := by
    rintro id ⟨held, hheld, hkey⟩
    exact ⟨held, (hmem held).mpr (Or.inr hheld), hkey⟩
  refine ⟨h.known, fun held hheld => ?_, fun need hneed => ?_, fun held hheld t id hkey => ?_,
    fun held hheld hshared => ?_, by rw [hloaded]; exact h.loaded⟩
  · rcases (hmem held).mp hheld with ⟨need, hneed, rfl⟩ | hheld
    · exact List.mem_append_left _ hneed
    · exact List.mem_append_right _ (h.sub held hheld)
  · rcases List.mem_append.mp hneed with hneed | hneed
    · exact ⟨_, (hmem _).mpr (Or.inl ⟨need, hneed, rfl⟩), rfl, rfl⟩
    · obtain ⟨held, hheld, hkey⟩ := h.sup need hneed
      exact ⟨held, (hmem held).mpr (Or.inr hheld), hkey⟩
  · rcases (hmem held).mp hheld with ⟨need, hneed, rfl⟩ | hheld
    · exact hrows need hneed t id hkey
    · exact h.rows held hheld t id hkey
  · rcases (hmem held).mp hheld with ⟨need, hneed, rfl⟩ | hheld
    · -- a lock on a row of a shared table is in key-share mode, or on a new row
      cases hafford need hneed with
      | fresh hname => exact Or.inr ⟨_, _, rfl, hnames _ (h.names hname)⟩
      | shared => exact Or.inl rfl
      | covered hnot => exact absurd hshared hnot
      | above hnot => exact absurd hshared hnot
    · rcases h.shared held hheld hshared with hmode | ⟨t, id, hkey, hname⟩
      · exact Or.inl hmode
      · exact Or.inr ⟨t, id, hkey, hnames id hname⟩

/-- The process has drawn an id. -/
theorem draw (h : σ.Grasps O settled g) {id : S.Id} {db : Store S} :
    (σ.hold [(.name id, .forUpdate)] db).Grasps O settled (g.take [(.name id, .forUpdate)]) := by
  refine ⟨h.known, fun held hheld => ?_, fun need hneed => ?_, fun held hheld t id' hkey => ?_,
    fun held hheld hshared => ?_, h.loaded⟩
  · rcases List.mem_cons.mp hheld with rfl | hheld
    · exact List.mem_cons_self
    · exact List.mem_cons_of_mem _ (h.sub held hheld)
  · rcases List.mem_cons.mp hneed with rfl | hneed
    · exact ⟨_, List.mem_cons_self, rfl, rfl⟩
    · obtain ⟨held, hheld, hkey⟩ := h.sup need hneed
      exact ⟨held, List.mem_cons_of_mem _ hheld, hkey⟩
  · rcases List.mem_cons.mp hheld with rfl | hheld
    · cases hkey
    · exact h.rows held hheld t id' hkey
  · rcases List.mem_cons.mp hheld with rfl | hheld
    · exact hshared.elim
    · rcases h.shared held hheld hshared with hmode | ⟨t, id', hkey, other, hother, hname⟩
      · exact Or.inl hmode
      · exact Or.inr ⟨t, id', hkey, other, List.mem_cons_of_mem _ hother, hname⟩

/-- The process after its next statement. -/
theorem advance {p : Prog S E X α} {Q : α → Grip S → Prop} {R : X → Grip S → Prop} {tag : T}
    {next : Prog.Local S E X T α} (h : σ.Grasps O settled g) (hp : p.Climbs O Q R g)
    (hnext : p.advance tag σ s = some next) (hdb : s.db.Integral) (hσ : σ.Sound s.db)
    (hnames : ∀ id, σ.Names id → settled id) (hview : ∀ t, ∀ row ∈ σ.view s.db t, settled (S.id row)) :
    ∃ g', next.prog.Climbs O Q R g' ∧ next.session.Grasps O settled g' := by
  have hseen : ∀ t id, ((σ.view s.db).lookup t id).isSome → settled id := by
    intro t id hsome
    obtain ⟨row, hrow⟩ := Option.isSome_iff_exists.mp hsome
    rw [← Store.lookup_id hrow]
    exact hview t row (Store.lookup_mem hrow)
  cases p with
  | pure value => cases hnext
  | throw error => cases hnext
  | read query next failed =>
    cases hnext
    exact ⟨_, hp.1 _ (hσ.integral hdb), h.learn hview⟩
  | lock t id mode next failed =>
    cases hnext
    obtain ⟨hknown, hafford, hnext, -⟩ := hp
    refine ⟨_, hnext, h.take (fun need hneed => ?_) (fun need hneed t' id' hkey => ?_) rfl rfl⟩
    · rwa [List.mem_singleton.mp hneed]
    · rw [List.mem_singleton.mp hneed] at hkey
      cases hkey
      exact h.known id hknown
  | @insert t row next failed =>
    cases hnext
    obtain ⟨hname, hafford, htrue, hfalse, -⟩ := hp
    dsimp only
    rw [Session.insert]
    split
    · rename_i haccepts
      refine ⟨_, htrue, h.take hafford (fun need hneed t' id' hkey => ?_) rfl rfl⟩
      rcases List.mem_append.mp hneed with hneed | hneed
      · rcases List.mem_cons.mp hneed with rfl | hneed
        · cases hkey
          exact hnames _ (h.names hname)
        · obtain ⟨u, _, rfl⟩ := List.mem_map.mp hneed
          cases hkey
      · obtain ⟨parent, hparent, rfl⟩ := List.mem_map.mp hneed
        cases hkey
        exact hseen _ _ (haccepts.2.2 parent hparent)
    · exact ⟨g, hfalse, h⟩
  | update t id set next failed =>
    cases hnext
    obtain ⟨hold, hmissing, hclash, -⟩ := hp
    dsimp only
    rw [Session.update]
    split
    · exact ⟨g, hmissing, h⟩
    · rename_i old hfound
      have hid := Store.lookup_id hfound
      split
      · refine ⟨_, (hold old hid).2, h.take (hold old hid).1 (fun need hneed t' id' hkey => ?_) rfl rfl⟩
        rcases List.mem_cons.mp hneed with rfl | hneed
        · cases hkey
          exact hview t old (Store.lookup_mem hfound)
        · obtain ⟨u, _, rfl⟩ := List.mem_map.mp hneed
          cases hkey
      · exact ⟨g, hclash, h⟩
  | delete t id next failed =>
    cases hnext
    obtain ⟨hold, hmissing, -⟩ := hp
    dsimp only
    rw [Session.delete]
    split
    · exact ⟨g, hmissing, h⟩
    · rename_i old hfound
      have hid := Store.lookup_id hfound
      refine ⟨_, (hold old hid).2, h.take (hold old hid).1 (fun need hneed t' id' hkey => ?_) rfl rfl⟩
      rcases List.mem_cons.mp hneed with rfl | hneed
      · cases hkey
        exact hview t old (Store.lookup_mem hfound)
      · obtain ⟨u, _, rfl⟩ := List.mem_map.mp hneed
        cases hkey
  | attach row next =>
    cases hnext
    refine ⟨_, hp _ (σ.id_copyOf row) fun hattached => ?_, h.attach row⟩
    rw [Session.copyOf, h.loaded _ hattached]
    rfl
  | env act next =>
    cases hnext
    exact ⟨g, hp s.env, h⟩
  | fresh next =>
    cases hnext
    exact ⟨_, hp s.ids.head, h.draw⟩
  | commit next failed =>
    cases hnext
    exact ⟨_, hp.1, h.release rfl fun _ => id⟩
  | rollback next =>
    cases hnext
    exact ⟨_, hp, h.release rfl fun _ _ => rfl⟩

end Session.Grasps

/-! ### All processes -/

section Worlds

variable {P : Protocol S E T} {Post : T → α → Assertion S E T} {O : LockOrder S L} {w w' : World S E X T α}
  {id : S.Id}

/-- No process will draw this id, and none has it as a name. -/
def World.Public (w : World S E X T α) (id : S.Id) : Prop :=
  ¬w.shared.ids.Holds id ∧ ∀ th ∈ w.threads, ¬th.session.Names id

/-- The process has the id as a name, or the id is public. -/
def World.Settled (w : World S E X T α) (th : Thread S E X T α) (id : S.Id) : Prop :=
  th.session.Names id ∨ w.Public id

/-- The process has ended. -/
def Thread.Finished (th : Thread S E X T α) : Prop :=
  ∀ p, th.prog = some p → (∃ value, p = .pure value) ∨ ∃ error, p = .throw error

/-- A process at its end holds nothing. -/
def Prog.Ascends (O : LockOrder S L) (p : Prog S E X α) (g : Grip S) : Prop :=
  p.Climbs O (fun _ g => g.held = []) (fun _ g => g.held = []) g

/-- A process that climbs, and will do so when it is restarted. -/
structure Thread.Climber (O : LockOrder S L) (settled : S.Id → Prop) (th : Thread S E X T α) : Prop where
  grip : ∃ g, th.session.Grasps O settled g ∧ ∀ p, th.prog = some p → p.Ascends O g
  dead : th.prog = none → th.session.locks = []
  restarts : ∀ p ∈ th.restarts, p.Ascends O .start

structure World.Orderly (O : LockOrder S L) (w : World S E X T α) : Prop where
  rows : ∀ t, ∀ row ∈ w.shared.db t, w.Public (S.id row)
  threads : ∀ th ∈ w.threads, th.Climber O (w.Settled th)

/-- Two processes cannot have the same name. -/
theorem World.Ok.names_distinct (h : w.Ok P Post) {i j : Nat} {a b : Thread S E X T α} (hij : i ≠ j)
    (ha : w.threads[i]? = some a) (hb : w.threads[j]? = some b) (hname : a.session.Names id) :
    ¬b.session.Names id := by
  rintro ⟨held', hheld', hkey', -⟩
  obtain ⟨held, hheld, hkey, hmode⟩ := hname
  have := h.compatible i j a b hij ha hb held hheld held' hheld' (hkey.trans hkey'.symm)
  simp [hmode] at this

/-- What a move does to the names. -/
theorem World.step_names {m : Move} (hstep : w.step m = some w') :
    ∃ i th th', w.threads[i]? = some th ∧ w'.threads = w.threads.set i th' ∧
      w.shared.ids.Leads w'.shared.ids ∧
        ∀ id, th'.session.Names id → th.session.Names id ∨ w.shared.ids.Holds id := by
  cases m with
  | run i =>
    obtain ⟨th, prog, next, hth, hprog, hnext, hgranted, rfl⟩ := World.step_run hstep
    refine ⟨i, th, _, hth, rfl, ?_, ?_⟩
    · cases prog with
      | pure | throw => cases hnext
      | fresh => cases hnext; exact w.shared.ids.leads_tail
      | read | lock | insert | update | delete | attach | env | commit | rollback =>
        cases hnext
        exact .refl _
    · rintro id ⟨held, hheld, hkey, hmode⟩
      rcases advance_locks hnext held hheld with hold | hneed | ⟨hname, -⟩
      · exact Or.inl ⟨held, hold, hkey, hmode⟩
      · exact absurd (hkey ▸ hneed) (prog.name_not_needed _ _ _ _)
      · rw [hname] at hkey
        cases hkey
        exact Or.inr w.shared.ids.holds_head
  | abort i =>
    obtain ⟨th, prog, failed, hth, _, _, rfl⟩ := World.step_abort hstep
    refine ⟨i, th, _, hth, rfl, .refl _, ?_⟩
    rintro id ⟨held, hheld, -⟩
    cases hheld
  | crash i =>
    obtain ⟨th, prog, next, hth, _, _, rfl⟩ := World.step_crash hstep
    refine ⟨i, th, _, hth, rfl, .refl _, ?_⟩
    rintro id ⟨held, hheld, -⟩
    cases hheld

theorem World.Public.step {m : Move} (h : w.Public id) (hstep : w.step m = some w') : w'.Public id := by
  obtain ⟨i, th, th', hth, hthreads, hids, hnames⟩ := World.step_names hstep
  refine ⟨fun hholds => h.1 (hids.holds hholds), fun other hother hname => ?_⟩
  rw [hthreads] at hother
  rcases mem_set_cases hth hother with rfl | ⟨j, _, hj⟩
  · rcases hnames id hname with hname | hholds
    · exact h.2 th (List.mem_of_getElem? hth) hname
    · exact h.1 hholds
  · exact h.2 other (List.mem_of_getElem? hj) hname

/-- An id stays settled: a name that is given up is public. -/
theorem World.Settled.step {m : Move} {i : Nat} {th th' : Thread S E X T α} (h : w.Settled th id)
    (hok : w.Ok P Post) (hstep : w.step m = some w') (hth : w.threads[i]? = some th)
    (hth' : w'.threads[i]? = some th') : w'.Settled th' id := by
  rcases h with hname | hpublic
  · by_cases hname' : th'.session.Names id
    · exact Or.inl hname'
    · obtain ⟨k, old, new, hold, hthreads, hids, hnames⟩ := World.step_names hstep
      have hdrawn : ¬w.shared.ids.Holds id := by
        rintro ⟨n', hn', hid'⟩
        obtain ⟨held, hheld, hkey, -⟩ := hname
        obtain ⟨n, hn, hid⟩ := hok.named th (List.mem_of_getElem? hth) held hheld id hkey
        have := w.shared.ids.distinct (hid'.trans hid.symm)
        omega
      refine Or.inr ⟨fun hholds => hdrawn (hids.holds hholds), fun other hother hother' => ?_⟩
      -- only the process itself can have had this name
      obtain ⟨j, hj⟩ := List.mem_iff_getElem?.mp hother
      by_cases hji : j = i
      · rw [hji, hth'] at hj
        exact hname' (Option.some.inj hj ▸ hother')
      · obtain ⟨hk, -⟩ := List.getElem?_eq_some_iff.mp hold
        rw [hthreads] at hj
        by_cases hjk : j = k
        · rw [hjk, List.getElem?_set_self hk] at hj
          rw [← Option.some.inj hj] at hother'
          rcases hnames id hother' with hother' | hholds
          · exact hok.names_distinct (fun hik => hji (hjk.trans hik.symm)) hth hold hname hother'
          · exact hdrawn hholds
        · rw [List.getElem?_set_ne (Ne.symm hjk)] at hj
          exact hok.names_distinct (Ne.symm hji) hth hj hname hother'
  · exact Or.inr (hpublic.step hstep)

theorem Thread.Climber.mono {settled settled' : S.Id → Prop} {th : Thread S E X T α}
    (h : th.Climber O settled) (hsettled : ∀ id, settled id → settled' id) : th.Climber O settled' := by
  obtain ⟨⟨g, hg, hclimbs⟩, hdead, hrestarts⟩ := h
  exact ⟨⟨g, hg.mono hsettled, hclimbs⟩, hdead, hrestarts⟩

/-- A process sees rows with settled ids only. -/
theorem World.Orderly.settled_view (h : w.Orderly O) (hok : w.Ok P Post) {th : Thread S E X T α}
    (hth : th ∈ w.threads) (t : S.Table) (row : S.Row t) (hrow : row ∈ th.session.view w.shared.db t) :
    w.Settled th (S.id row) := by
  have hσ := hok.sound th hth
  rcases hσ.mem_view.mp hrow with ⟨hrow, -⟩ | hfind
  · exact Or.inr (h.rows t row hrow)
  · obtain ⟨g, hg, -⟩ := (h.threads th hth).grip
    obtain ⟨held, hheld, hkey, -⟩ := hσ.held t (S.id row) (some row) hfind
    exact hg.rows held hheld t (S.id row) hkey

/-- A process that has lost its transaction. -/
theorem Thread.Climber.reset {settled : S.Id → Prop} {th th' : Thread S E X T α} (h : th.Climber O settled)
    (hsession : th'.session = .empty) (hrestarts : th'.restarts ⊆ th.restarts)
    (hprog : ∀ p, th'.prog = some p → p.Ascends O .start ∨ ∃ p₀, th.prog = some p₀ ∧ p₀.onAbort = some p) :
    th'.Climber O settled := by
  obtain ⟨⟨g, hg, hclimbs⟩, -, hold⟩ := h
  have hlocks : th'.session.locks = [] := by rw [hsession]; rfl
  have hloaded : ∀ t, th'.session.loaded t = [] := fun t => by rw [hsession]; rfl
  refine ⟨?_, fun _ => hlocks, fun p hp => hold p (hrestarts hp)⟩
  cases hp' : th'.prog with
  | none => exact ⟨_, hg.release hlocks fun t _ => hloaded t, fun p hp => by cases hp⟩
  | some p =>
    rcases hprog p hp' with hstart | ⟨p₀, hp₀, hfailed⟩
    · refine ⟨.start, ⟨fun id hid => hid.elim, ?_, fun need hneed => absurd hneed List.not_mem_nil, ?_, ?_,
        fun t _ => hloaded t⟩, fun q hq => Option.some.inj hq ▸ hstart⟩
      all_goals
        intro held hheld
        rw [hlocks] at hheld
        cases hheld
    · exact ⟨_, hg.release hlocks fun t _ => hloaded t, fun q hq =>
        Option.some.inj hq ▸ (hclimbs p₀ hp₀).onAbort hfailed⟩

/-- **The step**: a move keeps the processes climbing. -/
theorem World.Orderly.step {m : Move} (h : w.Orderly O) (hok : w.Ok P Post) (hstep : w.step m = some w') :
    w'.Orderly O := by
  have hlater : ∀ {j : Nat} {th th' : Thread S E X T α}, w.threads[j]? = some th →
      w'.threads[j]? = some th' → ∀ id, w.Settled th id → w'.Settled th' id :=
    fun hth hth' id hsettled => hsettled.step hok hstep hth hth'
  -- it is enough to know the moving process
  have hothers : ∀ {i : Nat} {th th' : Thread S E X T α}, w.threads[i]? = some th →
      w'.threads = w.threads.set i th' → th'.Climber O (w'.Settled th') →
      ∀ other ∈ w'.threads, other.Climber O (w'.Settled other) := by
    intro i th th' hth hthreads hmoved other hother
    obtain ⟨j, hj⟩ := List.mem_iff_getElem?.mp hother
    obtain ⟨hi, -⟩ := List.getElem?_eq_some_iff.mp hth
    by_cases hji : j = i
    · rw [hji, hthreads, List.getElem?_set_self hi] at hj
      exact Option.some.inj hj ▸ hmoved
    · have hj' := hj
      rw [hthreads, List.getElem?_set_ne (Ne.symm hji)] at hj'
      exact (h.threads other (List.mem_of_getElem? hj')).mono (hlater hj' hj)
  cases m with
  | run i =>
    obtain ⟨th, prog, next, hth, hprog, hnext, hgranted, rfl⟩ := World.step_run hstep
    have hmem := List.mem_of_getElem? hth
    obtain ⟨hi, -⟩ := List.getElem?_eq_some_iff.mp hth
    have hview := h.settled_view hok hmem
    obtain ⟨⟨g, hg, hclimbs⟩, -, hrestarts⟩ := h.threads th hmem
    obtain ⟨g', hclimbs', hg'⟩ := hg.advance (hclimbs prog hprog) hnext hok.integral (hok.sound th hmem)
      (fun id hid => Or.inl hid) hview
    have hmoved := hlater hth (List.getElem?_set_self hi)
    refine ⟨fun t row hrow => ?_, hothers hth rfl ⟨⟨g', hg'.mono hmoved, fun p hp => ?_⟩, fun hnone => ?_,
      hrestarts⟩⟩
    · cases prog with
      | pure | throw => cases hnext
      | commit next' failed =>
        cases hnext
        -- what is committed was visible to the process, whose names are given up
        rcases hmoved _ (hview t row hrow) with ⟨held, hheld, -⟩ | hpublic
        · cases hheld
        · exact hpublic
      | read | lock | insert | update | delete | attach | env | fresh | rollback =>
        cases hnext
        exact (h.rows t row hrow).step hstep
    · cases hp
      exact hclimbs'
    · cases hnone
  | abort i =>
    obtain ⟨th, prog, failed, hth, hprog, hfailed, rfl⟩ := World.step_abort hstep
    obtain ⟨hi, -⟩ := List.getElem?_eq_some_iff.mp hth
    have hclimber := (h.threads th (List.mem_of_getElem? hth)).mono (hlater hth (List.getElem?_set_self hi))
    refine ⟨fun t row hrow => (h.rows t row hrow).step hstep, hothers hth rfl ?_⟩
    refine hclimber.reset rfl (List.Subset.refl _) fun p hp => ?_
    cases hp
    exact Or.inr ⟨prog, hprog, hfailed⟩
  | crash i =>
    obtain ⟨th, prog, next, hth, hprog, _, rfl⟩ := World.step_crash hstep
    obtain ⟨hi, -⟩ := List.getElem?_eq_some_iff.mp hth
    have hclimber := (h.threads th (List.mem_of_getElem? hth)).mono (hlater hth (List.getElem?_set_self hi))
    refine ⟨fun t row hrow => (h.rows t row hrow).step hstep, hothers hth rfl ?_⟩
    refine hclimber.reset rfl (fun _ => List.mem_of_mem_tail) fun p hp => ?_
    exact Or.inl (hclimber.restarts p (List.mem_of_mem_head? hp))

/-! ### No deadlock -/

/-- A process waits for rows that it knows, and for those that its foreign keys name. -/
theorem World.Orderly.settled_needs (h : w.Orderly O) (hok : w.Ok P Post) {th : Thread S E X T α}
    {prog : Prog S E X α} (hth : th ∈ w.threads) (hprog : th.prog = some prog) {t : S.Table} {id : S.Id} {mode : Mode}
    (hneed : (.row t id, mode) ∈ prog.needs th.session w.shared.db) : S.Referenced t ∨ w.Settled th id := by
  have hview := h.settled_view hok hth
  obtain ⟨⟨g, hg, hclimbs⟩, -, -⟩ := h.threads th hth
  have hp := hclimbs prog hprog
  cases prog with
  | lock t' id' mode' next failed =>
    cases List.mem_singleton.mp hneed
    exact Or.inr (hg.known id hp.1)
  | insert row next failed =>
    rcases List.mem_append.mp hneed with hneed | hneed
    · rcases List.mem_cons.mp hneed with hneed | hneed
      · cases hneed
        exact Or.inr (Or.inl (hg.names hp.1))
      · obtain ⟨u, _, hu⟩ := List.mem_map.mp hneed
        cases hu
    · obtain ⟨parent, hparent, hneed⟩ := List.mem_map.mp hneed
      cases hneed
      exact Or.inl ⟨_, row, parent, hparent, rfl⟩
  | update t' id' set next failed =>
    simp only [Prog.needs] at hneed
    split at hneed
    · cases hneed
    · rename_i old hold
      rcases List.mem_cons.mp hneed with hneed | hneed
      · cases hneed
        exact Or.inr (hview _ old (Store.lookup_mem hold))
      · obtain ⟨u, _, hu⟩ := List.mem_map.mp hneed
        cases hu
  | delete t' id' next failed =>
    simp only [Prog.needs] at hneed
    split at hneed
    · cases hneed
    · rename_i old hold
      rcases List.mem_cons.mp hneed with hneed | hneed
      · cases hneed
        exact Or.inr (hview _ old (Store.lookup_mem hold))
      · obtain ⟨u, _, hu⟩ := List.mem_map.mp hneed
        cases hu
  | pure | throw | read | attach | env | fresh | commit | rollback => cases hneed

/-- A process that cannot move waits for a lock above all of its own that need a rank. -/
theorem World.Orderly.blocked (h : w.Orderly O) (hok : w.Ok P Post) {i : Nat} {th : Thread S E X T α}
    {prog : Prog S E X α} (hth : w.threads[i]? = some th) (hprog : th.prog = some prog)
    (hblocked : ¬w.Granted i (prog.needs th.session w.shared.db)) :
    ∃ other ∈ w.threads, ∃ held ∈ other.session.locks,
      (¬O.Shared held.key ∧ ¬held.key.Private other.session.Names) ∧
        ∀ own ∈ th.session.locks, O.Below th.session.Names own.key held.key := by
  simp only [World.Granted, not_forall] at hblocked
  obtain ⟨other, hother, need, hneed, held, hheld, hkey, hconflict⟩ := hblocked
  obtain ⟨j, hji, hj⟩ := List.mem_eraseIdx_iff_getElem?.mp hother
  have hmem := List.mem_of_getElem? hth
  obtain ⟨⟨g, hg, hclimbs⟩, -, -⟩ := h.threads th hmem
  obtain ⟨⟨g', hg', -⟩, -, -⟩ := h.threads other (List.mem_of_getElem? hj)
  -- a settled id of one process is not a name of another one
  have hforeign : ∀ {i j : Nat} {a b : Thread S E X T α} {id : S.Id}, i ≠ j → w.threads[i]? = some a →
      w.threads[j]? = some b → w.Settled a id → b.session.Names id → False := by
    intro i j a b id hij ha hb hsettled hname
    rcases hsettled with hown | hpublic
    · exact hok.names_distinct hij ha hb hown hname
    · exact hpublic.2 b (List.mem_of_getElem? hb) hname
  have hprivate : ¬held.key.Private other.session.Names := by
    rw [hkey]
    intro hprivate
    obtain ⟨key, mode⟩ := need
    cases key with
    | name id => exact prog.name_not_needed th.session w.shared.db id mode hneed
    | row t id =>
      rcases h.settled_needs hok hmem hprog hneed with hreferenced | hsettled
      · exact hprivate.1 hreferenced
      · exact hforeign (Ne.symm hji) hth hj hsettled hprivate.2
    | index t u => exact hprivate
  cases (hclimbs prog hprog).affords th.session w.shared.db need hneed with
  | fresh hname => exact (hforeign hji hj hth (hg'.rows held hheld _ _ hkey) (hg.names hname)).elim
  | @shared t id hshared hknown =>
    refine absurd ?_ hconflict
    rcases hg'.shared held hheld (by rw [hkey]; exact hshared) with hmode | ⟨t', id', hrow, hname⟩
    · rw [hmode]
      rfl
    · rw [hkey] at hrow
      cases hrow
      exact (hforeign (Ne.symm hji) hth hj (hg.known _ hknown) hname).elim
  | covered hshared hcovered hcovers =>
    obtain ⟨own, hown, hownkey, hownmode⟩ := hg.sup _ hcovered
    have hcompat := hok.compatible j i other th hji hj hth held hheld own hown (hkey.trans hownkey.symm)
    have hconflict' := hcovers held.mode (Bool.not_eq_false _ ▸ hconflict)
    rw [hownmode] at hcompat
    rw [hcompat] at hconflict'
    cases hconflict'
  | above hshared habove =>
    refine ⟨other, List.mem_of_getElem? hj, held, hheld, ⟨by rw [hkey]; exact hshared, hprivate⟩, fun own hown => ?_⟩
    rw [hkey]
    exact (habove _ (hg.sub own hown)).imp_right (Or.imp_left fun h => h.mono fun id hid => hg.names hid)

theorem World.Orderly.finished_locks (h : w.Orderly O) {th : Thread S E X T α} (hth : th ∈ w.threads)
    (hfinished : th.Finished) : th.session.locks = [] := by
  obtain ⟨⟨g, hg, hclimbs⟩, hdead, -⟩ := h.threads th hth
  cases hprog : th.prog with
  | none => exact hdead hprog
  | some p =>
    have hempty : g.held = [] := by
      have hascends := hclimbs p hprog
      rcases hfinished p hprog with ⟨value, rfl⟩ | ⟨error, rfl⟩
      · exact hascends
      · exact hascends
    refine List.eq_nil_iff_forall_not_mem.mpr fun held hheld => ?_
    have := hg.sub held hheld
    rw [hempty] at this
    cases this

/-- **No deadlock**: some process can move on, unless all have ended. -/
theorem World.Orderly.progress (h : w.Orderly O) (hok : w.Ok P Post) :
    (∀ th ∈ w.threads, th.Finished) ∨ ∃ i w', w.step (.run i) = some w' := by
  by_contra hstuck
  push Not at hstuck
  obtain ⟨⟨first, hfirst, hunfinished⟩, hnone⟩ := hstuck
  have hwaits : ∀ th ∈ w.threads, ¬th.Finished → ∃ other ∈ w.threads, ∃ held ∈ other.session.locks,
      (¬O.Shared held.key ∧ ¬held.key.Private other.session.Names) ∧
        ∀ own ∈ th.session.locks, O.Below th.session.Names own.key held.key := by
    intro th hth hunfinished
    obtain ⟨i, hi⟩ := List.mem_iff_getElem?.mp hth
    simp only [Thread.Finished, not_forall, not_or, not_exists] at hunfinished
    obtain ⟨prog, hprog, hpure, hthrow⟩ := hunfinished
    refine h.blocked hok hi hprog fun hgranted => ?_
    have hadvance : ∃ next, prog.advance th.tag th.session w.shared = some next := by
      cases prog with
      | pure value => exact absurd rfl (hpure value)
      | throw error => exact absurd rfl (hthrow error)
      | _ => exact ⟨_, rfl⟩
    obtain ⟨next, hnext⟩ := hadvance
    refine hnone i ⟨next.shared, w.threads.set i { th with prog := some next.prog, session := next.session }⟩ ?_
    simp only [World.step, hi, hprog, hnext, Option.bind_eq_bind, Option.bind_some, if_pos hgranted]
  -- so there is a lock of every rank
  have hclimb : ∀ n, ∃ th ∈ w.threads, ∃ held ∈ th.session.locks,
      (¬O.Shared held.key ∧ ¬held.key.Private th.session.Names) ∧ n ≤ O.rank (O.level held.key) := by
    intro n
    induction n with
    | zero =>
      obtain ⟨other, hother, held, hheld, hranked, -⟩ := hwaits first hfirst hunfinished
      exact ⟨other, hother, held, hheld, hranked, Nat.zero_le _⟩
    | succ n ih =>
      obtain ⟨th, hth, held, hheld, hranked, hn⟩ := ih
      have hbusy : ¬th.Finished := fun hfinished => by
        rw [h.finished_locks hth hfinished] at hheld
        cases hheld
      obtain ⟨other, hother, next, hnext, hranked', hbelow⟩ := hwaits th hth hbusy
      refine ⟨other, hother, next, hnext, hranked', ?_⟩
      rcases hbelow held hheld with hshared | hprivate | hlt
      · exact absurd hshared hranked.1
      · exact absurd hprivate hranked.2
      · omega
  let ranks := w.threads.flatMap fun th => th.session.locks.map fun held => O.rank (O.level held.key)
  obtain ⟨th, hth, held, hheld, -, hrank⟩ := hclimb (ranks.sum + 1)
  have hle : O.rank (O.level held.key) ≤ ranks.sum := List.le_sum_of_mem
    (List.mem_flatMap.mpr ⟨th, hth, List.mem_map.mpr ⟨held, hheld, rfl⟩⟩)
  omega

/-- Some process has not ended, and none can move on. -/
def World.Deadlocked (w : World S E X T α) : Prop :=
  (∃ th ∈ w.threads, ¬th.Finished) ∧ ∀ i, w.step (.run i) = none

theorem World.Orderly.not_deadlocked (h : w.Orderly O) (hok : w.Ok P Post) : ¬w.Deadlocked := by
  rintro ⟨⟨th, hth, hunfinished⟩, hstuck⟩
  rcases h.progress hok with hfinished | ⟨i, w', hstep⟩
  · exact hunfinished (hfinished th hth)
  · rw [hstuck i] at hstep
    cases hstep

/-- Deadlocks can be computed: a process waits for locks, and nobody moves. -/
theorem World.deadlocked_of_waiting
    (hwaiting : w.threads.any (fun th => th.prog.any fun p => !(p.needs th.session w.shared.db).isEmpty) = true)
    (hstuck : ∀ i < w.threads.length, (w.step (.run i)).isNone = true) : w.Deadlocked := by
  obtain ⟨th, hth, hwaits⟩ := List.any_eq_true.mp hwaiting
  refine ⟨⟨th, hth, fun hfinished => ?_⟩, fun i => ?_⟩
  · cases hprog : th.prog with
    | none => simp [hprog] at hwaits
    | some p =>
      rcases hfinished p hprog with ⟨value, rfl⟩ | ⟨error, rfl⟩
      all_goals simp [hprog, Prog.needs] at hwaits
  · by_cases hi : i < w.threads.length
    · exact Option.isNone_iff_eq_none.mp (hstuck i hi)
    · simp [World.step, List.getElem?_eq_none (Nat.not_lt.mp hi)]

/-! ### Everything can be completed -/

/-- A statement leaves a smaller program. -/
def Prog.Follows (T : Type) (p' p : Option (Prog S E X α)) : Prop :=
  ∃ q' q, p' = some q' ∧ p = some q ∧ ∃ (tag : T) (σ : Session S) (s : Shared S E T)
    (next : Prog.Local S E X T α), q.advance tag σ s = some next ∧ next.prog = q'

theorem Prog.wellFounded_follows : WellFounded (Prog.Follows (S := S) (E := E) (X := X) (α := α) T) := by
  refine ⟨fun p => ?_⟩
  have hsome : ∀ q : Prog S E X α, Acc (Prog.Follows T) (some q) := by
    intro q
    induction q with
    | pure | throw =>
      refine ⟨_, ?_⟩
      rintro _ ⟨q', q, rfl, hq, tag, σ, s, next, hnext, rfl⟩
      cases hq
      cases hnext
    | read _ _ _ ih | insert _ _ _ ih | update _ _ _ _ _ ih | attach _ _ ih | env _ _ ih | fresh _ ih =>
      refine ⟨_, ?_⟩
      rintro _ ⟨q', q, rfl, hq, tag, σ, s, next, hnext, rfl⟩
      cases hq
      cases hnext
      exact ih _
    | lock _ _ _ _ _ ih | delete _ _ _ _ ih | commit _ _ ih | rollback _ ih =>
      refine ⟨_, ?_⟩
      rintro _ ⟨q', q, rfl, hq, tag, σ, s, next, hnext, rfl⟩
      cases hq
      cases hnext
      exact ih
  cases p with
  | some q => exact hsome q
  | none =>
    refine ⟨_, ?_⟩
    rintro _ ⟨q', q, -, hq, -⟩
    cases hq

/-- What the processes still have to do. -/
def World.remaining (w : World S E X T α) : Multiset (Option (Prog S E X α)) := w.threads.map Thread.prog

theorem World.remaining_step {i : Nat} (hstep : w.step (.run i) = some w') :
    Relation.CutExpand (Prog.Follows T) w'.remaining w.remaining := by
  obtain ⟨th, prog, next, hth, hprog, hnext, _, rfl⟩ := World.step_run hstep
  refine ⟨{some next.prog}, some prog, fun p hp => ?_, ?_⟩
  · obtain rfl := Multiset.mem_singleton.mp hp
    exact ⟨next.prog, prog, rfl, rfl, th.tag, th.session, w.shared, next, hnext, rfl⟩
  · obtain ⟨hi, hget⟩ := List.getElem?_eq_some_iff.mp hth
    have hold := (List.getElem_cons_eraseIdx_perm hi).map Thread.prog
    have hnew := (List.set_perm_cons_eraseIdx hi
      ({ th with prog := some next.prog, session := next.session } : Thread S E X T α)).map Thread.prog
    rw [hget, List.map_cons, hprog] at hold
    rw [List.map_cons] at hnew
    change ((_ : List (Option (Prog S E X α))) : Multiset (Option (Prog S E X α))) + {some prog} = _
    rw [World.remaining, ← Multiset.coe_eq_coe.mpr hold, Multiset.coe_eq_coe.mpr hnew, ← Multiset.cons_coe,
      ← Multiset.cons_coe]
    rw [← Multiset.singleton_add, ← Multiset.singleton_add, add_comm _ {some prog}, ← add_assoc, add_assoc,
      add_comm {some next.prog}, ← add_assoc]

/-- The locks and the writes of the processes are in order. -/
abbrev World.Consistent (w : World S E X T α) : Prop :=
  w.Ok (Protocol.free T fun _ => True) fun _ _ _ _ => True

theorem wp_free {tag : T} (p : Prog S E X α) (σ : Session S) (s : Shared S E T) :
    wp (Protocol.free T fun _ => True) tag (fun _ _ _ => True) (fun _ _ _ => True) p σ s := by
  induction p generalizing σ s with
  | pure | throw => trivial
  | read _ _ _ ih ihf | insert _ _ _ ih ihf | update _ _ _ _ _ ih ihf =>
    refine fun s' _ => ⟨?_, ihf _ _⟩
    first
      | exact ih _ _ _
      | exact fun _ => ih _ _ _
  | lock _ _ _ _ _ ih ihf => exact fun s' _ => ⟨fun _ => ih _ _, ihf _ _⟩
  | delete _ _ _ _ ih ihf => exact fun s' _ => ⟨ih _ _, ihf _ _⟩
  | attach _ _ ih => exact fun s' _ => ih _ _ _
  | env _ _ ih => exact fun s' _ => ⟨⟨trivial, trivial⟩, ih _ _ _⟩
  | fresh _ ih => exact fun s' _ => ⟨⟨trivial, trivial⟩, ih _ _ _⟩
  | commit _ _ ih ihf => exact fun s' _ => ⟨⟨trivial, trivial⟩, ih _ _, ihf _ _⟩
  | rollback _ ih => exact fun s' _ => ih _ _

theorem World.Consistent.step {m : Move} (h : w.Consistent) (hstep : w.step m = some w') : w'.Consistent := by
  have hmeets : Meets (S := S) (E := E) (X := X) (T := T) (α := α) (Protocol.free T fun _ => True)
      fun _ _ => True := by
    intro w i _ th prog _ _
    cases prog <;> trivial
  exact World.Ok.step hmeets (fun _ _ => stable_true) h trivial hstep

/-- **Completion**: from here all processes can be run to their ends without an abort or a crash. -/
theorem World.Orderly.completes (h : w.Orderly O) (hok : w.Consistent) :
    ∃ w', World.Run (fun _ m => ∃ i, m = .run i) w w' ∧ ∀ th ∈ w'.threads, th.Finished := by
  have hwf := (Prog.wellFounded_follows (S := S) (E := E) (X := X) (α := α) (T := T)).cutExpand
  induction hremaining : w.remaining using hwf.induction generalizing w with
  | _ remaining ih =>
    subst hremaining
    rcases h.progress hok with hfinished | ⟨i, w₁, hstep⟩
    · exact ⟨w, .refl, hfinished⟩
    · obtain ⟨w', hrun, hfinished⟩ := ih _ (World.remaining_step hstep) (h.step hok hstep) (hok.step hstep) rfl
      exact ⟨w', hrun.head ⟨i, rfl⟩ hstep, hfinished⟩

/-- **The run**: processes that climb in one order are never deadlocked, and can always be completed. -/
theorem World.orderly_of_reach {s : Shared S E T} {jobs : List T} {program : T → Prog S E X α}
    (hdb : s.db.Integral) (hids : ∀ t, ∀ row ∈ s.db t, ¬s.ids.Holds (S.id row))
    (hclimbs : ∀ job ∈ jobs, (program job).Ascends O .start)
    (hreach : (World.start s jobs program).Reach w) : w.Orderly O ∧ w.Consistent := by
  induction hreach with
  | refl =>
    have hsession : ∀ th ∈ (World.start s jobs program).threads, th.session = .empty := by
      intro th hth
      obtain ⟨job, _, rfl⟩ := List.mem_map.mp hth
      rfl
    refine ⟨⟨fun t row hrow => ⟨hids t row hrow, fun th hth => ?_⟩, fun th hth => ?_⟩,
      .start trivial hdb (.of_forall (fun _ _ _ _ _ _ _ _ => trivial) jobs) fun _ _ => wp_free _ _ _⟩
    · rintro ⟨held, hheld, -⟩
      rw [hsession th hth] at hheld
      cases hheld
    · obtain ⟨job, hjob, rfl⟩ := List.mem_map.mp hth
      refine ⟨⟨.start, ⟨fun id hid => hid.elim, ?_, fun need hneed => absurd hneed List.not_mem_nil, ?_, ?_,
        fun _ _ => rfl⟩, fun p hp => Option.some.inj hp ▸ hclimbs job hjob⟩, fun _ => rfl,
        fun p hp => absurd hp List.not_mem_nil⟩
      all_goals
        intro held hheld
        cases hheld
  | step m _ _ hstep ih => exact ⟨ih.1.step ih.2 hstep, ih.2.step hstep⟩

end Worlds

end ReadCommitted
