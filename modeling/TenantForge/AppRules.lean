import TenantForge.App
import TenantForge.ReadCommitted.Frame
/-!
# Proof rules for the helpers of the application

Weakest preconditions of clock reads, raised exceptions, flushes and sessions. An exception is
`Harmless` to a claim that only speaks of commits: whatever was pending is rolled back.
-/

namespace TenantForge

open Gregorian ReadCommitted

/-- The sources advanced; the queue did not change. -/
structure Env.Drawn (e e' : Env) : Prop where
  clock : e'.clock = e.clock
  ticks : e.ticks ≤ e'.ticks
  databaseClock : e'.databaseClock = e.databaseClock
  tokens : e'.tokens = e.tokens
  issued : e.issued ≤ e'.issued
  verdicts : e'.verdicts = e.verdicts
  redisFaults : e'.redisFaults = e.redisFaults
  jobs : e'.jobs = e.jobs
  processing : e'.processing = e.processing
  deadLetters : e'.deadLetters = e.deadLetters
  enqueued : e'.enqueued = e.enqueued
  finished : e'.finished = e.finished
  acknowledged : e'.acknowledged = e.acknowledged

/-- The clock and the source of tokens went forward, whatever happened to the queue. -/
structure Env.Onward (e e' : Env) : Prop where
  clock : e'.clock = e.clock
  ticks : e.ticks ≤ e'.ticks
  tokens : e'.tokens = e.tokens
  issued : e.issued ≤ e'.issued

theorem Env.Drawn.onward {e e' : Env} (h : e.Drawn e') : e.Onward e' :=
  ⟨h.clock, h.ticks, h.tokens, h.issued⟩

theorem Env.Onward.refl (e : Env) : e.Onward e := ⟨rfl, le_rfl, rfl, le_rfl⟩

theorem Env.Onward.trans {e e' e'' : Env} (h : e.Onward e') (h' : e'.Onward e'') : e.Onward e'' :=
  ⟨h'.clock.trans h.clock, h.ticks.trans h'.ticks, h'.tokens.trans h.tokens, h.issued.trans h'.issued⟩

namespace Env

variable (e : Env)

theorem drawn_now : e.Drawn { e with ticks := e.ticks + 1 } :=
  ⟨rfl, Nat.le_succ _, rfl, rfl, le_rfl, rfl, rfl, rfl, rfl, rfl, rfl, rfl, rfl⟩

theorem drawn_databaseNow : e.Drawn { e with stamps := e.stamps + 1 } :=
  ⟨rfl, le_rfl, rfl, rfl, le_rfl, rfl, rfl, rfl, rfl, rfl, rfl, rfl, rfl⟩

theorem drawn_tokenUrlsafe : e.Drawn { e with issued := e.issued + 1 } :=
  ⟨rfl, le_rfl, rfl, rfl, Nat.le_succ _, rfl, rfl, rfl, rfl, rfl, rfl, rfl, rfl⟩

theorem drawn_check : e.Drawn { e with checks := e.checks + 1 } :=
  ⟨rfl, le_rfl, rfl, rfl, le_rfl, rfl, rfl, rfl, rfl, rfl, rfl, rfl, rfl⟩

end Env

variable {T : Type} {α : Type} {P : Protocol schema Env T} {tag : T}
  {Q : α → Assertion schema Env T} {R : Exn → Assertion schema Env T}
  {σ : Session schema} {s : Shared schema Env T}

/-- An exception may leave the program in any state of the protocol. -/
def Harmless (P : Protocol schema Env T) (R : Exn → Assertion schema Env T) : Prop :=
  ∀ error σ s, P.inv s → s.db.Integral → R error σ s

theorem Harmless.escapes (h : Harmless P R) : Escapes P R := fun s hinv hdb => h _ _ s hinv hdb

theorem harmless_true : Harmless P fun _ _ _ => True := fun _ _ _ _ _ => trivial

/-- A later state, as a session with these locks may find it: others interfered, and the session drew
from its sources. -/
inductive Later (P : Protocol schema Env T) (tag : T) (locks : List (Held schema))
    (s : Shared schema Env T) : Shared schema Env T → Prop where
  | refl : Later P tag locks s s
  | others {s₁ s₂ : Shared schema Env T} : Later P tag locks s s₁ → P.inv s₂ →
      P.rely tag locks s₁ s₂ → Frozen locks s₁.db s₂.db → s₁.ids.Leads s₂.ids →
      Later P tag locks s s₂
  | drawn {s₁ : Shared schema Env T} {env' : Env} : Later P tag locks s s₁ → s₁.env.Drawn env' →
      Later P tag locks s { s₁ with env := env' }
  | named {s₁ : Shared schema Env T} : Later P tag locks s s₁ → Later P tag locks s s₁.draw

namespace Later

variable {locks locks' : List (Held schema)} {s₁ s₂ s₃ : Shared schema Env T}

theorem trans (h₁ : Later P tag locks s₁ s₂) (h₂ : Later P tag locks s₂ s₃) :
    Later P tag locks s₁ s₃ := by
  induction h₂ with
  | refl => exact h₁
  | others _ hinv hrely hfrozen hids ih => exact ih.others hinv hrely hfrozen hids
  | drawn _ hd ih => exact ih.drawn hd
  | named _ ih => exact ih.named

theorem mono (hl : locks ⊆ locks') (h : Later P tag locks' s₁ s₂) : Later P tag locks s₁ s₂ := by
  induction h with
  | refl => exact .refl
  | others _ hinv hrely hfrozen hids ih =>
    exact ih.others hinv (P.rely_mono _ _ _ _ _ hl hrely) (hfrozen.mono hl) hids
  | drawn _ hd ih => exact ih.drawn hd
  | named _ ih => exact ih.named

theorem of_interferes (h : Interferes P tag σ s₁ s₂) : Later P tag σ.locks s₁ s₂ :=
  Later.refl.others h.inv h.rely h.frozen h.ids

theorem frozen (h : Later P tag locks s₁ s₂) : Frozen locks s₁.db s₂.db := by
  induction h with
  | refl => exact .refl _ _
  | others _ _ _ hfrozen _ ih => exact ih.trans hfrozen
  | drawn _ _ ih => exact ih
  | named _ ih => exact ih

theorem ids (h : Later P tag locks s₁ s₂) : s₁.ids.Leads s₂.ids := by
  induction h with
  | refl => exact .refl _
  | others _ _ _ _ hids ih => exact ih.trans hids
  | drawn _ _ ih => exact ih
  | named _ ih => exact ih.trans (Supply.leads_tail _)

/-- A process that is alone finds the committed store unchanged. -/
theorem alone {inv : Shared schema Env T → Prop} {s₁ s₂ : Shared schema Env T}
    (h : Later (Protocol.alone T inv) tag locks s₁ s₂) : s₂.db = s₁.db := by
  induction h with
  | refl => rfl
  | others _ _ hrely _ _ ih => exact (congrArg Shared.db hrely).trans ih
  | drawn _ _ ih => exact ih
  | named _ ih => exact ih

/-- Nobody else touches its clock and its tokens. -/
theorem onward_alone {inv : Shared schema Env T → Prop} {s₁ s₂ : Shared schema Env T}
    (h : Later (Protocol.alone T inv) tag locks s₁ s₂) : s₁.env.Onward s₂.env := by
  induction h with
  | refl => exact .refl _
  | others _ _ hrely _ _ ih =>
    obtain rfl := hrely
    exact ih
  | drawn _ hd ih => exact ih.trans hd.onward
  | named _ ih => exact ih

end Later

/-- The session drew this id, and the shared state went on from there. -/
def Named (P : Protocol schema Env T) (tag : T) (id : Uuid) (σ : Session schema)
    (s : Shared schema Env T) : Prop :=
  ∃ (s₁ : Shared schema Env T) (locks : List (Held schema)), P.inv s₁ ∧ s₁.ids.head = id ∧
    (∃ held ∈ locks, held.key = .name id ∧ held.mode = .forUpdate) ∧ locks ⊆ σ.locks ∧ Later P tag locks s₁.draw s

theorem Named.later {id : Uuid} {σ' : Session schema} {s' : Shared schema Env T}
    (h : Named P tag id σ s) (hs : Later P tag σ.locks s s') (hl : σ.locks ⊆ σ'.locks) :
    Named P tag id σ' s' := by
  obtain ⟨s₁, locks, hinv, hid, hname, hsub, hlater⟩ := h
  exact ⟨s₁, locks, hinv, hid, hname, fun _ hmem => hl (hsub hmem), hlater.trans (hs.mono hsub)⟩

/-- The session found the shared state with a property, and has held these locks since then. -/
def Found (P : Protocol schema Env T) (tag : T) (locks : List (Held schema))
    (A : Shared schema Env T → Prop) (s : Shared schema Env T) : Prop :=
  ∃ s₁ : Shared schema Env T, P.inv s₁ ∧ A s₁ ∧ Later P tag locks s₁ s

theorem Found.later {locks locks' : List (Held schema)} {A : Shared schema Env T → Prop}
    {s' : Shared schema Env T} (h : Found P tag locks A s) (hs : Later P tag locks' s s')
    (hl : locks ⊆ locks') : Found P tag locks A s' := by
  obtain ⟨s₁, hinv, hA, hlater⟩ := h
  exact ⟨s₁, hinv, hA, hlater.trans (hs.mono hl)⟩

/-- The clock was read, `s` being followed by the state that reads it, and that one by `s'`. -/
def ReadClock (P : Protocol schema Env T) (tag : T) (locks : List (Held schema))
    (s : Shared schema Env T) (t : DateTime) (s' : Shared schema Env T) : Prop :=
  ∃ s₁ : Shared schema Env T, P.inv s₁ ∧ Later P tag locks s s₁ ∧ t = s₁.env.clock s₁.env.ticks ∧
    s' = { s₁ with env := { s₁.env with ticks := s₁.env.ticks + 1 } }

/-- The session drew this token, and the shared state went on from there. -/
def DrewToken (P : Protocol schema Env T) (tag : T) (locks : List (Held schema)) (token : String)
    (s : Shared schema Env T) : Prop :=
  ∃ s₁ : Shared schema Env T, P.inv s₁ ∧ token = s₁.env.tokens s₁.env.issued ∧
    Later P tag locks { s₁ with env := { s₁.env with issued := s₁.env.issued + 1 } } s

theorem DrewToken.later {locks locks' : List (Held schema)} {token : String} {s' : Shared schema Env T}
    (h : DrewToken P tag locks token s) (hs : Later P tag locks' s s') (hl : locks ⊆ locks') :
    DrewToken P tag locks token s' := by
  obtain ⟨s₁, hinv, htoken, hlater⟩ := h
  exact ⟨s₁, hinv, htoken, hlater.trans (hs.mono hl)⟩

section Draws

variable (hD : P.Tolerates Env.Drawn)

include hD

theorem wp_draw {β : Type} {f : Env → β × Env} {Q : β → Assertion schema Env T}
    (hf : ∀ e : Env, e.Drawn (f e).2)
    (h : ∀ s', Interferes P tag σ s s' →
      Later P tag σ.locks s { s' with env := (f s'.env).2 } →
      Interferes P tag σ { s' with env := (f s'.env).2 } { s' with env := (f s'.env).2 } →
      Q (f s'.env).1 σ { s' with env := (f s'.env).2 }) :
    wp P tag Q R (Prog.act f) σ s :=
  wp_act fun s' hs => ⟨hD.env _ _ _ _ hs.inv (hf _),
    h s' hs ((Later.of_interferes hs).drawn (hf _)) (hs.of_allows (hD.env _ _ _ _ hs.inv (hf _)))⟩

theorem wp_now {Q : DateTime → Assertion schema Env T}
    (h : ∀ s', Interferes P tag σ s s' →
      Later P tag σ.locks s { s' with env := { s'.env with ticks := s'.env.ticks + 1 } } →
      Interferes P tag σ { s' with env := { s'.env with ticks := s'.env.ticks + 1 } }
        { s' with env := { s'.env with ticks := s'.env.ticks + 1 } } →
      Q (s'.env.clock s'.env.ticks) σ
        { s' with env := { s'.env with ticks := s'.env.ticks + 1 } }) :
    wp P tag Q R now σ s :=
  wp_draw hD (fun e => e.drawn_now) h

theorem wp_databaseNow {Q : DateTime → Assertion schema Env T}
    (h : ∀ t s', Later P tag σ.locks s s' → Interferes P tag σ s' s' → Q t σ s') :
    wp P tag Q R databaseNow σ s :=
  wp_draw hD (fun e => e.drawn_databaseNow) fun _ _ => h _ _

theorem wp_uuid4 {Q : Uuid → Assertion schema Env T}
    (h : ∀ id σ' s', σ.Extends σ' → Later P tag σ.locks s s' → Interferes P tag σ' s' s' →
      Named P tag id σ' s' → Q id σ' s') :
    wp P tag Q R uuid4 σ s := by
  refine wp_freshId fun s₁ h₁ => ⟨hD.draw _ _ _ h₁.inv, ?_⟩
  refine h _ _ _ (σ.extends_hold _ _) (Later.of_interferes h₁).named
    (.refl (hD.draw tag σ s₁ h₁.inv).1 h₁.integral (h₁.sound.hold _ _)) ?_
  exact ⟨s₁, _, h₁.inv, rfl, ⟨_, List.mem_cons_self, rfl, rfl⟩,
    List.Subset.refl _, .refl⟩

theorem wp_tokenUrlsafe {Q : String → Assertion schema Env T}
    (h : ∀ token s', Later P tag σ.locks s s' → Interferes P tag σ s' s' →
      DrewToken P tag σ.locks token s' → Q token σ s') :
    wp P tag Q R tokenUrlsafe σ s :=
  wp_draw hD (fun e => e.drawn_tokenUrlsafe) fun s' hs hlater hnow =>
    h _ _ hlater hnow ⟨s', hs.inv, rfl, .refl⟩

theorem wp_nowOr {at? : Option DateTime} {Q : DateTime → Assertion schema Env T}
    (hnow : Interferes P tag σ s s)
    (h : ∀ t s', (∀ given, at? = some given → t = given) →
      (at? = none → ReadClock P tag σ.locks s t s') → Later P tag σ.locks s s' →
      Interferes P tag σ s' s' → Q t σ s') :
    wp P tag Q R (nowOr at?) σ s := by
  cases at? with
  | none =>
    refine wp_now hD fun s' hs hlater hnow' => h _ _ (fun _ hgiven => nomatch hgiven) (fun _ => ?_)
      hlater hnow'
    exact ⟨s', hs.inv, .of_interferes hs, rfl, rfl⟩
  | some given =>
    exact h given s (fun _ hgiven => Option.some.inj hgiven) (fun hnone => nomatch hnone) .refl hnow

end Draws

/-! ### Raising -/

theorem wp_raiseIf {condition : Prop} [Decidable condition] {error : Exn}
    {Q : Unit → Assertion schema Env T} (hthrow : condition → R error σ s)
    (h : ¬condition → Q () σ s) : wp P tag Q R (raiseIf condition error) σ s := by
  by_cases hc : condition
  · rw [raiseIf, if_pos hc]
    exact hthrow hc
  · rw [raiseIf, if_neg hc]
    exact h hc

theorem wp_runIf {condition : Prop} [Decidable condition] {body : App Unit}
    {Q : Unit → Assertion schema Env T} (hbody : condition → wp P tag Q R body σ s)
    (h : ¬condition → Q () σ s) : wp P tag Q R (runIf condition body) σ s := by
  by_cases hc : condition
  · rw [runIf, if_pos hc]
    exact hbody hc
  · rw [runIf, if_neg hc]
    exact h hc

theorem wp_orRaise {result : Option α} {error : Exn} (hthrow : result = none → R error σ s)
    (h : ∀ value, result = some value → Q value σ s) : wp P tag Q R (orRaise result error) σ s := by
  cases result with
  | none => exact hthrow rfl
  | some value => exact h value rfl

theorem wp_ofExcept {result : Except Exn α} (hthrow : ∀ error, result = .error error → R error σ s)
    (h : ∀ value, result = .ok value → Q value σ s) : wp P tag Q R (ofExcept result) σ s := by
  cases result with
  | error error => exact hthrow error rfl
  | ok value => exact h value rfl

/-! ### Flushes -/

/-- The session after the insert of a row. In a table that the transaction had not written, the new
row takes nobody's place. -/
structure Added (t : Table) (id : Uuid) (row : Row t) (σ σ' : Session schema) (db : Db) : Prop where
  writes : σ'.writes = σ.writes.put t id (some row)
  locks : σ.locks ⊆ σ'.locks
  loaded : σ'.loaded = σ.loaded
  vacant : σ.writes t = [] → σ'.Vacant db t id
  unindexed : σ.writes t = [] → ∀ u ∈ uniqueValues row, ¬db.HasIndex t u
  parents : ∀ parent ∈ foreignKeys row, ∃ held ∈ σ'.locks, held.key = .row parent.1 parent.2
  indexed : ∀ u ∈ uniqueValues row, ∃ held ∈ σ'.locks, held.key = .index t u ∧ held.mode = .forUpdate
  placed : (σ.view db).lookup t id = none ∧
    ∃ held ∈ σ'.locks, held.key = .row t id ∧ held.mode = .forUpdate

theorem Added.of_extends {t : Table} {id : Uuid} {row : Row t} {σ σ₁ σ' : Session schema} {db : Db}
    (h : Added t id row σ₁ σ' db) (hext : σ.Extends σ₁) : Added t id row σ σ' db where
  writes := by rw [h.writes, hext.writes]
  locks := fun _ hmem => h.locks (hext.locks hmem)
  loaded := h.loaded.trans hext.loaded
  vacant hclean := h.vacant (by rw [hext.writes, hclean])
  unindexed hclean := h.unindexed (by rw [hext.writes, hclean])
  parents := h.parents
  indexed := h.indexed
  placed := by
    rw [Session.view, ← hext.writes]
    exact h.placed

/-- In a table that the transaction deleted nothing of, a new row takes nobody's place either. -/
theorem Added.vacant_of_kept {t : Table} {id : Uuid} {row : Row t} {σ σ' : Session schema} {db : Db}
    (h : Added t id row σ σ' db) (hσ : σ.writes.Coherent)
    (hkept : σ.writes.find t id ≠ some none) :
    σ.writes.find t id = none ∧ σ'.Vacant db t id := by
  obtain ⟨hfree, hheld⟩ := h.placed
  rw [Session.view, hσ.lookup_apply] at hfree
  cases hfind : σ.writes.find t id with
  | none => exact ⟨rfl, by simpa [hfind] using hfree, hheld⟩
  | some version =>
    cases version with
    | none => exact absurd hfind hkept
    | some other => simp [hfind] at hfree

theorem wp_addRow {t : Table} {row : Row t} {Q : Unit → Assertion schema Env T}
    (hR : Harmless P R)
    (h : ∀ σ' s', Interferes P tag σ s s' → P.assumeInsert tag σ t row s' →
      Added t (rowId row) row σ σ' s'.db → Interferes P tag σ' s' s' → Q () σ' s') :
    wp P tag Q R (addRow t row) σ s := by
  rw [addRow, Prog.bind_eq, wp_bind]
  refine wp_insertRow hR.escapes (fun s' hs hrow hassumed => ?_)
    fun s' hs _ => hR _ _ _ hs.inv hs.integral
  have hsound := hs.sound.insert (t := t) row
  rw [Session.insert, if_pos hrow] at hsound
  refine h _ s' hs hassumed ⟨rfl, σ.locks_write _ _ _ _ _, rfl, fun hclean => ?_,
    fun hclean u hu hindex => ?_, fun parent hparent => ?_, fun u hu => ?_, hrow.1, ?_⟩
    (.refl hs.inv hs.integral hsound)
  · exact hrow.vacant hclean (some row)
  · refine hrow.2.1 u hu ?_
    rwa [Store.HasIndex, Session.view_of_nil hclean]
  · exact ⟨⟨_, .keyShare, _⟩,
      Session.mem_hold (List.mem_append_right _ (List.mem_map_of_mem hparent)), rfl⟩
  · refine Session.mem_hold_index (uniqueValues row) (fun need hneed => ?_) hu
    exact List.mem_append_left _ (List.mem_cons_of_mem _ hneed)
  · exact ⟨_, Session.mem_hold List.mem_cons_self, rfl, rfl⟩

theorem wp_flushUpdate {t : Table} {id : Uuid} {set : Row t → Row t}
    {Q : Unit → Assertion schema Env T} (hR : Harmless P R)
    (h : ∀ s' σ' old, Interferes P tag σ s s' → (σ.view s'.db).lookup t id = some old →
      σ.Admits s'.db (S := schema) (t := t) old (set old) →
      σ' = σ.write (Session.updateNeeds (S := schema) (t := t) old (set old)) s'.db t id
        (some (set old)) →
      Interferes P tag σ' s' s' → Q () σ' s') :
    wp P tag Q R (flushUpdate t id set) σ s := by
  rw [flushUpdate, Prog.bind_eq, wp_bind]
  refine wp_updateRow hR.escapes (fun s' old hs hold hset => ?_) fun s' result hs hresult => ?_
  · have hsound := hs.sound.update t id set
    simp only [Session.update, hold, if_pos hset] at hsound
    exact h s' _ old hs hold hset rfl (.refl hs.inv hs.integral hsound)
  · cases result with
    | done => exact absurd rfl hresult
    | missing => exact hR _ _ _ hs.inv hs.integral
    | clash => exact hR _ _ _ hs.inv hs.integral

/-- What is loaded afresh takes the value it is given. -/
theorem assign_self {β : Type} [DecidableEq β] (loaded new : β) : assign loaded new loaded = new := by
  rw [assign]
  split
  · exact Eq.symm ‹_›
  · rfl

theorem wp_refresh {t : Table} {id : Uuid} {Q : Row t → Assertion schema Env T} (hR : Harmless P R)
    (h : ∀ s' row, Interferes P tag σ s s' → (σ.view s'.db).lookup t id = some row → Q row σ s') :
    wp P tag Q R (refresh t id) σ s := by
  rw [refresh, Prog.bind_eq, wp_bind]
  refine wp_query hR.escapes fun s' hs => ?_
  cases hrow : (σ.view s'.db).lookup t id with
  | none => exact hR _ _ _ hs.inv hs.integral
  | some row => exact h s' row hs hrow

/-! ### Uninterrupted runs -/

section Runs

variable {β : Type} (tag σ s)

theorem run_now : (now : App DateTime).run tag σ s =
    (.ok (s.env.clock s.env.ticks), σ, { s with env := { s.env with ticks := s.env.ticks + 1 } }) := rfl

theorem run_uuid4 : (uuid4 : App Uuid).run tag σ s =
    (.ok s.ids.head, σ.hold [(.name s.ids.head, .forUpdate)] s.db, s.draw) := rfl

theorem run_query (q : Db → β) : (Prog.query q : App β).run tag σ s = (.ok (q (σ.view s.db)), σ, s) := rfl

theorem run_nowOr_some (t : DateTime) : (nowOr (some t)).run tag σ s = (.ok t, σ, s) := rfl

theorem run_raiseIf {condition : Prop} [Decidable condition] (h : condition) (error : Exn) :
    (raiseIf condition error).run tag σ s = (.error error, σ, s) := by
  rw [raiseIf, if_pos h]
  rfl

theorem run_raiseIf_not {condition : Prop} [Decidable condition] (h : ¬condition) (error : Exn) :
    (raiseIf condition error).run tag σ s = (.ok (), σ, s) := by
  rw [raiseIf, if_neg h]
  rfl

theorem run_runIf {condition : Prop} [Decidable condition] (h : condition) (body : App Unit) :
    (runIf condition body).run tag σ s = body.run tag σ s := by
  rw [runIf, if_pos h]

theorem run_runIf_not {condition : Prop} [Decidable condition] (h : ¬condition) (body : App Unit) :
    (runIf condition body).run tag σ s = (.ok (), σ, s) := by
  rw [runIf, if_neg h]
  rfl

theorem run_orRaise_some (value : β) (error : Exn) :
    (orRaise (some value) error).run tag σ s = (.ok value, σ, s) := rfl

theorem run_orRaise_none (error : Exn) :
    (orRaise (none : Option β) error).run tag σ s = (.error error, σ, s) := rfl

variable {tag σ s} {γ : Type} {value : γ} {σ' : Session schema} {s' : Shared schema Env T}

theorem run_raiseIf_ok {condition : Prop} [Decidable condition] {error : Exn}
    (h : (raiseIf condition error).run tag σ s = (.ok (), σ', s')) : ¬condition := by
  intro hcondition
  rw [run_raiseIf tag σ s hcondition] at h
  cases h

/-- What follows a check that passed. -/
theorem run_raiseIf_bind {condition : Prop} [Decidable condition] {error : Exn} {f : Unit → App γ}
    (h : ((raiseIf condition error).bind f).run tag σ s = (.ok value, σ', s')) :
    ¬condition ∧ (f ()).run tag σ s = (.ok value, σ', s') := by
  by_cases hcondition : condition
  · rw [Prog.run_bind_error (run_raiseIf tag σ s hcondition error)] at h
    cases h
  · rw [Prog.run_bind_ok (run_raiseIf_not tag σ s hcondition error)] at h
    exact ⟨hcondition, h⟩

theorem run_orRaise_bind {result : Option β} {error : Exn} {f : β → App γ}
    (h : ((orRaise result error).bind f).run tag σ s = (.ok value, σ', s')) :
    ∃ found, result = some found ∧ (f found).run tag σ s = (.ok value, σ', s') := by
  cases result with
  | none => cases h
  | some found => exact ⟨found, rfl, h⟩

variable (tag σ s)

/-- An insert that nobody disturbs. -/
theorem run_addRow_of_accepts {t : Table} {row : Row t} (h : σ.Accepts s.db (S := schema) (t := t) row) :
    (addRow t row).run tag σ s =
      (.ok (), σ.write (Session.insertNeeds (S := schema) (t := t) row) s.db t (rowId row) (some row), s) := by
  have hinsert : σ.insert s.db (S := schema) (t := t) row =
      (true, σ.write (Session.insertNeeds (S := schema) (t := t) row) s.db t (rowId row) (some row)) := by
    rw [Session.insert, if_pos h]
  rw [addRow, Prog.bind_eq, Prog.run_bind, Prog.insertRow, Prog.run, hinsert]
  rfl

/-- An update that nobody disturbs. -/
theorem run_flushUpdate_of_admits {t : Table} {id : Uuid} {set : Row t → Row t} {old : Row t}
    (hold : (σ.view s.db).lookup t id = some old)
    (hadmits : σ.Admits s.db (S := schema) (t := t) old (set old)) :
    (flushUpdate t id set).run tag σ s =
      (.ok (), σ.write (Session.updateNeeds (S := schema) (t := t) old (set old)) s.db t id (some (set old)),
        s) := by
  have hupdate : σ.update s.db t id set =
      (.done, σ.write (Session.updateNeeds (S := schema) (t := t) old (set old)) s.db t id
        (some (set old))) := by
    simp only [Session.update, hold, if_pos hadmits]
  rw [flushUpdate, Prog.bind_eq, Prog.run_bind, Prog.updateRow, Prog.run, hupdate]
  rfl

end Runs

/-! ### Copies and sessions -/

/-- A copy has the primary key of the row it stands for. -/
theorem rowId_copyOf (σ : Session schema) {t : Table} (row : Row t) :
    rowId (σ.copyOf (t := t) row) = rowId row :=
  σ.id_copyOf row

theorem wp_exceptIntegrityError {error : Exn} {body : App α} (hR : Harmless P R)
    (h : ∀ R', Harmless P R' → wp P tag Q R' body σ s) :
    wp P tag Q R (exceptIntegrityError error body) σ s := by
  rw [exceptIntegrityError, Prog.tryCatch_eq, wp_handle]
  refine h _ fun exc σ' s' hinv hdb => ?_
  by_cases hexc : exc = .integrityError
  · simp only [hexc, if_true]
    exact fun s'' hs => hR _ _ _ hs.inv hs.integral
  · simp only [hexc, if_false]
    exact hR _ _ _ hinv hdb

/-- A committed request: its body, and then the commit is allowed. -/
theorem wp_getSession {body : App α} (hR : Harmless P R)
    (h : wp P tag (fun value σ s => ∀ s', Interferes P tag σ s s' →
      P.Allows tag σ s' (s'.commit tag σ) ∧ Q value σ.renew (s'.commit tag σ))
      (fun _ _ _ => True) body σ s) :
    wp P tag Q R (getSession body) σ s := by
  rw [getSession, Prog.tryCatch_eq, wp_handle, Prog.bind_eq, wp_bind]
  have hcatch : ∀ (error : Exn) (σ : Session schema) (s : Shared schema Env T),
      wp P tag Q R (do Prog.rollbackTransaction; throw error) σ s :=
    fun error σ s s' hs => hR _ _ _ hs.inv hs.integral
  refine wp_mono (fun value σ s hvalue => ?_) (fun error σ s _ => hcatch error σ s) body σ s h
  exact fun s' hs => ⟨(hvalue s' hs).1, (hvalue s' hs).2, hcatch _ _ _⟩

/-- A session of its own: whatever its body left open is rolled back. -/
theorem wp_sessionScope {body : App α}
    (h : wp P tag (fun value σ s => ∀ s', Interferes P tag σ s s' → Q value .empty s')
      (fun error σ s => ∀ s', Interferes P tag σ s s' → R error .empty s') body σ s) :
    wp P tag Q R (sessionScope body) σ s := by
  rw [sessionScope, Prog.tryCatch_eq, wp_handle, Prog.bind_eq, wp_bind]
  exact wp_mono (fun _ _ _ hvalue => hvalue) (fun _ _ _ herror => herror) body σ s h

end TenantForge
