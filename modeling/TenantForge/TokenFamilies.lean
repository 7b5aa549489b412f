import Mathlib.Data.List.Pairwise
import Mathlib.Logic.Relation
import TenantForge.Contracts.Frames
import TenantForge.Contracts.Tokens
import TenantForge.Reference.Runtime
/-!
# Families of refresh tokens

Logins, rotations and logouts side by side. A rotation replaces a token by its successor, in one commit
and under the lock of the replaced token (`TokenEffect`). So a token is rotated at most once, the tokens
that descend from one login form a chain, and only the last of them can be unrevoked.
-/

namespace TenantForge

open Gregorian ReadCommitted

/-- The requests that issue, rotate or revoke refresh tokens. -/
def Request.onTokens : Request → Bool
  | .login _ _ | .refresh _ | .logout _ => true
  | _ => false

/-! ### Successors -/

/-- The commit is that of a rotation to which this token was presented. -/
def Presents (rt : Runtime) (c : Commit schema Numbered) (source : RefreshToken) : Prop :=
  ∃ rawToken, c.tag.1 = .refresh rawToken ∧ source ∈ c.before .refreshTokens ∧
    source.tokenHash = rt.hashToken rawToken

/-- The commit inserted the token. -/
def Issues (c : Commit schema Numbered) (token : RefreshToken) : Prop :=
  token ∈ c.after .refreshTokens ∧
    ∀ old : RefreshToken, old ∈ c.before .refreshTokens → old.id ≠ token.id

/-- One of the commits rotated the first token into the second. -/
def Succeeds (rt : Runtime) (log : List (Commit schema Numbered)) (a b : Uuid) : Prop :=
  ∃ c ∈ log, ∃ source token, Presents rt c source ∧ Issues c token ∧ source.id = a ∧ token.id = b

/-- The second token comes from the first by rotations. -/
abbrev Descends (rt : Runtime) (log : List (Commit schema Numbered)) : Uuid → Uuid → Prop :=
  Relation.ReflTransGen (Succeeds rt log)

/-- An unrevoked token of the user. -/
def isLive (userId : Uuid) (token : RefreshToken) : Bool :=
  token.userId = userId && token.revokedAt.isNone

/-- The commit is that of a login of the user. -/
def logsIn (userId : Uuid) (c : Commit schema Numbered) : Bool :=
  match c.tag.1 with
  | .login _ _ => (c.after .refreshTokens).any fun (token : RefreshToken) =>
      token.userId = userId &&
        (c.before .refreshTokens).all fun (old : RefreshToken) => old.id ≠ token.id
  | _ => false

/-! ### What a request commits -/

/-- The session of a request at its commit. A logout may find the token revoked. -/
inductive TokenEffect (rt : Runtime) : Numbered → Session schema → Db → Prop where
  | issued {email password number userId σ₀ σ db token} : σ₀.writes = .empty →
      TokenIssued userId σ₀ σ db token → TokenEffect rt (.login email password, number) σ db
  | rotated {rawToken number σ db source revokedAt token} :
      TokenRotated rt rawToken .empty σ db source revokedAt token →
      TokenEffect rt (.refresh rawToken, number) σ db
  | revoked {rawToken number σ db source revokedAt} :
      TokenRevoked rt rawToken .empty σ db source revokedAt →
      TokenEffect rt (.logout rawToken, number) σ db
  | idle {rawToken number σ db} : σ.writes = .empty → TokenEffect rt (.logout rawToken, number) σ db

section Views

variable {rt : Runtime} {σ σ₀ : Session schema} {db : Db} {rawToken : String}
  {source token : RefreshToken} {revokedAt : DateTime}

theorem TokenIssued.view {userId : Uuid} (hclean : σ₀.writes = .empty)
    (h : TokenIssued userId σ₀ σ db token) :
    σ.view db .refreshTokens = (db .refreshTokens : List RefreshToken) ++ [token] := by
  refine Session.view_of_insert ?_ h.vacant.current
  rw [h.written, hclean, Overlay.put_table_of_nil rfl]
  rfl

theorem TokenRevoked.view (h : TokenRevoked rt rawToken .empty σ db source revokedAt) :
    σ.view db .refreshTokens = (db .refreshTokens).filter
      (fun (row : RefreshToken) => row.id ≠ source.id) ++ [source.revoke revokedAt] := by
  have hw : σ.writes .refreshTokens = [(source.id, some (source.revoke revokedAt))] := by
    rw [h.written, Overlay.put_table_of_nil rfl]
  rw [Session.view, Overlay.apply_table hw]
  simp [rowId]

theorem TokenRotated.view (h : TokenRotated rt rawToken .empty σ db source revokedAt token) :
    σ.view db .refreshTokens = (db .refreshTokens).filter
      (fun (row : RefreshToken) => row.id ≠ source.id) ++ [token, source.revoke revokedAt] := by
  have hw : σ.writes .refreshTokens =
      [(token.id, some token), (source.id, some (source.revoke revokedAt))] := by
    rw [h.written, Overlay.put_table_self, Overlay.put_table_of_nil rfl]
    simp [h.other.symm]
  rw [Session.view, Overlay.apply_table hw]
  refine congrArg₂ _ (List.filter_congr fun row hrow => ?_) rfl
  have hne : rowId (t := .refreshTokens) row ≠ token.id := Store.lookup_eq_none.mp h.vacant.current row hrow
  simpa [rowId] using fun _ => hne

/-- A revoked token counts for nobody, and its place was counted. -/
theorem countP_spent {rows : List RefreshToken} (hsource : source ∈ rows)
    (hlive : source.revokedAt = none) (userId : Uuid) :
    (rows.filter fun (row : RefreshToken) => row.id ≠ source.id).countP (isLive userId) +
      (if source.userId = userId then 1 else 0) ≤ rows.countP (isLive userId) := by
  rw [List.countP_eq_countP_filter_add rows (isLive userId) fun row => row.id ≠ source.id]
  refine Nat.add_le_add_left ?_ _
  split
  · rename_i huser
    refine List.one_le_countP_iff.mpr ⟨source, List.mem_filter.mpr ⟨hsource, by simp⟩, ?_⟩
    simp [isLive, huser, hlive]
  · exact Nat.zero_le _

end Views

/-! ### The invariant -/

/-- What the commits so far have made of the tokens. -/
structure TokenHistory (rt : Runtime) (db₀ : Db) (log : List (Commit schema Numbered)) (db : Db) :
    Prop where
  /-- a committed rotation accepted one token, which was not revoked, and issued one in its place -/
  rotates : ∀ c ∈ log, ∀ rawToken, c.tag.1 = .refresh rawToken → ∃ source token,
    Presents rt c source ∧ Issues c token ∧ source.revokedAt = none ∧ token.userId = source.userId ∧
      (∀ other, Presents rt c other → other = source) ∧ ∀ other, Issues c other → other = token
  once : log.Pairwise fun c d => ∀ a b, Presents rt c a → Presents rt d b → a.id ≠ b.id
  settled : ∀ c ∈ log, ∀ token : RefreshToken, token ∈ c.before .refreshTokens →
    token.revokedAt ≠ none → token ∈ c.after .refreshTokens
  spent : ∀ c ∈ log, ∀ source, Presents rt c source →
    ∃ token : RefreshToken, token ∈ db .refreshTokens ∧ token.id = source.id ∧ token.revokedAt ≠ none
  bound : ∀ userId, (db .refreshTokens).countP (isLive userId) ≤
    (db₀ .refreshTokens).countP (isLive userId) + log.countP (logsIn userId)

theorem TokenHistory.start (rt : Runtime) (db : Db) : TokenHistory rt db [] db :=
  ⟨fun _ h => (nomatch h), .nil, fun _ h => (nomatch h), fun _ h => (nomatch h), fun _ => Nat.le_refl _⟩

section Step

variable {rt : Runtime} {σ : Session schema} {db db₀ : Db} {job : Numbered}
  {log : List (Commit schema Numbered)}

/-- No commit gives a token another state once it is revoked. -/
theorem TokenEffect.settled (hdb : db.Integral) (h : TokenEffect rt job σ db) {row : RefreshToken}
    (hrow : row ∈ db .refreshTokens) (hrevoked : row.revokedAt ≠ none) :
    row ∈ σ.view db .refreshTokens := by
  have hkept : ∀ source : RefreshToken, source ∈ db .refreshTokens → source.revokedAt = none →
      row ∈ (db .refreshTokens).filter fun (row : RefreshToken) => row.id ≠ source.id := by
    intro source hsource hlive
    refine List.mem_filter.mpr ⟨hrow, decide_eq_true fun hid => hrevoked ?_⟩
    rw [hdb.eq_of_id (t := .refreshTokens) hrow hsource hid, hlive]
  cases h with
  | issued hclean h => exact h.view hclean ▸ List.mem_append_left _ hrow
  | rotated h =>
    exact h.view ▸ List.mem_append_left _ (hkept _ h.spent.locked.mem h.spent.unrevoked)
  | revoked h =>
    exact h.view ▸ List.mem_append_left _ (hkept _ h.spent.locked.mem h.spent.unrevoked)
  | idle hw => rwa [Session.view, hw, Overlay.apply_empty]

/-- A login issues one token; nothing else adds to the unrevoked ones. -/
theorem TokenEffect.bound (h : TokenEffect rt job σ db) (userId : Uuid) :
    (σ.view db .refreshTokens).countP (isLive userId) ≤
      (db .refreshTokens).countP (isLive userId) +
        if logsIn userId ⟨job, σ, db⟩ then 1 else 0 := by
  cases h with
  | @issued email password number issuedTo _ _ _ token hclean h =>
    have hview := h.view hclean
    rw [hview, List.countP_append, List.countP_singleton]
    refine Nat.add_le_add_left ?_ _
    by_cases hlive : isLive userId token = true
    · have hlogin : logsIn userId ⟨(.login email password, number), σ, db⟩ = true := by
        simp only [isLive, Bool.and_eq_true] at hlive
        refine List.any_eq_true.mpr ⟨token, ?_, ?_⟩
        · exact (congrArg (token ∈ ·) hview).mpr (by simp)
        · simp only [hlive.1, Bool.true_and, List.all_eq_true, decide_eq_true_eq]
          exact Store.lookup_eq_none.mp h.vacant.current
      rw [if_pos hlogin]
      split <;> simp
    · rw [if_neg hlive]
      exact Nat.zero_le _
  | @rotated _ _ _ _ source revokedAt token h =>
    have hspent := countP_spent h.spent.locked.mem h.spent.unrevoked userId
    have hrevoked : isLive userId (source.revoke revokedAt) = false := by
      simp [isLive, RefreshToken.revoke]
    have hissued : isLive userId token = decide (source.userId = userId) := by
      simp [isLive, h.unrevoked, h.userId]
    rw [h.view, List.countP_append, List.countP_cons, List.countP_singleton, hrevoked, hissued]
    simp only [decide_eq_true_eq, Bool.false_eq_true, if_false, Nat.zero_add]
    exact Nat.le_add_right_of_le hspent
  | @revoked _ _ _ _ source revokedAt h =>
    have hspent := countP_spent h.spent.locked.mem h.spent.unrevoked userId
    have hrevoked : isLive userId (source.revoke revokedAt) = false := by
      simp [isLive, RefreshToken.revoke]
    rw [h.view, List.countP_append, List.countP_singleton, hrevoked]
    simp only [Bool.false_eq_true, if_false]
    omega
  | idle hw =>
    rw [Session.view, hw, Overlay.apply_empty]
    exact Nat.le_add_right _ _

theorem TokenRotated.rotates {rawToken : String} {source token : RefreshToken} {revokedAt : DateTime}
    {number : Nat} (hdb : db.Integral)
    (h : TokenRotated rt rawToken .empty σ db source revokedAt token) :
    Presents rt ⟨(.refresh rawToken, number), σ, db⟩ source ∧
      Issues ⟨(.refresh rawToken, number), σ, db⟩ token ∧
      (∀ other, Presents rt ⟨(.refresh rawToken, number), σ, db⟩ other → other = source) ∧
      ∀ other, Issues ⟨(.refresh rawToken, number), σ, db⟩ other → other = token := by
  have hsource : source ∈ db .refreshTokens := h.spent.locked.mem
  have hview : (⟨(.refresh rawToken, number), σ, db⟩ : Commit schema Numbered).after .refreshTokens = _ :=
    h.view
  refine ⟨⟨rawToken, rfl, hsource, h.spent.presented⟩, ⟨by rw [hview]; simp, ?_⟩, ?_, ?_⟩
  · exact Store.lookup_eq_none.mp h.vacant.current
  · rintro other ⟨raw, hraw, hother, hhash⟩
    cases hraw
    refine hdb.eq_of_id (t := .refreshTokens) hother hsource ?_
    exact hdb.unique .refreshTokens other hother source hsource
      (.refreshToken (rt.hashToken rawToken)) (by simp [uniqueValues, hhash])
      (by simp [uniqueValues, h.spent.presented])
  · rintro other ⟨hother, hnew⟩
    rw [hview] at hother
    rcases List.mem_append.mp hother with hother | hother
    · exact absurd rfl (hnew other (List.mem_filter.mp hother).1)
    · rcases List.mem_pair.mp hother with rfl | rfl
      · rfl
      · exact absurd rfl (hnew source hsource)

theorem TokenHistory.commit (hdb : db.Integral) (hhistory : TokenHistory rt db₀ log db)
    (h : TokenEffect rt job σ db) :
    TokenHistory rt db₀ (⟨job, σ, db⟩ :: log) (σ.view db) := by
  have hunique : ∀ a b : RefreshToken, a ∈ db .refreshTokens → b ∈ db .refreshTokens → a.id = b.id →
      a = b := fun a b ha hb => hdb.eq_of_id (t := .refreshTokens) ha hb
  refine ⟨List.forall_mem_cons.mpr ⟨fun raw hraw => ?_, hhistory.rotates⟩,
    List.pairwise_cons.mpr ⟨fun d hd a b ha hb hid => ?_, hhistory.once⟩,
    List.forall_mem_cons.mpr ⟨fun _ hrow => h.settled hdb hrow, hhistory.settled⟩,
    List.forall_mem_cons.mpr ⟨fun a ha => ?_, fun d hd a ha => ?_⟩, fun userId => ?_⟩
  · cases h with
    | @rotated _ _ _ _ source _ token h =>
      obtain ⟨hpresents, hissues, hsource, htoken⟩ := h.rotates hdb
      exact ⟨source, token, hpresents, hissues, h.spent.unrevoked, h.userId, hsource, htoken⟩
    | _ => cases hraw
  · -- the token was revoked by the earlier rotation, and the later one found it unrevoked
    obtain ⟨token, htoken, hspent, hrevoked⟩ := hhistory.spent d hd b hb
    obtain ⟨raw, hraw, hmem, _⟩ := id ha
    cases h with
    | @rotated _ _ _ _ source _ _ h =>
      obtain ⟨_, _, hsource, _⟩ := h.rotates hdb
      obtain rfl := hsource a ha
      obtain rfl := hunique token a htoken hmem (hspent.trans hid.symm)
      exact hrevoked h.spent.unrevoked
    | _ => cases hraw
  · obtain ⟨raw, hraw, _⟩ := id ha
    cases h with
    | @rotated _ _ _ _ source revokedAt _ h =>
      obtain ⟨_, _, hsource, _⟩ := h.rotates hdb
      obtain rfl := hsource a ha
      exact ⟨a.revoke revokedAt, by rw [h.view]; simp, rfl, by simp [RefreshToken.revoke]⟩
    | _ => cases hraw
  · obtain ⟨token, htoken, hid, hrevoked⟩ := hhistory.spent d hd a ha
    exact ⟨token, h.settled hdb htoken hrevoked, hid, hrevoked⟩
  · have hbound := h.bound userId
    have hbefore := hhistory.bound userId
    rw [List.countP_cons]
    omega

end Step

/-! ### The requests -/

/-- The invariant of the shared state. -/
def HasHistory (rt : Runtime) (db₀ : Db) (s : Shared schema Env Numbered) : Prop :=
  TokenHistory rt db₀ s.log s.db

theorem hasHistory_tolerates (rt : Runtime) (db₀ : Db) :
    (Protocol.free Numbered (HasHistory rt db₀)).Tolerates Env.Drawn where
  env _ _ _ _ hinv _ := ⟨hinv, trivial⟩
  draw _ _ _ hinv := ⟨hinv, trivial⟩

/-- **The step**: a request among others. -/
theorem wp_tokenRequest {rt : Runtime} {db₀ : Db} {job : Numbered} {s : Shared schema Env Numbered}
    (hjob : job.1.onTokens = true)
    (hnow : Interferes (Protocol.free Numbered (HasHistory rt db₀)) job .empty s s) :
    wp (Protocol.free Numbered (HasHistory rt db₀)) job (fun _ _ _ => True) (fun _ _ _ => True)
      (job.1.handle rt) .empty s := by
  have hD := hasHistory_tolerates rt db₀
  have hcommit : ∀ {job : Numbered} {σ : Session schema} {s : Shared schema Env Numbered},
      Interferes (Protocol.free Numbered (HasHistory rt db₀)) job σ s s → TokenEffect rt job σ s.db →
      (Protocol.free Numbered (HasHistory rt db₀)).Allows job σ s (s.commit job σ) :=
    fun hs heffect => ⟨TokenHistory.commit hs.integral hs.inv heffect, trivial⟩
  obtain ⟨request, number⟩ := job
  rw [Request.handle]
  refine wp_getSession harmless_true ?_
  cases request with
  | login email password =>
    simp only [Request.endpoint, authenticateUser, Prog.bind_eq, Prog.map_eq, wp_bind]
    refine wp_scalar (S := schema) (t := .users) harmless_true.escapes (fun _ _ _ => trivial)
      fun s₁ s₂ user h₁ _ _ h₂ => ?_
    refine wp_raiseIf (fun _ => trivial) fun _ => ?_
    refine wp_issueTokens hD harmless_true (h₂.attach _) (fun id => by simp [Session.attach, Session.empty])
      fun token _ σ₃ s₃ _ _ hissued => ?_
    exact fun s₄ hs => ⟨hcommit hs.now (.issued rfl (hissued.later hs)), trivial⟩
  | refresh rawToken =>
    simp only [Request.endpoint, Prog.map_eq, wp_bind]
    refine wp_rotateRefreshToken hD harmless_true rfl rfl fun source revokedAt token _ σ₁ s₁ _ hrotated => ?_
    exact fun s₂ hs => ⟨hcommit hs.now (.rotated (hrotated.later hs)), trivial⟩
  | logout rawToken =>
    simp only [Request.endpoint, Prog.bind_eq, wp_bind]
    refine wp_revokeRefreshToken hD harmless_true rfl rfl (fun σ₁ s₁ _ hw s₂ hs => ?_)
      fun source revokedAt σ₁ s₁ _ hrevoked s₂ hs => ?_
    · exact ⟨hcommit hs.now (.idle hw), trivial⟩
    · exact ⟨hcommit hs.now (.revoked (hrevoked.later hs)), trivial⟩
  | _ => cases hjob

/-! ### Chains -/

section Chains

variable {rt : Runtime} {db db₀ : Db} {log : List (Commit schema Numbered)}

/-- A token has one successor at most. -/
theorem TokenHistory.rightUnique (h : TokenHistory rt db₀ log db) :
    Relator.RightUnique (Succeeds rt log) := by
  rintro a b b' ⟨c, hc, source, token, hpresents, hissues, rfl, rfl⟩
    ⟨d, hd, source', token', hpresents', hissues', hid, rfl⟩
  have hsame : c = d := by
    by_contra hne
    have : Std.Symm fun c d : Commit schema Numbered =>
        ∀ a b, Presents rt c a → Presents rt d b → a.id ≠ b.id :=
      ⟨fun _ _ h a b ha hb => (h b a hb ha).symm⟩
    exact h.once.forall hc hd hne source source' hpresents hpresents' hid.symm
  subst hsame
  obtain ⟨raw, hraw, _⟩ := id hpresents
  obtain ⟨_, _, _, _, _, _, _, hunique⟩ := h.rotates c hc raw hraw
  rw [hunique token hissues, hunique token' hissues']

theorem TokenHistory.spent_of_succeeds (h : TokenHistory rt db₀ log db) {a b : Uuid}
    (hab : Succeeds rt log a b) : ∃ token : RefreshToken, token ∈ db .refreshTokens ∧ token.id = a ∧
      token.revokedAt ≠ none := by
  obtain ⟨c, hc, source, _, hpresents, _, rfl, _⟩ := hab
  exact h.spent c hc source hpresents

/-- An unrevoked token is the last of its chain. -/
theorem TokenHistory.last (hdb : db.Integral) (h : TokenHistory rt db₀ log db) {token : RefreshToken}
    (htoken : token ∈ db .refreshTokens) (hlive : token.revokedAt = none) {b : Uuid}
    (hdescends : Descends rt log token.id b) : b = token.id := by
  rcases Relation.ReflTransGen.cases_head hdescends with heq | ⟨next, hnext, _⟩
  · exact heq.symm
  · obtain ⟨other, hother, hid, hrevoked⟩ := h.spent_of_succeeds hnext
    obtain rfl := hdb.eq_of_id (t := .refreshTokens) hother htoken hid
    exact absurd hlive hrevoked

end Chains

/-! ### Runs -/

/-- What a run of logins, rotations and logouts has made of the tokens. -/
structure TokenFamilies (rt : Runtime) (s : Shared schema Env Numbered)
    (w : World schema Env Exn Numbered Response) : Prop where
  once : w.shared.log.Pairwise fun c d => ∀ a b, Presents rt c a → Presents rt d b → a.id ≠ b.id
  rotates : ∀ c ∈ w.shared.log, ∀ rawToken, c.tag.1 = .refresh rawToken → ∃ source token,
    Presents rt c source ∧ Issues c token ∧ source.revokedAt = none ∧ token.userId = source.userId ∧
      (∀ other, Presents rt c other → other = source) ∧ ∀ other, Issues c other → other = token
  settled : ∀ c ∈ w.shared.log, ∀ token : RefreshToken, token ∈ c.before .refreshTokens →
    token.revokedAt ≠ none → token ∈ c.after .refreshTokens
  /-- the tokens that descend from one token form a chain -/
  chain : ∀ root a b, Descends rt w.shared.log root a → Descends rt w.shared.log root b →
    Descends rt w.shared.log a b ∨ Descends rt w.shared.log b a
  /-- of which only the last can be unrevoked -/
  last : ∀ root (a : RefreshToken) b, a ∈ w.shared.db .refreshTokens → a.revokedAt = none →
    Descends rt w.shared.log root a.id → Descends rt w.shared.log root b →
    Descends rt w.shared.log b a.id
  one : ∀ root (a b : RefreshToken), a ∈ w.shared.db .refreshTokens → b ∈ w.shared.db .refreshTokens →
    a.revokedAt = none → b.revokedAt = none → Descends rt w.shared.log root a.id →
    Descends rt w.shared.log root b.id → a = b
  bound : ∀ userId, (w.shared.db .refreshTokens).countP (isLive userId) ≤
    (s.db .refreshTokens).countP (isLive userId) + w.shared.log.countP (logsIn userId)
  /-- the commits made all changes, and a rotation that did not succeed made none of them -/
  leads : Leads s.db w.shared.log w.shared.db
  unchanged : ∀ th ∈ w.threads, ∀ rawToken, th.tag.1 = .refresh rawToken →
    (∀ value, th.prog ≠ some (.pure value)) → ∀ c ∈ w.shared.log, c.tag ≠ th.tag

/-- **Families of refresh tokens**, whatever requests run at the same time. -/
theorem tokenFamilies_of_reach (rt : Runtime) {s : Shared schema Env Numbered} {requests : List Request}
    {w : World schema Env Exn Numbered Response} (hdb : s.db.Integral) (hlog : s.log = [])
    (hrequests : ∀ request ∈ requests, request.onTokens = true)
    (hreach : (startNumbered rt s requests).Reach w) : TokenFamilies rt s w := by
  have hstart : HasHistory rt s.db s := by
    rw [HasHistory, hlog]
    exact .start rt s.db
  obtain ⟨hhistory, hdb'⟩ := World.free_of_reach (HasHistory rt s.db) hstart hdb
    (fun job hjob => wp_tokenRequest (hrequests _ (List.fst_mem_of_mem_zipIdx hjob))
      (.refl hstart hdb (.of_writes_empty hdb rfl))) hreach
  have hchain : ∀ root a b, Descends rt w.shared.log root a → Descends rt w.shared.log root b →
      Descends rt w.shared.log a b ∨ Descends rt w.shared.log b a :=
    fun _ _ _ => Relation.ReflTransGen.total_of_right_unique hhistory.rightUnique
  have hlast : ∀ root (a : RefreshToken) b, a ∈ w.shared.db .refreshTokens → a.revokedAt = none →
      Descends rt w.shared.log root a.id → Descends rt w.shared.log root b →
      Descends rt w.shared.log b a.id := by
    intro root a b hmem hlive ha hb
    refine (hchain root a.id b ha hb).elim (fun hab => ?_) id
    rw [hhistory.last hdb' hmem hlive hab]
  refine {
    once := hhistory.once
    rotates := hhistory.rotates
    settled := hhistory.settled
    chain := hchain
    last := hlast
    one := fun root a b hmem hmem' hlive hlive' ha hb => ?_
    bound := hhistory.bound
    leads := World.leads_of_reach hlog hreach
    unchanged := fun th hth rawToken htag hopen => ?_ }
  · have hab := hlast root b a.id hmem' hlive' hb ha
    exact hdb'.eq_of_id (t := .refreshTokens) hmem hmem' (hhistory.last hdb' hmem hlive hab).symm
  · have hlast : (th.tag.1.handle rt).CommitsLast := by
      rw [htag]
      exact commitsLast_getSession (W := fun _ => True) (D := fun _ _ => True)
        ((within_rotateRefreshToken (fun _ _ _ => trivial) trivial).bind fun _ => trivial)
    rcases World.uncommitted_of_reach (nodup_zipIdx requests) hlog hreach th hth hlast with
      ⟨value, hvalue⟩ | ⟨hnone, _⟩
    · exact absurd hvalue (hopen value)
    · exact hnone

namespace Reference

/-- A login, two rotations of its token at the same time, and a rotation and a logout of a winner's. -/
def sessions : List Request :=
  [.login "user-1" "password", .refresh "0", .refresh "0", .login "user-1" "password", .logout "1"]

def signIn : World schema Env Exn Numbered Response :=
  (startNumbered runtime (shared Numbered daily { users := [user 1] }) sessions).playAll
    (List.replicate 60 (Move.run 0) ++ (List.replicate 60 [Move.run 1, .run 2]).flatten ++
      List.replicate 60 (Move.run 3) ++ List.replicate 60 (Move.run 4))

theorem tokenFamilies_of_signIn :
    TokenFamilies runtime (shared Numbered daily { users := [user 1] }) signIn :=
  tokenFamilies_of_reach (w := signIn) runtime (ValidDb.integral (by decide +kernel)) rfl
    (by simp [sessions, Request.onTokens]) (World.reach_playAll _ _)

example : signIn.shared.log.length = 4 := by decide +kernel

end Reference

end TenantForge
