import TenantForge.Api.Deps
import TenantForge.Reference.Json
/-!
# A runtime

One runtime that obeys the laws: UUIDs in their canonical form, JSON text, ISO 8601 times in one fixed
format. Hashes, passwords and signatures are stand-ins: a text is its own hash, and a bearer token is
the subject it names.
-/

namespace TenantForge.Reference

open Gregorian ReadCommitted

/-! ### UUIDs -/

/-- The last `width` hexadecimal digits. -/
def hexDigits : Nat → Nat → List Char
  | 0, _ => []
  | width + 1, n => hexDigits width (n / 16) ++ [Nat.digitChar (n % 16)]

def hexValue (c : Char) : Nat := "0123456789abcdef".toList.idxOf c

def ofHexDigits (digits : List Char) : Nat := digits.foldl (fun n c => n * 16 + hexValue c) 0

def isHexDigit (c : Char) : Bool := c ∈ "0123456789abcdef".toList

theorem hexValue_digitChar : ∀ d < 16, hexValue (Nat.digitChar d) = d := by decide

theorem isHexDigit_digitChar : ∀ d < 16, isHexDigit (Nat.digitChar d) = true := by decide

theorem ofHexDigits_hexDigits (width n : Nat) : ofHexDigits (hexDigits width n) = n % 16 ^ width := by
  induction width generalizing n with
  | zero => simp [hexDigits, ofHexDigits, Nat.mod_one]
  | succ width ih =>
    have hprevious := ih (n / 16)
    rw [ofHexDigits] at hprevious
    rw [hexDigits, ofHexDigits, List.foldl_append, hprevious, List.foldl_cons, List.foldl_nil,
      hexValue_digitChar _ (Nat.mod_lt _ (by decide)), Nat.pow_succ, Nat.mul_comm (16 ^ width) 16,
      Nat.mod_mul]
    omega

theorem length_hexDigits (width n : Nat) : (hexDigits width n).length = width := by
  induction width generalizing n with
  | zero => rfl
  | succ width ih => rw [hexDigits, List.length_append, ih, List.length_singleton]

theorem isHexDigit_of_mem {width n : Nat} {c : Char} (h : c ∈ hexDigits width n) :
    isHexDigit c = true := by
  induction width generalizing n with
  | zero => cases h
  | succ width ih =>
    rcases List.mem_append.mp h with h | h
    · exact ih h
    · rw [List.mem_singleton.mp h]
      exact isHexDigit_digitChar _ (Nat.mod_lt _ (by decide))

/-- A dash after each group of digits but the last. -/
def dashed : List Nat → List Char → List Char
  | [], digits => digits
  | group :: groups, digits => digits.take group ++ '-' :: dashed groups (digits.drop group)

theorem filter_dashed (groups : List Nat) {digits : List Char} (h : '-' ∉ digits) :
    (dashed groups digits).filter (· ≠ '-') = digits := by
  induction groups generalizing digits with
  | nil => exact List.filter_eq_self.mpr fun c hc => decide_eq_true fun hdash => h (hdash ▸ hc)
  | cons group groups ih =>
    have htake : (digits.take group).filter (· ≠ '-') = digits.take group :=
      List.filter_eq_self.mpr fun c hc =>
        decide_eq_true fun hdash => h (hdash ▸ List.mem_of_mem_take hc)
    rw [dashed, List.filter_append, htake, List.filter_cons_of_neg (by simp),
      ih fun hdash => h (List.mem_of_mem_drop hdash), List.take_append_drop]

/-- How many UUIDs there are. -/
def uuidCount : Nat := 16 ^ 32

/-- Past 128 bits, where there are no UUIDs, the other bits follow as a decimal numeral. -/
def uuidText (id : Uuid) : String :=
  String.ofList (dashed [8, 4, 4, 4] (hexDigits 32 id) ++
    if id / uuidCount = 0 then [] else printNat (id / uuidCount))

def parseUuid (text : String) : Option Uuid :=
  let digits := text.toList.filter (· ≠ '-')
  let hex := digits.take 32
  let others := digits.drop 32
  if hex.length = 32 ∧ hex.all isHexDigit ∧ others.all Char.isDigit then
    some (ofHexDigits hex + uuidCount * Nat.ofDigitChars 10 others 0)
  else none

/-- The two parts of the text of a UUID are found again. -/
theorem parseUuid_parts {hex others : List Char} (hlength : hex.length = 32)
    (hhex : ∀ c ∈ hex, isHexDigit c = true) (hothers : ∀ c ∈ others, Char.isDigit c = true) :
    parseUuid (String.ofList (dashed [8, 4, 4, 4] hex ++ others)) =
      some (ofHexDigits hex + uuidCount * Nat.ofDigitChars 10 others 0) := by
  have hdash : '-' ∉ hex := fun h => absurd (hhex _ h) (by decide)
  have hkeep : others.filter (· ≠ '-') = others :=
    List.filter_eq_self.mpr fun c hc => decide_eq_true fun hdash =>
      absurd (hothers c hc) (by rw [hdash]; decide)
  have hfilter : (String.ofList (dashed [8, 4, 4, 4] hex ++ others)).toList.filter (· ≠ '-') =
      hex ++ others := by
    rw [String.toList_ofList, List.filter_append, filter_dashed _ hdash, hkeep]
  rw [parseUuid]
  simp only [hfilter, List.take_left' hlength, List.drop_left' hlength]
  rw [if_pos ⟨hlength, List.all_eq_true.mpr hhex, List.all_eq_true.mpr hothers⟩]

theorem parseUuid_uuidText (id : Uuid) : parseUuid (uuidText id) = some id := by
  have hhigh : ∀ high : Nat, (∀ c ∈ (if high = 0 then [] else printNat high), Char.isDigit c = true) ∧
      Nat.ofDigitChars 10 (if high = 0 then [] else printNat high) 0 = high := by
    intro high
    split
    · rename_i hzero
      exact ⟨fun c hc => (nomatch hc), by rw [Nat.ofDigitChars_nil, hzero]⟩
    · exact ⟨fun c hc => isDigit_of_mem_printNat hc,
        by rw [printNat, Nat.ofDigitChars_ten_toDigits]⟩
  rw [uuidText, parseUuid_parts (length_hexDigits 32 id) (fun c hc => isHexDigit_of_mem hc)
    (hhigh _).1, (hhigh _).2, ofHexDigits_hexDigits, uuidCount, Nat.mod_add_div]

/-! ### Times -/

/-- A decimal numeral of at least this width. -/
def padded (width n : Nat) : List Char :=
  List.replicate (width - (printNat n).length) '0' ++ printNat n

/-- `t.isoformat()` -/
def isoFormat (t : DateTime) : String :=
  let seconds := t.micro / 1000000
  let fraction := t.micro % 1000000
  String.ofList (padded 4 t.year ++ '-' :: padded 2 t.month ++ '-' :: padded 2 t.day ++
    'T' :: padded 2 (seconds / 3600) ++ ':' :: padded 2 (seconds / 60 % 60) ++
    ':' :: padded 2 (seconds % 60) ++ (if fraction = 0 then [] else '.' :: padded 6 fraction) ++
    "+00:00".toList)

/-- A numeral of exactly this width, and what follows it. -/
def digits? (width : Nat) (chars : List Char) : Option (Nat × List Char) :=
  if (chars.take width).length = width ∧ (chars.take width).all Char.isDigit then
    some (Nat.ofDigitChars 10 (chars.take width) 0, chars.drop width)
  else none

/-- The rest after this separator. -/
def after? (separator : Char) (chars : List Char) : Option (List Char) :=
  if chars.head? = some separator then some chars.tail else none

/-- `HH:MM`, in minutes. -/
def minutes? (chars : List Char) : Option (Nat × List Char) := do
  let (hours, chars) ← digits? 2 chars
  let (minutes, chars) ← digits? 2 (← after? ':' chars)
  if hours < 24 ∧ minutes < 60 then some (hours * 60 + minutes, chars) else none

/-- The UTC offset in minutes, or none. -/
def offset? (chars : List Char) : Option (Option Int) :=
  match chars with
  | [] => some none
  | sign :: chars => do
    let (minutes, rest) ← minutes? chars
    if rest = [] ∧ sign = '+' then some (some minutes)
    else if rest = [] ∧ sign = '-' then some (some (-minutes))
    else none

/-- `YYYY-MM-DDTHH:MM:SS`, an optional fraction of six digits and an optional offset. -/
def isoFields (chars : List Char) : Option (DateTime × Option Int) := do
  let (year, chars) ← digits? 4 chars
  let (month, chars) ← digits? 2 (← after? '-' chars)
  let (day, chars) ← digits? 2 (← after? '-' chars)
  let (minutes, chars) ← minutes? (← after? 'T' chars)
  let (seconds, chars) ← digits? 2 (← after? ':' chars)
  let (micros, chars) ←
    match after? '.' chars with
    | none => some (0, chars)
    | some chars => digits? 6 chars
  let civil ← DateTime.of? year month day ((minutes * 60 + seconds) * 1000000 + micros)
  let offset ← offset? chars
  if seconds < 60 then some (civil, offset) else none

def fromIsoFormat (text : String) : Except TimeError ParsedDateTime :=
  match isoFields text.toList with
  | none => .error .value
  | some (civil, none) => .ok (.naive civil)
  | some (civil, some minutes) => .ok (.aware civil (minutes * 60000000))

example : isoFields (isoFormat ⟨2026, 2, 3, 3600000001, by decide⟩).toList =
    some (⟨2026, 2, 3, 3600000001, by decide⟩, some 0) := by
  decide +kernel

/-- The civil date this many days after the first of March of year 0. -/
def civilOfDays (days : Nat) : Nat × Nat × Nat :=
  let era := days / 146097
  let dayOfEra := days % 146097
  let yearOfEra := (dayOfEra - dayOfEra / 1460 + dayOfEra / 36524 - dayOfEra / 146096) / 365
  let dayOfYear := dayOfEra - (365 * yearOfEra + yearOfEra / 4 - yearOfEra / 100)
  let shifted := (5 * dayOfYear + 2) / 153
  let month := if shifted < 10 then shifted + 3 else shifted - 9
  (yearOfEra + era * 400 + (if month ≤ 2 then 1 else 0), month,
    dayOfYear - (153 * shifted + 2) / 5 + 1)

/-- The time of a whole number of seconds since 1970. -/
def fromTimestamp : Value → Except TimeError DateTime
  | .int seconds =>
    let days := (seconds / 86400 + 719468).toNat
    let (year, month, day) := civilOfDays days
    match DateTime.of? year month day ((seconds % 86400).toNat * 1000000) with
    | some t => .ok t
    | none => .error .value
  | _ => .error .overflow

example : (fromTimestamp (.int 1700000000)).toOption =
    some ⟨2023, 11, 14, 80000000000, by decide⟩ := by
  decide +kernel

/-! ### The runtime -/

def isSpace (c : Char) : Bool := c = ' ' || c = '\t' || c = '\n' || c = '\r'

def strip (text : String) : String :=
  String.ofList ((text.toList.dropWhile isSpace).reverse.dropWhile isSpace).reverse

def lower (text : String) : String := String.ofList (text.toList.map Char.toLower)

def upper (text : String) : String := String.ofList (text.toList.map Char.toUpper)

/-- `str(value)` of the scalar values. -/
def strOf : Value → String
  | .null => "None"
  | .bool true => "True"
  | .bool false => "False"
  | value => dumps value

/-- `int(text)` of a plain numeral. -/
def parseInt? (text : String) : Option Int :=
  match parseInt (strip text).toList with
  | some (n, []) => some n
  | _ => none

/-- `type:subject` -/
def jwtEncode (claims : TokenClaims) : String := claims.type ++ ":" ++ claims.sub

def jwtDecode (token : String) : Option TokenClaims :=
  (after? ':' (token.toList.dropWhile (· ≠ ':'))).map fun subject =>
    ⟨String.ofList subject, String.ofList (token.toList.takeWhile (· ≠ ':'))⟩

def settings : Settings := ⟨"development", 7, 30, 15⟩

def runtime : Runtime where
  settings := settings
  strip := strip
  lower := lower
  upper := upper
  lower_ascii _ _ := rfl
  upper_ascii _ _ := rfl
  sqlLower := lower
  uuidText := uuidText
  parseUuid := parseUuid
  parseUuid_uuidText := parseUuid_uuidText
  strOf := strOf
  fromTimestamp := fromTimestamp
  fromIsoFormat := fromIsoFormat
  isoFormat := isoFormat
  parseInt := parseInt?
  hashToken := id
  dumps := dumps
  loads := loads
  loads_dumps := loads_dumps
  jwtDecode token _ := jwtDecode token
  jwtEncode claims _ _ := jwtEncode claims
  hashPassword := id
  verifyPassword password hash := password = hash

theorem lower_lower (text : String) : lower (lower text) = lower text := by
  have hchar : ∀ c : Char, c.toLower.toLower = c.toLower := by
    intro c
    delta Char.toLower
    grind
  simp [lower, Function.comp_def, hchar]

/-! ### States -/

/-- A database by its tables. -/
structure Tables where
  users : List User := []
  refreshTokens : List RefreshToken := []
  organizations : List Organization := []
  memberships : List Membership := []
  invitations : List Invitation := []
  apiKeys : List ApiKey := []
  projects : List Project := []
  subscriptions : List Subscription := []
  usageEvents : List UsageEvent := []
  webhookEvents : List WebhookEvent := []
  auditLogs : List AuditLog := []

def Tables.db (tables : Tables) : Db
  | .users => tables.users
  | .refreshTokens => tables.refreshTokens
  | .organizations => tables.organizations
  | .memberships => tables.memberships
  | .invitations => tables.invitations
  | .apiKeys => tables.apiKeys
  | .projects => tables.projects
  | .subscriptions => tables.subscriptions
  | .usageEvents => tables.usageEvents
  | .webhookEvents => tables.webhookEvents
  | .auditLogs => tables.auditLogs

/-- The keys of these rows are unique. -/
def ValidRows {t : Table} (rows : List (Row t)) : Prop :=
  (rows.map rowId).Nodup ∧ ∀ a ∈ rows, ∀ b ∈ rows, ∀ u ∈ uniqueValues a, u ∈ uniqueValues b →
    rowId a = rowId b

instance {t : Table} (rows : List (Row t)) : Decidable (ValidRows rows) :=
  inferInstanceAs (Decidable ((rows.map rowId).Nodup ∧ ∀ a ∈ rows, ∀ b ∈ rows, ∀ u ∈ uniqueValues a,
    u ∈ uniqueValues b → rowId a = rowId b))

def allTables : List Table :=
  [.users, .refreshTokens, .organizations, .memberships, .invitations, .apiKeys, .projects,
    .subscriptions, .usageEvents, .webhookEvents, .auditLogs]

def ValidDb (db : Db) : Prop := ∀ t ∈ allTables, ValidRows (t := t) (db t)

instance (db : Db) (t : Table) : Decidable (ValidRows (t := t) (db t)) :=
  inferInstanceAs (Decidable (@ValidRows t (db t)))

instance (db : Db) : Decidable (ValidDb db) :=
  inferInstanceAs (Decidable (∀ t ∈ allTables, ValidRows (t := t) (db t)))

theorem ValidDb.integral {db : Db} (h : ValidDb db) : db.Integral where
  nodup t := (h t (by cases t <;> decide)).1
  unique t := (h t (by cases t <;> decide)).2

/-- The ids from 1000 on. -/
def ids : Supply Uuid := ⟨fun n => 1000 + n, fun _ _ h => Nat.add_left_cancel h, 0⟩

theorem not_holds_of_lt {id : Uuid} (h : id < 1000) : ¬ids.Holds id := by
  rintro ⟨n, _, hn⟩
  exact Nat.not_lt.mpr (hn ▸ Nat.le_add_right 1000 n) h

/-- The ids that will be drawn name no row. -/
theorem lookup_of_holds {db : Db} (h : ∀ t ∈ allTables, ∀ id ∈ (db t).map rowId, id < 1000) (t : Table)
    (id : Uuid) (hid : ids.Holds id) : db.lookup t id = none := by
  refine Store.lookup_eq_none.mpr fun row hrow hsame => not_holds_of_lt ?_ hid
  rw [← hsame]
  exact h t (by cases t <;> decide) _ (List.mem_map_of_mem hrow)

/-- A queue without entries, Redis without faults and a rate limiter that lets everybody pass. -/
def env (clock : Nat → DateTime) : Env where
  clock := clock
  ticks := 0
  databaseClock := clock
  stamps := 0
  tokens n := String.ofList (printNat n)
  issued := 0
  verdicts _ _ := none
  checks := 0
  redisFaults _ := false
  commands := 0
  jobs := []
  processing := []
  deadLetters := []
  enqueued := []
  finished := []
  acknowledged := []
  sleeps := []

def shared (T : Type) (clock : Nat → DateTime) (tables : Tables) : Shared schema Env T :=
  ⟨tables.db, env clock, ids, []⟩

instance neZeroDays : NeZero 28 := ⟨by decide⟩

/-- The first of February 2026 and some days, at noon. -/
def noon (day : Fin 28) : DateTime where
  year := 2026
  month := 2
  day := day + 1
  micro := 43200000000
  valid := ⟨by decide, by decide, ⟨Nat.le_add_left _ _, day.isLt⟩, by decide⟩

theorem noon_le {a b : Fin 28} (h : a ≤ b) : noon a ≤ noon b := by
  rw [DateTime.le_iff]
  simp only [noon, DateTime.key, microsPerDay]
  omega

theorem noon_lt {a b : Fin 28} (h : a < b) : noon a < noon b := by
  rw [DateTime.lt_iff]
  simp only [noon, DateTime.key, microsPerDay]
  omega

/-- A clock that goes forward by a day at each reading, until the end of the month. -/
def daily (n : Nat) : DateTime := noon ⟨min n 27, by omega⟩

theorem daily_monotone : Monotone daily := fun _ _ h => noon_le (by simp; omega)

/-- An active user with the address `user-<id>`. -/
def user (id : Uuid) : User where
  id := id
  email := "user-" ++ String.ofList (printNat id)
  passwordHash := "password"
  isActive := true
  isVerified := true
  createdAt := noon 0
  updatedAt := noon 0

def organization (id : Uuid) : Organization where
  id := id
  name := "Organization"
  slug := "organization-" ++ String.ofList (printNat id)
  createdAt := noon 0
  updatedAt := noon 0

def member (id userId organizationId : Uuid) (role : Role) : Membership :=
  ⟨id, userId, organizationId, role, noon 0⟩

/-- An active subscription for the days from `start` to `stop`. -/
def subscription (id organizationId : Uuid) (plan : Plan) (start stop : Fin 28) : Subscription where
  id := id
  organizationId := organizationId
  plan := plan
  status := .active
  externalCustomerId := none
  externalSubscriptionId := none
  currentPeriodStart := noon start
  currentPeriodEnd := noon stop
  createdAt := noon 0
  updatedAt := noon 0

def usageEvent (id organizationId : Uuid) (quantity : Int) (day : Fin 28) : UsageEvent :=
  ⟨id, organizationId, apiRequestsMetric, quantity, noon day⟩

/-- A pending invitation of a member, which expires on a day. The token is its own hash. -/
def invitation (id organizationId : Uuid) (email token : String) (stop : Fin 28) : Invitation where
  id := id
  organizationId := organizationId
  email := email
  role := .member
  tokenHash := token
  expiresAt := noon stop
  acceptedAt := none
  createdBy := 1
  createdAt := noon 0

/-- The `Authorization` header of a user. -/
def bearer (userId : Uuid) : Option Credentials :=
  some ⟨"Bearer", jwtEncode ⟨uuidText userId, "access"⟩⟩

end TenantForge.Reference
