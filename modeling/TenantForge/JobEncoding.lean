import TenantForge.Infrastructure.Queue
import TenantForge.PyJson.Decoder
/-!
# The text of a job (`app/infrastructure/queue.py`)

An entry of the processing list is removed by its text, which is that of the decoded job encoded again.
The queue takes its codec as promised to it; here it is that of `json`, and the strings and payloads are
all that a producer can give. A job is encoded as before (`Stable`) exactly when its integers have texts
and no dict of its payload has two keys with one text (`after_stable_iff`), and the further attempts of such a
job are stable as long as their numbers have texts.
-/

namespace TenantForge.Encoding

open PyJson (Text CodePoint FloatFormat InRange)

/-! ### Jobs -/

structure Job (F : Type) where
  id : Text
  type : Text
  payload : List (Text × PyJson.Value F)
  attempt : Int
  createdAt : Text

/-- What `str` and `int` make of decoded values: `str(value)` of one that is no string, and `int(value)`
of a finite float and of a string. -/
structure Builtins (F : Type) where
  strOf : PyJson.Value F → Except Exn Text
  truncate : F → Int
  parseInt : Text → Option Int

variable {F : Type} (float : FloatFormat F) (py : Builtins F)

/-- A string without surrogates. -/
def text (string : String) : Text := string.toList.map CodePoint.ofChar

/-- `str(value)` -/
def str : PyJson.Value F → Except Exn Text
  | .str text => .ok text
  | value => py.strOf value

/-- `int(value)` -/
def toInt : PyJson.Value F → Except Exn Int
  | .int n => .ok n
  | .bool b => .ok (if b then 1 else 0)
  | .float (.finite x) => .ok (py.truncate x)
  | .float (.infinite _) => .error .overflowError
  | .float .nan => .error (.valueError "cannot convert float NaN to integer")
  | .str text =>
    match py.parseInt text with
    | some n => .ok n
    | none => .error (.valueError "invalid literal for int()")
  | _ => .error .typeError

/-- `data.get(key)` -/
def get? (data : List (Text × PyJson.Value F)) (key : Text) : Option (PyJson.Value F) :=
  (data.find? fun field => field.1 = key).map Prod.snd

/-- `data[key]` -/
def requireKey (data : List (Text × PyJson.Value F)) (key : Text) : Except Exn (PyJson.Value F) :=
  match get? data key with
  | some value => .ok value
  | none => .error .keyError

namespace Job

/-- `asdict(job)` -/
def asDict (job : Job F) : List (Text × PyJson.Value F) :=
  [(text "id", .str job.id), (text "type", .str job.type), (text "payload", .dict job.payload),
    (text "attempt", .int job.attempt), (text "created_at", .str job.createdAt)]

def toJson (job : Job F) : Except Exn (List Char) :=
  match PyJson.dumps float (.dict job.asDict) with
  | some raw => .ok raw
  | none => .error (.valueError "Exceeds the limit (4300 digits) for integer string conversion")

def fromJson (raw : List Char) : Except Exn (Job F) :=
  match PyJson.loads float PyJson.dict raw with
  | none => .error (.valueError "invalid JSON")
  | some (.dict data) =>
    match get? data (text "payload") with
    | some (.dict payload) => do
      let id ← requireKey data (text "id")
      let id ← str py id
      let type ← requireKey data (text "type")
      let type ← str py type
      let attempt ← requireKey data (text "attempt")
      let attempt ← toInt py attempt
      let createdAt ← requireKey data (text "created_at")
      let createdAt ← str py createdAt
      .ok ⟨id, type, payload, attempt, createdAt⟩
    | _ => .error (.valueError "invalid job payload")
  | some _ => .error (.valueError "invalid job payload")

def nextAttempt (job : Job F) : Job F := { job with attempt := job.attempt + 1 }

/-- What is decoded from the text of a job. -/
def decoded (job : Job F) : Job F where
  id := PyJson.normText job.id
  type := PyJson.normText job.type
  payload := PyJson.dict (PyJson.decodedFields PyJson.dict job.payload)
  attempt := job.attempt
  createdAt := PyJson.normText job.createdAt

/-- The job is decoded from its text, and encoded as before. -/
def Stable (job : Job F) : Prop :=
  ∃ raw decoded, job.toJson float = .ok raw ∧ fromJson float py raw = .ok decoded ∧
    decoded.toJson float = .ok raw

/-- The job after further attempts, each of them decoded from the text of the one before. -/
def after : Nat → Job F → Except Exn (Job F)
  | 0, job => .ok job
  | attempts + 1, job => do
    let raw ← job.toJson float
    let decoded ← fromJson float py raw
    after attempts decoded.nextAttempt

variable {float py}

theorem toJson_eq_ok {job : Job F} {raw : List Char} :
    job.toJson float = .ok raw ↔ PyJson.dumps float (.dict job.asDict) = some raw := by
  rw [toJson]
  split <;> simp_all

/-- The names of the fields are decoded as they are. -/
theorem decoded_asDict (job : Job F) :
    (PyJson.Value.dict job.asDict).decoded PyJson.dict = .dict job.decoded.asDict := by
  have hkeys : (job.decoded.asDict.map Prod.fst).Nodup := by
    change [text "id", text "type", text "payload", text "attempt", text "created_at"].Nodup
    decide
  exact congrArg PyJson.Value.dict (PyJson.dict_eq_self hkeys)

theorem fromJson_toJson {job : Job F} {raw : List Char} (h : job.toJson float = .ok raw) :
    fromJson float py raw = .ok job.decoded := by
  rw [fromJson, PyJson.loads_dumps PyJson.dict (toJson_eq_ok.mp h), decoded_asDict]
  rfl

theorem clear_asDict (job : Job F) :
    (PyJson.Value.dict job.asDict).Clear ↔ (PyJson.Value.dict job.payload).Clear := by
  have hkeys : ((job.asDict.map Prod.fst).map PyJson.units).Nodup := by
    change ([text "id", text "type", text "payload", text "attempt", text "created_at"].map
      PyJson.units).Nodup
    decide
  simp only [PyJson.Value.Clear, PyJson.Value.Every, hkeys, true_and]
  simp [asDict, PyJson.EveryField, PyJson.Value.Every]

theorem fits_asDict (job : Job F) :
    (PyJson.Value.dict job.asDict).Fits ↔ (PyJson.Value.dict job.payload).Fits ∧ InRange job.attempt := by
  simp [PyJson.Value.Fits, asDict, PyJson.EveryField, PyJson.Value.Every]

variable (float) in
theorem toJson_ok_iff {job : Job F} : (∃ raw, job.toJson float = .ok raw) ↔
    (PyJson.Value.dict job.payload).Fits ∧ InRange job.attempt := by
  rw [← fits_asDict, ← PyJson.dumps_isSome float, Option.isSome_iff_exists]
  exact exists_congr fun _ => toJson_eq_ok

theorem toJson_decoded {job : Job F} {raw : List Char} (h : job.toJson float = .ok raw) :
    job.decoded.toJson float = .ok raw ↔ (PyJson.Value.dict job.payload).Clear := by
  rw [toJson_eq_ok, ← decoded_asDict, PyJson.redumps_iff (toJson_eq_ok.mp h), clear_asDict]

/-- **One encoding is stable** if and only if the integers have texts, and the keys different ones. -/
theorem stable_iff (job : Job F) : job.Stable float py ↔
    (PyJson.Value.dict job.payload).Fits ∧ (PyJson.Value.dict job.payload).Clear ∧ InRange job.attempt := by
  refine ⟨?_, ?_⟩
  · rintro ⟨raw, again, hraw, hdecoded, hagain⟩
    rw [fromJson_toJson hraw, Except.ok.injEq] at hdecoded
    subst hdecoded
    obtain ⟨hfits, hrange⟩ := (toJson_ok_iff float).mp ⟨raw, hraw⟩
    exact ⟨hfits, (toJson_decoded hraw).mp hagain, hrange⟩
  · rintro ⟨hfits, hclear, hrange⟩
    obtain ⟨raw, hraw⟩ := (toJson_ok_iff float).mpr ⟨hfits, hrange⟩
    exact ⟨raw, job.decoded, hraw, fromJson_toJson hraw, (toJson_decoded hraw).mpr hclear⟩

/-- What holds of the payload of a job holds of the decoded one. -/
theorem decoded_payload (float : FloatFormat F) {job : Job F}
    (hfits : (PyJson.Value.dict job.payload).Fits) (hclear : (PyJson.Value.dict job.payload).Clear) :
    (PyJson.Value.dict job.decoded.payload).Fits ∧ (PyJson.Value.dict job.decoded.payload).Clear := by
  refine ⟨?_, PyJson.clear_decoded_dict (.dict job.payload)⟩
  change ((PyJson.Value.dict job.payload).decoded PyJson.dict).Fits
  rw [PyJson.decoded_dict _ hclear, ← PyJson.dumps_isSome float, PyJson.dumps_decoded,
    PyJson.dumps_isSome]
  exact hfits

theorem after_succ {job : Job F} {raw : List Char} (h : job.toJson float = .ok raw) (attempts : Nat) :
    job.after float py (attempts + 1) = job.decoded.nextAttempt.after float py attempts := by
  rw [after, h]
  change (fromJson float py raw).bind _ = _
  rw [fromJson_toJson h]
  rfl

theorem forall_le_succ {n : Nat} {p : Nat → Prop} :
    (∀ k ≤ n + 1, p k) ↔ p 0 ∧ ∀ k ≤ n, p (k + 1) := by
  refine ⟨fun h => ⟨h 0 (Nat.zero_le _), fun k hk => h (k + 1) (Nat.succ_le_succ hk)⟩, ?_⟩
  rintro ⟨hzero, hsucc⟩ (_ | k) hk
  · exact hzero
  · exact hsucc k (Nat.le_of_succ_le_succ hk)

/-- **The text of a job is stable** through any number of further attempts if and only if the integers
of the payload and the numbers of the attempts have texts, and no dict of the payload has two keys with
one text. -/
theorem after_stable_iff (float : FloatFormat F) (py : Builtins F) (job : Job F) (attempts : Nat) :
    (∀ k ≤ attempts, ∃ reached, job.after float py k = .ok reached ∧ reached.Stable float py) ↔
      (PyJson.Value.dict job.payload).Fits ∧ (PyJson.Value.dict job.payload).Clear ∧
        ∀ k ≤ attempts, InRange (job.attempt + k) := by
  induction attempts generalizing job with
  | zero => simp [after, stable_iff]
  | succ attempts ih =>
    rw [forall_le_succ, forall_le_succ]
    have hnow : (∃ reached, job.after float py 0 = .ok reached ∧ reached.Stable float py) ↔
        job.Stable float py := by simp [after]
    have hattempt : ∀ k : Nat, job.attempt + ((k + 1 : Nat) : Int) = job.decoded.nextAttempt.attempt + k := by
      intro k
      change _ = job.attempt + 1 + (k : Int)
      omega
    have hzero : job.attempt + ((0 : Nat) : Int) = job.attempt := Int.add_zero _
    rw [hnow, stable_iff, hzero]
    simp only [hattempt]
    -- both sides say that the payload is fit, and then the next attempt is what the induction is about
    have hnext : (PyJson.Value.dict job.payload).Fits → (PyJson.Value.dict job.payload).Clear →
        InRange job.attempt →
          ((∀ k ≤ attempts, ∃ reached, job.after float py (k + 1) = .ok reached ∧
              reached.Stable float py) ↔
            ∀ k ≤ attempts, InRange (job.decoded.nextAttempt.attempt + k)) := by
      intro hfits hclear hrange
      obtain ⟨raw, hraw⟩ := (toJson_ok_iff float).mpr ⟨hfits, hrange⟩
      obtain ⟨hfits', hclear'⟩ := decoded_payload float hfits hclear
      simp only [after_succ hraw]
      rw [ih job.decoded.nextAttempt]
      exact ⟨fun h => h.2.2, fun h => ⟨hfits', hclear', h⟩⟩
    constructor
    · rintro ⟨⟨hfits, hclear, hrange⟩, hrest⟩
      exact ⟨hfits, hclear, hrange, (hnext hfits hclear hrange).mp hrest⟩
    · rintro ⟨hfits, hclear, hrange, hrest⟩
      exact ⟨⟨hfits, hclear, hrange⟩, (hnext hfits hclear hrange).mpr hrest⟩

end Job

/-! ### The jobs of the queue

The strings of the queue's model have no surrogates, and its payloads no tuples and no other objects.
Such a job comes back as it was, as the queue takes for granted of its codec, if the keys of each dict
differ, as those of a dict do. -/

mutual

def embed (finite : Rat → F) : Value → PyJson.Value F
  | .null => .null
  | .bool b => .bool b
  | .int n => .int n
  | .float (.finite q) => .float (.finite (finite q))
  | .float (.infinite negative) => .float (.infinite negative)
  | .float .nan => .float .nan
  | .str string => .str (text string)
  | .list items => .list (embedItems finite items)
  | .dict fields => .dict (embedFields finite fields)

def embedItems (finite : Rat → F) : List Value → List (PyJson.Value F)
  | [] => []
  | item :: items => embed finite item :: embedItems finite items

def embedFields (finite : Rat → F) : List (String × Value) → List (Text × PyJson.Value F)
  | [] => []
  | (key, item) :: fields => (text key, embed finite item) :: embedFields finite fields

end

mutual

/-- The keys of each dict differ. -/
def KeysDiffer : Value → Prop
  | .list items => ItemKeysDiffer items
  | .dict fields => (fields.map Prod.fst).Nodup ∧ FieldKeysDiffer fields
  | _ => True

def ItemKeysDiffer : List Value → Prop
  | [] => True
  | item :: items => KeysDiffer item ∧ ItemKeysDiffer items

def FieldKeysDiffer : List (String × Value) → Prop
  | [] => True
  | (_, item) :: fields => KeysDiffer item ∧ FieldKeysDiffer fields

end

theorem normText_text (string : String) : PyJson.normText (text string) = text string := by
  refine PyJson.normText_eq_self fun c hc => ?_
  obtain ⟨char, -, rfl⟩ := List.mem_map.mp hc
  simp only [PyJson.IsHigh, PyJson.IsLow, CodePoint.ofChar]
  rcases char.valid with hvalid | hvalid
  · have hlt : char.toNat < 0xD800 := hvalid
    omega
  · have hgt : 0xDFFF < char.toNat := hvalid.1
    omega

theorem text_injective : Function.Injective text := by
  intro a b h
  have hchar : Function.Injective CodePoint.ofChar := fun c d hcd =>
    Char.toNat_inj.mp (congrArg CodePoint.val hcd)
  exact String.toList_inj.mp (List.map_injective_iff.mpr hchar h)

variable {finite : Rat → F}

theorem keys_embedFields (fields : List (String × Value)) :
    (embedFields finite fields).map Prod.fst = (fields.map Prod.fst).map text := by
  induction fields with
  | nil => rfl
  | cons field fields ih => rw [embedFields, List.map_cons, List.map_cons, List.map_cons, ih]

mutual

theorem decoded_embed : ∀ value : Value, KeysDiffer value →
    (embed finite value).decoded PyJson.dict = embed finite value
  | .null, _ | .bool _, _ | .int _, _ => rfl
  | .float (.finite _), _ | .float (.infinite _), _ | .float .nan, _ => rfl
  | .str string, _ => by rw [embed, PyJson.Value.decoded, normText_text]
  | .list items, h => by rw [embed, PyJson.Value.decoded, decodedItems_embed items h]
  | .dict fields, ⟨hkeys, hfields⟩ => by
    have hnodup : ((embedFields finite fields).map Prod.fst).Nodup := by
      rw [keys_embedFields]
      exact hkeys.map text_injective
    rw [embed, PyJson.Value.decoded, decodedFields_embed fields hfields, PyJson.dict_eq_self hnodup]

theorem decodedItems_embed : ∀ items : List Value, ItemKeysDiffer items →
    PyJson.decodedItems PyJson.dict (embedItems finite items) = embedItems finite items
  | [], _ => rfl
  | item :: items, h => by
    rw [embedItems, PyJson.decodedItems, decoded_embed item h.1, decodedItems_embed items h.2]

theorem decodedFields_embed : ∀ fields : List (String × Value), FieldKeysDiffer fields →
    PyJson.decodedFields PyJson.dict (embedFields finite fields) = embedFields finite fields
  | [], _ => rfl
  | (key, item) :: fields, h => by
    rw [embedFields, PyJson.decodedFields, normText_text, decoded_embed item h.1,
      decodedFields_embed fields h.2]

end

/-- A job of the queue's model. -/
def embedJob (finite : Rat → F) (job : TenantForge.Job) : Job F where
  id := text job.id
  type := text job.type
  payload := embedFields finite job.payload
  attempt := job.attempt
  createdAt := text job.createdAt

/-- **A job of the queue** survives its own encoding. -/
theorem fromJson_toJson_embedJob {job : TenantForge.Job} {raw : List Char}
    (hkeys : KeysDiffer (.dict job.payload)) (hraw : (embedJob finite job).toJson float = .ok raw) :
    Job.fromJson float py raw = .ok (embedJob finite job) := by
  have hembed : (embed finite (.dict job.payload)).decoded PyJson.dict = _ := decoded_embed _ hkeys
  have hpayload := PyJson.Value.dict.inj hembed
  rw [Job.fromJson_toJson hraw, Job.decoded]
  simp only [embedJob, normText_text, hpayload]

namespace Reference

/-- The floats from `0.0` to `9.0`. -/
def floatFormat : FloatFormat (Fin 10) where
  repr d := [Nat.digitChar d, '.', '0']
  parse
    | [c, '.', '0'] => if h : c.toNat - 48 < 10 then .finite ⟨c.toNat - 48, h⟩ else .nan
    | _ => .nan
  numeral_repr := by decide
  parse_repr := by decide

def builtins : Builtins (Fin 10) where
  strOf _ := .ok []
  truncate d := d.val
  parseInt _ := none

def job (payload : List (Text × PyJson.Value (Fin 10))) : Job (Fin 10) where
  id := text "6f1c3a52-0d3b-4a57-9a35-2f9f0c9d3f10"
  type := text "usage_report"
  payload := payload
  attempt := 0
  createdAt := text "2026-02-10T12:00:00+00:00"

/-- Two keys: the two halves of a surrogate pair, and the code point of the pair. -/
def paired : Job (Fin 10) :=
  job [([⟨0xD83D, by decide⟩, ⟨0xDE00, by decide⟩], .int 1), ([⟨0x1F600, by decide⟩], .int 2)]

/-- A number with one digit too many. -/
def manyDigits : Job (Fin 10) := job [(text "count", .int ((10 ^ Python.maxDigits : Nat) : Int))]

theorem not_clear_paired : ¬(PyJson.Value.dict paired.payload).Clear := by
  rintro ⟨hkeys, -⟩
  revert hkeys
  decide

/-- One of two fields is lost with the pair, and a number with too many digits has no text. -/
theorem paired_unstable :
    (∃ raw decoded, paired.toJson floatFormat = .ok raw ∧
      Job.fromJson floatFormat builtins raw = .ok decoded ∧ decoded.toJson floatFormat ≠ .ok raw) ∧
    manyDigits.toJson floatFormat =
      .error (.valueError "Exceeds the limit (4300 digits) for integer string conversion") := by
  constructor
  · have hdigit : ∀ n : Int, n.natAbs < 10 → InRange n := fun n hn =>
      hn.trans_le (Nat.le_self_pow (by decide) 10)
    have hfits : (PyJson.Value.dict paired.payload).Fits ∧ InRange paired.attempt :=
      ⟨⟨trivial, hdigit 1 (by decide), hdigit 2 (by decide), trivial⟩, hdigit 0 (by decide)⟩
    obtain ⟨raw, hraw⟩ := (Job.toJson_ok_iff floatFormat).mpr hfits
    exact ⟨raw, paired.decoded, hraw, Job.fromJson_toJson hraw,
      fun hagain => not_clear_paired ((Job.toJson_decoded hraw).mp hagain)⟩
  · have hdumps : PyJson.dumps floatFormat (.dict manyDigits.asDict) = none := by
      rw [← Option.not_isSome_iff_eq_none, PyJson.dumps_isSome, Job.fits_asDict]
      rintro ⟨⟨-, hcount, -⟩, -⟩
      exact absurd hcount (Nat.lt_irrefl _)
    rw [Job.toJson, hdumps]

end Reference

end TenantForge.Encoding
