import TenantForge.Reference.Runtime
import TenantForge.Services.Signatures
/-!
# What a signature proves

`verify_eq` is `verify_webhook_signature` after its header was read. From it follow the headers that make
it raise something else than an `AppError` (`verify_settles_iff`): an integer that is no float, and a
`v1` value that `compare_digest` refuses. A header that passes carries a digest of this payload at this
time, and additions to a header that was built do no harm (`verify_binds`).
-/

namespace TenantForge

open Python

variable {hmac : Hmac} {clock : PyFloat} {payload : List UInt8} {signatureHeader : Option String}
  {header : String} {secret : String} {now : Option PyNumber} {tolerance timestamp : Int}

/-! ### Comparing -/

theorem isAscii_of_hex {c : Char} (h : c ∈ "0123456789abcdef".toList) : isAscii c = true :=
  List.all_eq_true.mp (by decide : "0123456789abcdef".toList.all isAscii = true) c h

theorem Hmac.isAscii (hmac : Hmac) (key message : List UInt8) :
    (hmac.hexdigest key message).all Python.isAscii = true :=
  List.all_eq_true.mpr fun c hc => isAscii_of_hex (hmac.hex key message c hc)

/-- The values are compared up to the first match. -/
theorem anyMatches_eq {expected : List Char} (hexpected : expected.all isAscii = true)
    (values : List (List Char)) :
    anyMatches expected values =
      if (values.takeWhile (· ≠ expected)).all (·.all isAscii) then .ok (expected ∈ values : Bool)
      else .error .typeError := by
  induction values with
  | nil => simp [anyMatches]
  | cons value values ih =>
    by_cases hsame : value = expected
    · subst hsame
      simp [anyMatches, compareDigest, hexpected, bind, Except.bind]
    · rw [anyMatches, compareDigest, hexpected, Bool.true_and, List.takeWhile_cons_of_pos (by simp [hsame]),
        List.all_cons]
      cases hascii : value.all isAscii with
      | false => rfl
      | true =>
        simp only [if_true, bind, Except.bind, Ne.symm hsame, decide_false, Bool.false_eq_true, if_false,
          Bool.true_and, ih, List.mem_cons, false_or]

/-! ### Verifying -/

/-- The integer of the header's first non-empty `t` part. -/
def headerTimestamp (header : String) : Option Int :=
  (valuesOf "t" (signatureItems header.toList)).head?.bind parseInt

/-- The `v1` values of a header. -/
def headerSignatures (header : String) : List (List Char) :=
  valuesOf "v1" (signatureItems header.toList)

/-- The digest that signs a payload at a time. -/
def digestAt (hmac : Hmac) (secret : String) (payload : List UInt8) (timestamp : Int) : List Char :=
  hmac.hexdigest (encode secret.toList) (signedPayload (toString timestamp).toList payload)

theorem digestAt_isAscii (hmac : Hmac) (secret : String) (payload : List UInt8) (timestamp : Int) :
    (digestAt hmac secret payload timestamp).all isAscii = true :=
  hmac.isAscii _ _

/-- What follows once the timestamp is read. -/
theorem verify_eq (h : headerTimestamp header = some timestamp) :
    verifyWebhookSignature hmac clock payload (some header) secret now tolerance =
      if tolerance < 0 then .error (invalidSignature "Webhook signature has expired")
      else match (now.getD (.float clock)).subInt timestamp with
        | none => .error .overflowError
        | some elapsed =>
          if elapsed.absExceeds tolerance then .error (invalidSignature "Webhook signature has expired")
          else (anyMatches (digestAt hmac secret payload timestamp) (headerSignatures header)).bind
            fun matched =>
              if matched then .ok () else .error (invalidSignature "Invalid webhook signature") := by
  have hne : header ≠ "" := by
    rintro rfl
    cases h
  obtain ⟨numeral, -, hparse⟩ := Option.bind_eq_some_iff.mp h
  have htext : timestampText timestamp = .ok (toString timestamp).toList := by
    rw [timestampText, intText_of_parseInt hparse]
  rw [headerTimestamp] at h
  simp only [verifyWebhookSignature, Option.filter_some, hne, ne_eq, not_false_eq_true, decide_true,
    if_true, h, bind, Except.bind]
  by_cases htolerance : tolerance < 0
  · simp [htolerance]
  · simp only [htolerance, if_false, pure, Except.pure]
    cases (now.getD (.float clock)).subInt timestamp with
    | none => rfl
    | some elapsed =>
      by_cases hexceeds : elapsed.absExceeds tolerance = true
      · simp [hexceeds]
      · simp only [hexceeds, htext, Bool.false_eq_true, if_false]
        rw [digestAt, headerSignatures]
        generalize hmac.hexdigest _ _ = expected
        generalize valuesOf "v1" (signatureItems header.toList) = signatures
        cases hmatched : anyMatches expected signatures with
        | error error => rfl
        | ok matched =>
          cases matched with
          | false => simp
          | true =>
            have hsome : signatures ≠ [] := by
              rintro rfl
              cases hmatched
            simp [hsome]

theorem verify_of_headerTimestamp_eq_none (hmac : Hmac) (clock : PyFloat) (payload : List UInt8)
    (secret : String) (now : Option PyNumber) (tolerance : Int) (h : headerTimestamp header = none) :
    ∃ message, verifyWebhookSignature hmac clock payload (some header) secret now tolerance =
      .error (invalidSignature message) := by
  rw [headerTimestamp] at h
  by_cases hne : header = ""
  · exact ⟨_, by simp [verifyWebhookSignature, hne, bind, Except.bind]; rfl⟩
  · exact ⟨_, by
      simp only [verifyWebhookSignature, Option.filter_some, hne, ne_eq, not_false_eq_true, decide_true,
        if_true, h, bind, Except.bind]; rfl⟩

/-! ### What can go wrong -/

theorem utf8EncodeChar_of_isAscii {c : Char} (h : isAscii c = true) :
    String.utf8EncodeChar c = [UInt8.ofNat c.toNat] := by
  have hlt : c.toNat < 128 := by simpa [isAscii] using h
  have hle : c.val.toNat ≤ 127 := Nat.le_of_lt_succ hlt
  rw [String.utf8EncodeChar, if_pos hle]
  rfl

theorem encode_of_isAscii {text : List Char} (h : ∀ c ∈ text, isAscii c = true) :
    encode text = text.map fun c => UInt8.ofNat c.toNat := by
  induction text with
  | nil => rfl
  | cons c text ih =>
    obtain ⟨hc, htext⟩ := List.forall_mem_cons.mp h
    rw [encode, List.flatMap_cons, utf8EncodeChar_of_isAscii hc, ← encode, ih htext]
    rfl

theorem isAscii_of_mem_toString {n : Int} {c : Char} (h : c ∈ (toString n).toList) :
    isAscii c = true := by
  rcases isDigit_of_mem_toString h with hdigit | rfl
  · have hrange := toNat_of_isDigit hdigit
    simp [isAscii]
    omega
  · decide

theorem toNat_ofNat_of_isAscii {c : Char} (h : isAscii c = true) :
    (UInt8.ofNat c.toNat).toNat = c.toNat := by
  have hlt : c.toNat < 128 := by simpa [isAscii] using h
  rw [UInt8.toNat_ofNat', Nat.mod_eq_of_lt (by omega)]

theorem dot_not_mem_encode (n : Int) : (46 : UInt8) ∉ encode (toString n).toList := by
  rw [encode_of_isAscii fun c hc => isAscii_of_mem_toString hc, List.mem_map]
  rintro ⟨c, hc, hdot⟩
  have hnat := congrArg UInt8.toNat hdot
  rw [toNat_ofNat_of_isAscii (isAscii_of_mem_toString hc)] at hnat
  obtain rfl : c = '.' := Char.toNat_inj.mp hnat
  rcases isDigit_of_mem_toString hc with hdigit | hsign
  · exact absurd hdigit (by decide)
  · exact absurd hsign (by decide)

theorem encode_toString_injective {m n : Int}
    (h : encode (toString m).toList = encode (toString n).toList) : m = n := by
  have hm : ∀ c ∈ (toString m).toList, isAscii c = true := fun c hc => isAscii_of_mem_toString hc
  have hn : ∀ c ∈ (toString n).toList, isAscii c = true := fun c hc => isAscii_of_mem_toString hc
  rw [encode_of_isAscii hm, encode_of_isAscii hn] at h
  have hcodes := congrArg (List.map fun b : UInt8 => Char.ofNat b.toNat) h
  have hback : ∀ text : List Char, (∀ c ∈ text, isAscii c = true) →
      (text.map fun c => UInt8.ofNat c.toNat).map (fun b : UInt8 => Char.ofNat b.toNat) = text := by
    intro text htext
    rw [List.map_map]
    refine (List.map_congr_left fun c hc => ?_).trans (List.map_id text)
    rw [Function.comp_apply, toNat_ofNat_of_isAscii (htext c hc), Char.ofNat_toNat]
    rfl
  rw [hback _ hm, hback _ hn] at hcodes
  exact toString_injective (String.toList_injective hcodes)

/-- **The framing is injective**: what stands before the first dot is the timestamp. -/
theorem signedPayload_injective {m n : Int} {p q : List UInt8}
    (h : signedPayload (toString m).toList p = signedPayload (toString n).toList q) : m = n ∧ p = q := by
  obtain ⟨htime, hpayload⟩ := append_cons_inj (dot_not_mem_encode m) (dot_not_mem_encode n) h
  exact ⟨encode_toString_injective htime, hpayload⟩

/-- The digest of a pair that was signed. -/
def IsSignedDigest (hmac : Hmac) (secret : String) (signed : List (List UInt8 × Int))
    (value : List Char) : Prop :=
  ∃ pair ∈ signed, value = digestAt hmac secret pair.1 pair.2

/-- No `v1` value is a digest under the secret but those that were signed. -/
def Unforged (hmac : Hmac) (secret : String) (signed : List (List UInt8 × Int)) (header : String) :
    Prop :=
  ∀ value ∈ headerSignatures header, ∀ message, value = hmac.hexdigest (encode secret.toList) message →
    IsSignedDigest hmac secret signed value

/-- A header whose timestamp is read passes at an integer time if the timestamp is near and the digest is
found before anything that cannot be compared. -/
theorem verify_int_iff {now : Int} (h : headerTimestamp header = some timestamp) :
    verifyWebhookSignature hmac clock payload (some header) secret (some (.int now)) tolerance = .ok () ↔
      |now - timestamp| ≤ tolerance ∧
        digestAt hmac secret payload timestamp ∈ headerSignatures header ∧
        ((headerSignatures header).takeWhile (· ≠ digestAt hmac secret payload timestamp)).all
          (·.all isAscii) = true := by
  rw [verify_eq h]
  by_cases hnear : |now - timestamp| ≤ tolerance
  · have htolerance : ¬tolerance < 0 := not_lt.mpr ((abs_nonneg _).trans hnear)
    simp only [htolerance, if_false, Option.getD_some, PyNumber.subInt, PyNumber.absExceeds,
      decide_eq_true_eq, not_lt.mpr hnear, anyMatches_eq (digestAt_isAscii _ _ _ _), and_iff_right hnear]
    by_cases hascii : ((headerSignatures header).takeWhile
        (· ≠ digestAt hmac secret payload timestamp)).all (·.all isAscii) = true
    · rw [if_pos hascii, and_iff_left hascii]
      by_cases hmem : digestAt hmac secret payload timestamp ∈ headerSignatures header
      · simp [hmem, Except.bind]
      · simp [hmem, Except.bind]
    · rw [if_neg hascii]
      exact iff_of_false (fun herror => (nomatch herror)) fun hall => hascii hall.2
  · refine iff_of_false ?_ fun hall => hnear hall.1
    simp only [Option.getD_some, PyNumber.subInt, PyNumber.absExceeds, decide_eq_true_eq,
      not_le.mp hnear, if_true]
    split <;> exact fun herror => (nomatch herror)

theorem verify_ok {now : Int} (h : verifyWebhookSignature hmac clock payload (some header) secret
    (some (.int now)) tolerance = .ok ()) :
    ∃ timestamp, headerTimestamp header = some timestamp ∧ |now - timestamp| ≤ tolerance ∧
      digestAt hmac secret payload timestamp ∈ headerSignatures header := by
  cases htimestamp : headerTimestamp header with
  | none =>
    obtain ⟨message, hinvalid⟩ := verify_of_headerTimestamp_eq_none hmac clock payload secret
      (some (.int now)) tolerance htimestamp
    cases hinvalid.symm.trans h
  | some timestamp =>
    obtain ⟨hnear, hmem, _⟩ := (verify_int_iff htimestamp).mp h
    exact ⟨timestamp, rfl, hnear, hmem⟩

/-- A signature that passes was made for this payload and this timestamp. -/
theorem signed_of_verify (hinjective : Function.Injective2 hmac.hexdigest) {now : Int}
    {signed : List (List UInt8 × Int)} (hunforged : Unforged hmac secret signed header)
    (h : verifyWebhookSignature hmac clock payload (some header) secret (some (.int now)) tolerance =
      .ok ()) :
    ∃ pair ∈ signed, pair.1 = payload ∧ headerTimestamp header = some pair.2 ∧
      |now - pair.2| ≤ tolerance := by
  obtain ⟨timestamp, htimestamp, hfresh, hmem⟩ := verify_ok h
  obtain ⟨pair, hpair, hdigest⟩ := hunforged _ hmem _ rfl
  obtain ⟨hsame, rfl⟩ := signedPayload_injective (hinjective hdigest).2
  exact ⟨pair, hpair, rfl, hsame ▸ htimestamp, hsame ▸ hfresh⟩

/-! ### Headers that were built -/

theorem mem_valuesOf {key : String} {items : List (List Char × List Char)} {value : List Char} :
    value ∈ valuesOf key items ↔ (key.toList, value) ∈ items := by
  simp [valuesOf]

/-- A part without a comma that is no `t` part and, if it is a `v1` part, has an ASCII value. -/
structure HarmlessPart (part : List Char) : Prop where
  comma : ',' ∉ part
  time : ∀ item, signatureItem part = some item → item.1 ≠ "t".toList
  ascii : ∀ value, signatureItem part = some ("v1".toList, value) → value.all isAscii = true

/-- The first list with blanks around its parts, and with harmless parts inserted anywhere. -/
inductive Extended : List (List Char) → List (List Char) → Prop
  | nil : Extended [] []
  | keep {base parts part before after} (hbefore : ∀ c ∈ before, isSpace c = true)
    (hafter : ∀ c ∈ after, isSpace c = true) (h : Extended base parts) :
    Extended (part :: base) ((before ++ (part ++ after)) :: parts)
  | insert {base parts part} (hpart : HarmlessPart part) (h : Extended base parts) :
    Extended base (part :: parts)

variable {base parts : List (List Char)}

theorem signatureItem_padded {part before after : List Char} (hbefore : ∀ c ∈ before, isSpace c = true)
    (hafter : ∀ c ∈ after, isSpace c = true) :
    signatureItem (before ++ (part ++ after)) = signatureItem part := by
  rw [signatureItem, signatureItem, strip, stripWhere_append hbefore hafter, strip]

theorem Extended.comma (h : Extended base parts) (hbase : ∀ part ∈ base, ',' ∉ part) :
    ∀ part ∈ parts, ',' ∉ part := by
  have hblank : ∀ pad : List Char, (∀ c ∈ pad, isSpace c = true) → ',' ∉ pad := fun pad hpad hmem =>
    absurd (hpad _ hmem) (by decide)
  induction h with
  | nil => exact hbase
  | keep hbefore hafter _ ih =>
    obtain ⟨hpart, hbase⟩ := List.forall_mem_cons.mp hbase
    refine List.forall_mem_cons.mpr ⟨?_, ih hbase⟩
    simp [hblank _ hbefore, hblank _ hafter, hpart]
  | insert hpart _ ih => exact List.forall_mem_cons.mpr ⟨hpart.comma, ih hbase⟩

theorem Extended.ne_nil (h : Extended base parts) (hbase : base ≠ []) : parts ≠ [] := by
  cases h with
  | nil => exact hbase
  | keep => exact List.cons_ne_nil _ _
  | insert => exact List.cons_ne_nil _ _

/-- The `t` parts stay as they are. -/
theorem Extended.times (h : Extended base parts) :
    valuesOf "t" (parts.filterMap signatureItem) = valuesOf "t" (base.filterMap signatureItem) := by
  induction h with
  | nil => rfl
  | keep hbefore hafter _ ih =>
    rw [List.filterMap_cons, List.filterMap_cons, signatureItem_padded hbefore hafter]
    split
    · exact ih
    · rename_i item _
      simp only [valuesOf, List.filter_cons] at ih ⊢
      split
      · rw [List.map_cons, List.map_cons, ih]
      · exact ih
  | @insert _ _ part hpart _ ih =>
    rw [List.filterMap_cons]
    split
    · exact ih
    · rename_i item hitem
      rw [valuesOf, List.filter_cons_of_neg (by simpa using hpart.time item hitem), ← valuesOf, ih]

/-- The `v1` parts are kept, and the others are ASCII. -/
theorem Extended.signatures (h : Extended base parts) :
    (∀ value ∈ valuesOf "v1" (base.filterMap signatureItem),
      value ∈ valuesOf "v1" (parts.filterMap signatureItem)) ∧
    ∀ value ∈ valuesOf "v1" (parts.filterMap signatureItem),
      value ∈ valuesOf "v1" (base.filterMap signatureItem) ∨ value.all isAscii = true := by
  simp only [mem_valuesOf, List.mem_filterMap]
  induction h with
  | nil => simp
  | keep hbefore hafter _ ih =>
    simp only [List.mem_cons, exists_eq_or_imp, signatureItem_padded hbefore hafter]
    exact ⟨fun value hvalue => hvalue.imp_right (ih.1 value), fun value hvalue => by
      rcases hvalue with hpart | hrest
      · exact Or.inl (Or.inl hpart)
      · exact (ih.2 value hrest).imp_left Or.inr⟩
  | insert hpart _ ih =>
    simp only [List.mem_cons, exists_eq_or_imp]
    exact ⟨fun value hvalue => Or.inr (ih.1 value hvalue), fun value hvalue => by
      rcases hvalue with hinserted | hrest
      · exact Or.inr (hpart.ascii value hinserted)
      · exact ih.2 value hrest⟩

theorem signatureItem_eq (key : List Char) {value : List Char} (hkey : '=' ∉ key) (hvalue : value ≠ [])
    (hblank : ∀ c ∈ key ++ '=' :: value, isSpace c = false) :
    signatureItem (key ++ '=' :: value) = some (key, value) := by
  rw [signatureItem, strip, stripWhere_eq_self hblank, partition_append hkey]
  cases value with
  | nil => exact absurd rfl hvalue
  | cons c value => rfl

/-- Neither part of a header that was built holds blanks or commas. -/
theorem numeral_clean {c : Char} (h : c ∈ (toString timestamp).toList) : isSpace c = false ∧ c ≠ ',' := by
  rcases isDigit_of_mem_toString h with hdigit | rfl
  · refine ⟨isSpace_of_isDigit hdigit, ?_⟩
    rintro rfl
    exact absurd hdigit (by decide)
  · decide

theorem digest_clean {c : Char} (h : c ∈ digestAt hmac secret payload timestamp) :
    isSpace c = false ∧ c ≠ ',' := by
  have hclean : "0123456789abcdef".toList.all (fun c => isSpace c = false ∧ c ≠ ',') = true := by decide
  exact of_decide_eq_true (List.all_eq_true.mp hclean c (hmac.hex _ _ c h))

theorem signatureItem_time (timestamp : Int) :
    signatureItem ("t=".toList ++ (toString timestamp).toList) =
      some ("t".toList, (toString timestamp).toList) := by
  refine signatureItem_eq "t".toList (by decide) ?_ fun c hc => ?_
  · rcases toString_cases timestamp with ⟨_, htext⟩ | ⟨_, htext⟩ <;> rw [htext]
    · exact Nat.toDigits_ne_nil
    · exact List.cons_ne_nil _ _
  · rcases List.mem_append.mp hc with hkey | hvalue
    · have hclean : "t".toList.all (isSpace · = false) = true := by decide
      exact of_decide_eq_true (List.all_eq_true.mp hclean c hkey)
    · rcases List.mem_cons.mp hvalue with rfl | hvalue
      · decide
      · exact (numeral_clean hvalue).1

theorem signatureItem_digest (hmac : Hmac) (secret : String) (payload : List UInt8) (timestamp : Int) :
    signatureItem ("v1=".toList ++ digestAt hmac secret payload timestamp) =
      some ("v1".toList, digestAt hmac secret payload timestamp) := by
  refine signatureItem_eq "v1".toList (by decide) (hmac.ne_nil _ _) fun c hc => ?_
  rcases List.mem_append.mp hc with hkey | hvalue
  · have hclean : "v1".toList.all (isSpace · = false) = true := by decide
    exact of_decide_eq_true (List.all_eq_true.mp hclean c hkey)
  · rcases List.mem_cons.mp hvalue with rfl | hvalue
    · decide
    · exact (digest_clean hvalue).1

theorem comma_not_mem_time (timestamp : Int) : ',' ∉ "t=".toList ++ (toString timestamp).toList := by
  rw [List.mem_append, not_or]
  exact ⟨by decide, fun hmem => (numeral_clean hmem).2 rfl⟩

theorem comma_not_mem_digest (hmac : Hmac) (secret : String) (payload : List UInt8) (timestamp : Int) :
    ',' ∉ "v1=".toList ++ digestAt hmac secret payload timestamp := by
  rw [List.mem_append, not_or]
  exact ⟨by decide, fun hmem => (digest_clean hmem).2 rfl⟩

theorem splitOn_built {built : List Char}
    (h : buildWebhookSignature hmac payload secret timestamp = .ok built) :
    intText timestamp = some (toString timestamp).toList ∧
      built.splitOn ',' = ["t=".toList ++ (toString timestamp).toList,
        "v1=".toList ++ digestAt hmac secret payload timestamp] := by
  rw [buildWebhookSignature, timestampText] at h
  cases htext : intText timestamp with
  | none =>
    rw [htext] at h
    cases h
  | some text =>
    obtain rfl : (toString timestamp).toList = text := by
      simp only [intText, Option.ite_none_left_eq_some, Option.some.injEq] at htext
      exact htext.2
    rw [htext] at h
    refine ⟨rfl, ?_⟩
    obtain rfl := Except.ok.inj h
    have hparts : "t=".toList ++ (toString timestamp).toList ++ ",v1=".toList ++
        hmac.hexdigest (encode secret.toList) (signedPayload (toString timestamp).toList payload) =
        ("t=".toList ++ (toString timestamp).toList) ++ ',' ::
          ("v1=".toList ++ digestAt hmac secret payload timestamp) := by
      rw [List.append_assoc _ ",v1=".toList]
      rfl
    rw [hparts, List.splitOn_append_cons_self_of_not_mem (comma_not_mem_time timestamp),
      List.splitOn_eq_singleton (comma_not_mem_digest _ _ _ _)]

/-- A header that was built passes near its time, with blanks and harmless parts added. -/
theorem verify_of_built {now : Int} {built : List Char} {pair : List UInt8 × Int}
    (hbuilt : buildWebhookSignature hmac pair.1 secret pair.2 = .ok built)
    (hparts : Extended (built.splitOn ',') parts) (hnear : |now - pair.2| ≤ tolerance) :
    verifyWebhookSignature hmac clock pair.1 (some (String.ofList ([','].intercalate parts))) secret
      (some (.int now)) tolerance = .ok () := by
  obtain ⟨htext, hsplit⟩ := splitOn_built hbuilt
  rw [hsplit] at hparts
  have hbase : ["t=".toList ++ (toString pair.2).toList,
      "v1=".toList ++ digestAt hmac secret pair.1 pair.2].filterMap signatureItem =
      [("t".toList, (toString pair.2).toList), ("v1".toList, digestAt hmac secret pair.1 pair.2)] := by
    rw [List.filterMap_cons_some (signatureItem_time _), List.filterMap_cons_some (signatureItem_digest _ _ _ _),
      List.filterMap_nil]
  have hcomma : ∀ part ∈ ["t=".toList ++ (toString pair.2).toList,
      "v1=".toList ++ digestAt hmac secret pair.1 pair.2], ',' ∉ part := by
    simp only [List.forall_mem_cons]
    exact ⟨comma_not_mem_time _, comma_not_mem_digest _ _ _ _, fun _ hnil => nomatch hnil⟩
  have hitems : signatureItems (String.ofList ([','].intercalate parts)).toList =
      parts.filterMap signatureItem := by
    rw [String.toList_ofList, signatureItems, List.splitOn_intercalate ',' (hparts.comma hcomma)
      (hparts.ne_nil (List.cons_ne_nil _ _))]
  have htimes := hparts.times
  obtain ⟨hkept, hascii⟩ := hparts.signatures
  rw [hbase] at htimes hkept hascii
  have htimestamp : headerTimestamp (String.ofList ([','].intercalate parts)) = some pair.2 := by
    rw [headerTimestamp, hitems, htimes]
    exact parseInt_of_intText htext
  rw [verify_int_iff htimestamp, headerSignatures, hitems]
  refine ⟨hnear, hkept _ (mem_valuesOf.mpr (by simp)), List.all_eq_true.mpr fun value hvalue => ?_⟩
  rcases hascii value (List.takeWhile_subset _ hvalue) with hdigest | hvalue
  · have hsame : value = digestAt hmac secret pair.1 pair.2 := by
      simpa using mem_valuesOf.mp hdigest
    rw [hsame]
    exact digestAt_isAscii _ _ _ _
  · exact hvalue

/-- **Signatures bind payload and timestamp**: a header without forged digests passes only for a pair that
was signed, near the time that it names; and a header that was built for a pair passes near its time, also
with blanks and harmless parts added. -/
theorem verify_binds (hmac : Hmac) (hinjective : Function.Injective2 hmac.hexdigest) (clock : PyFloat)
    (secret : String) (tolerance : Int) (signed : List (List UInt8 × Int))
    (built : List UInt8 × Int → List Char)
    (hbuilt : ∀ pair ∈ signed, buildWebhookSignature hmac pair.1 secret pair.2 = .ok (built pair)) :
    (∀ header payload now, Unforged hmac secret signed header →
      verifyWebhookSignature hmac clock payload (some header) secret (some (.int now)) tolerance =
        .ok () →
      ∃ pair ∈ signed, pair.1 = payload ∧ headerTimestamp header = some pair.2 ∧
        |now - pair.2| ≤ tolerance) ∧
    ∀ pair ∈ signed, ∀ parts now, Extended ((built pair).splitOn ',') parts →
      |now - pair.2| ≤ tolerance →
      verifyWebhookSignature hmac clock pair.1 (some (String.ofList ([','].intercalate parts))) secret
        (some (.int now)) tolerance = .ok () :=
  ⟨fun _ _ _ hunforged h => signed_of_verify hinjective hunforged h,
    fun pair hpair _ _ hparts hnear => verify_of_built (hbuilt pair hpair) hparts hnear⟩

namespace Reference

/-- The bytes in hexadecimal. -/
def hexBytes (bytes : List UInt8) : List Char := bytes.flatMap fun byte => hexDigits 2 byte.toNat

theorem hexBytes_injective {a b : List UInt8} (h : hexBytes a = hexBytes b) : a = b := by
  induction a generalizing b with
  | nil =>
    cases b with
    | nil => rfl
    | cons y b =>
      have hlength := congrArg List.length h
      simp [hexBytes, length_hexDigits] at hlength
      omega
  | cons x a ih =>
    cases b with
    | nil =>
      have hlength := congrArg List.length h
      simp [hexBytes, length_hexDigits] at hlength
    | cons y b =>
      obtain ⟨hbyte, hrest⟩ := List.append_inj (by simpa only [hexBytes, List.flatMap_cons] using h)
        (by rw [length_hexDigits, length_hexDigits])
      have hvalue := congrArg ofHexDigits hbyte
      rw [ofHexDigits_hexDigits, ofHexDigits_hexDigits] at hvalue
      have hx := x.toNat_lt
      have hy := y.toNat_lt
      have hsame : x = y := UInt8.toNat_inj.mp (by omega)
      rw [hsame, ih hrest]

/-- A stand-in that hides nothing: the length of the key in unary, the key and the message. -/
def clearHmac : Hmac where
  hexdigest key message := List.replicate key.length 'a' ++ 'b' :: hexBytes (key ++ message)
  hex key message c hc := by
    rcases List.mem_append.mp hc with ha | hb
    · rw [List.eq_of_mem_replicate ha]
      decide
    · rcases List.mem_cons.mp hb with rfl | hc
      · decide
      · obtain ⟨byte, -, hdigit⟩ := List.mem_flatMap.mp hc
        have := isHexDigit_of_mem hdigit
        rwa [isHexDigit, decide_eq_true_iff] at this
  ne_nil key message := by simp

theorem clearHmac_injective : Function.Injective2 clearHmac.hexdigest := by
  intro key key' message message' h
  have hunary : ∀ n : Nat, 'b' ∉ List.replicate n 'a' := fun n hb =>
    absurd (List.eq_of_mem_replicate hb) (by decide)
  obtain ⟨hkeys, hbytes⟩ := append_cons_inj (hunary key.length) (hunary key'.length) h
  have hlength : key.length = key'.length := by simpa using congrArg List.length hkeys
  exact List.append_inj (hexBytes_injective hbytes) hlength

/-- Two payloads that are signed at the time 1000. -/
def signedPair : List (List UInt8 × Int) := [([123, 125], 1000), ([46, 49], -5)]

theorem signedPair_binds :
    (∀ header payload now, Unforged clearHmac "secret" signedPair header →
      verifyWebhookSignature clearHmac (.finite 0) payload (some header) "secret" (some (.int now)) 300 =
        .ok () →
      ∃ pair ∈ signedPair, pair.1 = payload ∧ headerTimestamp header = some pair.2 ∧
        |now - pair.2| ≤ 300) ∧
    ∀ pair ∈ signedPair, ∀ parts now,
      Extended (("t=".toList ++ (toString pair.2).toList ++ ",v1=".toList ++
        digestAt clearHmac "secret" pair.1 pair.2).splitOn ',') parts → |now - pair.2| ≤ 300 →
      verifyWebhookSignature clearHmac (.finite 0) pair.1 (some (String.ofList ([','].intercalate parts)))
        "secret" (some (.int now)) 300 = .ok () :=
  verify_binds clearHmac clearHmac_injective (.finite 0) "secret" 300 signedPair
    (fun pair => "t=".toList ++ (toString pair.2).toList ++ ",v1=".toList ++
      digestAt clearHmac "secret" pair.1 pair.2)
    (by simp only [signedPair, List.forall_mem_cons]; exact ⟨rfl, rfl, fun _ hnil => nomatch hnil⟩)

end Reference

end TenantForge
