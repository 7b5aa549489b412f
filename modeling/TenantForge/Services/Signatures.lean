import TenantForge.App
import TenantForge.Float
import TenantForge.Python.Text
/-!
# Webhook signatures (`app/services/webhooks.py`)

A header value is decoded from Latin-1. The dictionary of lists that the header is read into is the list
of its entries.
-/

namespace TenantForge

open Python

/-- `hmac.new(key, message, hashlib.sha256).hexdigest()` -/
structure Hmac where
  hexdigest : List UInt8 → List UInt8 → List Char
  hex : ∀ key message, ∀ c ∈ hexdigest key message, c ∈ "0123456789abcdef".toList
  ne_nil : ∀ key message, hexdigest key message ≠ []

variable (hmac : Hmac)

def signatureToleranceSeconds : Int := 300

/-- `text.encode()` -/
def encode (text : List Char) : List UInt8 := text.flatMap String.utf8EncodeChar

/-- `str(timestamp)`, a `ValueError` beyond the limit on its digits. -/
def timestampText (timestamp : Int) : Except Exn (List Char) :=
  match intText timestamp with
  | some text => .ok text
  | none => .error (.valueError "Exceeds the limit (4300 digits) for integer string conversion")

/-- `str(timestamp).encode() + b"." + payload` -/
def signedPayload (timestamp : List Char) (payload : List UInt8) : List UInt8 :=
  encode timestamp ++ 46 :: payload

def buildWebhookSignature (payload : List UInt8) (secret : String) (timestamp : Int) :
    Except Exn (List Char) := do
  let text ← timestampText timestamp
  let digest := hmac.hexdigest (encode secret.toList) (signedPayload text payload)
  .ok ("t=".toList ++ text ++ ",v1=".toList ++ digest)

/-- The key and the value of a part of the header. -/
def signatureItem (part : List Char) : Option (List Char × List Char) :=
  match partition '=' (strip part) with
  | (_, none) | (_, some []) => none
  | (key, some value) => some (key, value)

/-- `values` -/
def signatureItems (header : List Char) : List (List Char × List Char) :=
  (header.splitOn ',').filterMap signatureItem

/-- `values.get(key, [])` -/
def valuesOf (key : String) (items : List (List Char × List Char)) : List (List Char) :=
  (items.filter fun item => item.1 = key.toList).map Prod.snd

/-- `hmac.compare_digest(expected, value)` -/
def compareDigest (expected value : List Char) : Except Exn Bool :=
  if expected.all isAscii && value.all isAscii then .ok (expected = value) else .error .typeError

/-- `any(hmac.compare_digest(expected, value) for value in signatures)` -/
def anyMatches (expected : List Char) : List (List Char) → Except Exn Bool
  | [] => .ok false
  | value :: values => do
    if ← compareDigest expected value then .ok true else anyMatches expected values

def invalidSignature (message : String) : Exn := appError 400 "invalid_webhook_signature" message

/-- `clock` is what `time.time()` returns. -/
def verifyWebhookSignature (clock : PyFloat) (payload : List UInt8) (signatureHeader : Option String)
    (secret : String) (now : Option PyNumber := none)
    (tolerance : Int := signatureToleranceSeconds) : Except Exn Unit := do
  let header ← match signatureHeader.filter (· ≠ "") with
    | some header => .ok header
    | none => .error (invalidSignature "Missing webhook signature")
  let values := signatureItems header.toList
  let timestamp ← match (valuesOf "t" values).head?.bind parseInt with
    | some timestamp => .ok timestamp
    | none => .error (invalidSignature "Invalid webhook signature")
  let currentTime := now.getD (.float clock)
  if tolerance < 0 then
    .error (invalidSignature "Webhook signature has expired")
  let elapsed ← match currentTime.subInt timestamp with
    | some elapsed => .ok elapsed
    | none => .error .overflowError
  if elapsed.absExceeds tolerance then
    .error (invalidSignature "Webhook signature has expired")
  let text ← timestampText timestamp
  let expected := hmac.hexdigest (encode secret.toList) (signedPayload text payload)
  let signatures := valuesOf "v1" values
  let matched ← anyMatches expected signatures
  if signatures = [] ∨ matched = false then
    .error (invalidSignature "Invalid webhook signature")

end TenantForge
