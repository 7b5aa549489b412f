import Mathlib.Data.Rat.Defs
/-!
# JSON values

What `json.loads` returns and what a JSON column holds. An object is the list of its items in order.
-/

namespace TenantForge

/-- A floating point number: a finite one is a dyadic rational, here any rational. -/
inductive PyFloat where
  | finite (value : Rat)
  | infinite (negative : Bool)
  | nan
  deriving DecidableEq

inductive Value where
  | null
  | bool (value : Bool)
  | int (value : Int)
  | float (value : PyFloat)
  | str (text : String)
  | list (items : List Value)
  | dict (items : List (String × Value))

namespace Value

/-- `obj.get(key)` of an object. -/
def get? (items : List (String × Value)) (key : String) : Option Value :=
  (items.find? fun item => item.1 = key).map Prod.snd

/-- `key in obj`. -/
def has (items : List (String × Value)) (key : String) : Bool := (get? items key).isSome

end Value

end TenantForge
