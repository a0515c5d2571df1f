import Mathlib.Tactic.Common

/-!
# JSON values
-/
namespace Nightfall.Core

/-- A parsed JSON value; `num` keeps the text of the number. -/
inductive Json where
  | null
  | bool (b : Bool)
  | num (text : String)
  | str (s : String)
  | arr (items : List Json)
  | obj (fields : List (String × Json))

abbrev Payload := List (String × Json)

/-- `payload.get(key)`; an absent key reads as `null`. -/
def Payload.get (p : Payload) (key : String) : Json := (p.lookup key).getD .null

/-- `key in payload`. -/
def Payload.has (p : Payload) (key : String) : Bool := (p.lookup key).isSome

end Nightfall.Core
