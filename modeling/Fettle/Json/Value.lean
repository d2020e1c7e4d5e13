import Fettle.Decimal.Binary64

/-!
# JSON values

A value of the JSON data format. A number is a natural number, a whole number below zero, or a
floating-point number; the members of an object keep their order.
-/

namespace Fettle.Json

/-- A number as it is read from its text. -/
inductive Number where
  /-- A natural number below 2^64. -/
  | natural (n : Nat)
  /-- The number `-n`, where `n` is from 1 to 2^63. -/
  | negative (n : Nat)
  /-- Any other number. -/
  | float (x : Decimal.Binary64)
deriving DecidableEq, Inhabited, Repr

/-- A JSON value. -/
inductive Value where
  /-- The word for nothing. -/
  | null
  /-- A truth value. -/
  | bool (b : Bool)
  /-- A number. -/
  | number (n : Number)
  /-- A text. -/
  | string (s : String)
  /-- A list of values. -/
  | array (elements : List Value)
  /-- Named values, in order. -/
  | object (members : List (String × Value))
deriving Inhabited, Repr

namespace Value

/-- The value of a natural number. -/
def ofNat (n : Nat) : Value := number (.natural n)

/-- The value of a text that may be absent. -/
def ofOption {α : Type} (f : α → Value) : Option α → Value
  | none => null
  | some a => f a

/-- The members of an object; any other value has none. -/
def members : Value → List (String × Value)
  | object ms => ms
  | _ => []

/-- The member of an object with a given name, if it is there and not null. -/
def get? (v : Value) (name : String) : Option Value :=
  match v.members.find? (·.1 == name) with
  | some (_, null) => none
  | some (_, w) => some w
  | none => none

end Value

end Fettle.Json
