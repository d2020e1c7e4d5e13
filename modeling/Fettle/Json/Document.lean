import Fettle.Json.Record

/-!
# Reading JSON values of any kind

A text is read into a value without any expectation of its kind.
-/

namespace Fettle.Json

mutual

/-- A value of any kind. -/
def readValue : Nat → Reader Value
  | 0 => failNext .endInValue
  | fuel + 1 => do
    match ← nextToken with
    | none => failNext .endInValue
    | some 'n' => take; word ['u', 'l', 'l']; pure .null
    | some 't' => take; word ['r', 'u', 'e']; pure (.bool true)
    | some 'f' => take; word ['a', 'l', 's', 'e']; pure (.bool false)
    | some '-' => take; Value.number <$> number true
    | some '"' => take; Value.string <$> stringBody
    | some '[' => take; Value.array <$> readValues fuel true
    | some '\x7b' => take; Value.object <$> readNamed fuel true
    | some c =>
      if c.isDigit then Value.number <$> number false else failNext .expectedValue

/-- The remaining elements of a list, and its end. -/
def readValues : Nat → Bool → Reader (List Value)
  | 0, _ => failNext .endInList
  | fuel + 1, first => do
    if ← nextElement first then
      let v ← readValue fuel
      let vs ← readValues fuel false
      pure (v :: vs)
    else
      take
      pure []

/-- The remaining members of an object, and its end. -/
def readNamed : Nat → Bool → Reader (List (String × Value))
  | 0, _ => failNext .endInObject
  | fuel + 1, first => do
    match ← nextToken with
    | none => failNext .endInObject
    | some '\x7d' => take; pure []
    | some c =>
      if !first then
        if c = ',' then take else failNext .expectedObjectEnd
      match ← nextToken with
      | some '"' =>
        take
        let name ← stringBody
        colon
        let v ← readValue fuel
        let ms ← readNamed fuel false
        pure ((name, v) :: ms)
      | some '\x7d' => failNext .trailingComma
      | some _ => failNext .nameNotString
      | none => failNext .endInValue

end

/-- The value that a text spells. -/
def Value.parse (text : String) : Except Fault Value :=
  Json.parse (fun rest => readValue (2 * rest.length + 2) rest) text

end Fettle.Json
