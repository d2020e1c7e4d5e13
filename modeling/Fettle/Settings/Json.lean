import Fettle.Json.Reader
import Fettle.Settings.Members

/-!
# Layers of settings as JSON values

A layer is an object, whose members are looked at in the order of their names, or a list of all
settings in the order of declaration. Members that are no settings are passed over.
-/

namespace Fettle.Settings

open Data (Complaint Found)
open Json (Value)

/-- What a value is, where something else is expected. -/
def foundInJson : Value → Found
  | .null => .nothing
  | .bool b => .boolean b
  | .number n => n.found
  | .string s => .text s
  | .array _ => .list
  | .object _ => .members

/-- Read a text from a JSON value. -/
def textFromJson (expected : String) : Value → Except Complaint String
  | .string s => .ok s
  | v => .error (.wrongType (foundInJson v) expected)

/-- Read the name of a formatting tool from a word, or complain. -/
def formatterOfWord (word : String) : Except Complaint FormatterKind :=
  match FormatterKind.ofName? word with
  | some kind => .ok kind
  | none => .error (.unknownWord word "black" "ruff")

/-- How JSON values are read. -/
def jsonKinds : Kinds Value Complaint where
  nat expected
    | .number (.natural n) => .ok n
    | .number (.negative n) => .error (.wrongValue (.integer (-(n : Int))) expected)
    | v => .error (.wrongType (foundInJson v) expected)
  bool
    | .bool b => .ok b
    | v => .error (.wrongType (foundInJson v) "a boolean")
  text := textFromJson
  texts
    | .array vs => vs.mapM (textFromJson "a string")
    | v => .error (.wrongType (foundInJson v) "a sequence")
  formatter
    | .string s => formatterOfWord s
    | .object [(name, content)] => do
      let kind ← formatterOfWord name
      match content with
      | .null => .ok kind
      | v => .error (.wrongType (foundInJson v) "unit")
    | .object _ => .error (.wrongValue .members "map with a single key")
    | v => .error (.wrongType (foundInJson v) "string or map")
  isNothing
    | .null => true
    | _ => false

/-- The members of an object in the order of their names; of members with the same name only the
last counts. -/
def sortedMembers (ms : List (String × Value)) : List (String × Value) :=
  let latest := ms.foldl (fun kept m => kept.filter (·.1 ≠ m.1) ++ [m]) []
  latest.mergeSort fun a b => decide (a.1 ≤ b.1)

/-- Store the elements of a list in the settings, in order. -/
def storeInOrder : Nat → List (String × (Layer → Value → Except Complaint Layer)) →
    List Value → Layer → Except Complaint Layer
  | _, [], [], l => .ok l
  | i, [], vs, _ => .error (.wrongLength (i + vs.length) "fewer elements in array")
  | i, _ :: _, [], _ => .error (.wrongLength i Layer.expectedList)
  | i, (_, store) :: ms, v :: vs, l => do storeInOrder (i + 1) ms vs (← store l v)

/-- The layer that a JSON value spells. -/
def Layer.ofJson (v : Value) : Except Complaint Layer :=
  match v with
  | .object ms =>
    (sortedMembers ms).foldlM (fun l (name, v) =>
      match (Layer.members jsonKinds).lookup name with
      | some store => store l v
      | none => .ok l) {}
  | .array vs => storeInOrder 0 (Layer.members jsonKinds) vs {}
  | v => .error (.wrongType (foundInJson v) Layer.expected)

end Fettle.Settings
