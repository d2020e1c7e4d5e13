import Fettle.Json.Skip

/-!
# Reading JSON into records

Readers for the kinds of data that a record may hold, and for records themselves. A record is
written as an object with its members in any order, or as a list with its members in the order in
which they are declared. Members that the record does not know are passed over.
-/

namespace Fettle.Json

/-- A natural number of at most 64 bits. -/
def readNat : Reader Nat := do
  match ← nextToken with
  | none => failNext .endInValue
  | some c =>
    let negative := c == '-'
    if negative || c.isDigit then
      if negative then take
      match ← number negative with
      | .natural n => pure n
      | .negative n => complain (.wrongValue (.integer (-(n : Int))) "usize")
      | .float x => complain (.wrongType (.float x) "usize")
    else wrongKind "usize"

/-- A string; `expected` names it in messages. -/
def readTextAs (expected : String) : Reader String := do
  match ← nextToken with
  | none => failNext .endInValue
  | some '"' => take; stringBody
  | some _ => wrongKind expected

/-- A string. -/
def readText : Reader String := readTextAs "a string"

/-- Nothing, where a reader expects it. -/
def readNothing : Reader Unit := do
  match ← nextToken with
  | none => failNext .endInValue
  | some 'n' => take; word ['u', 'l', 'l']
  | some _ => wrongKind "unit"

/-- A value that may be null. -/
def readOption {α : Type} (read : Reader α) : Reader (Option α) := do
  match ← nextToken with
  | some 'n' => take; word ['u', 'l', 'l']; pure none
  | _ => some <$> read

/-- One word of a closed set: a string, or an object whose only member has that name and is
null. -/
def readWord {α : Type} (ofWord : String → α) : Reader α := do
  match ← nextToken with
  | some '"' => ofWord <$> readTextAs "variant identifier"
  | some '\x7b' =>
    take
    let w ← readTextAs "variant identifier"
    colon
    readNothing
    match ← nextToken with
    | some '\x7d' => take; pure (ofWord w)
    | some _ => failHere .expectedValue
    | none => failHere .endInObject
  | some _ => failNext .expectedValue
  | none => failNext .endInValue

/-- Whether a list goes on: its next element is at the front, or its end is. -/
def nextElement (first : Bool) : Reader Bool := do
  match ← nextToken with
  | none => failNext .endInList
  | some ']' => pure false
  | some c =>
    if first then pure true
    else if c = ',' then
      take
      match ← nextToken with
      | some ']' => failNext .trailingComma
      | some _ => pure true
      | none => failNext .endInValue
    else failNext .expectedListEnd

/-- The remaining elements of a list, up to its end. -/
def readElements {α : Type} (read : Reader α) : Clock → Bool → Reader (List α)
  | [], _ => failNext .endInList
  | _ :: clock, first => do
    if ← nextElement first then
      let a ← read
      let as ← readElements read clock false
      pure (a :: as)
    else pure []

/-- The end of a list whose elements are all read. -/
def endList : Reader Unit := do
  match ← nextToken with
  | some ']' => take
  | some ',' =>
    take
    match ← nextToken with
    | some ']' => failNext .trailingComma
    | _ => failNext .trailingCharacters
  | some _ => failNext .trailingCharacters
  | none => failNext .endInList

/-- A list. -/
def readList {α : Type} (read : Reader α) : Reader (List α) := do
  match ← nextToken with
  | none => failNext .endInValue
  | some '[' =>
    take
    let as ← (fun rest => readElements read (clockFor rest) true rest : Reader (List α))
    endList
    pure as
  | some _ => wrongKind "a sequence"

/-- One member of a record of type `ρ`. -/
structure Field (ρ : Type) where
  /-- The name of the member. -/
  name : String
  /-- Read the member and store it. -/
  store : ρ → Reader ρ
  /-- An object may lack the member. -/
  mayLackInObject : Bool
  /-- A list may lack the member. -/
  mayLackInList : Bool

/-- How a record is read: its name in messages, the record in which no member is stored yet, and
its members in order. -/
structure Record (ρ : Type) where
  /-- The name of the record in messages. -/
  name : String
  /-- The record before any member is read. -/
  start : ρ
  /-- The members in the order of declaration. -/
  fields : List (Field ρ)

namespace Record

variable {ρ : Type}

/-- How messages name a record. -/
def expected (r : Record ρ) : String := "struct " ++ r.name

/-- How messages name a record that is read from a list. -/
def expectedList (r : Record ρ) : String :=
  let n := r.fields.length
  r.expected ++ s!" with {n} element" ++ (if n = 1 then "" else "s")

/-- The index of the first of some members that a list may not lack. -/
def firstRequired : Nat → List (Field ρ) → Option Nat
  | _, [] => none
  | i, f :: fs => if f.mayLackInList then firstRequired (i + 1) fs else some i

/-- The members of a record from the elements of a list, and its end. -/
def readPositional (r : Record ρ) : Nat → List (Field ρ) → Bool → ρ → Reader ρ
  | _, [], _, acc => do endList; pure acc
  | i, f :: fs, first, acc => do
    if ← nextElement first then
      let acc ← f.store acc
      readPositional r (i + 1) fs false acc
    else
      endList
      match firstRequired i (f :: fs) with
      | some k => complain (.wrongLength k r.expectedList)
      | none => pure acc

/-- The first member that an object may not lack and that was not read. -/
def firstMissing (r : Record ρ) (seen : List String) : Option (Field ρ) :=
  r.fields.find? fun f => !f.mayLackInObject && !seen.contains f.name

/-- Stop at a member that is given twice. The end of the object is taken if it comes next. -/
def stopAtDuplicate (name : String) : Reader ρ := do
  if (← nextToken) = some '\x7d' then take
  complain (.duplicate name)

/-- One member of an object, whose name stands at the front: the record with the member stored,
and the names read so far. -/
def readMember (r : Record ρ) (seen : List String) (acc : ρ) : Reader (ρ × List String) := do
  take
  let name ← stringBody
  match r.fields.find? (·.name == name) with
  | none =>
    colon
    skipAny
    pure (acc, seen)
  | some f =>
    if seen.contains name then stopAtDuplicate name
    else
      colon
      let acc ← f.store acc
      pure (acc, name :: seen)

/-- The remaining members of an object, and its end. -/
def readMembers (r : Record ρ) : Clock → Bool → List String → ρ → Reader ρ
  | [], _, _, _ => failNext .endInObject
  | _ :: clock, first, seen, acc => do
    match ← nextToken with
    | none => failNext .endInObject
    | some '\x7d' =>
      take
      match r.firstMissing seen with
      | some f => complain (.missing f.name)
      | none => pure acc
    | some c =>
      if first then
        if c = '"' then
          let (acc, seen) ← r.readMember seen acc
          readMembers r clock false seen acc
        else failNext .nameNotString
      else if c = ',' then
        take
        match ← nextToken with
        | some '"' =>
          let (acc, seen) ← r.readMember seen acc
          readMembers r clock false seen acc
        | some '\x7d' => failNext .trailingComma
        | some _ => failNext .nameNotString
        | none => failNext .endInValue
      else failNext .expectedObjectEnd

/-- A record, from an object or from a list. -/
def read (r : Record ρ) : Reader ρ := do
  match ← nextToken with
  | none => failNext .endInValue
  | some '[' =>
    take
    r.readPositional 0 r.fields true r.start
  | some '\x7b' =>
    take
    fun rest => r.readMembers (clockFor rest) true [] r.start rest
  | some _ => wrongKind r.expected

end Record

/-- Read one value and nothing after it from a text. -/
def parse {α : Type} (read : Reader α) (text : String) : Except Fault α :=
  (do
    let a ← read
    match ← nextToken with
    | none => pure a
    | some _ => failNext .trailingCharacters : Reader α).run' text.toList

end Fettle.Json
