import Fettle.Decimal.Shortest
import Fettle.Text.Quoted

/-!
# What can be wrong with data

Data is read into records by kind: a number where a number is expected, a list where a list is
expected. A complaint says what does not fit. Two data formats share the complaints and differ in
a few words, which a wording supplies.
-/

namespace Fettle.Data

/-- What stands in the data where something else is expected. -/
inductive Found where
  /-- Nothing, or the word for it. -/
  | nothing
  /-- A truth value. -/
  | boolean (value : Bool)
  /-- A whole number of at most 64 bits. -/
  | integer (value : Int)
  /-- A whole number of more than 64 bits. -/
  | longInteger (value : Int)
  /-- A floating-point number. -/
  | float (value : Decimal.Binary64)
  /-- A text. -/
  | text (value : String)
  /-- A list. -/
  | list
  /-- A set of named members. -/
  | members
deriving DecidableEq, Inhabited, Repr

/-- A way in which data does not fit a record. -/
inductive Complaint where
  /-- One kind of data stands where another is expected. -/
  | wrongType (found : Found) (expected : String)
  /-- The kind of data fits, its value does not. -/
  | wrongValue (found : Found) (expected : String)
  /-- A list has too few elements for a record. -/
  | wrongLength (length : Nat) (expected : String)
  /-- A member without default is missing. -/
  | missing (field : String)
  /-- A member is given twice. -/
  | duplicate (field : String)
  /-- A word is none of the words allowed. -/
  | unknownWord (word : String) (first second : String)
deriving DecidableEq, Inhabited, Repr

/-- The words in which data formats differ. -/
structure Wording where
  /-- The name for nothing. -/
  nothing : String
  /-- The text of a floating-point number. -/
  float : Decimal.Binary64 → String

/-- How a message names what stands in the data. -/
def Found.describe (w : Wording) : Found → String
  | nothing => w.nothing
  | boolean b => "boolean \x60" ++ (if b then "true" else "false") ++ "\x60"
  | integer n => "integer \x60" ++ toString n ++ "\x60"
  | longInteger n =>
    "integer \x60" ++ toString n ++ "\x60 as " ++ (if n < 0 then "i128" else "u128")
  | float x => "floating point \x60" ++ w.float x ++ "\x60"
  | text s => "string " ++ Text.quote s
  | list => "sequence"
  | members => "map"

/-- The message of a complaint. -/
def Complaint.message (w : Wording) : Complaint → String
  | wrongType found expected => s!"invalid type: {found.describe w}, expected {expected}"
  | wrongValue found expected => s!"invalid value: {found.describe w}, expected {expected}"
  | wrongLength n expected => s!"invalid length {n}, expected {expected}"
  | missing field => "missing field \x60" ++ field ++ "\x60"
  | duplicate field => "duplicate field \x60" ++ field ++ "\x60"
  | unknownWord word first second =>
    "unknown variant \x60" ++ word ++ "\x60, expected \x60" ++ first ++ "\x60 or \x60" ++
      second ++ "\x60"

end Fettle.Data
