import Fettle.Data.Complaint
import Fettle.Decimal.Spelled
import Fettle.Yaml.Document

/-!
# What scalars mean

A plain scalar stands for nothing, a truth value or a number if it is spelled like one, and for a
text otherwise; a tag can fix the kind. A whole number that begins with a zero has a letter after
it that tells its base, so digits after a mere zero make a text.
-/

namespace Fettle.Yaml

open Data (Complaint Found)

/-- The tags that fix the kind of a scalar. -/
inductive KindTag where
  /-- A truth value. -/
  | boolean
  /-- A whole number. -/
  | integer
  /-- A floating-point number. -/
  | float
  /-- Nothing. -/
  | nothing
deriving DecidableEq, Inhabited, Repr

namespace KindTag

/-- How a tag is written in full. -/
def name : KindTag → String
  | boolean => "tag:yaml.org,2002:bool"
  | integer => "tag:yaml.org,2002:int"
  | float => "tag:yaml.org,2002:float"
  | nothing => "tag:yaml.org,2002:null"

/-- How messages name what a tag asks for. -/
def expected : KindTag → String
  | boolean => "a boolean"
  | integer => "an integer"
  | float => "a float"
  | nothing => "null"

/-- The tag that is written in a way. -/
def ofName? (s : String) : Option KindTag := [boolean, integer, float, nothing].find? (·.name == s)

end KindTag

/-- Whether a word stands for nothing. -/
def isNullWord (s : String) : Bool := ["null", "Null", "NULL", "~"].contains s

/-- The truth value that a word stands for. -/
def truth? (s : String) : Option Bool :=
  if ["true", "True", "TRUE"].contains s then some true
  else if ["false", "False", "FALSE"].contains s then some false
  else none

/-- The value of a digit in a base up to sixteen. -/
def digit? (base : Nat) (c : Char) : Option Nat := (hexNumber [c]).filter (· < base)

/-- The number that digits spell in a base. -/
def ofBase? (base : Nat) (ds : List Char) : Option Nat :=
  if ds.isEmpty then none
  else ds.foldlM (fun n d => (digit? base d).map (n * base + ·)) 0

/-- Digits after a zero, perhaps with a sign, which make no number. -/
def isPadded (cs : List Char) : Bool :=
  let ds := match cs with
    | '-' :: ds => ds
    | '+' :: ds => ds
    | ds => ds
  1 < ds.length && ds.head? == some '0' && ds.all Char.isDigit

/-- The number that digits spell, with a letter in front that tells the base if it is not ten. -/
def magnitude? : List Char → Option Nat
  | '0' :: 'x' :: ds => ofBase? 16 ds
  | '0' :: 'o' :: ds => ofBase? 8 ds
  | '0' :: 'b' :: ds => ofBase? 2 ds
  | ds => if isPadded ds then none else ofBase? 10 ds

/-- The whole number not below zero that a scalar spells. -/
def natural? (s : String) : Option Nat :=
  match s.toList with
  | '+' :: ds => magnitude? ds
  | ds => magnitude? ds

/-- The whole number that a scalar spells, as far as it has at most 128 bits. -/
def integer? (s : String) : Option Found :=
  match s.toList with
  | '-' :: ds => do
    let n ← magnitude? ds
    if n ≤ Nat.pow 2 63 then some (.integer (-(n : Int)))
    else if n ≤ Nat.pow 2 127 then some (.longInteger (-(n : Int)))
    else none
  | _ => do
    let n ← natural? s
    if n < Nat.pow 2 64 then some (.integer n)
    else if n < Nat.pow 2 128 then some (.longInteger n)
    else none

/-- The floating-point number that a scalar spells. -/
def float? (s : String) : Option Decimal.Binary64 :=
  let signless := match s.toList with
    | '+' :: cs => cs
    | cs => cs
  if s.toList ≠ signless ∧ (signless.head? = some '+' ∨ signless.head? = some '-') then none
  else if [".inf", ".Inf", ".INF"].contains (String.ofList signless) then some (.infinite false)
  else if ["-.inf", "-.Inf", "-.INF"].contains s then some (.infinite true)
  else if [".nan", ".NaN", ".NAN"].contains s then some .nan
  else (Decimal.ofSpelled? signless).filter (·.isFinite)

/-- What a plain scalar without a tag stands for. -/
def foundPlain (s : String) : Found :=
  if s = "" ∨ isNullWord s then .nothing
  else match truth? s with
    | some b => .boolean b
    | none =>
      match integer? s with
      | some found => found
      | none =>
        if isPadded s.toList then .text s
        else match float? s with
          | some x => .float x
          | none => .text s

/-- What a scalar stands for whose tag fixes its kind, unless it is not spelled accordingly. -/
def foundTagged (kind : KindTag) (s : String) : Option Found :=
  match kind with
  | .boolean => (truth? s).map .boolean
  | .integer => integer? s
  | .float => (float? s).map .float
  | .nothing => if isNullWord s then some .nothing else none

/-- The complaint about a scalar in the place of something else. -/
def scalarComplaint (tag : Option String) (style : Style) (s expected : String) : Complaint :=
  match tag with
  | none => .wrongType (if style = .plain then foundPlain s else .text s) expected
  | some tag =>
    match KindTag.ofName? tag with
    | some kind =>
      match foundTagged kind s with
      | some found => .wrongType found expected
      | none => .wrongValue (.text s) kind.expected
    | none =>
      let isLocal := tag.toList.head? == some '!'
      .wrongType (if isLocal && style == .plain then foundPlain s else .text s) expected

/-- The complaint about a node in the place of something else. -/
def Node.complaint (expected : String) : Node → Complaint
  | .scalar _ tag style s => scalarComplaint tag style s expected
  | .sequence .. => .wrongType .list expected
  | .mapping .. => .wrongType .members expected
  | .alias _ => .wrongType .nothing expected

/-- The words of complaints about nodes. -/
def wording : Data.Wording := ⟨"unit value", Decimal.plainText⟩

/-- The place where a node starts. -/
def Node.mark : Node → Mark
  | .scalar mark .. => mark
  | .sequence mark .. => mark
  | .mapping mark .. => mark
  | .alias _ => {}

/-- A scalar that is left out or has no characters: it can stand for an empty collection. -/
def Node.isBlank : Node → Bool
  | .scalar _ _ style s => style == .plain && s == ""
  | _ => false

end Fettle.Yaml
