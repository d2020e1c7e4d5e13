import Fettle.Json.Reader

/-!
# Skipping JSON values

A value that nobody asks for is passed over. It must be well formed, though less is demanded of it
than of a value that is read: halves of surrogate pairs are let pass, and numbers have no limits.
There is no limit to how deeply such a value is nested.
-/

namespace Fettle.Json

/-- Pass over the rest of a string, of which the opening quote is taken. -/
def skipString : Clock → Reader Unit
  | [] => failHere .endInString
  | _ :: clock => fun rest =>
    match rest with
    | [] => .error ⟨.endInString, [], 0⟩
    | c :: rest' =>
      if c = '"' then .ok ((), rest')
      else if c = '\\' then
        match rest' with
        | [] => .error ⟨.endInString, [], 0⟩
        | d :: rest'' =>
          if (letterEscape d).isSome then skipString clock rest''
          else if d = 'u' then
            match takeFourHex rest'' with
            | .error f => .error f
            | .ok (_, rest''') => skipString clock rest'''
          else .error ⟨.invalidEscape, rest', 1⟩
      else if c.toNat < 32 then .error ⟨.controlCharacter, rest, 0⟩
      else skipString clock rest'

/-- Pass over the rest of a string, of which the opening quote is taken. -/
def skipStringBody : Reader Unit := fun rest => skipString (clockFor rest) rest

/-- Pass over an exponent, if there is one. -/
def skipExponent : Reader Unit := fun rest =>
  match rest with
  | [] => .ok ((), [])
  | c :: rest' =>
    if c = 'e' ∨ c = 'E' then
      let start := match rest' with
        | '+' :: rest => rest
        | '-' :: rest => rest
        | rest => rest
      match start with
      | d :: rest => if d.isDigit then .ok ((), rest.dropWhile Char.isDigit)
        else .error ⟨.invalidNumber, start, 1⟩
      | [] => .error ⟨.invalidNumber, [], 0⟩
    else .ok ((), rest)

/-- Pass over the digits after a decimal point, if there is one, and an exponent. -/
def skipFraction : Reader Unit := fun rest =>
  match rest with
  | '.' :: d :: rest' =>
    if d.isDigit then skipExponent (rest'.dropWhile Char.isDigit)
    else .error ⟨.invalidNumber, d :: rest', 1⟩
  | ['.'] => .error ⟨.invalidNumber, [], 0⟩
  | rest => skipExponent rest

/-- Pass over a number whose sign is taken. -/
def skipNumber : Reader Unit := fun rest =>
  match rest with
  | [] => .error ⟨.invalidNumber, [], 0⟩
  | c :: rest' =>
    if c = '0' then
      match rest' with
      | [] => .ok ((), [])
      | d :: _ => if d.isDigit then .error ⟨.invalidNumber, rest', 1⟩ else skipFraction rest'
    else if c.isDigit then skipFraction (rest'.dropWhile Char.isDigit)
    else .error ⟨.invalidNumber, rest, 1⟩

mutual

/-- Pass over a value. -/
def skipValue : Clock → Reader Unit
  | [] => failNext .endInValue
  | _ :: clock => do
    match ← nextToken with
    | none => failNext .endInValue
    | some 'n' => take; word ['u', 'l', 'l']
    | some 't' => take; word ['r', 'u', 'e']
    | some 'f' => take; word ['a', 'l', 's', 'e']
    | some '-' => take; skipNumber
    | some '"' => take; skipStringBody
    | some '[' =>
      take
      match ← nextToken with
      | some ']' => take
      | none => failNext .endInList
      | some _ => skipValue clock; skipElements clock
    | some '\x7b' =>
      take
      match ← nextToken with
      | some '\x7d' => take
      | none => failNext .endInObject
      | some _ => skipMember clock; skipMembers clock
    | some c => if c.isDigit then skipNumber else failNext .expectedValue

/-- Pass over the remaining elements of a list and its end. -/
def skipElements : Clock → Reader Unit
  | [] => failNext .endInList
  | _ :: clock => do
    match ← nextToken with
    | some ',' => take; skipValue clock; skipElements clock
    | some ']' => take
    | some _ => failNext .expectedListEnd
    | none => failNext .endInList

/-- Pass over one member of an object. -/
def skipMember : Clock → Reader Unit
  | [] => failNext .endInObject
  | _ :: clock => do
    match ← nextToken with
    | some '"' => take; skipStringBody; colon; skipValue clock
    | some _ => failNext .nameNotString
    | none => failNext .endInObject

/-- Pass over the remaining members of an object and its end. -/
def skipMembers : Clock → Reader Unit
  | [] => failNext .endInObject
  | _ :: clock => do
    match ← nextToken with
    | some ',' => take; skipMember clock; skipMembers clock
    | some '\x7d' => take
    | some _ => failNext .expectedObjectEnd
    | none => failNext .endInObject

end

/-- Pass over one value of any kind. -/
def skipAny : Reader Unit := fun rest => skipValue (clockFor rest) rest

end Fettle.Json
