import Fettle.Decimal.Binary64

/-!
# Decimals as they are spelled

A decimal is spelled with a sign, digits with a point somewhere among them, and a power of ten.
Sign, point and power may be missing, and the digits on one side of the point.
-/

namespace Fettle.Decimal

/-- The number that decimal digits spell, the last one weighing one. -/
def ofDigits (ds : List Char) : Nat := ds.foldl (fun n d => n * 10 + (d.toNat - '0'.toNat)) 0

/-- The power of ten that is spelled after the digits; a missing power is zero. -/
def spelledPower : List Char → Option Int
  | [] => some 0
  | e :: cs =>
    let (negative, ds) := match cs with
      | '-' :: ds => (true, ds)
      | '+' :: ds => (false, ds)
      | ds => (false, ds)
    if (e ≠ 'e' ∧ e ≠ 'E') ∨ ds.isEmpty ∨ !ds.all Char.isDigit then none
    else some (if negative then -(ofDigits ds : Int) else ofDigits ds)

/-- The floating-point number nearest to `significand * 10 ^ power`. A power far outside of the
range of floating-point numbers is not computed. -/
def nearest (negative : Bool) (significand : Nat) (power : Int) : Binary64 :=
  let point := power + (Nat.toDigits 10 significand).length
  if significand = 0 ∨ point < -400 then .finite negative 0 0
  else if 400 < point then .infinite negative
  else .ofDecimal negative significand power

/-- The floating-point number nearest to the decimal that is spelled. -/
def ofSpelled? (cs : List Char) : Option Binary64 :=
  let (negative, cs) := match cs with
    | '-' :: cs => (true, cs)
    | '+' :: cs => (false, cs)
    | cs => (false, cs)
  let whole := cs.takeWhile Char.isDigit
  let cs := cs.dropWhile Char.isDigit
  let (places, cs) := match cs with
    | '.' :: cs => (cs.takeWhile Char.isDigit, cs.dropWhile Char.isDigit)
    | cs => ([], cs)
  if whole.isEmpty ∧ places.isEmpty then none
  else (spelledPower cs).map fun power =>
    nearest negative (ofDigits (whole ++ places)) (power - places.length)

end Fettle.Decimal
