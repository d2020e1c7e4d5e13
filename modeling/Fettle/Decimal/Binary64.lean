/-!
# Floating-point numbers of 64 bits

A finite number is a sign, a significand below 2^53 and a power of two. `ofRatio` takes the number
that is nearest to a quotient, and of two nearest ones the one with the even significand. Products
and quotients are formed exactly and rounded once.
-/

namespace Fettle.Decimal

/-- A floating-point number of 64 bits. -/
inductive Binary64 where
  /-- The number `significand * 2 ^ exponent`, below zero if `negative`. -/
  | finite (negative : Bool) (significand : Nat) (exponent : Int)
  /-- An infinity. -/
  | infinite (negative : Bool)
  /-- Not a number. -/
  | nan
deriving DecidableEq, Inhabited, Repr

namespace Binary64

/-- A quotient rounded to the nearest integer; a half goes to the even neighbour. -/
def roundDiv (num den : Nat) : Nat :=
  let q := num / den
  let r := num % den
  if 2 * r < den then q
  else if den < 2 * r then q + 1
  else if q % 2 = 0 then q else q + 1

/-- The quotient `num / (den * 2 ^ exponent)` as a numerator and a denominator. -/
def scaleBy (num den : Nat) (exponent : Int) : Nat × Nat :=
  match exponent with
  | .ofNat e => (num, den * Nat.pow 2 e)
  | .negSucc e => (num * Nat.pow 2 (e + 1), den)

/-- The floating-point number nearest to `num / den`, with the given sign. -/
def ofRatio (negative : Bool) (num den : Nat) : Binary64 :=
  if num = 0 then finite negative 0 0
  else
    let guess : Int := (num.log2 : Int) - (den.log2 : Int) - 52
    let (n, d) := scaleBy num den guess
    let exponent := if n < d * Nat.pow 2 52 then guess - 1 else guess
    let exponent := max exponent (-1074)
    let (n, d) := scaleBy num den exponent
    let m := roundDiv n d
    let (m, exponent) := if m = Nat.pow 2 53 then (Nat.pow 2 52, exponent + 1) else (m, exponent)
    if 971 < exponent then infinite negative else finite negative m exponent

/-- The floating-point number nearest to a natural number. -/
def ofNat (negative : Bool) (n : Nat) : Binary64 := ofRatio negative n 1

/-- The floating-point number nearest to `significand * 10 ^ exponent`. -/
def ofDecimal (negative : Bool) (significand : Nat) (exponent : Int) : Binary64 :=
  match exponent with
  | .ofNat e => ofRatio negative (significand * Nat.pow 10 e) 1
  | .negSucc e => ofRatio negative significand (Nat.pow 10 (e + 1))

/-- The sign-less value of a finite number as a quotient. -/
def ratio (significand : Nat) (exponent : Int) : Nat × Nat :=
  match exponent with
  | .ofNat e => (significand * Nat.pow 2 e, 1)
  | .negSucc e => (significand, Nat.pow 2 (e + 1))

/-- The product of two floating-point numbers that are not below zero, or their quotient, given a
sign. -/
def combine (negative divide : Bool) : Binary64 → Binary64 → Binary64
  | finite _ m e, finite _ m' e' =>
    let (n, d) := ratio m e
    let (n', d') := ratio m' e'
    if divide then ofRatio negative (n * d') (d * n') else ofRatio negative (n * n') (d * d')
  | infinite _, _ => infinite negative
  | _, _ => nan

/-- A number is finite. -/
def isFinite : Binary64 → Bool
  | finite .. => true
  | _ => false

end Binary64

end Fettle.Decimal
