import Fettle.Decimal.Binary64

/-!
# The shortest decimal of a floating-point number

A floating-point number stands for all real numbers that round to it. Of the decimals among them
those with the fewest digits are taken, and of these the one nearest to the number. Two layouts
are written from the digits: one is positional throughout, the other is positional for moderate
exponents and scientific beyond.
-/

namespace Fettle.Decimal

/-- A decimal `0.d₁d₂… * 10 ^ point`: its digits and the place of its point. -/
structure Digits where
  /-- The digits; the first and the last are not zero, except for zero itself. -/
  digits : List Char
  /-- How many digits stand before the decimal point; below zero if zeros follow the point. -/
  point : Int
deriving DecidableEq, Inhabited, Repr

namespace Digits

/-- A number of parts `num / den` is compared with a decimal `d * 10 ^ k` through these
numerators over a common denominator. -/
def overCommon (num den d : Nat) (k : Int) : Nat × Nat :=
  match k with
  | .ofNat k => (num, d * Nat.pow 10 k * den)
  | .negSucc k => (num * Nat.pow 10 (k + 1), d * den)

/-- The decimal `d * 10 ^ k` lies between two quotients with the denominator `den`, ends included
if `closed`. -/
def liesWithin (low high den : Nat) (closed : Bool) (d : Nat) (k : Int) : Bool :=
  let (l, x) := overCommon low den d k
  let (h, y) := overCommon high den d k
  if closed then l ≤ x && y ≤ h else l < x && y < h

/-- The distance of `d * 10 ^ k` from `num / den`, over a denominator that depends on `k`
only. -/
def distance (num den d : Nat) (k : Int) : Nat :=
  let (a, b) := overCommon num den d k
  (a - b) + (b - a)

/-- The largest `d` with `d * 10 ^ k ≤ num / den`. -/
def floorAt (num den : Nat) (k : Int) : Nat :=
  match k with
  | .ofNat k => num / (den * Nat.pow 10 k)
  | .negSucc k => num * Nat.pow 10 (k + 1) / den

/-- The power of ten of the first digit of `num / den`, searched upwards from a low guess. -/
def leadingPower (num den : Nat) : Nat → Int → Int
  | 0, k => k
  | fuel + 1, k => if floorAt num den (k + 1) = 0 then k else leadingPower num den fuel (k + 1)

/-- Search the decimals whose last digit stands at a power of ten, from coarse grids to finer
ones, for one that lies within the bounds. -/
def search (num low high den : Nat) (closed : Bool) : Nat → Int → Nat × Int
  | 0, k => (floorAt num den k, k)
  | fuel + 1, k =>
    let d := floorAt num den k
    let below := liesWithin low high den closed d k && d != 0
    let above := liesWithin low high den closed (d + 1) k
    if below && above then
      let (x, y) := (distance num den d k, distance num den (d + 1) k)
      if x < y then (d, k) else if y < x then (d + 1, k) else if d % 2 = 0 then (d, k)
      else (d + 1, k)
    else if below then (d, k)
    else if above then (d + 1, k)
    else search num low high den closed fuel (k - 1)

/-- The shortest decimal of the finite number `significand * 2 ^ exponent`. -/
def shortest (significand : Nat) (exponent : Int) : Digits :=
  if significand = 0 then ⟨['0'], 1⟩
  else
    let lowest := significand == Nat.pow 2 52 && (-1074 : Int) < exponent
    -- The number and its bounds in units of a quarter of the last place.
    let quarters := (4 * significand, if lowest then 4 * significand - 1 else 4 * significand - 2,
      4 * significand + 2)
    let scale : Nat × Nat := match exponent - 2 with
      | .ofNat e => (Nat.pow 2 e, 1)
      | .negSucc e => (1, Nat.pow 2 (e + 1))
    let num := quarters.1 * scale.1
    let low := quarters.2.1 * scale.1
    let high := quarters.2.2 * scale.1
    let den := scale.2
    let top := leadingPower num den 700 (-330)
    let (d, k) := search num low high den (significand % 2 == 0) 18 (top + 1)
    let ds := Nat.toDigits 10 d
    let trimmed := (ds.reverse.dropWhile (· == '0')).reverse
    ⟨trimmed, (ds.length : Int) + k⟩

/-- The decimal written with all its places; a zero stands on either side of the point where
there is no digit. -/
def positional (x : Digits) : List Char :=
  let n := x.digits.length
  if x.point ≤ 0 then
    ['0', '.'] ++ List.replicate (-x.point).toNat '0' ++ x.digits
  else if x.point.toNat < n then
    x.digits.take x.point.toNat ++ '.' :: x.digits.drop x.point.toNat
  else x.digits ++ List.replicate (x.point.toNat - n) '0' ++ ['.', '0']

/-- The decimal with one digit before the point and a power of ten with its sign. -/
def scientific (x : Digits) : List Char :=
  let e := x.point - 1
  let mantissa := match x.digits with
    | [] => ['0']
    | [d] => [d]
    | d :: ds => d :: '.' :: ds
  mantissa ++ 'e' :: (if e < 0 then '-' else '+') :: (Nat.toDigits 10 e.natAbs)

end Digits

/-- The sign of a number in front of its digits. -/
def signed (negative : Bool) (cs : List Char) : String :=
  String.ofList (if negative then '-' :: cs else cs)

/-- A floating-point number with all its places written out. -/
def plainText : Binary64 → String
  | .finite negative m e => signed negative (Digits.shortest m e).positional
  | .infinite negative => signed negative ['i', 'n', 'f']
  | .nan => "NaN"

/-- A floating-point number in positional notation if its first digit stands between the fifth
place after the point and the sixteenth before it, and in scientific notation otherwise. -/
def compactText : Binary64 → String
  | .finite negative m e =>
    let x := Digits.shortest m e
    signed negative (if -5 < x.point ∧ x.point ≤ 16 then x.positional else x.scientific)
  | .infinite negative => signed negative ['i', 'n', 'f']
  | .nan => "NaN"

end Fettle.Decimal
