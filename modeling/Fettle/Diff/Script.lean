/-!
# Edit scripts between two lists of lines

A script turns the old lines into the new ones by keeping, deleting and inserting runs of lines.
It is found by divide and conquer: common lines at both ends are kept, and what is left is cut at
a point where a search from the front meets a search from the back, after as few deletions and
insertions as possible.
-/

namespace Fettle.Diff

/-- What an operation of a script does. -/
inductive Kind where
  /-- Keep lines. -/
  | equal
  /-- Delete old lines. -/
  | delete
  /-- Insert new lines. -/
  | insert
  /-- Delete old lines and insert new ones in their place. -/
  | replace
deriving DecidableEq, Inhabited, Repr

/-- An operation on a run of old lines and a run of new lines. -/
structure Op where
  /-- What is done. -/
  kind : Kind
  /-- The first old line. -/
  oldStart : Nat
  /-- The number of old lines. -/
  oldLength : Nat
  /-- The first new line. -/
  newStart : Nat
  /-- The number of new lines. -/
  newLength : Nat
deriving DecidableEq, Inhabited, Repr

namespace Op

/-- Keep lines. -/
def keep (oldStart newStart length : Nat) : Op := ⟨.equal, oldStart, length, newStart, length⟩

/-- Delete old lines. -/
def remove (oldStart length newStart : Nat) : Op := ⟨.delete, oldStart, length, newStart, 0⟩

/-- Insert new lines. -/
def add (oldStart newStart length : Nat) : Op := ⟨.insert, oldStart, 0, newStart, length⟩

/-- The first old line behind the run. -/
def oldStop (op : Op) : Nat := op.oldStart + op.oldLength

/-- The first new line behind the run. -/
def newStop (op : Op) : Nat := op.newStart + op.newLength

/-- An operation on no lines. -/
def isEmpty (op : Op) : Bool := op.oldLength == 0 && op.newLength == 0

end Op

/-- The number of lines that two runs have in common at their fronts. The number bounds the
search. -/
def commonFront (old new : Array String) : Nat → Nat → Nat → Nat
  | 0, _, _ => 0
  | n + 1, i, j =>
    if old[i]? = new[j]? ∧ old[i]?.isSome then commonFront old new n (i + 1) (j + 1) + 1 else 0

/-- The number of lines that two runs have in common at their backs; the indices are those behind
the runs. -/
def commonBack (old new : Array String) : Nat → Nat → Nat → Nat
  | 0, _, _ => 0
  | n + 1, i, j =>
    if 0 < i ∧ 0 < j ∧ old[i - 1]? = new[j - 1]? ∧ old[i - 1]?.isSome then
      commonBack old new n (i - 1) (j - 1) + 1
    else 0

/-- A part of the old lines and a part of the new lines. -/
structure Part where
  /-- The first old line. -/
  oldStart : Nat
  /-- The first old line behind the part. -/
  oldStop : Nat
  /-- The first new line. -/
  newStart : Nat
  /-- The first new line behind the part. -/
  newStop : Nat

namespace Part

/-- The number of old lines. -/
def oldLength (p : Part) : Nat := p.oldStop - p.oldStart

/-- The number of new lines. -/
def newLength (p : Part) : Nat := p.newStop - p.newStart

end Part

/-- How far a search has come on each diagonal, counted from an origin in the middle. -/
structure Frontier where
  /-- The furthest old line on each diagonal. -/
  reach : Array Nat
  /-- The index of diagonal zero. -/
  origin : Nat

namespace Frontier

/-- The furthest old line on a diagonal. -/
def get (f : Frontier) (k : Int) : Nat := f.reach.getD (k + f.origin).toNat 0

/-- Record the furthest old line on a diagonal. -/
def put (f : Frontier) (k : Int) (x : Nat) : Frontier :=
  { f with reach := f.reach.setIfInBounds (k + f.origin).toNat x }

/-- A search that has not begun. -/
def empty (depth : Nat) : Frontier := ⟨Array.replicate (2 * depth + 3) 0, depth + 1⟩

/-- Where a search of depth `d` enters diagonal `k`: from the neighbour that has come further. -/
def enter (f : Frontier) (d : Nat) (k : Int) : Nat :=
  if k = -d ∨ (k ≠ d ∧ f.get (k - 1) < f.get (k + 1)) then f.get (k + 1) else f.get (k - 1) + 1

end Frontier

/-- Advance the search from the front by one step on the diagonals from `k` downwards. The result
is the new frontier and, if the searches meet, the point where the last kept run begins. -/
def searchForward (old new : Array String) (p : Part) (backward : Frontier) (d : Nat) :
    Nat → Int → Frontier → Frontier × Option (Nat × Nat)
  | 0, _, forward => (forward, none)
  | count + 1, k, forward =>
    let n := p.oldLength
    let m := p.newLength
    let delta : Int := (n : Int) - m
    let x := forward.enter d k
    let y := ((x : Int) - k).toNat
    let run := if x < n ∧ y < m then
      commonFront old new (min (n - x) (m - y)) (p.oldStart + x) (p.newStart + y) else 0
    let forward := forward.put k (x + run)
    if delta % 2 = 1 ∧ (k - delta).natAbs + 1 ≤ d ∧
        n ≤ x + run + backward.get (-(k - delta)) then
      (forward, some (p.oldStart + x, p.newStart + y))
    else searchForward old new p backward d count (k - 2) forward

/-- Advance the search from the back by one step on the diagonals from `k` downwards. -/
def searchBackward (old new : Array String) (p : Part) (forward : Frontier) (d : Nat) :
    Nat → Int → Frontier → Frontier × Option (Nat × Nat)
  | 0, _, backward => (backward, none)
  | count + 1, k, backward =>
    let n := p.oldLength
    let m := p.newLength
    let delta : Int := (n : Int) - m
    let x := backward.enter d k
    let y := ((x : Int) - k).toNat
    let run := if x < n ∧ y < m then
      commonBack old new (min (n - x) (m - y)) (p.oldStart + n - x) (p.newStart + m - y) else 0
    let backward := backward.put k (x + run)
    if delta % 2 = 0 ∧ (k - delta).natAbs ≤ d ∧
        n ≤ x + run + forward.get (-(k - delta)) then
      (backward, some (p.oldStart + n - (x + run), p.newStart + m - (y + run)))
    else searchBackward old new p forward d count (k - 2) backward

/-- Search from both ends with growing depth until the searches meet. -/
def meetFrom (old new : Array String) (p : Part) :
    Nat → Nat → Frontier → Frontier → Option (Nat × Nat)
  | 0, _, _, _ => none
  | steps + 1, d, forward, backward =>
    match searchForward old new p backward d (d + 1) d forward with
    | (_, some point) => some point
    | (forward, none) =>
      match searchBackward old new p forward d (d + 1) d backward with
      | (_, some point) => some point
      | (backward, none) => meetFrom old new p steps (d + 1) forward backward

/-- A point where a part is cut in two, if the searches meet. -/
def meet (old new : Array String) (p : Part) : Option (Nat × Nat) :=
  let depth := (p.oldLength + p.newLength + 1) / 2 + 1
  meetFrom old new p depth 0 (.empty depth) (.empty depth)

/-- The operations that turn a part of the old lines into a part of the new ones. -/
def conquer (old new : Array String) : Nat → Part → List Op
  | fuel, p =>
    let front := commonFront old new (min p.oldLength p.newLength) p.oldStart p.newStart
    let keepFront := if 0 < front then [Op.keep p.oldStart p.newStart front] else []
    let p : Part := { p with oldStart := p.oldStart + front, newStart := p.newStart + front }
    let back := commonBack old new (min p.oldLength p.newLength) p.oldStop p.newStop
    let p : Part := { p with oldStop := p.oldStop - back, newStop := p.newStop - back }
    let keepBack := if 0 < back then [Op.keep p.oldStop p.newStop back] else []
    let n := p.oldLength
    let m := p.newLength
    let middle :=
      if n = 0 ∧ m = 0 then []
      else if m = 0 then [Op.remove p.oldStart n p.newStart]
      else if n = 0 then [Op.add p.oldStart p.newStart m]
      else
        let whole := [Op.remove p.oldStart n p.newStart, Op.add p.oldStart p.newStart m]
        match fuel with
        | 0 => whole
        | fuel + 1 =>
          match meet old new p with
          | none => whole
          | some (x, y) =>
            let x := max p.oldStart (min x p.oldStop)
            let y := max p.newStart (min y p.newStop)
            conquer old new fuel ⟨p.oldStart, x, p.newStart, y⟩ ++
              conquer old new fuel ⟨x, p.oldStop, y, p.newStop⟩
    keepFront ++ middle ++ keepBack

/-- A script that turns the old lines into the new ones. -/
def script (old new : Array String) : List Op :=
  conquer old new (old.size + new.size) ⟨0, old.size, 0, new.size⟩

end Fettle.Diff
