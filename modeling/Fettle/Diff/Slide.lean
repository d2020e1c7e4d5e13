import Fettle.Diff.Script

/-!
# Sliding insertions

Where inserted lines repeat kept lines next to them, the insertion may stand in several places.
Every insertion is slid up as far as it goes and then down as far as it goes; on its way it
changes places with deletions and takes up insertions it meets. Deletions do not slide over kept
lines. Operations keep the line numbers they were given when they change places.
-/

namespace Fettle.Diff

namespace Op

/-- The operation, `n` lines further up. -/
def moveUp (op : Op) (n : Nat) : Op :=
  { op with oldStart := op.oldStart - n, newStart := op.newStart - n }

/-- The operation, `n` lines further down. -/
def moveDown (op : Op) (n : Nat) : Op :=
  { op with oldStart := op.oldStart + n, newStart := op.newStart + n }

/-- The operation with `n` lines more at its end. -/
def lengthen (op : Op) (n : Nat) : Op :=
  match op.kind with
  | .delete => { op with oldLength := op.oldLength + n }
  | .insert => { op with newLength := op.newLength + n }
  | _ => { op with oldLength := op.oldLength + n, newLength := op.newLength + n }

/-- The operation with `n` lines fewer at its end. -/
def shorten (op : Op) (n : Nat) : Op :=
  match op.kind with
  | .delete => { op with oldLength := op.oldLength - n }
  | .insert => { op with newLength := op.newLength - n }
  | _ => { op with oldLength := op.oldLength - n, newLength := op.newLength - n }

end Op

/-- An operation in its script: the operations before it, the nearest first, and those after. -/
structure Cursor where
  /-- The operations before, the nearest first. -/
  before : List Op
  /-- The operation looked at. -/
  this : Op
  /-- The operations after. -/
  after : List Op

namespace Cursor

/-- Slide an operation up. -/
def slideUp (old new : Array String) : Nat → Cursor → Cursor
  | 0, c => c
  | fuel + 1, c =>
    match c.before with
    | [] => c
    | prev :: before =>
      match c.this.kind, prev.kind with
      | .insert, .equal =>
        let n := commonBack old new (min prev.oldLength c.this.newLength) prev.oldStop
          c.this.newStop
        if 0 < n then
          let after := match c.after with
            | next :: after =>
              if next.kind = .equal then (next.moveUp n).lengthen n :: after
              else .keep (prev.oldStop - n) (c.this.newStop - n) n :: next :: after
            | [] => [.keep (prev.oldStop - n) (c.this.newStop - n) n]
          let prev := prev.shorten n
          let before := if prev.isEmpty then before else prev :: before
          slideUp old new fuel ⟨before, c.this.moveUp n, after⟩
        else if prev.isEmpty then slideUp old new fuel { c with before }
        else c
      | .delete, .equal =>
        if prev.isEmpty then slideUp old new fuel { c with before } else c
      | .insert, .delete | .delete, .insert =>
        slideUp old new fuel ⟨before, c.this, prev :: c.after⟩
      | .insert, .insert =>
        slideUp old new fuel ⟨before, prev.lengthen c.this.newLength, c.after⟩
      | .delete, .delete =>
        slideUp old new fuel ⟨before, prev.lengthen c.this.oldLength, c.after⟩
      | _, _ => c

/-- Slide an operation down. -/
def slideDown (old new : Array String) : Nat → Cursor → Cursor
  | 0, c => c
  | fuel + 1, c =>
    match c.after with
    | [] => c
    | next :: after =>
      match c.this.kind, next.kind with
      | .insert, .equal =>
        let n := commonFront old new (min next.oldLength c.this.newLength) next.oldStart
          c.this.newStart
        if 0 < n then
          let before := match c.before with
            | prev :: before =>
              if prev.kind = .equal then prev.lengthen n :: before
              else .keep next.oldStart c.this.newStart n :: prev :: before
            | [] => [.keep next.oldStart c.this.newStart n]
          let next := (next.moveDown n).shorten n
          let after := if next.isEmpty then after else next :: after
          slideDown old new fuel ⟨before, c.this.moveDown n, after⟩
        else if next.isEmpty then slideDown old new fuel { c with after }
        else c
      | .delete, .equal =>
        if next.isEmpty then slideDown old new fuel { c with after } else c
      | .insert, .delete | .delete, .insert =>
        slideDown old new fuel ⟨next :: c.before, c.this, after⟩
      | .insert, .insert =>
        slideDown old new fuel ⟨c.before, c.this.lengthen next.newLength, after⟩
      | .delete, .delete =>
        slideDown old new fuel ⟨c.before, c.this.lengthen next.oldLength, after⟩
      | _, _ => c

end Cursor

/-- The number of lines that a script speaks of, and of its operations. -/
def weight (ops : List Op) : Nat := ops.foldl (fun n op => n + op.oldLength + op.newLength + 1) 0

/-- Slide every operation of one kind, up and then down. -/
def slideFrom (old new : Array String) (kind : Kind) (bound : Nat) :
    Nat → List Op → List Op → List Op
  | 0, before, after => before.reverse ++ after
  | _, before, [] => before.reverse
  | fuel + 1, before, op :: after =>
    if op.kind = kind then
      let c := Cursor.slideUp old new bound ⟨before, op, after⟩
      let c := c.slideDown old new bound
      slideFrom old new kind bound fuel (c.this :: c.before) c.after
    else slideFrom old new kind bound fuel (op :: before) after

/-- Slide every operation of one kind, up and then down. -/
def slide (old new : Array String) (kind : Kind) (ops : List Op) : List Op :=
  let bound := 2 * weight ops + 2
  slideFrom old new kind bound bound [] ops

/-- What is pending while the operations of a script are joined: kept lines, or deleted and
inserted lines. -/
structure Pending where
  /-- Kept lines. -/
  equal : Option Op := none
  /-- Deleted lines. -/
  delete : Option Op := none
  /-- Inserted lines. -/
  insert : Option Op := none

namespace Pending

/-- Hand over the kept lines. -/
def flushEqual (p : Pending) : List Op := p.equal.toList

/-- Hand over the deleted and inserted lines, as one replacement if there are both. -/
def flushChange (p : Pending) : List Op :=
  match p.delete, p.insert with
  | some d, some i => [⟨.replace, d.oldStart, d.oldLength, i.newStart, i.newLength⟩]
  | some d, none => [d]
  | none, some i => [i]
  | none, none => []

/-- Append an operation to another of its kind. -/
def extend (a : Option Op) (op : Op) : Op :=
  match a with
  | none => op
  | some a => a.lengthen (max op.oldLength op.newLength)

end Pending

/-- Join neighbouring operations of one kind, and deletions with insertions next to them. -/
def joinFrom : Pending → List Op → List Op
  | p, [] => p.flushEqual ++ p.flushChange
  | p, op :: ops =>
    match op.kind with
    | .equal =>
      p.flushChange ++
        joinFrom
          { p with equal := some (Pending.extend p.equal op), delete := none, insert := none }
          ops
    | .delete =>
      p.flushEqual ++
        joinFrom { p with equal := none, delete := some (Pending.extend p.delete op) } ops
    | .insert =>
      p.flushEqual ++
        joinFrom { p with equal := none, insert := some (Pending.extend p.insert op) } ops
    | .replace => p.flushEqual ++ op :: joinFrom { p with equal := none } ops

/-- The operations between two lists of lines as they are shown. -/
def operations (old new : Array String) : List Op :=
  let ops := script old new
  let ops := slide old new .delete ops
  let ops := slide old new .insert ops
  joinFrom {} ops

end Fettle.Diff
