import Fettle.Settings.Json
import Fettle.Yaml.Kind

/-!
# Layers of settings as YAML documents

A layer is a mapping from the names of settings to their values. What is wrong with it is told
with the path to the value, and with the line and column where the value starts.
-/

namespace Fettle.Settings

open Data (Complaint)
open Yaml (Document KindTag Mark Node)

/-- What is wrong with a layer. -/
structure LayerFault where
  /-- What does not fit. -/
  complaint : Complaint
  /-- The path to the value and the place where it starts, if they are known yet. -/
  place : Option (String × Mark) := none
deriving Inhabited

namespace LayerFault

/-- The line and the column of a place, counted from one. The start of a text is not told. -/
def atMark (m : Mark) : String :=
  if m.line = 0 ∧ m.column = 0 then "" else s!" at line {m.line + 1} column {m.column + 1}"

/-- The message of a fault. -/
def message (f : LayerFault) : String :=
  let text := f.complaint.message Yaml.wording
  match f.place with
  | none => text
  | some (path, mark) => (if path = "" then text else path ++ ": " ++ text) ++ atMark mark

/-- Put the name of a member in front of the path. A fault without a place is one of the whole
mapping. -/
def within (name : String) (mapping : Mark) (f : LayerFault) : LayerFault :=
  match f.place with
  | none => { f with place := some ("", mapping) }
  | some (path, mark) => { f with place := some (name ++ path, mark) }

end LayerFault

namespace Reading

/-- Complain about a node. -/
def refuse {α : Type} (expected : String) (node : Node) : Except LayerFault α :=
  .error ⟨node.complaint expected, some ("", node.mark)⟩

/-- Whether a scalar may spell a value of a kind: it is plain, or it is a block with the tag of the
kind. -/
def maySpell (kind : KindTag) : Node → Option String
  | .scalar _ tag style s =>
    if style = .plain ∨ (style = .literal ∧ tag = some kind.name) then some s else none
  | _ => none

/-- Read a natural number. -/
def readNat (expected : String) (node : Node) : Except LayerFault Nat :=
  match (maySpell .integer node).bind Yaml.natural? with
  | some n => if n < Nat.pow 2 64 then .ok n else refuse expected node
  | none => refuse expected node

/-- Read a truth value. -/
def readBool (node : Node) : Except LayerFault Bool :=
  match (maySpell .boolean node).bind Yaml.truth? with
  | some b => .ok b
  | none => refuse "a boolean" node

/-- Read a text, which any scalar spells. -/
def readText (expected : String) : Node → Except LayerFault String
  | .scalar _ _ _ s => .ok s
  | node => refuse expected node

/-- Read a list of texts. -/
def readTexts (d : Document) : Node → Except LayerFault (List String)
  | .sequence _ _ items =>
    items.zipIdx.mapM fun (item, i) =>
      match readText "a string" (d.resolve item) with
      | .ok s => .ok s
      | .error f => .error { f with place := f.place.map fun (path, m) => (s!"[{i}]" ++ path, m) }
  | node => if node.isBlank then .ok [] else refuse "a sequence" node

/-- Whether a plain scalar stands for nothing. -/
def standsForNothing : Node → Bool
  | .scalar _ none .plain s => s == "" || Yaml.isNullWord s
  | .scalar _ (some tag) .plain s => tag == KindTag.nothing.name && Yaml.isNullWord s
  | _ => false

/-- The word that a tag of the document's own spells. -/
def ownTag : Node → Option String
  | .scalar _ (some tag) _ _ | .sequence _ (some tag) _ | .mapping _ (some tag) _ =>
    match tag.toList with
    | '!' :: word => some (String.ofList word)
    | _ => none
  | _ => none

/-- Read the name of a formatting tool, which is a scalar, or a tag before nothing. -/
def readFormatter (node : Node) : Except LayerFault FormatterKind :=
  match ownTag node with
  | some word =>
    match formatterOfWord word, node with
    | .error complaint, _ => .error ⟨complaint, none⟩
    | .ok kind, .scalar mark _ style s =>
      if style = .plain ∧ (s = "" ∨ Yaml.isNullWord s) then .ok kind
      else .error ⟨.wrongType (.text s) "null", some ("", mark)⟩
    | .ok _, node => refuse "unit" node
  | none =>
    match node with
    | .scalar mark _ _ s =>
      match formatterOfWord s with
      | .ok kind => .ok kind
      | .error complaint => .error ⟨complaint, some ("", mark)⟩
    | node => refuse "a YAML tag starting with '!'" node

/-- How nodes are read. -/
def kinds (d : Document) : Kinds Node LayerFault where
  nat := readNat
  bool := readBool
  text := readText
  texts := readTexts d
  formatter := readFormatter
  isNothing := standsForNothing

/-- A plain scalar with the tag for nothing must spell nothing. -/
def checkNothing : Node → Except LayerFault Unit
  | .scalar _ (some tag) .plain s =>
    if tag = KindTag.nothing.name ∧ !Yaml.isNullWord s then
      .error ⟨.wrongValue (.text s) KindTag.nothing.expected, none⟩
    else .ok ()
  | _ => .ok ()

/-- How the path to a value names its key. -/
def keyInPath : Node → String
  | .scalar _ _ _ s => s
  | _ => "?"

/-- Store the values of a mapping in the settings, in order. A setting is given at most once. -/
def storePairs (d : Document) (mark : Mark) :
    List String → List (Node × Node) → Layer → Except LayerFault Layer
  | _, [], l => .ok l
  | seen, (key, value) :: pairs, l =>
    match d.resolve key with
    | .scalar _ _ _ name =>
      match (Layer.members (kinds d)).lookup name with
      | none => storePairs d mark seen pairs l
      | some store =>
        if seen.contains name then .error ⟨.duplicate name, some ("", mark)⟩
        else
          let value := d.resolve value
          match (do checkNothing value; store l value) with
          | .error f => .error (f.within (keyInPath key) mark)
          | .ok l => storePairs d mark (name :: seen) pairs l
    | node => refuse "field identifier" node

end Reading

/-- The layer that a document spells. An empty document leaves all settings open. -/
def Layer.ofYaml (d : Document) : Except LayerFault Layer :=
  match d.root with
  | none => .ok {}
  | some root =>
    match d.resolve root with
    | .mapping mark _ pairs => Reading.storePairs d mark [] pairs {}
    | node => if node.isBlank then .ok {} else Reading.refuse Layer.expected node

end Fettle.Settings
