import Fettle.Proofs.Settings.Reading

/-!
# Layers on layers

Layers are merged field by field, so it does not matter in which order the merges of a sequence of
layers are made. Each field of the merged layer is what the last layer that sets the field says
(`Stack.get_merged`), and the settings are resolved from that: what no layer sets has its default,
and the defaults of derived settings follow the merged layer (`resolved_follows_layers`).
-/

namespace Fettle.Settings

open Json (Value)
open Yaml (Document Mark Node)

/-! ## Merging -/

/-- Of three layers, it makes no difference which two are merged first. -/
theorem Layer.merge_assoc (a b c : Layer) : (a.merge b).merge c = a.merge (b.merge c) := by
  refine ext_get fun f => ?_
  simp only [get_merge, Option.or_assoc]

/-- A layer over the empty one is as it is, -/
theorem Layer.empty_merge (l : Layer) : Layer.merge {} l = l := by
  refine ext_get fun f => ?_
  rw [get_merge, get_empty, Option.or_none]

/-- and so is a layer under the empty one. -/
theorem Layer.merge_empty (l : Layer) : l.merge {} = l := by
  refine ext_get fun f => ?_
  rw [get_merge, get_empty, Option.none_or]

/-- Layers on layers, with the order in which they are merged. -/
inductive Stack where
  /-- No layer. -/
  | empty
  /-- A single layer. -/
  | layer (l : Layer)
  /-- Some layers below and some above, which are merged first. -/
  | atop (lower upper : Stack)

namespace Stack

/-- The layers of a stack, the lowest first. -/
def layers : Stack → List Layer
  | empty => []
  | layer l => [l]
  | atop lower upper => lower.layers ++ upper.layers

/-- The layer that a stack is merged into. -/
def merged : Stack → Layer
  | empty => {}
  | layer l => l
  | atop lower upper => lower.merged.merge upper.merged

end Stack

/-- What the last layer that sets a field says about it. -/
def lastSet (layers : List Layer) (f : Field) : Option f.Value :=
  (layers.filterMap (·.get f)).getLast?

/-- What the upper layers say counts, and what the lower ones say if the upper ones say nothing. -/
theorem lastSet_append (lower upper : List Layer) (f : Field) :
    lastSet (lower ++ upper) f = (lastSet upper f).or (lastSet lower f) := by
  unfold lastSet
  rw [List.filterMap_append, List.getLast?_append]

/-- Of a single layer, what it says counts. -/
theorem lastSet_singleton (l : Layer) (f : Field) : lastSet [l] f = l.get f := by
  unfold lastSet
  cases h : l.get f <;> simp [h]

/-- However the merges are bracketed, a field of the merged layer is as the last layer that sets it
says. -/
theorem Stack.get_merged (s : Stack) (f : Field) : s.merged.get f = lastSet s.layers f := by
  induction s with
  | empty => exact Layer.get_empty f
  | layer l => exact (lastSet_singleton l f).symm
  | atop lower upper ihl ihu =>
    -- the merged layer asks its upper part first, as the last layer of two lists is in the second
    rw [merged, Layer.get_merge, ihl, ihu, layers, lastSet_append]

/-! ## Resolving -/

/-- Settings that follow layers: each is what the last layer that sets it says, or has its
default. -/
structure Resolved.Follows (s : Resolved) (layers : List Layer) : Prop where
  /-- The line length to aim at. -/
  lineLength : s.lineLength = (lastSet layers .lineLength).getD 88
  /-- Whether string quotes are made alike. -/
  normalizeQuotes : s.normalizeQuotes = (lastSet layers .normalizeQuotes).getD true
  /-- The ceiling of fix passes. -/
  maxPasses : s.maxPasses = (lastSet layers .maxPasses).getD 100
  /-- The rules whose fixes are applied. -/
  allowList : s.allowList = (lastSet layers .allowList).getD defaultAllowList
  /-- The rules that are asked for are the rules that may be fixed in the end, unless a layer names
  others. -/
  select : s.select = (lastSet layers .select).getD s.allowList
  /-- The rules that the lint engine is asked for when reporting. -/
  lintSelect : s.lintSelect = (lastSet layers .lintSelect).getD ["E4", "E7", "E9", "F", "W"]
  /-- The tool that formats. -/
  formatter : s.formatter = (lastSet layers .formatter).getD .black
  /-- Where the tool `black` is. -/
  blackPath : s.blackPath = (lastSet layers .blackPath).getD "black"
  /-- Where the tool `ruff` is. -/
  ruffPath : s.ruffPath = (lastSet layers .ruffPath).getD "ruff"
  /-- The file name that the tools are told. -/
  stdinFilename : s.stdinFilename = (lastSet layers .stdinFilename).getD "shed_input.py"
  /-- The start-up has no bound if the last layer that sets the bound says zero, whatever earlier
  layers say, -/
  startupLimit_eq_none_iff : s.startupLimit = none ↔ lastSet layers .startupSeconds = some 0
  /-- and otherwise the bound that this layer says. -/
  startupLimit_eq_some : s.startupLimit ≠ none →
    s.startupLimit = some (.ofSeconds ((lastSet layers .startupSeconds).getD 120))
  /-- The pipeline has the settings that concern it. -/
  pipeline : s.pipeline = ⟨⟨s.lineLength, s.normalizeQuotes⟩, s.allowList, s.maxPasses⟩

/-- A bound of no seconds is no bound. -/
theorem startupLimit_eq_none_iff {seconds : Nat} : startupLimit seconds = none ↔ seconds = 0 := by
  unfold startupLimit
  split_ifs with h
  · exact iff_of_true rfl h
  · exact iff_of_false nofun h

/-- If there is a bound, it is the number of seconds. -/
theorem startupLimit_of_ne_none {seconds : Nat} (h : startupLimit seconds ≠ none) :
    startupLimit seconds = some (.ofSeconds seconds) :=
  if_neg fun hzero => h (startupLimit_eq_none_iff.mpr hzero)

/-- A default that is not zero is no way to say zero. -/
theorem getD_eq_zero_iff {seconds : Option Nat} {default : Nat} (h : default ≠ 0) :
    seconds.getD default = 0 ↔ seconds = some 0 := by
  cases seconds with
  | none => exact iff_of_false h nofun
  | some n => exact Option.some.injEq .. ▸ Iff.rfl

/-- The settings of a merged layer follow the layers that were merged. -/
theorem Stack.follows_resolve (s : Stack) : s.merged.resolve.Follows s.layers where
  lineLength := congrArg (Option.getD · 88) (s.get_merged .lineLength)
  normalizeQuotes := congrArg (Option.getD · true) (s.get_merged .normalizeQuotes)
  maxPasses := congrArg (Option.getD · 100) (s.get_merged .maxPasses)
  allowList := congrArg (Option.getD · defaultAllowList) (s.get_merged .allowList)
  select := congrArg (Option.getD · s.merged.resolve.allowList) (s.get_merged .select)
  lintSelect := congrArg (Option.getD · ["E4", "E7", "E9", "F", "W"]) (s.get_merged .lintSelect)
  formatter := congrArg (Option.getD · FormatterKind.black) (s.get_merged .formatter)
  blackPath := congrArg (Option.getD · "black") (s.get_merged .blackPath)
  ruffPath := congrArg (Option.getD · "ruff") (s.get_merged .ruffPath)
  stdinFilename := congrArg (Option.getD · "shed_input.py") (s.get_merged .stdinFilename)
  startupLimit_eq_none_iff := by
    rw [← s.get_merged]
    exact startupLimit_eq_none_iff.trans (getD_eq_zero_iff (by decide))
  startupLimit_eq_some h := by
    rw [← s.get_merged]
    exact startupLimit_of_ne_none h
  pipeline := rfl

/-- A bound above none counts, and so do the rules of the upper layer for what is asked for. -/
example :
    let s := Stack.atop (.layer { startupSeconds := some 0, allowList := some ["F"] })
      (.layer { startupSeconds := some 5, allowList := some [] })
    s.merged.resolve.startupLimit = some (.ofSeconds 5) ∧ s.merged.resolve.select = [] := by
  decide

/-- Layers can be merged in any order of bracketing, with the empty layer as identity, and the
settings follow the layers. A layer that is read sets a field if it gives a value for it other than
nothing, also if the value is an empty list. -/
theorem resolved_follows_layers :
    (∀ a b c : Layer, (a.merge b).merge c = a.merge (b.merge c)) ∧
    (∀ l : Layer, Layer.merge {} l = l ∧ l.merge {} = l) ∧
    (∀ s : Stack, s.merged.resolve.Follows s.layers) ∧
    (∀ (ms : List (String × Value)) (l : Layer), Layer.ofJson (.object ms) = .ok l ↔
      Collects (Field.readGiven jsonKinds) (givenFor ms.reverse) {} l) ∧
    OpensOnNothing (Field.readGiven jsonKinds) (· = .null) (· = .array []) ∧
    (∀ (d : Document) (root : Node) (mark : Mark) (tag : Option String)
      (pairs : List (Node × Node)) (l : Layer),
      d.root = some root → d.resolve root = .mapping mark tag pairs →
        (Layer.ofYaml d = .ok l ↔
          WellKeyed d [] pairs ∧ Collects (readNode d) (givenFor (namedValues d pairs)) {} l)) ∧
    (∀ d : Document, OpensOnNothing (readNode d)
      (fun node => Reading.standsForNothing node = true)
      (fun node => ∃ mark tag, node = .sequence mark tag [])) :=
  ⟨Layer.merge_assoc, fun l => ⟨l.empty_merge, l.merge_empty⟩, Stack.follows_resolve,
    fun _ _ => ofJson_object_eq_ok_iff, opensOnNothing_readGiven,
    fun _ _ _ _ _ _ hroot hmapping => ofYaml_mapping_eq_ok_iff hroot hmapping,
    opensOnNothing_readNode⟩

end Fettle.Settings
