import Fettle.Settings.Members

/-!
# Fields

A layer of settings has eleven fields of five kinds of data. A `Field` names one of them, so that
what holds of every field is said once: reading and putting obey the laws of a lens, and the
members of a settings file are the fields, each read by its kind (`members_eq_map`).
-/

namespace Fettle.Settings

/-- A field of a layer. -/
inductive Field where
  /-- The line length to aim at. -/
  | lineLength
  /-- Whether string quotes are made alike. -/
  | normalizeQuotes
  /-- The ceiling of fix passes. -/
  | maxPasses
  /-- The rules whose fixes are applied. -/
  | allowList
  /-- The rules that the lint engine is asked for when fixing. -/
  | select
  /-- The rules that the lint engine is asked for when reporting. -/
  | lintSelect
  /-- The tool that formats. -/
  | formatter
  /-- Where the tool `black` is. -/
  | blackPath
  /-- Where the tool `ruff` is. -/
  | ruffPath
  /-- The file name that the tools are told. -/
  | stdinFilename
  /-- The bound on starting the engines, in seconds. -/
  | startupSeconds
deriving DecidableEq

namespace Field

/-- The data that a field holds. -/
@[reducible] def Value : Field → Type
  | lineLength | maxPasses | startupSeconds => Nat
  | normalizeQuotes => Bool
  | allowList | select | lintSelect => List String
  | formatter => FormatterKind
  | blackPath | ruffPath | stdinFilename => String

/-- The name of a field in a settings file. -/
def name : Field → String
  | lineLength => "line_length"
  | normalizeQuotes => "normalize_string_quotes"
  | maxPasses => "max_passes"
  | allowList => "allow_list"
  | select => "select"
  | lintSelect => "lint_select"
  | formatter => "formatter"
  | blackPath => "black_path"
  | ruffPath => "ruff_path"
  | stdinFilename => "stdin_filename"
  | startupSeconds => "init_timeout_secs"

/-- The fields in the order of declaration. -/
def all : List Field :=
  [lineLength, normalizeQuotes, maxPasses, allowList, select, lintSelect, formatter, blackPath,
    ruffPath, stdinFilename, startupSeconds]

/-- The list has every field. -/
theorem mem_all (f : Field) : f ∈ all := by
  cases f <;> decide

/-- Fields have different names. -/
theorem name_injective {f g : Field} (h : f.name = g.name) : f = g := by
  revert h
  cases f <;> cases g <;> decide

variable {ν ε : Type}

/-- How the data of a field is read. -/
def read (k : Kinds ν ε) : (f : Field) → ν → Except ε f.Value
  | lineLength | maxPasses => k.nat "usize"
  | normalizeQuotes => k.bool
  | allowList | select | lintSelect => k.texts
  | formatter => k.formatter
  | blackPath | ruffPath => k.text "path string"
  | stdinFilename => k.text "a string"
  | startupSeconds => k.nat "u64"

/-- How a value that is given for a field is read: nothing leaves it open. -/
def readGiven (k : Kinds ν ε) (f : Field) (value : ν) : Except ε (Option f.Value) :=
  if k.isNothing value then .ok none else (f.read k value).map some

/-- Nothing leaves a field open, whichever field it is given for. -/
theorem readGiven_of_isNothing {k : Kinds ν ε} {value : ν} (h : k.isNothing value = true)
    (f : Field) : f.readGiven k value = .ok none := if_pos h

/-- Anything else is read as the data of the field. -/
theorem readGiven_of_not_isNothing {k : Kinds ν ε} {value : ν} (h : k.isNothing value = false)
    (f : Field) : f.readGiven k value = (f.read k value).map some :=
  if_neg (Bool.eq_false_iff.mp h)

end Field

namespace Layer

/-- What a layer says about a field. -/
def get (l : Layer) : (f : Field) → Option f.Value
  | .lineLength => l.lineLength
  | .normalizeQuotes => l.normalizeQuotes
  | .maxPasses => l.maxPasses
  | .allowList => l.allowList
  | .select => l.select
  | .lintSelect => l.lintSelect
  | .formatter => l.formatter
  | .blackPath => l.blackPath
  | .ruffPath => l.ruffPath
  | .stdinFilename => l.stdinFilename
  | .startupSeconds => l.startupSeconds

/-- A layer with one field changed. -/
def put (l : Layer) : (f : Field) → Option f.Value → Layer
  | .lineLength, v => { l with lineLength := v }
  | .normalizeQuotes, v => { l with normalizeQuotes := v }
  | .maxPasses, v => { l with maxPasses := v }
  | .allowList, v => { l with allowList := v }
  | .select, v => { l with select := v }
  | .lintSelect, v => { l with lintSelect := v }
  | .formatter, v => { l with formatter := v }
  | .blackPath, v => { l with blackPath := v }
  | .ruffPath, v => { l with ruffPath := v }
  | .stdinFilename, v => { l with stdinFilename := v }
  | .startupSeconds, v => { l with startupSeconds := v }

/-- Two layers that say the same about every field are the same. -/
theorem ext_get {l m : Layer} (h : ∀ f, l.get f = m.get f) : l = m := by
  obtain ⟨_, _, _, _, _, _, _, _, _, _, _⟩ := l
  obtain ⟨_, _, _, _, _, _, _, _, _, _, _⟩ := m
  rw [mk.injEq]
  exact ⟨h .lineLength, h .normalizeQuotes, h .maxPasses, h .allowList, h .select, h .lintSelect,
    h .formatter, h .blackPath, h .ruffPath, h .stdinFilename, h .startupSeconds⟩

/-- The empty layer says nothing about any field. -/
@[simp] theorem get_empty (f : Field) : ({} : Layer).get f = none := by
  cases f <;> rfl

/-- In a merged layer the upper layer is asked first. -/
@[simp] theorem get_merge (lower upper : Layer) (f : Field) :
    (lower.merge upper).get f = (upper.get f).or (lower.get f) := by
  cases f <;> exact Option.orElse_eq_or

/-- A field that has been changed is as it was changed, -/
@[simp] theorem get_put_self (l : Layer) (f : Field) (v : Option f.Value) :
    (l.put f v).get f = v := by
  cases f <;> rfl

/-- and every other field is as before. -/
theorem get_put_of_ne (l : Layer) {f g : Field} (h : g ≠ f) (v : Option f.Value) :
    (l.put f v).get g = l.get g := by
  cases f <;> cases g <;> first | rfl | exact absurd rfl h

/-! ## The members of a settings file -/

section

variable {ν ε : Type} (k : Kinds ν ε)

/-- A value is stored in a field as it is read. -/
theorem store_eq_map {α : Type} (read : ν → Except ε α) (set : Option α → Layer) (value : ν) :
    store k read set value =
      (if k.isNothing value then .ok none else (read value).map some).map set := by
  unfold store
  split
  · rfl
  · cases read value <;> rfl

/-- The members of a settings file are the fields. -/
theorem members_eq_map :
    members k = Field.all.map fun f => (f.name, fun l => store k (f.read k) (l.put f)) := rfl

/-- The member with the name of a field stores what is read for the field. -/
theorem lookup_members_name (f : Field) :
    ∃ store, (members k).lookup f.name = some store ∧
      ∀ l value, store l value = (f.readGiven k value).map (l.put f) := by
  refine ⟨fun l => store k (f.read k) (l.put f), ?_, fun l value => store_eq_map ..⟩
  rw [members_eq_map]
  cases f <;> rfl

/-- A name that no field has is no member. -/
theorem lookup_members_eq_none {name : String} (h : ∀ f : Field, f.name ≠ name) :
    (members k).lookup name = none := by
  rw [List.lookup_eq_none_iff, members_eq_map]
  intro m hm
  obtain ⟨f, -, rfl⟩ := List.mem_map.mp hm
  exact bne_iff_ne.mpr (h f).symm

end

end Layer

end Fettle.Settings
