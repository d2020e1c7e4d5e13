import Fettle.Data.Complaint
import Fettle.Settings.Layer

/-!
# The members of a settings file

Each setting has a name and a kind of data. The members are described once, over any data format
that can tell the kinds of data apart.
-/

namespace Fettle.Settings

/-- How a data format with values `ν` and errors `ε` reads the kinds of data that settings have.
Texts name in messages what they are. -/
structure Kinds (ν ε : Type) where
  /-- A natural number of at most 64 bits. -/
  nat : String → ν → Except ε Nat
  /-- A truth value. -/
  bool : ν → Except ε Bool
  /-- A text. -/
  text : String → ν → Except ε String
  /-- A list of texts. -/
  texts : ν → Except ε (List String)
  /-- The name of a formatting tool. -/
  formatter : ν → Except ε FormatterKind
  /-- Whether a value stands for nothing. -/
  isNothing : ν → Bool

namespace Layer

variable {ν ε : Type}

/-- Read a setting that may be left open, and store it. -/
def store {α : Type} (k : Kinds ν ε) (read : ν → Except ε α) (put : Option α → Layer)
    (value : ν) : Except ε Layer :=
  if k.isNothing value then .ok (put none)
  else do .ok (put (some (← read value)))

/-- The settings in the order of declaration: the name of each, and how it is stored. -/
def members (k : Kinds ν ε) : List (String × (Layer → ν → Except ε Layer)) := [
  ("line_length", fun l => store k (k.nat "usize") ({ l with lineLength := · })),
  ("normalize_string_quotes", fun l => store k k.bool ({ l with normalizeQuotes := · })),
  ("max_passes", fun l => store k (k.nat "usize") ({ l with maxPasses := · })),
  ("allow_list", fun l => store k k.texts ({ l with allowList := · })),
  ("select", fun l => store k k.texts ({ l with select := · })),
  ("lint_select", fun l => store k k.texts ({ l with lintSelect := · })),
  ("formatter", fun l => store k k.formatter ({ l with formatter := · })),
  ("black_path", fun l => store k (k.text "path string") ({ l with blackPath := · })),
  ("ruff_path", fun l => store k (k.text "path string") ({ l with ruffPath := · })),
  ("stdin_filename", fun l => store k (k.text "a string") ({ l with stdinFilename := · })),
  ("init_timeout_secs", fun l => store k (k.nat "u64") ({ l with startupSeconds := · }))]

/-- How messages name a layer. -/
def expected : String := "struct SettingsLayer"

/-- How messages name a layer that is written as a list. -/
def expectedList : String := expected ++ " with 11 elements"

end Layer

end Fettle.Settings
