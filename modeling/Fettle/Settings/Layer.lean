import Fettle.Pipeline

/-!
# Layers of settings

A settings file is a layer in which every setting may be left open. Layers are merged setting by
setting, a later layer winning where it says something; what is left open in the end has a
default. The rules that the lint engine is asked for are those that may be fixed, unless a layer
names others. Paths are texts here and everywhere: a path whose bytes spell no text is left out.
-/

namespace Fettle.Settings

/-- The tool that formats. -/
inductive FormatterKind where
  /-- The tool `black`. -/
  | black
  /-- The formatter of the tool `ruff`. -/
  | ruff
deriving DecidableEq, Inhabited, Repr

namespace FormatterKind

/-- The name of a formatting tool. -/
def name : FormatterKind → String
  | black => "black"
  | ruff => "ruff"

/-- The formatting tool with a name. -/
def ofName? (s : String) : Option FormatterKind := [black, ruff].find? (·.name == s)

end FormatterKind

/-- One layer of settings. -/
structure Layer where
  /-- The line length to aim at. -/
  lineLength : Option Nat := none
  /-- Whether string quotes are made alike. -/
  normalizeQuotes : Option Bool := none
  /-- The ceiling of fix passes. -/
  maxPasses : Option Nat := none
  /-- The rules whose fixes are applied. -/
  allowList : Option (List String) := none
  /-- The rules that the lint engine is asked for when fixing. -/
  select : Option (List String) := none
  /-- The rules that the lint engine is asked for when reporting. -/
  lintSelect : Option (List String) := none
  /-- The tool that formats. -/
  formatter : Option FormatterKind := none
  /-- Where the tool `black` is. -/
  blackPath : Option String := none
  /-- Where the tool `ruff` is. -/
  ruffPath : Option String := none
  /-- The file name that the tools are told. -/
  stdinFilename : Option String := none
  /-- The bound on starting the engines, in seconds; zero means none. -/
  startupSeconds : Option Nat := none
deriving DecidableEq, Inhabited, Repr

/-- Put one layer over another: where the upper layer says something, it wins. -/
def Layer.merge (lower upper : Layer) : Layer where
  lineLength := upper.lineLength <|> lower.lineLength
  normalizeQuotes := upper.normalizeQuotes <|> lower.normalizeQuotes
  maxPasses := upper.maxPasses <|> lower.maxPasses
  allowList := upper.allowList <|> lower.allowList
  select := upper.select <|> lower.select
  lintSelect := upper.lintSelect <|> lower.lintSelect
  formatter := upper.formatter <|> lower.formatter
  blackPath := upper.blackPath <|> lower.blackPath
  ruffPath := upper.ruffPath <|> lower.ruffPath
  stdinFilename := upper.stdinFilename <|> lower.stdinFilename
  startupSeconds := upper.startupSeconds <|> lower.startupSeconds

/-- The rules that are reported by default: imports, statements, errors, unused names and
warnings. -/
def defaultLintSelect : List String := ["E4", "E7", "E9", "F", "W"]

/-- The bound on starting the engines by default, in seconds. -/
def defaultStartupSeconds : Nat := 120

/-- Settings with nothing left open. -/
structure Resolved where
  /-- The line length to aim at. -/
  lineLength : Nat
  /-- Whether string quotes are made alike. -/
  normalizeQuotes : Bool
  /-- The ceiling of fix passes. -/
  maxPasses : Nat
  /-- The rules whose fixes are applied. -/
  allowList : List String
  /-- The rules that the lint engine is asked for when fixing. -/
  select : List String
  /-- The rules that the lint engine is asked for when reporting. -/
  lintSelect : List String
  /-- The tool that formats. -/
  formatter : FormatterKind
  /-- Where the tool `black` is. -/
  blackPath : String
  /-- Where the tool `ruff` is. -/
  ruffPath : String
  /-- The file name that the tools are told. -/
  stdinFilename : String
  /-- The bound on starting the engines, if there is one. -/
  startupLimit : Option Duration
deriving DecidableEq, Inhabited, Repr

/-- The bound that a number of seconds stands for: zero means none. -/
def startupLimit (seconds : Nat) : Option Duration :=
  if seconds = 0 then none else some (.ofSeconds seconds)

/-- Fill what a layer leaves open. -/
def Layer.resolve (l : Layer) : Resolved :=
  let allowList := l.allowList.getD defaultAllowList
  { lineLength := l.lineLength.getD 88
    normalizeQuotes := l.normalizeQuotes.getD true
    maxPasses := l.maxPasses.getD defaultMaxPasses
    allowList
    select := l.select.getD allowList
    lintSelect := l.lintSelect.getD defaultLintSelect
    formatter := l.formatter.getD .black
    blackPath := l.blackPath.getD "black"
    ruffPath := l.ruffPath.getD "ruff"
    stdinFilename := l.stdinFilename.getD "shed_input.py"
    startupLimit := startupLimit (l.startupSeconds.getD defaultStartupSeconds) }

namespace Resolved

/-- What the formatter is told. -/
def formatOptions (s : Resolved) : FormatOptions := ⟨s.lineLength, s.normalizeQuotes⟩

/-- The pipeline that the settings describe. -/
def pipeline (s : Resolved) : Pipeline := ⟨s.formatOptions, s.allowList, s.maxPasses⟩

end Resolved

end Fettle.Settings
