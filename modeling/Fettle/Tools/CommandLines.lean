import Fettle.Settings.Layer

/-!
# The command lines of the tools

The tools read a text from their standard input and write to their standard output. What they are
asked for is in their arguments; a text is never part of a command line.
-/

namespace Fettle.Tools

/-- The arguments that ask `black` to format. -/
def blackArguments (o : FormatOptions) : List String :=
  ["--quiet", "--line-length", toString o.lineLength] ++
    (if o.normalizeQuotes then [] else ["--skip-string-normalization"]) ++ ["-"]

/-- The arguments that ask `ruff` to format. -/
def ruffFormatArguments (stdinFilename : String) (o : FormatOptions) : List String :=
  ["format", "--no-cache", "--line-length", toString o.lineLength, "--stdin-filename",
    stdinFilename] ++
    (if o.normalizeQuotes then [] else ["--config", "format.quote-style = 'preserve'"]) ++ ["-"]

/-- The arguments that ask `ruff` to report on a text; without rules to select, the tool takes its
own. -/
def ruffCheckArguments (stdinFilename : String) (select : List String) : List String :=
  ["check", "--output-format=json", "--exit-zero", "--no-cache"] ++
    (if select.isEmpty then [] else ["--select=" ++ String.intercalate "," select]) ++
    ["--stdin-filename", stdinFilename, "-"]

end Fettle.Tools
