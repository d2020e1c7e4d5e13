/-!
# Engine failures

An engine may fail to start, take too long to start, reject a text, or fail while it looks at one;
and the settings that name the engines may be unusable. One way to fail is left out: a worker that
breaks down while it runs an engine, so that there is no answer at all.
-/

namespace Fettle

/-- A span of time in thousandths of a second. -/
structure Duration where
  /-- The number of thousandths of a second. -/
  millis : Nat
deriving DecidableEq, Inhabited, Repr

namespace Duration

/-- A number of seconds. -/
def ofSeconds (n : Nat) : Duration := ⟨n * 1000⟩

/-- A span of at least a second is written in seconds, with as many of three places as it needs,
and a shorter one in thousandths. -/
def text (d : Duration) : String :=
  if d.millis = 0 then "0ns"
  else if d.millis < 1000 then s!"{d.millis}ms"
  else
    let places := (Nat.toDigits 10 (1000 + d.millis % 1000)).tail
    let places := (places.reverse.dropWhile (· == '0')).reverse
    let point := if places.isEmpty then [] else ['.']
    s!"{d.millis / 1000}" ++ String.ofList (point ++ places ++ ['s'])

end Duration

/-- A way in which engines fail. -/
inductive EngineError where
  /-- An engine could not be started. -/
  | startup (reason : String)
  /-- The engines did not start within the bound. -/
  | startupTimeout (limit : Duration)
  /-- The formatter rejected a text. -/
  | format (reason : String)
  /-- The diagnostic source failed. -/
  | diagnosis (reason : String)
  /-- The settings are unusable. -/
  | configuration (reason : String)
deriving DecidableEq, Inhabited, Repr

/-- The message of a failure. -/
def EngineError.message : EngineError → String
  | startup reason => "Engine initialization failed: " ++ reason
  | startupTimeout limit => "Engine initialization timed out after " ++ limit.text
  | format reason => "Format error: " ++ reason
  | diagnosis reason => "Diagnostic source error: " ++ reason
  | configuration reason => "Invalid configuration: " ++ reason

end Fettle
