import Fettle.Files.FileSystem
import Fettle.Settings.Yaml
import Fettle.Text.Blank

/-!
# Loading settings from files

There are at most two settings files: the user's, and one that is named for the occasion and goes
on top. Nobody asked for the user's file to be read, so whatever is wrong with it, it counts as
absent. A file that is named must be in order.
-/

namespace Fettle.Settings

open Files (FileSystem)

/-- The message for a text that spells no document. -/
def noDocument : String := "not a YAML document"

/-- The layer that a text spells, or what is wrong with it. -/
def Layer.ofText (text : String) : Except String Layer :=
  match Yaml.Document.ofText? text with
  | none => .error noDocument
  | some d => (Layer.ofYaml d).mapError (·.message)

/-- Load the layer in a file, given how layers are read. A blank file leaves all settings open.
What is wrong is told with the path. -/
def loadFile (readLayer : String → Except String Layer) (files : FileSystem) (path : String) :
    Except String Layer :=
  match files.readText path with
  | .error e => .error (path ++ ": " ++ e.message)
  | .ok text =>
    if Text.allBlank text then .ok {}
    else (readLayer text).mapError fun reason => path ++ ": " ++ reason

/-- Load the layer in the user's file, which counts as absent if anything is wrong with it. -/
def loadUser (readLayer : String → Except String Layer) (files : FileSystem) (path : String) :
    Layer :=
  if files.contains path then
    match loadFile readLayer files path with
    | .ok l => l
    | .error _ => {}
  else {}

/-- Load the user's file and, on top of it, the file that is named. -/
def load (readLayer : String → Except String Layer) (files : FileSystem) (user : String)
    (named : Option String) : Except EngineError Resolved :=
  let l := loadUser readLayer files user
  match named with
  | none => .ok l.resolve
  | some path =>
    match loadFile readLayer files path with
    | .ok upper => .ok (l.merge upper).resolve
    | .error reason => .error (.configuration reason)

/-! ## Where the user's file is -/

/-- The surroundings that tell where the user's files are. -/
structure Surroundings where
  /-- The directory of all settings, if it is told. -/
  configHome : Option String := none
  /-- The user's directory, if it is told. -/
  home : Option String := none
deriving DecidableEq, Inhabited, Repr

/-- A path below another. -/
def below (directory path : String) : String :=
  if directory.toList.getLast? = some '/' then directory ++ path else directory ++ "/" ++ path

/-- A value without the blanks around it, if something is left. -/
def meaningful (value : Option String) : Option String :=
  (value.map Text.trim).filter (· ≠ "")

/-- The path of the user's settings file. -/
def Surroundings.userPath (s : Surroundings) : String :=
  let directory := match meaningful s.configHome with
    | some directory => directory
    | none => below ((meaningful s.home).getD ".") ".config"
  below directory "shed/settings.yaml"

end Fettle.Settings
