import Fettle.Proofs.Settings.Layers
import Fettle.Settings.Load

/-!
# Which settings files count

A settings file holds a layer, or there is a fault in it, and never both (`loadFile_eq_ok_iff`,
`loadFile_eq_error_iff`). The two files differ in what a fault means: the user's file then counts as
absent, as a whole, and the named file ends the loading with an error that names it. `Loads` puts
together what follows for every state of the file system and every way to read layers.
-/

namespace Fettle.Settings

open Files (FileError FileSystem)

section

variable (readLayer : String → Except String Layer) (files : FileSystem)

/-- What is wrong with the file under a path, as a message tells it. -/
inductive Fault (path : String) : String → Prop
  /-- There is no text: nothing is there, or it may not be read, or it is a directory, or its bytes
  spell no text. -/
  | unreadable {e : FileError} (h : files.readText path = .error e) : Fault path e.message
  /-- The text is not blank and spells no layer. -/
  | illegible {text reason : String} (htext : files.readText path = .ok text)
      (hblank : Text.allBlank text = false) (h : readLayer text = .error reason) :
      Fault path reason

/-- There is a blank file under a path. -/
def Blank (path : String) : Prop :=
  ∃ text, files.readText path = .ok text ∧ Text.allBlank text = true

/-- The layer that the file under a path holds. -/
inductive Holds (path : String) : Layer → Prop
  /-- A blank file sets nothing. -/
  | blank (h : Blank files path) : Holds path {}
  /-- Any other text spells the layer. -/
  | spelled {text : String} {l : Layer} (htext : files.readText path = .ok text)
      (hblank : Text.allBlank text = false) (h : readLayer text = .ok l) : Holds path l

/-- What the user's file contributes: its layer, or nothing if there is a fault in it. -/
inductive UserLayer (user : String) : Layer → Prop
  /-- The file holds a layer. -/
  | held {l : Layer} (h : Holds readLayer files user l) : UserLayer user l
  /-- There is a fault in the file. -/
  | faulty {cause : String} (h : Fault readLayer files user cause) : UserLayer user {}

/-- What the named file contributes: its layer, if there is a name. -/
inductive NamedLayer : Option String → Layer → Prop
  /-- No file is named. -/
  | unnamed : NamedLayer none {}
  /-- The file that is named holds a layer. -/
  | held {path : String} {l : Layer} (h : Holds readLayer files path l) : NamedLayer (some path) l

variable {readLayer files} {path : String}

/-! ## One file -/

/-- A file is loaded as the layer that it holds. -/
theorem loadFile_eq_ok_iff {l : Layer} :
    loadFile readLayer files path = .ok l ↔ Holds readLayer files path l := by
  unfold loadFile
  constructor
  · intro h
    split at h
    · cases h
    · next text htext =>
      split at h
      · next hblank =>
        obtain rfl := Except.ok.inj h
        exact .blank ⟨text, htext, hblank⟩
      · next hblank =>
        cases hlayer : readLayer text with
        | error reason => rw [hlayer] at h; cases h
        | ok l' =>
          rw [hlayer] at h
          obtain rfl := Except.ok.inj h
          exact .spelled htext (Bool.eq_false_iff.mpr hblank) hlayer
  · intro h
    cases h with
    | blank hblank =>
      obtain ⟨text, htext, hblank⟩ := hblank
      simp only [htext, hblank, if_true]
    | spelled htext hblank hlayer =>
      simp only [htext, hblank, Bool.false_eq_true, if_false, hlayer]
      rfl

/-- A file fails to load if there is a fault in it, and the message names the file and says what is
wrong. -/
theorem loadFile_eq_error_iff {message : String} :
    loadFile readLayer files path = .error message ↔
      ∃ cause, Fault readLayer files path cause ∧ message = path ++ ": " ++ cause := by
  unfold loadFile
  constructor
  · intro h
    split at h
    · next e htext =>
      obtain rfl := Except.error.inj h
      exact ⟨e.message, .unreadable htext, rfl⟩
    · next text htext =>
      split at h
      · cases h
      · next hblank =>
        cases hlayer : readLayer text with
        | ok l => rw [hlayer] at h; cases h
        | error reason =>
          rw [hlayer] at h
          obtain rfl := Except.error.inj h
          exact ⟨reason, .illegible htext (Bool.eq_false_iff.mpr hblank) hlayer, rfl⟩
  · rintro ⟨cause, h, rfl⟩
    cases h with
    | unreadable htext => simp only [htext]
    | illegible htext hblank hlayer =>
      simp only [htext, hblank, Bool.false_eq_true, if_false, hlayer]
      rfl

/-- A file holds a layer, or there is a fault in it. -/
theorem holds_or_fault (readLayer : String → Except String Layer) (files : FileSystem)
    (path : String) :
    (∃ l, Holds readLayer files path l) ∨ ∃ cause, Fault readLayer files path cause := by
  cases h : loadFile readLayer files path with
  | ok l => exact .inl ⟨l, loadFile_eq_ok_iff.mp h⟩
  | error message =>
    obtain ⟨cause, hcause, -⟩ := loadFile_eq_error_iff.mp h
    exact .inr ⟨cause, hcause⟩

/-- Where there is nothing, there is nothing to read. -/
theorem exists_fault_of_missing (h : files.contains path = false) :
    ∃ cause, Fault readLayer files path cause := by
  cases htext : files.readText path with
  | error e => exact ⟨_, .unreadable htext⟩
  | ok text => exact absurd (files.contains_of_readText htext) (Bool.eq_false_iff.mp h)

/-- A fault is in the file, and not in what else the file system holds. -/
theorem Fault.congr {files' : FileSystem} {cause : String}
    (h : files'.readText path = files.readText path) (hfault : Fault readLayer files path cause) :
    Fault readLayer files' path cause := by
  cases hfault with
  | unreadable htext => exact .unreadable (h.trans htext)
  | illegible htext hblank hlayer => exact .illegible (h.trans htext) hblank hlayer

/-! ## The user's file -/

/-- A user's file that holds a layer contributes it. -/
theorem loadUser_of_holds {l : Layer} (h : Holds readLayer files path l) :
    loadUser readLayer files path = l := by
  -- the file is looked for before it is read, which makes no difference to one that can be read
  have hthere : files.contains path = true := by
    cases h with
    | blank h => exact files.contains_of_readText h.choose_spec.1
    | spelled htext => exact files.contains_of_readText htext
  unfold loadUser
  simp only [hthere, if_true, loadFile_eq_ok_iff.mpr h]

/-- A user's file with a fault in it contributes nothing. -/
theorem loadUser_of_fault {cause : String} (h : Fault readLayer files path cause) :
    loadUser readLayer files path = {} := by
  unfold loadUser
  simp only [loadFile_eq_error_iff.mpr ⟨cause, h, rfl⟩, ite_self]

/-- The user's file contributes its layer, or nothing if there is a fault in it. -/
theorem loadUser_eq_iff {l : Layer} :
    loadUser readLayer files path = l ↔ UserLayer readLayer files path l := by
  constructor
  · rintro rfl
    rcases holds_or_fault readLayer files path with ⟨l, hl⟩ | ⟨cause, hcause⟩
    · exact loadUser_of_holds hl ▸ .held hl
    · exact loadUser_of_fault hcause ▸ .faulty hcause
  · intro h
    cases h with
    | held h => exact loadUser_of_holds h
    | faulty h => exact loadUser_of_fault h

/-- Where there is nothing that counts, the user's file contributes nothing. -/
theorem loadUser_of_ineffective (h : files.contains path = false ∨
    (∃ cause, Fault readLayer files path cause) ∨ Blank files path) :
    loadUser readLayer files path = {} := by
  rcases h with h | ⟨cause, h⟩ | h
  · obtain ⟨cause, hcause⟩ : ∃ cause, Fault readLayer files path cause :=
      exists_fault_of_missing h
    exact loadUser_of_fault hcause
  · exact loadUser_of_fault h
  · exact loadUser_of_holds (.blank h)

/-! ## Both files -/

variable {user : String}

/-- The layer of the named file is put over what the user's file contributes. -/
theorem load_some_of_holds {upper : Layer} (h : Holds readLayer files path upper) :
    load readLayer files user (some path) =
      .ok ((loadUser readLayer files user).merge upper).resolve := by
  unfold load
  simp only [loadFile_eq_ok_iff.mpr h]

/-- A fault in the named file is an error that names the file. -/
theorem load_some_of_fault {cause : String} (h : Fault readLayer files path cause) :
    load readLayer files user (some path) =
      .error (.configuration (path ++ ": " ++ cause)) := by
  unfold load
  simp only [loadFile_eq_error_iff.mpr ⟨cause, h, rfl⟩]

/-- Loading depends only on what the user's file contributes, and on the text of the named file. -/
theorem load_congr {files' : FileSystem} {user' : String} {named : Option String}
    (huser : loadUser readLayer files' user' = loadUser readLayer files user)
    (hnamed : ∀ path ∈ named, files'.readText path = files.readText path) :
    load readLayer files' user' named = load readLayer files user named := by
  unfold load
  rw [huser]
  cases named with
  | none => rfl
  | some path =>
    have hfile : loadFile readLayer files' path = loadFile readLayer files path := by
      unfold loadFile
      rw [hnamed path rfl]
    simp only [hfile]

/-- Settings are loaded if the named file, where there is one, holds a layer; they are then resolved
from both layers. -/
theorem load_eq_ok_iff {named : Option String} {s : Resolved} :
    load readLayer files user named = .ok s ↔
      ∃ lower upper, UserLayer readLayer files user lower ∧ NamedLayer readLayer files named upper ∧
        s = (lower.merge upper).resolve := by
  constructor
  · intro h
    refine ⟨loadUser readLayer files user, ?_⟩
    have huser : UserLayer readLayer files user (loadUser readLayer files user) :=
      loadUser_eq_iff.mp rfl
    cases named with
    | none =>
      -- no name is as good as the empty layer on top
      refine ⟨{}, huser, .unnamed, ?_⟩
      rw [Layer.merge_empty]
      exact (Except.ok.inj h).symm
    | some path =>
      rcases holds_or_fault readLayer files path with ⟨upper, hupper⟩ | ⟨cause, hcause⟩
      · rw [load_some_of_holds hupper] at h
        exact ⟨upper, huser, .held hupper, (Except.ok.inj h).symm⟩
      · rw [load_some_of_fault hcause] at h
        cases h
  · rintro ⟨lower, upper, huser, hnamed, rfl⟩
    obtain rfl := loadUser_eq_iff.mpr huser
    cases hnamed with
    | unnamed =>
      rw [Layer.merge_empty]
      rfl
    | held hupper => exact load_some_of_holds hupper

end

/-- What loading gives for the user's path and perhaps a named one. -/
structure Loads (readLayer : String → Except String Layer) (files : FileSystem) (user : String)
    (named : Option String) : Prop where
  /-- If the user's file is missing, or there is a fault in it, or it is blank, all is as with no
  user's file at all, also in another state of the file system in which the named file reads the
  same. -/
  eq_of_ineffective : files.contains user = false ∨ (∃ cause, Fault readLayer files user cause) ∨
      Blank files user →
    ∀ (files' : FileSystem) (absent : String), files'.contains absent = false →
      (∀ path ∈ named, files'.readText path = files.readText path) →
      load readLayer files user named = load readLayer files' absent named
  /-- A fault in the named file, or its absence, is an error that names the file, whatever the
  user's file holds. -/
  error_of_fault : ∀ path ∈ named,
    files.contains path = false ∨ (∃ cause, Fault readLayer files path cause) →
    ∃ cause, Fault readLayer files path cause ∧
      ∀ (files' : FileSystem) (user' : String), files'.readText path = files.readText path →
        load readLayer files' user' named = .error (.configuration (path ++ ": " ++ cause))
  /-- A blank named file changes nothing. -/
  eq_of_blank : ∀ path ∈ named, Blank files path →
    load readLayer files user named = load readLayer files user none
  /-- There is no other error. -/
  fault_of_error : ∀ e, load readLayer files user named = .error e →
    ∃ path ∈ named, ∃ cause, Fault readLayer files path cause
  /-- Without error the settings are the layer of the named file on the user's layer, on the
  defaults. -/
  eq_ok_iff : ∀ s, load readLayer files user named = .ok s ↔
    ∃ lower upper, UserLayer readLayer files user lower ∧ NamedLayer readLayer files named upper ∧
      s = (lower.merge upper).resolve

/-- A directory in the place of the user's file and a blank named file leave the defaults. -/
example :
    let tree : Files.Tree :=
      { root := .directory [("user.yaml", .directory []), ("named.yaml", .file [10] false)] }
    load Layer.ofText tree "user.yaml" (some "named.yaml") = .ok ({} : Layer).resolve := by
  rfl

end Fettle.Settings
