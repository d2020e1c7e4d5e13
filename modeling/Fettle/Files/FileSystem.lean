import Fettle.Files.Tree

/-!
# File systems

What a file system answers to those who only read. Unlike a tree of files, of which everything is
known, it may refuse to tell what is in a file that is there. Paths are texts.
-/

namespace Fettle.Files

/-- What a file system answers about paths. -/
structure FileSystem where
  /-- Whether there is something under a path. -/
  contains : String → Bool
  /-- The text of the file under a path. -/
  readText : String → Except FileError String
  /-- A text is read only from what is there. -/
  contains_of_readText {path text : String} : readText path = .ok text → contains path = true

/-- In a tree, a text is read only from what is there. -/
theorem Tree.contains_of_readText (t : Tree) {path text : String}
    (h : t.readText path = .ok text) : t.contains path = true := by
  unfold contains
  cases hnode : t.node path with
  | ok n => rfl
  | error e =>
    simp only [readText, read, hnode, bind, Except.bind] at h
    cases h

/-- The answers of a tree of files. -/
def Tree.fileSystem (t : Tree) : FileSystem := ⟨t.contains, t.readText, t.contains_of_readText⟩

instance : Coe Tree FileSystem := ⟨Tree.fileSystem⟩

end Fettle.Files
