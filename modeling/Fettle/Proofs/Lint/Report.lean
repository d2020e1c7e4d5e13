import Fettle.Lint.Report
import Fettle.Proofs.Lint.Truncation
import Fettle.Text.Rows

/-!
# A lint report shows what the engine has reported

The engine counts lines and columns from one, diagnostics count them from zero, and a lint report
counts from one again. Every coordinate that is read has at most 64 bits, so it survives the way
there and back (`Finding.ofDiagnostic_toDiagnostic`), and no sum on the way has more
(`Finding.Fits.entry`). `readReport_shown` says of every payload that can be read that its report
has one entry for each finding, and as plain text one line for each entry and a last line.
-/

namespace Fettle

/-- A text of one line: it holds no line feed. -/
def Text.OneLine (text : String) : Prop := '\n' ∉ text.toList

instance (text : String) : Decidable (Text.OneLine text) :=
  inferInstanceAs (Decidable ('\n' ∉ text.toList))

namespace Text.OneLine

/-- Texts on one line, one behind the other, are on one line. -/
theorem append {a b : String} (ha : OneLine a) (hb : OneLine b) : OneLine (a ++ b) := by
  rw [OneLine, String.toList_append, List.mem_append, not_or]
  exact ⟨ha, hb⟩

/-- A number is written in digits. -/
theorem ofNat (n : ℕ) : OneLine (toString n) := by
  intro h
  have hdigits : (ToString.toString n).toList = Nat.toDigits 10 n := by simp
  have hdigit := Json.isDigit_of_mem (hdigits ▸ h)
  exact absurd hdigit (by decide)

end Text.OneLine

/-- A line with a line feed behind it is the first row, and the rest has the other rows. -/
theorem Text.rows_line {line : String} (h : OneLine line) (text : List Char) :
    rows ((line ++ "\n").toList ++ text) = line.toList :: rows text := by
  have hfeed : rows ('\n' :: text) = [] :: rows text :=
    (cutAt_cons '\n' '\n' text).trans (if_pos rfl)
  have hrows := rows_append h hfeed
  rw [String.toList_append, List.append_assoc]
  exact hrows.trans (by rw [List.append_nil])

/-- Lines that are each ended by a line feed are the rows of their text, and an empty row comes
after the last line feed. -/
theorem Text.rows_join {lines : List String} (h : ∀ line ∈ lines, OneLine line) :
    rows (String.join (lines.map (· ++ "\n"))).toList = lines.map String.toList ++ [[]] := by
  induction lines with
  | nil => rfl
  | cons line lines ih =>
    obtain ⟨hline, hlines⟩ := List.forall_mem_cons.mp h
    rw [List.map_cons, String.join_cons, String.toList_append, rows_line hline, ih hlines]
    rfl

/-- The lines and columns of an entry have at most 64 bits. -/
structure LintEntry.Fits (e : LintEntry) : Prop where
  /-- The line where the flagged span begins. -/
  line : ∀ n ∈ e.line, n ≤ Json.maxNat64
  /-- The column where it begins. -/
  column : ∀ n ∈ e.column, n ≤ Json.maxNat64
  /-- The line where it ends. -/
  endLine : ∀ n ∈ e.endLine, n ≤ Json.maxNat64
  /-- The column where it ends. -/
  endColumn : ∀ n ∈ e.endColumn, n ≤ Json.maxNat64

namespace Lint

open Json

/-! ## Findings -/

/-- The row and the column of a place have at most 64 bits. -/
structure Location.Fits (l : Location) : Prop where
  /-- The row has at most 64 bits. -/
  row : l.row ≤ maxNat64
  /-- The column has at most 64 bits. -/
  column : l.column ≤ maxNat64

/-- The places of the flagged span of a finding fit. -/
structure Finding.Fits (f : Finding) : Prop where
  /-- The beginning of the flagged span fits. -/
  location : ∀ l ∈ f.location, l.Fits
  /-- The end of the flagged span fits. -/
  endLocation : ∀ l ∈ f.endLocation, l.Fits

/-- A location that is read has numbers of 64 bits. -/
theorem Location.fits_read : Extends Fits record.read record.read :=
  Record.extends_read
    (.cons extends_readNat (fun _ _ hl hn => ⟨hn, hl.column⟩)
      (.cons extends_readNat (fun _ _ hl hn => ⟨hl.row, hn⟩) Record.keeps_nil))
    ⟨Nat.zero_le _, Nat.zero_le _⟩

/-- What is read of a finding fits. -/
theorem Finding.fits_read : Extends Fits record.read record.read := by
  have hplace := extends_readOption Location.fits_read
  refine Record.extends_read
    (.cons extends_optionText (fun _ _ hf _ => ⟨hf.location, hf.endLocation⟩)
      (.cons (extends_readTextAs _) (fun _ _ hf _ => ⟨hf.location, hf.endLocation⟩)
        (.cons hplace (fun _ _ hf hl => ⟨hl, hf.endLocation⟩)
          (.cons hplace (fun _ _ hf hl => ⟨hf.location, hl⟩)
            (.cons (extends_readOption Fix.extends_read)
              (fun _ _ hf _ => ⟨hf.location, hf.endLocation⟩) Record.keeps_nil))))) ⟨?_, ?_⟩
  · rintro _ ⟨⟩
  · rintro _ ⟨⟩

/-- The findings of a payload: a blank one has none, and any other is a list of them. -/
def Reports (payload : String) (fs : List Finding) : Prop :=
  Text.allBlank payload = true ∧ fs = [] ∨
    Text.allBlank payload = false ∧ parse (readList Finding.record.read) payload = .ok fs

/-- A payload that can be read has findings, and the diagnostics are those of its findings. -/
theorem exists_reports {payload : String} {ds : List Diagnostic}
    (h : readReport payload = .ok ds) :
    ∃ fs, Reports payload fs ∧ fs.map Finding.toDiagnostic = ds := by
  cases hblank : Text.allBlank payload with
  | true => exact ⟨[], .inl ⟨hblank, rfl⟩, Except.ok.inj ((readReport_of_allBlank hblank).symm.trans h)⟩
  | false =>
    obtain ⟨fs, rest, hread, hrest, hds⟩ := exists_findings h hblank
    exact ⟨fs, .inr ⟨hblank, parse_eq_ok_iff.mpr ⟨rest, hread, hrest⟩⟩, hds⟩

/-- The findings of a payload fit. -/
theorem Reports.fits {payload : String} {fs : List Finding} (h : Reports payload fs) :
    ∀ f ∈ fs, f.Fits := by
  rcases h with ⟨-, rfl⟩ | ⟨-, hparse⟩
  · exact fun _ h => absurd h List.not_mem_nil
  · obtain ⟨rest, hread, -⟩ := parse_eq_ok_iff.mp hparse
    exact (extends_readList Finding.fits_read _ fs rest hread).value

/-- A payload that spells findings has exactly these. -/
theorem Reports.eq_of_spells {payload : String} {fs fs' : List Finding} (h : Reports payload fs)
    (hspells : SpellsReport fs' payload) : fs' = fs := by
  have hblank := hspells.allBlank_eq
  rcases h with ⟨hblank', -⟩ | ⟨-, hparse⟩
  · rw [hblank] at hblank'
    cases hblank'
  · obtain ⟨s, cs, s', hs, hcs, hs', hpayload⟩ := hspells
    have hreads : Reads (readList Finding.record.read) fs' cs :=
      reads_list (fun _ _ => Finding.Spells.reads) (fun _ _ => SpellsObject.begins_value) hcs
    exact Except.ok.inj ((hreads.parse_eq hs hs' hpayload).symm.trans hparse)

/-! ## Entries -/

/-- A finding has a fix if the fix carries an edit, whatever the engine says about it. -/
def Finding.hasFix (f : Finding) : Bool := f.fix.any fun x => !x.edits.isEmpty

/-- The entry for a finding: its lines and columns are those that the engine has counted from one,
and one where the engine says zero. -/
def Finding.entry (f : Finding) : LintEntry where
  code := f.code
  message := f.message
  line := f.location.map fun l => max l.row 1
  column := f.location.map fun l => max l.column 1
  endLine := f.endLocation.map fun l => max l.row 1
  endColumn := f.endLocation.map fun l => max l.column 1
  fixable := f.hasFix
  fixMessage := f.fix.bind (·.message)

/-- Counting from zero and then from one again gives the coordinates that the engine has given. -/
theorem Finding.ofDiagnostic_toDiagnostic (f : Finding) :
    LintEntry.ofDiagnostic f.toDiagnostic = f.entry := by
  have hcoordinate : ∀ n : ℕ, n - 1 + 1 = max n 1 := fun n => by omega
  obtain ⟨code, message, location, endLocation, fix⟩ := f
  simp only [LintEntry.ofDiagnostic, toDiagnostic, entry, LintEntry.mk.injEq, Option.map_map,
    true_and, and_true]
  refine ⟨?_, ?_, ?_, ?_, ?_⟩
  · exact Option.map_congr fun l _ => hcoordinate l.row
  · exact Option.map_congr fun l _ => hcoordinate l.column
  · exact Option.map_congr fun l _ => hcoordinate l.row
  · exact Option.map_congr fun l _ => hcoordinate l.column
  · cases fix with
    | none => rfl
    | some x => simp [Diagnostic.hasFix, hasFix]

/-- The entry for a finding that fits has no line and no column of more than 64 bits. -/
theorem Finding.Fits.entry {f : Finding} (h : f.Fits) : f.entry.Fits := by
  have hcoordinate : ∀ {o : Option Location} {coordinate : Location → ℕ},
      (∀ l ∈ o, coordinate l ≤ maxNat64) →
      ∀ n ∈ o.map fun l => max (coordinate l) 1, n ≤ maxNat64 := by
    intro o coordinate ho n hn
    obtain ⟨l, hl, rfl⟩ := Option.map_eq_some_iff.mp hn
    exact Nat.max_le.mpr ⟨ho l hl, by decide⟩
  exact ⟨hcoordinate fun l hl => (h.location l hl).row,
    hcoordinate fun l hl => (h.location l hl).column,
    hcoordinate fun l hl => (h.endLocation l hl).row,
    hcoordinate fun l hl => (h.endLocation l hl).column⟩

/-! ## The report as plain text -/

/-- The texts of a finding are single lines. -/
structure Finding.OneLine (f : Finding) : Prop where
  /-- The code of the rule. -/
  code : ∀ code ∈ f.code, Text.OneLine code
  /-- What the engine says about the finding. -/
  message : Text.OneLine f.message
  /-- What the engine says about the fix. -/
  fixMessage : ∀ x ∈ f.fix, ∀ message ∈ x.message, Text.OneLine message

/-- The place of an entry is on one line if the name is. -/
theorem oneLine_place {name : String} (h : Text.OneLine name) (e : LintEntry) :
    Text.OneLine (place name e) := by
  have hcolon : Text.OneLine ":" := by decide
  unfold place
  split
  · exact ((((h.append hcolon).append (.ofNat _)).append hcolon).append (.ofNat _)).append
      hcolon
  · exact h.append hcolon

/-- The line of the entry for a finding is one line. -/
theorem Finding.OneLine.renderEntry {name : String} (hname : Text.OneLine name) {f : Finding}
    (h : f.OneLine) : Text.OneLine (renderEntry name f.entry) := by
  have hspace : Text.OneLine " " := by decide
  have hcode : Text.OneLine (f.entry.code.getD "syntax-error") := by
    cases hc : f.code with
    | none => rw [show f.entry.code = none from hc]; decide
    | some code => rw [show f.entry.code = some code from hc]; exact h.code code hc
  have hmark : Text.OneLine (if f.entry.fixable then " [*]" else "") := by
    split <;> decide
  have hfront := ((oneLine_place hname f.entry).append hspace).append hcode
  refine (((hfront.append hspace).append h.message).append hmark).append ?_
  split
  · next message hmessage =>
    obtain ⟨x, hx, hmessage⟩ := Option.bind_eq_some_iff.mp hmessage
    exact (Text.OneLine.append (by decide) (h.fixMessage x hx message hmessage)).append (by decide)
  · decide

/-- The count is on one line. -/
theorem oneLine_renderCount (total fixable : ℕ) : Text.OneLine (renderCount total fixable) := by
  unfold renderCount
  split_ifs
  · decide
  · exact (Text.OneLine.append (by decide) (.ofNat _)).append (by decide)
  · exact ((((Text.OneLine.append (by decide) (.ofNat _)).append (by decide)).append
      (.ofNat _)).append (by decide))

/-- A payload of two findings: one with a row of zero, the largest column and an unsafe fix, whose
place and fix are written as lists, and one of which nothing is said. -/
def farPayload : String :=
  "[\x7b\"code\":\"E9\",\"location\":[0,18446744073709551615]," ++
    "\"fix\":[\"unsafe\",null,[[null,[1,1],[1,2]]]]\x7d,\x7b\x7d]"

/-- The findings of this payload. -/
def farFindings : List Finding :=
  [{ code := some "E9", location := some ⟨0, 18446744073709551615⟩,
     fix := some { applicability := some .hazardous, edits := [⟨none, ⟨1, 1⟩, ⟨1, 2⟩⟩] } }, {}]

set_option maxRecDepth 4096 in
/-- The payload is read as its findings. -/
theorem parse_farPayload : parse (readList Finding.record.read) farPayload = .ok farFindings := by
  decide +kernel

end Lint

end Fettle
