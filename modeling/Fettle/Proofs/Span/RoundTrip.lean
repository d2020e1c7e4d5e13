import Fettle.Proofs.Json.RecordExtension
import Fettle.Proofs.Json.Written
import Fettle.Span.Json

/-!
# Span edits come back from their texts

Positions, edits, applicabilities and diagnostics whose coordinates have at most 64 bits are read
back from what is written of them, on one line or over several. Whatever is read has coordinates of
that kind, since a larger number is never read. So a text that is read and written once is settled:
reading what was written changes nothing any more (`span_roundTrips`).
-/

namespace Fettle

open Json

/-! ## Data that fits -/

/-- The coordinates of a position have at most 64 bits. -/
structure Position.Fits (p : Position) : Prop where
  /-- The row has at most 64 bits. -/
  row : p.row ≤ maxNat64
  /-- The column has at most 64 bits. -/
  column : p.column ≤ maxNat64

/-- Both ends of the span of an edit fit. -/
structure Edit.Fits (e : Edit) : Prop where
  /-- The beginning of the span fits. -/
  start : e.start.Fits
  /-- The end of the span fits. -/
  stop : e.stop.Fits

/-- The flagged span and the edits of a diagnostic fit. -/
structure Diagnostic.Fits (d : Diagnostic) : Prop where
  /-- The beginning of the flagged span fits. -/
  location : ∀ p ∈ d.location, p.Fits
  /-- The end of the flagged span fits. -/
  endLocation : ∀ p ∈ d.endLocation, p.Fits
  /-- The edits fit. -/
  edits : ∀ e ∈ d.edits, e.Fits

/-- A kind of data that comes back from its texts. -/
structure RoundTrips {α : Type} (read : Reader α) (toJson : α → Value) (Fits : α → Prop) :
    Prop where
  /-- Data that fits is read back from its text, on one line or over several. -/
  written : ∀ a, Fits a →
    parse read (toJson a).compact = .ok a ∧ parse read (toJson a).pretty = .ok a
  /-- What is read from any text fits. -/
  fits : ∀ text a, parse read text = .ok a → Fits a
  /-- Whatever is read from any text is read back when it is written. -/
  again : ∀ text a, parse read text = .ok a →
    parse read (toJson a).compact = .ok a ∧ parse read (toJson a).pretty = .ok a

/-- A type round-trips if all its data that fits comes back from what is written, and if all that is
read fits. -/
theorem roundTrips_of_returns {α : Type} {read : Reader α} {toJson : α → Value} {Fits : α → Prop}
    (hreturns : ∀ a, Fits a → Returns read toJson a) (hextends : Extends Fits read read) :
    RoundTrips read toJson Fits := by
  have hfits : ∀ text a, parse read text = .ok a → Fits a := by
    intro text a h
    obtain ⟨rest, hread, -⟩ := parse_eq_ok_iff.mp h
    exact (hextends _ a rest hread).value
  exact ⟨fun a ha => (hreturns a ha).parse_eq, hfits,
    fun text a h => (hreturns a (hfits text a h)).parse_eq⟩

/-! ## Positions -/

namespace Position

/-- A position of which the members with some names are stored. -/
def part (p : Position) (seen : List String) : Position where
  row := onceSeen seen "row" p.row 0
  column := onceSeen seen "column" p.column 0

/-- A position that fits comes back from what is written. -/
theorem Fits.returns {p : Position} (h : p.Fits) : Returns record.read toJson p := by
  intro cs hcs
  have hfields : List.Forall₂ (Field.Stores p.part) record.fields
      (p.toJson.members.map writtenMember) :=
    .cons (Field.stores_map False.elim (returns_nat h.row) (fun seen => by simp [part]) false)
      (.cons (Field.stores_map False.elim (returns_nat h.column) (fun seen => by simp [part])
        false) .nil)
  have hnames : ["row", "column"].Nodup := by decide
  refine Record.reads_of_written hfields hnames rfl (fun seen hseen => ?_) hcs
  simp only [toJson, Value.members, List.forall_mem_cons] at hseen
  simp [part, onceSeen, hseen]

/-- A position is written as an object. -/
theorem begins_of_written (p : Position) (cs : List Char) (h : Written p.toJson cs) :
    ∃ rest, cs = '\x7b' :: rest := by
  obtain ⟨inner, -, rfl⟩ := h.object_eq
  exact ⟨_, rfl⟩

/-- A position is read from longer texts too, and what is read fits. -/
theorem extends_read : Extends Fits record.read record.read :=
  Record.extends_read
    (.cons extends_readNat (fun _ _ hp hn => ⟨hn, hp.column⟩)
      (.cons extends_readNat (fun _ _ hp hn => ⟨hp.row, hn⟩) Record.keeps_nil))
    ⟨Nat.zero_le _, Nat.zero_le _⟩

end Position

/-! ## Edits -/

namespace Edit

/-- An edit of which the members with some names are stored. -/
def part (e : Edit) (seen : List String) : Edit where
  start := onceSeen seen "start" e.start default
  stop := onceSeen seen "end" e.stop default
  content := onceSeen seen "content" e.content default

/-- An edit that fits comes back from what is written. -/
theorem Fits.returns {e : Edit} (h : e.Fits) : Returns record.read toJson e := by
  intro cs hcs
  have hfields : List.Forall₂ (Field.Stores e.part) record.fields
      (e.toJson.members.map writtenMember) :=
    .cons (Field.stores_map False.elim h.start.returns (fun seen => by simp [part]) false)
      (.cons (Field.stores_map False.elim h.stop.returns (fun seen => by simp [part]) false)
        (.cons (Field.stores_map False.elim (returns_text _ _) (fun seen => by simp [part]) false)
          .nil))
  have hnames : ["start", "end", "content"].Nodup := by decide
  refine Record.reads_of_written hfields hnames rfl (fun seen hseen => ?_) hcs
  simp only [toJson, Value.members, List.forall_mem_cons] at hseen
  simp [part, onceSeen, hseen]

/-- An edit is written as an object, which is how a value may begin. -/
theorem begins_of_written (e : Edit) (cs : List Char) (h : Written e.toJson cs) : Begins cs := by
  obtain ⟨inner, -, rfl⟩ := h.object_eq
  exact ⟨'\x7b', _, rfl, rfl, by decide, by decide⟩

/-- An edit is read from longer texts too, and what is read fits. -/
theorem extends_read : Extends Fits record.read record.read :=
  Record.extends_read
    (.cons Position.extends_read (fun _ _ he hp => ⟨hp, he.stop⟩)
      (.cons Position.extends_read (fun _ _ he hp => ⟨he.start, hp⟩)
        (.cons (extends_readTextAs _) (fun _ _ he _ => ⟨he.start, he.stop⟩) Record.keeps_nil)))
    ⟨⟨Nat.zero_le _, Nat.zero_le _⟩, ⟨Nat.zero_le _, Nat.zero_le _⟩⟩

end Edit

/-! ## Applicabilities -/

namespace Applicability

/-- The word of an applicability stands for it. -/
theorem ofLabel_label (a : Applicability) : ofLabel a.label = a := by
  cases a <;> rfl

/-- An applicability comes back from what is written. -/
theorem returns (a : Applicability) : Returns read toJson a := fun _ hcs =>
  a.ofLabel_label ▸ hcs.spellsString.reads_word ofLabel

/-- An applicability is written as a string. -/
theorem begins_of_written (a : Applicability) (cs : List Char) (h : Written a.toJson cs) :
    ∃ rest, cs = '"' :: rest :=
  h.spellsString.begins

end Applicability

/-! ## Diagnostics -/

namespace Diagnostic

/-- A diagnostic of which the members with some names are stored. -/
def part (d : Diagnostic) (seen : List String) : Diagnostic where
  ruleCode := onceSeen seen "rule_code" d.ruleCode none
  message := onceSeen seen "message" d.message ""
  location := onceSeen seen "location" d.location none
  endLocation := onceSeen seen "end_location" d.endLocation none
  fixMessage := onceSeen seen "fix_message" d.fixMessage none
  edits := onceSeen seen "edits" d.edits []
  applicability := onceSeen seen "applicability" d.applicability none

/-- A text that may be left open comes back from what is written. -/
theorem returns_optionText (o : Option String) :
    Returns (readOption readText) (.ofOption .string) o :=
  returns_option rfl (by decide) (fun _ _ hcs => hcs.spellsString.begins)
    fun s _ => returns_text "a string" s

/-- A position that may be left open comes back from what is written. -/
theorem returns_optionPosition {o : Option Position} (h : ∀ p ∈ o, p.Fits) :
    Returns (readOption Position.record.read) (.ofOption Position.toJson) o :=
  returns_option rfl (by decide) Position.begins_of_written fun p hp => (h p hp).returns

/-- A diagnostic that fits comes back from what is written. -/
theorem Fits.returns {d : Diagnostic} (h : d.Fits) : Returns record.read toJson d := by
  intro cs hcs
  have hedits : Returns (readList Edit.record.read) (fun es => .array (es.map Edit.toJson))
      d.edits :=
    returns_list Edit.begins_of_written fun e he => (h.edits e he).returns
  have happlicability : Returns (readOption Applicability.read) (.ofOption Applicability.toJson)
      d.applicability :=
    returns_option rfl (by decide) Applicability.begins_of_written fun a _ => a.returns
  have hfields : List.Forall₂ (Field.Stores d.part) record.fields
      (d.toJson.members.map writtenMember) :=
    .cons (Field.stores_map False.elim (returns_optionText _) (fun seen => by simp [part]) false)
      (.cons (Field.stores_map False.elim (returns_text _ _) (fun seen => by simp [part]) true)
        (.cons (Field.stores_map False.elim (returns_optionPosition h.location)
            (fun seen => by simp [part]) true)
          (.cons (Field.stores_map False.elim (returns_optionPosition h.endLocation)
              (fun seen => by simp [part]) true)
            (.cons (Field.stores_map False.elim (returns_optionText _)
                (fun seen => by simp [part]) true)
              (.cons (Field.stores_map False.elim hedits (fun seen => by simp [part]) true)
                (.cons (Field.stores_map False.elim happlicability (fun seen => by simp [part])
                  false) .nil))))))
  have hnames : ["rule_code", "message", "location", "end_location", "fix_message", "edits",
      "applicability"].Nodup := by decide
  refine Record.reads_of_written hfields hnames rfl (fun seen hseen => ?_) hcs
  simp only [toJson, Value.members, List.forall_mem_cons] at hseen
  simp [part, onceSeen, hseen]

/-- A diagnostic is read from longer texts too, and what is read fits. -/
theorem extends_read : Extends Fits record.read record.read := by
  have hplace := extends_readOption Position.extends_read
  refine Record.extends_read
    (.cons extends_optionText (fun _ _ hd _ => ⟨hd.location, hd.endLocation, hd.edits⟩)
      (.cons (extends_readTextAs _) (fun _ _ hd _ => ⟨hd.location, hd.endLocation, hd.edits⟩)
        (.cons hplace (fun _ _ hd hp => ⟨hp, hd.endLocation, hd.edits⟩)
          (.cons hplace (fun _ _ hd hp => ⟨hd.location, hp, hd.edits⟩)
            (.cons extends_optionText (fun _ _ hd _ => ⟨hd.location, hd.endLocation, hd.edits⟩)
              (.cons (extends_readList Edit.extends_read)
                (fun _ _ hd he => ⟨hd.location, hd.endLocation, he⟩)
                (.cons (extends_readOption (extends_readWord _))
                  (fun _ _ hd _ => ⟨hd.location, hd.endLocation, hd.edits⟩)
                  Record.keeps_nil))))))) ⟨?_, ?_, ?_⟩
  · rintro _ ⟨⟩
  · rintro _ ⟨⟩
  · exact fun _ h => absurd h List.not_mem_nil

end Diagnostic

/-- Positions, edits, applicabilities and diagnostics come back from their texts, and a text that is
read and written once is settled. -/
theorem span_roundTrips :
    RoundTrips Position.record.read Position.toJson Position.Fits ∧
      RoundTrips Edit.record.read Edit.toJson Edit.Fits ∧
      RoundTrips Applicability.read Applicability.toJson Any ∧
      RoundTrips Diagnostic.record.read Diagnostic.toJson Diagnostic.Fits :=
  ⟨roundTrips_of_returns (fun _ => Position.Fits.returns) Position.extends_read,
    roundTrips_of_returns (fun _ => Edit.Fits.returns) Edit.extends_read,
    roundTrips_of_returns (fun a _ => a.returns) (extends_readWord _),
    roundTrips_of_returns (fun _ => Diagnostic.Fits.returns) Diagnostic.extends_read⟩

/-- A diagnostic with the largest row, with characters that are escaped and with a word that is not
known. -/
def farDiagnostic : Diagnostic where
  message := "\"\x07é😀\n"
  location := some ⟨18446744073709551615, 0⟩
  edits := [⟨⟨0, 18446744073709551615⟩, ⟨2, 3⟩, "\\"⟩]
  applicability := some .unknown

/-- A diagnostic with the largest position comes back from its compact text, and an applicability
that is read in lower case is written in its own case and read again. -/
theorem span_roundTrips_farDiagnostic :
    parse Diagnostic.record.read farDiagnostic.toJson.compact = .ok farDiagnostic ∧
      parse Applicability.read "\"displayonly\"" = .ok .displayOnly ∧
      parse Applicability.read (Applicability.toJson .displayOnly).pretty = .ok .displayOnly := by
  have hfits : farDiagnostic.Fits := by
    refine ⟨?_, ?_, List.forall_mem_singleton.mpr ⟨?_, ?_⟩⟩
    · rintro _ ⟨⟩
      exact ⟨by decide, by decide⟩
    · rintro _ ⟨⟩
    · exact ⟨by decide, by decide⟩
    · exact ⟨by decide, by decide⟩
  have hword : SpellsString "displayonly" "\"displayonly\"".toList :=
    spellsString_plain (by simp [Plain])
  have hread : parse Applicability.read "\"displayonly\"" = .ok .displayOnly :=
    (hword.reads_word Applicability.ofLabel).parse_eq spaces_nil spaces_nil (by simp)
  obtain ⟨-, -, hwords, hdiagnostics⟩ := span_roundTrips
  exact ⟨(hdiagnostics.written _ hfits).1, hread, (hwords.again _ _ hread).2⟩

end Fettle
