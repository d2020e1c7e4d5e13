import Fettle.Lint.Wire
import Fettle.Proofs.Json.Records

/-!
# Every spelling of a report is read

The engine's findings may be spelled as JSON in many ways. `SpellsReport` says which texts spell a
list of findings, and `Finding.Means` says what a finding means, both without the reader.
`readReport_of_spells` shows that from every spelling of the findings exactly their meanings are
read, one diagnostic for each finding and in the same order.
-/

namespace Fettle.Lint

open Json

/-! ## What spells a report -/

/-- The words that the engine may use for an applicability. -/
inductive Labels : Applicability → String → Prop
  /-- The fix keeps the meaning. -/
  | safe : Labels .safe "safe"
  /-- The fix may change the meaning. -/
  | hazardous : Labels .hazardous "unsafe"
  /-- The fix is for reading only. -/
  | displayOnly : Labels .displayOnly "display-only"
  /-- An older spelling of the same. -/
  | joined : Labels .displayOnly "displayonly"
  /-- Any other word, the same words in other letters included. -/
  | unknown {s : String} (h : s ∉ ["safe", "unsafe", "display-only", "displayonly"]) :
      Labels .unknown s

/-- The spellings of an applicability. -/
def SpellsApplicability (a : Applicability) (cs : List Char) : Prop :=
  ∃ s, Labels a s ∧ SpellsString s cs

/-- The members of a place; neither may be lacking. -/
def Location.members (l : Location) : List Member := [
  ⟨"row", SpellsNat l.row, False⟩,
  ⟨"column", SpellsNat l.column, False⟩]

/-- The spellings of a place. -/
def Location.Spells (l : Location) : List Char → Prop := SpellsObject l.members

/-- The members of a change; its content may be null or lacking if there is none. -/
def Change.members (c : Change) : List Member := [
  ⟨"content", SpellsOption SpellsString c.content, c.content = none⟩,
  ⟨"location", c.location.Spells, False⟩,
  ⟨"end_location", c.endLocation.Spells, False⟩]

/-- The spellings of a change. -/
def Change.Spells (c : Change) : List Char → Prop := SpellsObject c.members

/-- The members of a fix; its edits may be lacking if there are none, but not be null. -/
def Fix.members (f : Fix) : List Member := [
  ⟨"applicability", SpellsOption SpellsApplicability f.applicability, f.applicability = none⟩,
  ⟨"message", SpellsOption SpellsString f.message, f.message = none⟩,
  ⟨"edits", SpellsList Change.Spells f.edits, f.edits = []⟩]

/-- The spellings of a fix. -/
def Fix.Spells (f : Fix) : List Char → Prop := SpellsObject f.members

/-- The members of a finding; its message may be lacking if it is empty, but not be null. -/
def Finding.members (f : Finding) : List Member := [
  ⟨"code", SpellsOption SpellsString f.code, f.code = none⟩,
  ⟨"message", SpellsString f.message, f.message = ""⟩,
  ⟨"location", SpellsOption Location.Spells f.location, f.location = none⟩,
  ⟨"end_location", SpellsOption Location.Spells f.endLocation, f.endLocation = none⟩,
  ⟨"fix", SpellsOption Fix.Spells f.fix, f.fix = none⟩]

/-- The spellings of a finding. -/
def Finding.Spells (f : Finding) : List Char → Prop := SpellsObject f.members

/-- The spellings of a report: a list of findings, with blanks around it. -/
def SpellsReport (fs : List Finding) (payload : String) : Prop :=
  ∃ s cs s', Spaces s ∧ SpellsList Finding.Spells fs cs ∧ Spaces s' ∧
    payload.toList = s ++ (cs ++ s')

/-! ## What a report means -/

/-- A coordinate counted from one, and the same one counted from zero; zero stays. -/
def FromOne (n m : ℕ) : Prop := n = 0 ∧ m = 0 ∨ n = m + 1

/-- The position at a place. -/
def Location.Means (l : Location) (p : Position) : Prop :=
  FromOne l.row p.row ∧ FromOne l.column p.column

/-- The edit of a change; no content is the empty one. -/
structure Change.Means (c : Change) (e : Edit) : Prop where
  /-- Where the span begins. -/
  start : c.location.Means e.start
  /-- Where the span ends. -/
  stop : c.endLocation.Means e.stop
  /-- What stands in place of the span. -/
  content : c.content = some e.content ∨ c.content = none ∧ e.content = ""

/-- The diagnostic of a finding. -/
structure Finding.Means (f : Finding) (d : Diagnostic) : Prop where
  /-- The rule that was broken. -/
  ruleCode : d.ruleCode = f.code
  /-- What the engine says about it. -/
  message : d.message = f.message
  /-- Where the flagged span begins. -/
  location : Option.Rel Location.Means f.location d.location
  /-- Where the flagged span ends. -/
  endLocation : Option.Rel Location.Means f.endLocation d.endLocation
  /-- Without a fix there is nothing of one. -/
  unfixed : f.fix = none → d.edits = [] ∧ d.applicability = none ∧ d.fixMessage = none
  /-- The edits of a fix in order, and what the engine says about it. -/
  fixed : ∀ x, f.fix = some x → List.Forall₂ Change.Means x.edits d.edits ∧
    d.applicability = x.applicability ∧ d.fixMessage = x.message

/-- A location means the position that it is turned into. -/
theorem Location.means_toPosition (l : Location) : l.Means l.toPosition := by
  have hcoordinate : ∀ n : ℕ, FromOne n (n - 1) := by
    intro n
    unfold FromOne
    omega
  exact ⟨hcoordinate l.row, hcoordinate l.column⟩

/-- A change means the edit that it is turned into. -/
theorem Change.means_toEdit (c : Change) : c.Means c.toEdit where
  start := c.location.means_toPosition
  stop := c.endLocation.means_toPosition
  content := by
    unfold toEdit
    cases c.content with
    | none => exact .inr ⟨rfl, rfl⟩
    | some content => exact .inl rfl

/-- A finding means the diagnostic that it is turned into. -/
theorem Finding.means_toDiagnostic (f : Finding) : f.Means f.toDiagnostic where
  ruleCode := rfl
  message := rfl
  location := by
    unfold toDiagnostic
    cases f.location with
    | none => exact .none
    | some l => exact .some l.means_toPosition
  endLocation := by
    unfold toDiagnostic
    cases f.endLocation with
    | none => exact .none
    | some l => exact .some l.means_toPosition
  unfixed h := by
    unfold toDiagnostic
    rw [h]
    exact ⟨rfl, rfl, rfl⟩
  fixed x h := by
    unfold toDiagnostic
    rw [h]
    refine ⟨?_, rfl, rfl⟩
    exact List.forall₂_map_right_iff.mpr (List.forall₂_same.mpr fun c _ => c.means_toEdit)

/-! ## Reading -/

/-- A label is read as the applicability that it labels. -/
theorem Labels.ofLabel_eq {a : Applicability} {s : String} (h : Labels a s) :
    Applicability.ofLabel s = a := by
  cases h with
  | safe => rfl
  | hazardous => rfl
  | displayOnly => rfl
  | joined => rfl
  | unknown h =>
    simp only [List.mem_cons, List.not_mem_nil, or_false, not_or] at h
    unfold Applicability.ofLabel
    rw [if_neg h.1, if_neg h.2.1, if_neg (not_or.mpr ⟨h.2.2.1, h.2.2.2⟩)]

/-- An applicability begins with a quote. -/
theorem SpellsApplicability.begins {a : Applicability} {cs : List Char}
    (h : SpellsApplicability a cs) : ∃ rest, cs = '"' :: rest := by
  obtain ⟨s, -, hs⟩ := h
  exact hs.begins

/-- An applicability is read from each of its spellings. -/
theorem SpellsApplicability.reads {a : Applicability} {cs : List Char}
    (h : SpellsApplicability a cs) : Reads Applicability.read a cs := by
  obtain ⟨s, hlabel, hs⟩ := h
  exact hlabel.ofLabel_eq ▸ hs.reads_word Applicability.ofLabel

/-- So is a text that may be null. -/
theorem reads_optionText {a : Option String} {cs : List Char} (h : SpellsOption SpellsString a cs) :
    Reads (readOption readText) a cs :=
  reads_option (fun _ _ h => h.reads "a string") rfl (by decide) (fun _ _ h => h.begins) h

/-- A place of which the members with some names are stored. -/
def Location.part (l : Location) (seen : List String) : Location where
  row := onceSeen seen "row" l.row 0
  column := onceSeen seen "column" l.column 0

/-- A location is read from each of its spellings, -/
theorem Location.Spells.reads {l : Location} {cs : List Char} (h : l.Spells cs) :
    Reads record.read l cs := by
  have hfields : List.Forall₂ (Field.Stores l.part) record.fields l.members :=
    .cons (Field.stores_map False.elim (fun _ h => h.reads) (fun seen => by simp [part]) false)
      (.cons (Field.stores_map False.elim (fun _ h => h.reads) (fun seen => by simp [part]) false)
        .nil)
  have hnames : ["row", "column"].Nodup := by decide
  refine Record.reads_of_spellsObject hfields hnames rfl (fun seen hseen => ?_) h
  simp only [members, List.forall_mem_cons] at hseen
  obtain ⟨hrow, hcolumn, -⟩ := hseen
  unfold part
  rw [onceSeen_eq hrow False.elim, onceSeen_eq hcolumn False.elim]

/-- also where it may be null. -/
theorem Location.Spells.reads_option {l : Option Location} {cs : List Char}
    (h : SpellsOption Location.Spells l cs) : Reads (readOption record.read) l cs :=
  Json.reads_option (fun _ _ => Location.Spells.reads) rfl (by decide)
    (fun _ _ => SpellsObject.begins) h

/-- A change of which the members with some names are stored. -/
def Change.part (c : Change) (seen : List String) : Change where
  content := onceSeen seen "content" c.content none
  location := onceSeen seen "location" c.location default
  endLocation := onceSeen seen "end_location" c.endLocation default

/-- A change is read from each of its spellings. -/
theorem Change.Spells.reads {c : Change} {cs : List Char} (h : c.Spells cs) :
    Reads record.read c cs := by
  have hfields : List.Forall₂ (Field.Stores c.part) record.fields c.members :=
    .cons (Field.stores_map (fun _ => rfl) (fun _ => reads_optionText)
        (fun seen => by simp [part]) true)
      (.cons (Field.stores_map False.elim (fun _ h => h.reads) (fun seen => by simp [part]) false)
        (.cons (Field.stores_map False.elim (fun _ h => h.reads) (fun seen => by simp [part]) false)
          .nil))
  have hnames : ["content", "location", "end_location"].Nodup := by decide
  refine Record.reads_of_spellsObject hfields hnames rfl (fun seen hseen => ?_) h
  simp only [members, List.forall_mem_cons] at hseen
  obtain ⟨hcontent, hlocation, hendLocation, -⟩ := hseen
  unfold part
  rw [onceSeen_eq hcontent id, onceSeen_eq hlocation False.elim,
    onceSeen_eq hendLocation False.elim]

/-- A fix of which the members with some names are stored. -/
def Fix.part (f : Fix) (seen : List String) : Fix where
  applicability := onceSeen seen "applicability" f.applicability none
  message := onceSeen seen "message" f.message none
  edits := onceSeen seen "edits" f.edits []

/-- A fix is read from each of its spellings. -/
theorem Fix.Spells.reads {f : Fix} {cs : List Char} (h : f.Spells cs) :
    Reads record.read f cs := by
  have happlicability : ∀ cs, SpellsOption SpellsApplicability f.applicability cs →
      Reads (readOption Applicability.read) f.applicability cs := fun _ h =>
    reads_option (fun _ _ h => h.reads) rfl (by decide) (fun _ _ h => h.begins) h
  have hedits : ∀ cs, SpellsList Change.Spells f.edits cs →
      Reads (readList Change.record.read) f.edits cs := fun _ h =>
    reads_list (fun _ _ => Change.Spells.reads) (fun _ _ => SpellsObject.begins_value) h
  have hfields : List.Forall₂ (Field.Stores f.part) record.fields f.members :=
    .cons (Field.stores_map (fun _ => rfl) happlicability (fun seen => by simp [part]) true)
      (.cons (Field.stores_map (fun _ => rfl) (fun _ => reads_optionText)
          (fun seen => by simp [part]) true)
        (.cons (Field.stores_map (fun _ => rfl) hedits (fun seen => by simp [part]) true) .nil))
  have hnames : ["applicability", "message", "edits"].Nodup := by decide
  refine Record.reads_of_spellsObject hfields hnames rfl (fun seen hseen => ?_) h
  simp only [members, List.forall_mem_cons] at hseen
  obtain ⟨happlicability, hmessage, hedits, -⟩ := hseen
  unfold part
  rw [onceSeen_eq happlicability id, onceSeen_eq hmessage id, onceSeen_eq hedits id]

/-- A finding of which the members with some names are stored. -/
def Finding.part (f : Finding) (seen : List String) : Finding where
  code := onceSeen seen "code" f.code none
  message := onceSeen seen "message" f.message ""
  location := onceSeen seen "location" f.location none
  endLocation := onceSeen seen "end_location" f.endLocation none
  fix := onceSeen seen "fix" f.fix none

/-- A finding is read from each of its spellings. -/
theorem Finding.Spells.reads {f : Finding} {cs : List Char} (h : f.Spells cs) :
    Reads record.read f cs := by
  have hfix : ∀ cs, SpellsOption Fix.Spells f.fix cs →
      Reads (readOption Fix.record.read) f.fix cs := fun _ h =>
    reads_option (fun _ _ => Fix.Spells.reads) rfl (by decide) (fun _ _ => SpellsObject.begins) h
  have hfields : List.Forall₂ (Field.Stores f.part) record.fields f.members :=
    .cons (Field.stores_map (fun _ => rfl) (fun _ => reads_optionText)
        (fun seen => by simp [part]) true)
      (.cons (Field.stores_map (fun _ => rfl) (fun _ h => h.reads "a string")
          (fun seen => by simp [part]) true)
        (.cons (Field.stores_map (fun _ => rfl) (fun _ => Location.Spells.reads_option)
            (fun seen => by simp [part]) true)
          (.cons (Field.stores_map (fun _ => rfl) (fun _ => Location.Spells.reads_option)
              (fun seen => by simp [part]) true)
            (.cons (Field.stores_map (fun _ => rfl) hfix (fun seen => by simp [part]) true) .nil))))
  have hnames : ["code", "message", "location", "end_location", "fix"].Nodup := by decide
  refine Record.reads_of_spellsObject hfields hnames rfl (fun seen hseen => ?_) h
  simp only [members, List.forall_mem_cons] at hseen
  obtain ⟨hcode, hmessage, hlocation, hendLocation, hfix, -⟩ := hseen
  unfold part
  rw [onceSeen_eq hcode id, onceSeen_eq hmessage id, onceSeen_eq hlocation id,
    onceSeen_eq hendLocation id, onceSeen_eq hfix id]

/-- A report that is spelled is not blank. -/
theorem SpellsReport.allBlank_eq {fs : List Finding} {payload : String}
    (h : SpellsReport fs payload) : Text.allBlank payload = false := by
  obtain ⟨s, _, s', -, ⟨inner, -, rfl⟩, -, hpayload⟩ := h
  unfold Text.allBlank
  rw [hpayload, List.all_eq_false]
  exact ⟨'[', by simp, by decide⟩

/-- The largest row and a column of zero, with blanks around the comma. -/
theorem spells_largestRow : Location.Spells ⟨18446744073709551615, 0⟩
    "\x7b\"column\":0 , \"row\":18446744073709551615\x7d".toList := by
  have hcolumn : SpellsNat 0 ['0'] := ⟨by decide, rfl⟩
  have hrow : SpellsNat 18446744073709551615 "18446744073709551615".toList := ⟨by decide, rfl⟩
  have hblank : Spaces [' '] := by simp [Spaces]
  refine ⟨[("column", ['0']), ("row", "18446744073709551615".toList)], _,
    .more spaces_nil (Record.memberOf_plain _ (by simp [Plain])) hblank
      (.one hblank (Record.memberOf_plain _ (by simp [Plain])) spaces_nil), rfl, by decide, ?_, ?_⟩
  · rintro _ (_ | ⟨_, _ | ⟨_, ⟨⟩⟩⟩)
    · exact .inl ⟨_, .tail _ (.head _), rfl, hcolumn⟩
    · exact .inl ⟨_, .head _, rfl, hrow⟩
  · simp [Location.members]

/-- The older spelling of an applicability, and nothing else. -/
theorem spells_joinedLabel : Fix.Spells { applicability := some .displayOnly }
    "\x7b\"applicability\":\"displayonly\"\x7d".toList := by
  have hlabel : SpellsApplicability .displayOnly "\"displayonly\"".toList :=
    ⟨_, .joined, spellsString_plain (by simp [Plain])⟩
  refine ⟨[("applicability", "\"displayonly\"".toList)], _,
    .one spaces_nil (Record.memberOf_plain _ (by simp [Plain])) spaces_nil, rfl, by decide, ?_, ?_⟩
  · rintro _ (_ | ⟨_, ⟨⟩⟩)
    exact .inl ⟨_, .head _, rfl, hlabel⟩
  · simp [Fix.members]

/-- A character as a pair of surrogates, in small and capital digits. -/
theorem spells_surrogates : SpellsString "😀" "\"\\ud83d\\uDE00\"".toList := by
  have hhigh := @FourHexDigits.mk 13 8 3 13 'd' '8' '3' 'd' ⟨by decide, .inl rfl⟩
    ⟨by decide, .inl rfl⟩ ⟨by decide, .inl rfl⟩ ⟨by decide, .inl rfl⟩
  have hlow := @FourHexDigits.mk 13 14 0 0 'D' 'E' '0' '0' ⟨by decide, .inr rfl⟩
    ⟨by decide, .inr rfl⟩ ⟨by decide, .inl rfl⟩ ⟨by decide, .inl rfl⟩
  have hchars : SpellsChars ['😀'] _ :=
    .cons (.pair hhigh hlow (by decide) (by decide) (by decide)) .nil
  exact ⟨_, hchars, rfl⟩

/-- From every spelling of some findings exactly the diagnostics that they mean are read, in the
same order. -/
theorem readReport_of_spells (fs : List Finding) (payload : String)
    (h : SpellsReport fs payload) :
    ∃ ds, readReport payload = .ok ds ∧ List.Forall₂ Finding.Means fs ds := by
  have hblank := h.allBlank_eq
  obtain ⟨s, cs, s', hs, hcs, hs', hpayload⟩ := h
  have hreads : Reads (readList Finding.record.read) fs cs :=
    reads_list (fun _ _ => Finding.Spells.reads) (fun _ _ => SpellsObject.begins_value) hcs
  refine ⟨fs.map Finding.toDiagnostic, ?_, ?_⟩
  · unfold readReport
    rw [hblank, hreads.parse_eq hs hs' hpayload]
    rfl
  · exact List.forall₂_map_right_iff.mpr (List.forall₂_same.mpr fun f _ => f.means_toDiagnostic)

/-- A finding with a pair of surrogates, the largest row and a member that nobody asks for is read
as what it means. -/
theorem readReport_of_spells_surrogates :
    ∃ ds, readReport (" [\x7b\"fix\":\x7b\"applicability\":\"displayonly\"\x7d,\"url\":[1e3],\n" ++
        "\"message\":\"\\ud83d\\uDE00\",\"code\":null," ++
        "\"location\":\x7b\"column\":0 , \"row\":18446744073709551615\x7d\x7d]\n") = .ok ds ∧
      List.Forall₂ Finding.Means [{
        message := "😀", location := some ⟨18446744073709551615, 0⟩,
        fix := some { applicability := some .displayOnly } }] ds := by
  have hurl : ValueText 1 "[1e3]".toList := by
    have hdigit : ∀ {c : Char}, c.isDigit = true → Digits [c] := fun hc =>
      ⟨List.cons_ne_nil _ _, List.forall_mem_singleton.mpr hc⟩
    have hnumber : NumberText ['1', 'e', '3'] :=
      ⟨[], ['1'], [], ['e', '3'], .inl rfl, ⟨hdigit rfl, by decide⟩, .inl rfl,
        .inr ⟨'e', [], ['3'], .inl rfl, .inl rfl, hdigit rfl, rfl⟩, rfl⟩
    exact .inr (.inl ⟨[()], _, .one spaces_nil (.inr (.inr (.inr (.inl hnumber)))) spaces_nil, rfl⟩)
  have hblank : Spaces [' '] := by simp [Spaces]
  have hline : Spaces ['\n'] := by simp [Spaces]
  refine readReport_of_spells _ _ ⟨[' '], _, ['\n'], hblank, ⟨_, .one spaces_nil
    ⟨[("fix", "\x7b\"applicability\":\"displayonly\"\x7d".toList), ("url", "[1e3]".toList),
      ("message", "\"\\ud83d\\uDE00\"".toList), ("code", "null".toList),
      ("location", "\x7b\"column\":0 , \"row\":18446744073709551615\x7d".toList)], _,
      .more spaces_nil (Record.memberOf_plain _ (by simp [Plain])) spaces_nil
      (.more spaces_nil (Record.memberOf_plain _ (by simp [Plain])) spaces_nil
        (.more hline (Record.memberOf_plain _ (by simp [Plain])) spaces_nil
          (.more spaces_nil (Record.memberOf_plain _ (by simp [Plain])) spaces_nil
            (.one spaces_nil (Record.memberOf_plain _ (by simp [Plain])) spaces_nil)))), rfl,
      by decide, ?_, by simp [Finding.members]⟩ spaces_nil, rfl⟩, hline, by simp⟩
  simp only [List.forall_mem_cons]
  refine ⟨.inl ⟨_, .tail _ (.tail _ (.tail _ (.tail _ (.head _)))), rfl, spells_joinedLabel⟩,
    .inr ⟨by decide, 1, hurl⟩, .inl ⟨_, .tail _ (.head _), rfl, spells_surrogates⟩,
    .inl ⟨_, .head _, rfl, rfl⟩, .inl ⟨_, .tail _ (.tail _ (.head _)), rfl, spells_largestRow⟩, ?_⟩
  exact fun _ h => absurd h List.not_mem_nil

end Fettle.Lint
