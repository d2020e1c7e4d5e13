import Fettle.Proofs.Json.RecordExtension
import Fettle.Proofs.Lint.Wire

/-!
# Reports that are cut short

The engine may be stopped while it writes its report. What is left of the report then is not taken
for a shorter one (`readReport_cut`): unless only blanks are missing, or nothing but blanks is left,
it cannot be read. The readers of findings do not look past what they take, and the report is a
list, which ends with its bracket.
-/

namespace Fettle.Lint

open Json

/-- A location is read from longer texts too. -/
theorem Location.extends_read : Extends Any record.read record.read :=
  Record.extends_read (.cons_any extends_readNat (.cons_any extends_readNat Record.keeps_nil))
    trivial

/-- A change is read from longer texts too. -/
theorem Change.extends_read : Extends Any record.read record.read :=
  Record.extends_read
    (.cons_any extends_optionText (.cons_any Location.extends_read
      (.cons_any Location.extends_read Record.keeps_nil))) trivial

/-- A fix is read from longer texts too. -/
theorem Fix.extends_read : Extends Any record.read record.read :=
  Record.extends_read
    (.cons_any (extends_readOption (extends_readWord _)) (.cons_any extends_optionText
      (.cons_any (extends_readList Change.extends_read) Record.keeps_nil))) trivial

/-- A finding is read from longer texts too. -/
theorem Finding.extends_read : Extends Any record.read record.read := by
  have hplace := extends_readOption Location.extends_read
  exact Record.extends_read
    (.cons_any extends_optionText (.cons_any (extends_readTextAs _)
      (.cons_any hplace (.cons_any hplace
        (.cons_any (extends_readOption Fix.extends_read) Record.keeps_nil))))) trivial

/-- A report of blanks has no findings. -/
theorem readReport_of_allBlank {payload : String} (h : Text.allBlank payload = true) :
    readReport payload = .ok [] :=
  if_pos h

/-- A report that is read and not blank is a list of findings with blanks after it. -/
theorem exists_findings {payload : String} {ds : List Diagnostic} (h : readReport payload = .ok ds)
    (hblank : Text.allBlank payload = false) :
    ∃ fs rest, readList Finding.record.read payload.toList = .ok (fs, rest) ∧ Spaces rest ∧
      fs.map Finding.toDiagnostic = ds := by
  unfold readReport at h
  rw [hblank] at h
  obtain ⟨fs, hparse, hds⟩ := exists_of_map_eq_ok (f := List.map Finding.toDiagnostic) h
  obtain ⟨rest, hread, hrest⟩ := parse_eq_ok_iff.mp hparse
  exact ⟨fs, rest, hread, hrest, hds⟩

/-- If what is left of a report is read although it is not blank, only blanks are missing. -/
theorem spaces_of_readReport {left missing : String} {ds ds' : List Diagnostic}
    (h : readReport (left ++ missing) = .ok ds) (h' : readReport left = .ok ds')
    (hblank : Text.allBlank left = false) : Spaces missing.toList ∧ ds' = ds := by
  have hwhole : Text.allBlank (left ++ missing) = false := by
    unfold Text.allBlank at hblank ⊢
    rw [String.toList_append, List.all_append, hblank, Bool.false_and]
  obtain ⟨fs, rest, hread, hrest, rfl⟩ := exists_findings h hwhole
  obtain ⟨fs', rest', hread', -, rfl⟩ := exists_findings h' hblank
  -- The list that is left is also the list at the front of the whole report.
  have hfront := readList_append Finding.extends_read hread' missing.toList
  rw [String.toList_append, hfront] at hread
  cases hread
  exact ⟨fun c hc => hrest c (List.mem_append_right rest' hc), rfl⟩

/-- Of a report that is cut anywhere, what is left cannot be read, or it is blank and has no
diagnostics, or only blanks are missing and it has the same diagnostics. It never has some of the
diagnostics and not the others. -/
theorem readReport_cut (left missing : String) {ds : List Diagnostic}
    (h : readReport (left ++ missing) = .ok ds) :
    ((∃ f, readReport left = .error f) ∨
      (Text.allBlank left = true ∧ readReport left = .ok []) ∨
      (Spaces missing.toList ∧ readReport left = .ok ds)) ∧
    ∀ part, readReport left = .ok part → part = [] ∨ part = ds := by
  cases hblank : Text.allBlank left with
  | true =>
    have hleft := readReport_of_allBlank hblank
    refine ⟨.inr (.inl ⟨rfl, hleft⟩), fun part hpart => .inl ?_⟩
    exact Except.ok.inj (hpart.symm.trans hleft)
  | false =>
    refine ⟨?_, fun part hpart => .inr (spaces_of_readReport h hpart hblank).2⟩
    cases hleft : readReport left with
    | error f => exact .inl ⟨f, rfl⟩
    | ok part =>
      obtain ⟨hmissing, rfl⟩ := spaces_of_readReport h hleft hblank
      exact .inr (.inr ⟨hmissing, rfl⟩)

/-- Without its last bracket a report of one finding cannot be read. -/
theorem readReport_cut_bracket : ∃ f, readReport "[\x7b\"message\":\"x\"\x7d" = .error f := by
  have hfinding : Finding.Spells { message := "x" } "\x7b\"message\":\"x\"\x7d".toList := by
    refine ⟨[("message", "\"x\"".toList)], _,
      .one spaces_nil (Record.memberOf_plain _ (by simp [Plain])) spaces_nil, rfl, by decide, ?_,
      by simp [Finding.members]⟩
    rintro _ (_ | ⟨_, ⟨⟩⟩)
    exact .inl ⟨_, .tail _ (.head _), rfl, spellsString_plain (by simp [Plain])⟩
  have hreads : Reads (readList Finding.record.read) [{ message := "x" }]
      "[\x7b\"message\":\"x\"\x7d]".toList :=
    reads_list (fun _ _ => Finding.Spells.reads) (fun _ _ => SpellsObject.begins_value)
      ⟨_, .one spaces_nil hfinding spaces_nil, rfl⟩
  have hreport : readReport ("[\x7b\"message\":\"x\"\x7d" ++ "]\n") =
      .ok [Finding.toDiagnostic { message := "x" }] := by
    have hline : Spaces ['\n'] := by simp [Spaces]
    unfold readReport
    rw [hreads.parse_eq spaces_nil hline (by simp)]
    rfl
  obtain ⟨hfails | ⟨hblank, -⟩ | ⟨hmissing, -⟩, -⟩ := readReport_cut _ _ hreport
  · exact hfails
  · cases hblank
  · exact absurd (hmissing ']' (by simp)) (by decide)

end Fettle.Lint
