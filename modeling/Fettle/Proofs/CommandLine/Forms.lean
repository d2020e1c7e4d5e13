import Fettle.CommandLine.Run
import Fettle.Proofs.Diff.Presence
import Fettle.Proofs.Json.Writing
import Fettle.Proofs.Service.Truth

/-!
# The forms of the output tell the same story

The response to a formatting request is printed as it stands, as a diff, as JSON, or not at all. Each
form is made by other means, and `FormsAgree` says what they have in common. It holds of every
truthful response whose counts are numbers of 64 bits, so it holds of all that a service responds
(`formsAgree_of_handle`).
-/

namespace Fettle

open Json (Value maxNat64)

/-! ## Responses as JSON -/

/-- The counts of a summary are numbers of 64 bits, as the counters of a machine are. Larger ones
would be read from JSON as floating-point numbers. -/
structure Pipeline.Summary.Fits64 (s : Pipeline.Summary) : Prop where
  /-- The number of passes. -/
  passes : s.fixPasses ≤ maxNat64
  /-- The number of edits. -/
  applied : s.fixesApplied ≤ maxNat64

namespace FormatResponse

/-- A summary with counts of 64 bits is written without loss. -/
theorem exact_summaryToJson {s : Pipeline.Summary} (h : s.Fits64) : (summaryToJson s).Exact := by
  have hstages : (Value.array (s.stagesRun.map (.string ·.name))).Exact := by
    refine .array fun v hv => ?_
    obtain ⟨stage, -, rfl⟩ := List.mem_map.mp hv
    exact .string _
  unfold summaryToJson
  refine .object fun m hm => ?_
  simp only [List.mem_cons, List.not_mem_nil, or_false] at hm
  rcases hm with rfl | rfl | rfl | rfl
  · exact hstages
  · exact .ofNat h.passes
  · exact .ofNat h.applied
  · exact .bool _

/-- A response has an exact JSON value. -/
theorem exact_toJson {r : FormatResponse} (h : ∀ s ∈ r.summary, s.Fits64) : r.toJson.Exact := by
  unfold toJson
  refine .object fun m hm => ?_
  simp only [List.mem_append, List.mem_cons, List.not_mem_nil, or_false, optionalMember,
    Option.mem_toList, Option.map_eq_some_iff] at hm
  rcases hm with ((rfl | rfl | rfl) | ⟨s, hs, rfl⟩) | ⟨e, -, rfl⟩
  · exact .bool _
  · exact .string _
  · exact .bool _
  · exact exact_summaryToJson (h s hs)
  · exact .string _

/-- The names of the members of a response: three that are always there, and two that may be left
out. -/
theorem names_toJson (r : FormatResponse) :
    r.toJson.members.map Prod.fst = ["success", "formatted", "changed"] ++
      (if r.summary.isSome then ["summary"] else []) ++
      (if r.error.isSome then ["error"] else []) := by
  obtain ⟨_, _, _, summary, error⟩ := r
  cases summary <;> cases error <;> rfl

/-- A response says in JSON whether it is a success, -/
theorem success_mem_toJson (r : FormatResponse) :
    ("success", .bool r.success) ∈ r.toJson.members := by
  simp [toJson, Value.members]

/-- what the text is, -/
theorem formatted_mem_toJson (r : FormatResponse) :
    ("formatted", .string r.formatted) ∈ r.toJson.members := by
  simp [toJson, Value.members]

/-- and whether the text has changed. -/
theorem changed_mem_toJson (r : FormatResponse) :
    ("changed", .bool r.changed) ∈ r.toJson.members := by
  simp [toJson, Value.members]

/-- No member of a response is there twice. -/
theorem nodup_names_toJson (r : FormatResponse) : (r.toJson.members.map Prod.fst).Nodup := by
  rw [names_toJson]
  split_ifs <;> decide

/-- There is a member for the summary exactly if there is a summary, -/
theorem summary_mem_names_toJson (r : FormatResponse) :
    "summary" ∈ r.toJson.members.map Prod.fst ↔ r.summary.isSome = true := by
  rw [names_toJson]
  split_ifs with h₁ h₂ h₂ <;> simp [h₁]

/-- and one for the error exactly if there is an error. -/
theorem error_mem_names_toJson (r : FormatResponse) :
    "error" ∈ r.toJson.members.map Prod.fst ↔ r.error.isSome = true := by
  rw [names_toJson]
  split_ifs with h₁ h₂ h₂ <;> simp [h₂]

/-! ## Truthful responses -/

section

variable {r : FormatResponse} {source : String} {May : Pipeline.Summary → Prop}

/-- A truthful response is no success exactly if it is what is made of a failure. -/
theorem Truthful.success_eq_false_iff (h : r.Truthful source May) :
    r.success = false ↔ ∃ e, r = failure source e := by
  cases h with
  | failed e => exact iff_of_true rfl ⟨e, rfl⟩
  | succeeded => exact iff_of_false nofun fun ⟨_, he⟩ => nomatch he

/-- On failure the text is that of the request. -/
theorem Truthful.formatted_of_failure (h : r.Truthful source May) (hfailed : r.success = false) :
    r.formatted = source := by
  obtain ⟨e, rfl⟩ := h.success_eq_false_iff.mp hfailed
  rfl

/-- The response says that the text has changed exactly if it has. -/
theorem Truthful.changed_eq (h : r.Truthful source May) :
    r.changed = decide (r.formatted ≠ source) := by
  cases h with
  | failed e => simp
  | succeeded => rfl

/-- There is an error on failure only, -/
theorem Truthful.isSome_error (h : r.Truthful source May) :
    r.error.isSome = true ↔ r.success = false := by
  cases h with
  | failed e => exact iff_of_true rfl rfl
  | succeeded => exact iff_of_false nofun nofun

/-- and a summary on success only. -/
theorem Truthful.isSome_summary (h : r.Truthful source May) :
    r.summary.isSome = true ↔ r.success = true := by
  cases h with
  | failed e => exact iff_of_false nofun nofun
  | succeeded => exact iff_of_true rfl rfl

end

end FormatResponse

namespace CommandLine

/-! ## What the forms have in common -/

/-- No option about the output is given. -/
def Arguments.plain (a : Arguments) : Arguments :=
  { a with json := false, diff := false, check := false }

/-- A diff is asked for. -/
def Arguments.diffed (a : Arguments) : Arguments := { a with json := false, diff := true }

/-- The forms of the output for a response to a formatting request for a source text. -/
structure FormsAgree (a : Arguments) (source : String) (r : FormatResponse) : Prop where
  /-- The status follows from three facts only. -/
  status_congr : ∀ (a' : Arguments) (source' : String) (r' : FormatResponse),
    r'.success = r.success → r'.changed = r.changed → a'.check = a.check →
    (printFormat a' source' r').status = (printFormat a source r).status
  /-- It is two if the engines have failed, -/
  status_eq_two_iff : (printFormat a source r).status = 2 ↔
    ∃ e, r = FormatResponse.failure source e
  /-- and otherwise one if it is asked for and the text differs, and zero if not. -/
  status_eq : (printFormat a source r).status ≠ 2 →
    (printFormat a source r).status = if a.check = true ∧ r.formatted ≠ source then 1 else 0
  /-- The plain output is the text of the response, -/
  plain_output : (printFormat a.plain source r).output = r.formatted
  /-- which is the source if the engines have failed. -/
  plain_output_of_failure : (printFormat a source r).status = 2 →
    (printFormat a.plain source r).output = source
  /-- A check prints nothing. -/
  check_output : a.json = false → a.diff = false → a.check = true →
    (printFormat a source r).output = ""
  /-- A diff prints nothing if the plain output is the source. -/
  diff_output : a.diff = true →
    ((printFormat a source r).output = "" ↔ (printFormat a.plain source r).output = source)
  /-- The JSON output is one object, which tells what the other forms print. -/
  json_output : a.json = true → ∃ ms, Value.parse (printFormat a source r).output = .ok (.object ms) ∧
    (ms.map Prod.fst).Nodup ∧
    ("formatted", .string (printFormat a.plain source r).output) ∈ ms ∧
    ("success", .bool ((printFormat a source r).status ≠ 2)) ∈ ms ∧
    ("changed", .bool ((printFormat a.diffed source r).output ≠ "")) ∈ ms ∧
    ("error" ∈ ms.map Prod.fst ↔ (printFormat a source r).status = 2) ∧
    ("summary" ∈ ms.map Prod.fst ↔ (printFormat a source r).status ≠ 2)

/-- A command line that asks for JSON and for a diff is not accepted. -/
theorem not_json_and_diff_of_parse {args : List String} {a : Arguments} (h : parse args = .ok a) :
    ¬ (a.json = true ∧ a.diff = true) := by
  unfold parse at h
  cases hread : args.foldlM Progress.read {} with
  | error e => rw [hread] at h; cases h
  | ok p =>
    rw [hread] at h
    cases hsettle : p.settle with
    | error e =>
      simp only [bind, Except.bind, hsettle] at h
      cases h
    | ok p =>
      simp only [bind, Except.bind, hsettle] at h
      split at h
      · cases h
      · next hboth =>
        obtain rfl := Except.ok.inj h
        exact fun hjson => hboth (Bool.and_eq_true_iff.mpr hjson)

section

variable {a : Arguments} {source : String} {r : FormatResponse} {May : Pipeline.Summary → Prop}

/-- The status is two if the engines have failed. -/
theorem status_printFormat_eq_two_iff :
    (printFormat a source r).status = 2 ↔ r.success = false := by
  unfold printFormat
  cases r.success with
  | true =>
    simp only [Bool.not_true, Bool.false_eq_true, if_false]
    split_ifs <;> simp
  | false => simp

/-- Where JSON is asked for, the response is printed as JSON. -/
theorem output_printFormat_json (h : a.json = true) :
    (printFormat a source r).output = jsonText r.toJson := by
  unfold printFormat
  exact if_pos h

/-- A diff is printed, and nothing if the response leaves the text as it is. -/
theorem output_printFormat_diff (hjson : a.json = false) (hdiff : a.diff = true) :
    (printFormat a source r).output = "" ↔ r.formatted = source := by
  unfold printFormat
  simp only [hjson, hdiff, Bool.false_eq_true, if_false, if_true]
  rw [Diff.unified_eq_empty_iff, eq_comm]

/-- The forms of a truthful response agree. -/
theorem formsAgree_of_truthful (haccepted : ¬ (a.json = true ∧ a.diff = true))
    (hr : r.Truthful source May) (hcounts : ∀ s ∈ r.summary, s.Fits64) :
    FormsAgree a source r := by
  have hdiff : a.diff = true → a.json = false := fun h =>
    Bool.eq_false_iff.mpr fun hjson => haccepted ⟨hjson, h⟩
  refine
    { status_congr := ?_, status_eq_two_iff := ?_, status_eq := ?_, plain_output := rfl,
      plain_output_of_failure := ?_, check_output := ?_, diff_output := ?_, json_output := ?_ }
  · intro a' source' r' hsuccess hchanged hcheck
    unfold printFormat
    simp only [hsuccess, hchanged, hcheck]
  · rw [status_printFormat_eq_two_iff, hr.success_eq_false_iff]
  · intro hstatus
    rw [ne_eq, status_printFormat_eq_two_iff, Bool.not_eq_false] at hstatus
    unfold printFormat
    simp [hstatus, hr.changed_eq]
  · intro hstatus
    exact hr.formatted_of_failure (status_printFormat_eq_two_iff.mp hstatus)
  · intro hjson hdiff hcheck
    unfold printFormat
    simp only [hjson, hdiff, hcheck, Bool.false_eq_true, if_false, if_true]
  · exact fun h => output_printFormat_diff (hdiff h) h
  · -- What the other forms print follows from the same three facts as the members of the object.
    intro hjson
    refine ⟨r.toJson.members, ?_, r.nodup_names_toJson, ?_, ?_, ?_, ?_, ?_⟩
    · rw [output_printFormat_json hjson]
      exact (FormatResponse.exact_toJson hcounts).parse_pretty
    · exact r.formatted_mem_toJson
    · have hsuccess : r.success = decide ((printFormat a source r).status ≠ 2) := by
        rw [Bool.eq_iff_iff, decide_eq_true_iff, ne_eq, status_printFormat_eq_two_iff,
          Bool.not_eq_false]
      rw [← hsuccess]
      exact r.success_mem_toJson
    · have hchanged : r.changed = decide ((printFormat a.diffed source r).output ≠ "") := by
        rw [hr.changed_eq]
        exact decide_eq_decide.mpr (not_congr (output_printFormat_diff rfl rfl).symm)
      rw [← hchanged]
      exact r.changed_mem_toJson
    · rw [r.error_mem_names_toJson, hr.isSome_error, status_printFormat_eq_two_iff]
    · rw [r.summary_mem_names_toJson, hr.isSome_summary, ne_eq, status_printFormat_eq_two_iff,
        Bool.not_eq_false]

end

variable {σ : Type}

/-- Whatever the engines do, the forms of the output for a response of the service agree. -/
theorem formsAgree_of_handle {args : List String} {a : Arguments} {s : Service σ}
    {state : Service.State σ} {source : String} {r : FormatResponse}
    (hparse : parse args = .ok a) (hsettled : state.Settled)
    (hresponse : (s.handle (a.mode.request source) state).1 = .format r)
    (hcounts : ∀ summary ∈ r.summary, summary.Fits64) : FormsAgree a source r := by
  have haccepted := not_json_and_diff_of_parse hparse
  have htruthful := (s.handles_handle (a.mode.request source) hsettled).truthful
  rw [hresponse] at htruthful
  cases hmode : a.mode with
  | shed =>
    rw [hmode] at htruthful
    cases htruthful with
    | formatSource hr => exact formsAgree_of_truthful haccepted hr hcounts
  | format =>
    rw [hmode] at htruthful
    cases htruthful with
    | formatOnly hr => exact formsAgree_of_truthful haccepted hr hcounts
  | lint =>
    rw [hmode] at htruthful
    cases htruthful

/-- A service that starts at once. Its formatter writes a line feed after a text, and its sources
find nothing. -/
def terminator : Service Unit where
  provide := pure ⟨.ok
    { formatter _ text := pure (text ++ "\n")
      diagnostics _ := pure []
      linter _ := pure [] }, ⟨0⟩⟩
  limit := none
  pipeline := {}

/-- A text is formatted alone, while JSON and a check are asked for. -/
theorem formsAgree_terminator :
    let a : Arguments := { mode := .format, json := true, check := true }
    let r : FormatResponse := ⟨true, "x = 1\n", true, some ⟨[.format], 0, 0, false⟩, none⟩
    parse ["--mode=format", "--json", "--check"] = .ok a ∧
      (terminator.handle (a.mode.request "x = 1") { memory := () }).1 = .format r ∧
      (∀ summary ∈ r.summary, summary.Fits64) ∧ FormsAgree a "x = 1" r := by
  intro a r
  have hparse : parse ["--mode=format", "--json", "--check"] = .ok a := by rfl
  have hresponse :
      (terminator.handle (a.mode.request "x = 1") { memory := () }).1 = .format r := by rfl
  have hcounts : ∀ summary ∈ r.summary, summary.Fits64 := by
    intro summary hsummary
    obtain rfl := Option.some.inj hsummary
    exact ⟨Nat.zero_le _, Nat.zero_le _⟩
  exact ⟨hparse, hresponse, hcounts,
    formsAgree_of_handle hparse Startup.settled_empty hresponse hcounts⟩

end CommandLine

end Fettle
