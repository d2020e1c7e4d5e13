import Fettle.Pipeline
import Fettle.Proofs.Fix.Lockstep
import Mathlib

/-!
# What cannot influence a run

A run looks at nothing of a report but the well-formed edits of the admitted diagnostics. Two
sources that agree in these after every history (`Alike`) are therefore asked about the same texts
and lead to the same result, in the loop of passes and in the whole pipeline
(`runs_eq_of_alike`). The proof carries through the two runs that both sources have heard the same
texts so far.
-/

namespace Fettle

namespace Fix

variable {ε σ τ : Type}

/-! ## The part of a report that counts -/

/-- A diagnostic is admitted if its rule begins with a non-empty entry of the allow-list, and its
fix is called safe or nothing is said about it. -/
def Admitted (allowList : List String) (d : Diagnostic) : Prop :=
  (∃ code, d.ruleCode = some code ∧
    ∃ entry ∈ allowList, entry ≠ "" ∧ entry.toList <+: code.toList) ∧
  (d.applicability = none ∨ d.applicability = some .safe)

/-- The check for admission decides it. -/
theorem isAdmitted_iff {allowList : List String} {d : Diagnostic} :
    isAdmitted allowList d = true ↔ Admitted allowList d := by
  have hallowed : isAllowed d.ruleCode allowList = true ↔ ∃ code, d.ruleCode = some code ∧
      ∃ entry ∈ allowList, entry ≠ "" ∧ entry.toList <+: code.toList := by
    cases d.ruleCode with
    | none => simp [isAllowed]
    | some code => simp [isAllowed]
  have hautomatic : isAutomatic d.applicability = true ↔
      d.applicability = none ∨ d.applicability = some .safe := by
    rcases d.applicability with _ | a
    · simp [isAutomatic]
    · cases a <;> simp [isAutomatic]
  rw [isAdmitted, Bool.and_eq_true, hallowed, hautomatic, Admitted]

instance (allowList : List String) (d : Diagnostic) : Decidable (Admitted allowList d) :=
  decidable_of_iff _ isAdmitted_iff

/-- A diagnostic without its texts, its locations and its malformed edits. -/
def core (d : Diagnostic) : Diagnostic where
  ruleCode := d.ruleCode
  edits := d.edits.filter fun e => e.WellFormed
  applicability := d.applicability

/-- The part of a report that counts: of the admitted diagnostics those that have a well-formed
edit, without their texts, their locations and their malformed edits. -/
def essence (allowList : List String) (report : List Diagnostic) : List Diagnostic :=
  ((report.filter fun d => Admitted allowList d).map core).filter fun d => d.edits ≠ []

/-- The admissible edits are found in the part that counts. -/
theorem admissible_eq_flatMap_essence (allowList : List String) (report : List Diagnostic) :
    admissible report allowList = (essence allowList report).flatMap fun d => d.edits := by
  have hfilter : report.filter (isAdmitted allowList) =
      report.filter fun d => Admitted allowList d :=
    List.filter_congr fun d _ => by simp only [← isAdmitted_iff, Bool.decide_eq_true]
  rw [admissible, essence, hfilter]
  induction report.filter fun d => Admitted allowList d with
  | nil => rfl
  | cons d ds ih =>
    rw [List.flatMap_cons, ih, List.map_cons, List.filter_cons]
    split_ifs with h
    · rw [List.flatMap_cons]
      rfl
    -- A diagnostic is left out because it has no well-formed edit to contribute.
    · have hnone : (core d).edits = [] := by simpa using h
      rw [show d.edits.filter (fun e => e.WellFormed) = [] from hnone, List.nil_append]

/-! ## Sources that agree in that part -/

/-- What a source remembers once it has been asked about some texts. -/
def Source.after (source : Source ε σ) (memory : σ) (texts : List String) : σ :=
  texts.foldl (fun m text => source.next text m) memory

/-- The memory after one more text is the memory that the text leaves. -/
theorem Source.after_concat (source : Source ε σ) (memory : σ) (texts : List String)
    (text : String) :
    source.after memory (texts ++ [text]) = source.next text (source.after memory texts) :=
  List.foldl_concat ..

/-- Two sources are alike if, asked about a text after the same history of texts, both fail with the
same error or both answer reports that agree in the part that counts. -/
def Alike (allowList : List String) (s₁ : Source ε σ) (m₁ : σ) (s₂ : Source ε τ) (m₂ : τ) : Prop :=
  ∀ history text, ResultsAgree (fun a b => essence allowList a = essence allowList b)
    (s₁.answer text (s₁.after m₁ history)) (s₂.answer text (s₂.after m₂ history))

section

variable {allowList : List String} {s₁ : Source ε σ} {m₁ : σ} {s₂ : Source ε τ} {m₂ : τ}

/-- Alike sources agree in their admissible edits. -/
theorem Alike.admissible (h : Alike allowList s₁ m₁ s₂ m₂) (history : List String)
    (text : String) :
    ResultsAgree (fun a b => admissible a allowList = admissible b allowList)
      (s₁.answer text (s₁.after m₁ history)) (s₂.answer text (s₂.after m₂ history)) := by
  refine (h history text).mono fun a b hab => ?_
  rw [admissible_eq_flatMap_essence, hab, ← admissible_eq_flatMap_essence]

/-- Alike sources that have heard the same texts, and have written them down, run in lockstep. -/
theorem Alike.lockstep_logged (h : Alike allowList s₁ m₁ s₂ m₂) (text : String) :
    Lockstep
      (fun m n => ∃ texts, m = (s₁.after m₁ texts, texts) ∧ n = (s₂.after m₂ texts, texts))
      (fun a b => Fix.admissible a allowList = Fix.admissible b allowList)
      (s₁.logged text) (s₂.logged text) := by
  rintro _ _ ⟨texts, rfl, rfl⟩
  refine ⟨h.admissible texts text, texts ++ [text], ?_, ?_⟩
  · rw [s₁.after_concat]
    rfl
  · rw [s₂.after_concat]
    rfl

/-- Alike sources hear the same texts in a run of the loop, and it has the same result. -/
theorem Alike.converge_logged (h : Alike allowList s₁ m₁ s₂ m₂) (maxPasses : ℕ)
    (initial : String) :
    ∃ result texts,
      converge s₁.logged allowList maxPasses initial (m₁, []) =
        (result, s₁.after m₁ texts, texts) ∧
      converge s₂.logged allowList maxPasses initial (m₂, []) =
        (result, s₂.after m₂ texts, texts) := by
  obtain ⟨hresult, texts, h₁, h₂⟩ :=
    lockstep_convergeFrom h.lockstep_logged maxPasses initial 0 0 ⟨[], rfl, rfl⟩
  exact ⟨_, texts, Prod.ext rfl h₁, Prod.ext hresult.eq.symm h₂⟩

end

end Fix

/-! ## Whole runs -/

variable {φ σ τ α : Type}

/-- Engines in lockstep, whose reports agree in their admissible edits, lead to runs in
lockstep. -/
theorem Pipeline.lockstep_run {R : σ → τ → Prop} {p : Pipeline} {E₁ : Engines σ} {E₂ : Engines τ}
    (hformat : ∀ options text,
      Lockstep R Eq (E₁.formatter options text) (E₂.formatter options text))
    (hreport : ∀ text, Lockstep R
      (fun a b => Fix.admissible a p.allowList = Fix.admissible b p.allowList)
      (E₁.diagnostics text) (E₂.diagnostics text))
    (source : String) : Lockstep R Eq (p.run E₁ source) (p.run E₂ source) := by
  -- Stage by stage, both runs have come to the same text.
  refine ((hformat p.format source).adapt _).bind ?_
  rintro formatted _ rfl
  refine ((Fix.lockstep_convergeFrom hreport p.maxPasses formatted 0 0).adapt _).bind ?_
  rintro fixed _ rfl
  refine ((hformat p.format fixed.text).adapt _).bind ?_
  rintro reformatted _ rfl
  exact .pure rfl

/-- A call on the first of two memories. -/
def Call.onFirst (call : Call φ α) : Call (φ × σ) α := fun m =>
  ((call m.1).1, (call m.1).2, m.2)

/-- A call on the second of two memories. -/
def Call.onSecond (call : Call σ α) : Call (φ × σ) α := fun m =>
  ((call m.2).1, m.1, (call m.2).2)

/-- Engines whose formatter and whose diagnostic source each have a memory of their own. -/
def Engines.apart (formatter : Formatter φ) (source linter : Fix.Source EngineError σ) :
    Engines (φ × σ) where
  formatter options text := (formatter options text).onFirst
  diagnostics text := Call.onSecond (source text)
  linter text := Call.onSecond (linter text)

/-- A formatter has the same memory in two runs, and the two sources have heard the same texts. -/
def SameHistory (s₁ : Fix.Source EngineError σ) (m₁ : σ) (s₂ : Fix.Source EngineError τ) (m₂ : τ) :
    φ × σ → φ × τ → Prop :=
  fun m n => ∃ f texts, m = (f, s₁.after m₁ texts) ∧ n = (f, s₂.after m₂ texts)

section

variable {s₁ : Fix.Source EngineError σ} {m₁ : σ} {s₂ : Fix.Source EngineError τ} {m₂ : τ}

/-- A call that uses only the memory that both sides share is in lockstep with itself. -/
theorem lockstep_onFirst (call : Call φ α) :
    Lockstep (SameHistory s₁ m₁ s₂ m₂) Eq (Call.onFirst call) (Call.onFirst call) := by
  rintro _ _ ⟨f, texts, rfl, rfl⟩
  exact ⟨.refl (fun _ => rfl) _, (call f).2, texts, rfl, rfl⟩

/-- Calls of sources that are alike are in lockstep, and the admissible edits of their reports
agree. -/
theorem lockstep_onSecond {allowList : List String} (h : Fix.Alike allowList s₁ m₁ s₂ m₂)
    (text : String) :
    Lockstep (SameHistory s₁ m₁ s₂ m₂ : φ × σ → φ × τ → Prop)
      (fun a b => Fix.admissible a allowList = Fix.admissible b allowList)
      (Call.onSecond (s₁ text)) (Call.onSecond (s₂ text)) := by
  rintro _ _ ⟨f, texts, rfl, rfl⟩
  refine ⟨h.admissible texts text, f, texts ++ [text], ?_, ?_⟩
  · rw [s₁.after_concat]
    rfl
  · rw [s₂.after_concat]
    rfl

end

/-- Sources that are alike are asked about the same texts and lead to the same result, in the loop
of passes and in the pipeline. -/
theorem runs_eq_of_alike :
    (∀ {ε σ τ : Type} (allowList : List String) (s₁ : Fix.Source ε σ) (m₁ : σ)
      (s₂ : Fix.Source ε τ) (m₂ : τ), Fix.Alike allowList s₁ m₁ s₂ m₂ →
      ∀ (maxPasses : ℕ) (initial : String), ∃ result texts,
        Fix.converge s₁ allowList maxPasses initial m₁ = (result, s₁.after m₁ texts) ∧
        Fix.converge s₂ allowList maxPasses initial m₂ = (result, s₂.after m₂ texts) ∧
        Fix.converge s₁.logged allowList maxPasses initial (m₁, []) =
          (result, s₁.after m₁ texts, texts) ∧
        Fix.converge s₂.logged allowList maxPasses initial (m₂, []) =
          (result, s₂.after m₂ texts, texts)) ∧
    ∀ {φ σ τ : Type} (p : Pipeline) (formatter : Formatter φ) (f : φ)
      (s₁ linter₁ : Fix.Source EngineError σ) (m₁ : σ)
      (s₂ linter₂ : Fix.Source EngineError τ) (m₂ : τ), Fix.Alike p.allowList s₁ m₁ s₂ m₂ →
      ∀ source, ∃ result f' texts,
        p.run (.apart formatter s₁ linter₁) source (f, m₁) = (result, f', s₁.after m₁ texts) ∧
        p.run (.apart formatter s₂ linter₂) source (f, m₂) = (result, f', s₂.after m₂ texts) := by
  refine ⟨?_, ?_⟩
  · intro ε σ τ allowList s₁ m₁ s₂ m₂ h maxPasses initial
    obtain ⟨result, texts, h₁, h₂⟩ := h.converge_logged maxPasses initial
    exact ⟨result, texts, Fix.converge_of_logged h₁, Fix.converge_of_logged h₂, h₁, h₂⟩
  · intro φ σ τ p formatter f s₁ linter₁ m₁ s₂ linter₂ m₂ h source
    -- The formatter is the same on both sides, and the sources keep the same history.
    have hrun : Lockstep (SameHistory s₁ m₁ s₂ m₂) Eq
        (p.run (.apart formatter s₁ linter₁) source) (p.run (.apart formatter s₂ linter₂) source) :=
      Pipeline.lockstep_run (fun options text => lockstep_onFirst (formatter options text))
        (lockstep_onSecond h) source
    obtain ⟨hresult, f', texts, h₁, h₂⟩ := hrun ⟨f, [], rfl, rfl⟩
    exact ⟨_, f', texts, Prod.ext rfl h₁, Prod.ext hresult.eq.symm h₂⟩

/-- A source that reports an unused import with its removal, and nothing on other texts. -/
def terse : Fix.Source EngineError Unit := fun text _ =>
  if text = "import os\n" then
    (.ok [{ ruleCode := some "F401", edits := [.deletion ⟨0, 0⟩ ⟨1, 0⟩] }], ())
  else (.ok [], ())

/-- A source that counts how often it is asked. It also reports a fix that overlaps the removal and
is not safe, one of a rule that is not allowed, one without a rule, and an edit that runs
backwards. -/
def verbose : Fix.Source EngineError ℕ := fun text asked =>
  if text = "import os\n" then
    (.ok [
      { ruleCode := some "F401", edits := [.deletion ⟨0, 0⟩ ⟨9, 0⟩],
        applicability := some .hazardous },
      { ruleCode := some "F401", message := "unused import",
        edits := [.deletion ⟨1, 0⟩ ⟨0, 0⟩, .deletion ⟨0, 0⟩ ⟨1, 0⟩] },
      { ruleCode := some "E731", edits := [.insertion ⟨0, 0⟩ "pass\n"] }], asked + 1)
  else (.ok [{ message := "clean", edits := [.insertion ⟨0, 0⟩ "pass\n"] }], asked + 1)

/-- Two sources that differ in findings without admissible edits are alike. -/
theorem alike_verbose_terse : Fix.Alike defaultAllowList verbose 0 terse () := by
  intro history text
  simp only [Fix.Source.answer, verbose, terse]
  split
  · exact .ok (by decide)
  · exact .ok (by decide)

/-- What `verbose` reports beside the removal has no influence. -/
theorem runs_eq_of_alike_unusedImport :
    Fix.Alike defaultAllowList verbose 0 terse () ∧
      (∃ texts, Fix.converge verbose defaultAllowList 100 "import os\n" 0 =
        (.ok ⟨"", 1, 1, .converged⟩, verbose.after 0 texts)) ∧
      ∃ result texts,
        Pipeline.run {} (.apart (fun _ text => pure text) verbose verbose) "import os\n" ((), 0) =
          (result, (), verbose.after 0 texts) ∧
        Pipeline.run {} (.apart (fun _ text => pure text) terse terse) "import os\n" ((), ()) =
          (result, (), terse.after () texts) := by
  obtain ⟨result, texts, hverbose, hterse, -⟩ := runs_eq_of_alike.1 defaultAllowList verbose 0 terse
    () alike_verbose_terse 100 "import os\n"
  have hresult : result = .ok ⟨"", 1, 1, .converged⟩ := by
    refine (congrArg Prod.fst hterse).symm.trans ?_
    cbv
  obtain ⟨result', _, texts', hrun⟩ := runs_eq_of_alike.2 {} (fun _ text => pure text) () verbose
    verbose 0 terse terse () alike_verbose_terse "import os\n"
  exact ⟨alike_verbose_terse, ⟨texts, by rw [hverbose, hresult]⟩, result', texts', hrun⟩

end Fettle
