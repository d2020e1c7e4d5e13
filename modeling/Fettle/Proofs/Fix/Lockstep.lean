import Fettle.Fix.Converge
import Fettle.Proofs.Engine.Call
import Mathlib.Data.Nat.Notation

/-!
# Runs in lockstep

Two calls run in lockstep for a relation between their memories if from related memories they come
to results that agree and to related memories again. Calls that are put together from calls in
lockstep are in lockstep, and so a relation between the memories of two sources is carried through
whole runs. A first use is that a source may write down every text that it hears (`Source.logged`)
without any effect on a run.
-/

namespace Fettle

variable {ε ε' σ τ α β γ δ : Type}

/-- Two results agree: both are the same error, or their values are related. -/
inductive ResultsAgree (A : α → β → Prop) : Except ε α → Except ε β → Prop
  /-- Both results are values. -/
  | ok {a : α} {b : β} (h : A a b) : ResultsAgree A (.ok a) (.ok b)
  /-- Both results are the same error. -/
  | error (e : ε) : ResultsAgree A (.error e) (.error e)

/-- Results that agree closely agree loosely. -/
theorem ResultsAgree.mono {A B : α → β → Prop} {x : Except ε α} {y : Except ε β}
    (h : ResultsAgree A x y) (hAB : ∀ a b, A a b → B a b) : ResultsAgree B x y := by
  cases h with
  | ok hab => exact .ok (hAB _ _ hab)
  | error e => exact .error e

/-- A result agrees with itself. -/
theorem ResultsAgree.refl {A : α → α → Prop} (hA : ∀ a, A a a) (x : Except ε α) :
    ResultsAgree A x x := by
  cases x with
  | ok a => exact .ok (hA a)
  | error e => exact .error e

/-- Results with equal values are equal. -/
theorem ResultsAgree.eq {x y : Except ε α} (h : ResultsAgree Eq x y) : x = y := by
  cases h with
  | ok hab => rw [hab]
  | error e => rfl

/-- Two calls run in lockstep: from related memories they come to results that agree and to related
memories. -/
def Lockstep (R : σ → τ → Prop) (A : α → β → Prop) (x : ExceptT ε (StateM σ) α)
    (y : ExceptT ε (StateM τ) β) : Prop :=
  ∀ ⦃m : σ⦄ ⦃n : τ⦄, R m n → ResultsAgree A (x m).1 (y n).1 ∧ R (x m).2 (y n).2

namespace Lockstep

variable {R : σ → τ → Prop} {A : α → β → Prop} {B : γ → δ → Prop}

/-- Values that are related are calls in lockstep. -/
theorem pure {a : α} {b : β} (h : A a b) :
    Lockstep R A (Pure.pure a : ExceptT ε (StateM σ) α) (Pure.pure b : ExceptT ε (StateM τ) β) :=
  fun _ _ hR => ⟨.ok h, hR⟩

/-- Calls in lockstep may be followed by calls that are in lockstep for all related values. -/
theorem bind {x : ExceptT ε (StateM σ) α} {y : ExceptT ε (StateM τ) β}
    {f : α → ExceptT ε (StateM σ) γ} {g : β → ExceptT ε (StateM τ) δ} (h : Lockstep R A x y)
    (hrest : ∀ a b, A a b → Lockstep R B (f a) (g b)) : Lockstep R B (x >>= f) (y >>= g) := by
  intro m n hR
  obtain ⟨hresult, hmemory⟩ := h hR
  cases hx : x m with | mk rx m'
  cases hy : y n with | mk ry n'
  rw [hx, hy] at hresult hmemory
  cases hresult with
  | ok hab =>
    rw [Call.bind_of_ok hx, Call.bind_of_ok hy]
    exact hrest _ _ hab hmemory
  | error e =>
    rw [Call.bind_of_error hx, Call.bind_of_error hy]
    exact ⟨.error e, hmemory⟩

/-- Calls in lockstep whose results agree closely agree loosely. -/
theorem mono {A' : α → β → Prop} {x : ExceptT ε (StateM σ) α} {y : ExceptT ε (StateM τ) β}
    (h : Lockstep R A x y) (hA : ∀ a b, A a b → A' a b) : Lockstep R A' x y := fun _ _ hR =>
  ⟨(h hR).1.mono hA, (h hR).2⟩

/-- Calls in lockstep stay so when their errors are translated. -/
theorem adapt {x : ExceptT ε (StateM σ) α} {y : ExceptT ε (StateM τ) β} (translate : ε → ε')
    (h : Lockstep R A x y) : Lockstep R A (x.adapt translate) (y.adapt translate) := by
  intro m n hR
  obtain ⟨hresult, hmemory⟩ := h hR
  refine ⟨?_, hmemory⟩
  show ResultsAgree A ((x m).1.mapError translate) ((y n).1.mapError translate)
  generalize (x m).1 = rx at hresult ⊢
  generalize (y n).1 = ry at hresult ⊢
  cases hresult with
  | ok hab => exact .ok hab
  | error e => exact .error (translate e)

end Lockstep

namespace Fix

/-- Sources in lockstep, whose answers lead to the same pass over each text, are fixed in
lockstep. -/
theorem lockstep_convergeFrom_of_runPass {R : σ → τ → Prop} {s₁ : Source ε σ} {s₂ : Source ε τ}
    {allowList : List String}
    (h : ∀ text, Lockstep R (fun a b => runPass text a allowList = runPass text b allowList)
      (s₁ text) (s₂ text)) (left : ℕ) (text : String) (passes applied : ℕ) :
    Lockstep R Eq (convergeFrom s₁ allowList left text passes applied)
      (convergeFrom s₂ allowList left text passes applied) := by
  induction left generalizing text passes applied with
  | zero => exact .pure rfl
  | succ left ih =>
    -- The answers may differ, but the pass over the text is the same.
    unfold convergeFrom
    refine (h text).bind fun a b hpass => ?_
    simp only [hpass]
    split
    · exact .pure rfl
    · exact ih ..

/-- Sources in lockstep, whose answers agree in their admissible edits, are fixed in lockstep. -/
theorem lockstep_convergeFrom {R : σ → τ → Prop} {s₁ : Source ε σ} {s₂ : Source ε τ}
    {allowList : List String}
    (h : ∀ text, Lockstep R (fun a b => admissible a allowList = admissible b allowList)
      (s₁ text) (s₂ text)) (left : ℕ) (text : String) (passes applied : ℕ) :
    Lockstep R Eq (convergeFrom s₁ allowList left text passes applied)
      (convergeFrom s₂ allowList left text passes applied) := by
  refine lockstep_convergeFrom_of_runPass (fun text => (h text).mono fun a b hab => ?_) ..
  rw [runPass, runPass, hab]

/-! ## Sources that write down what they hear -/

namespace Source

/-- What a source answers to a text. -/
def answer (source : Source ε σ) (text : String) (memory : σ) : Except ε (List Diagnostic) :=
  (source text memory).1

/-- What a source remembers once it has answered. -/
def next (source : Source ε σ) (text : String) (memory : σ) : σ := (source text memory).2

/-- The source that also writes down every text that it is asked about. -/
def logged (source : Source ε σ) : Source ε (σ × List String) := fun text m =>
  (source.answer text m.1, (source.next text m.1, m.2 ++ [text]))

/-- A source that writes down its texts answers as it does otherwise, -/
theorem logged_answer (source : Source ε σ) (text : String) (memory : σ) (heard : List String) :
    source.logged.answer text (memory, heard) = source.answer text memory :=
  rfl

/-- and its memory goes on, with the text written down. -/
theorem logged_next (source : Source ε σ) (text : String) (memory : σ) (heard : List String) :
    source.logged.next text (memory, heard) = (source.next text memory, heard ++ [text]) :=
  rfl

/-- A source answers by a function of the text, whatever it remembers. -/
def AnswersBy (source : Source ε σ) (report : String → Except ε (List Diagnostic)) : Prop :=
  ∀ text memory, source.answer text memory = report text

end Source

/-- A source runs in lockstep with itself when it writes down what it hears. -/
theorem Source.lockstep_logged (source : Source ε σ) (allowList : List String) (text : String) :
    Lockstep (fun m n => m.1 = n)
      (fun a b => admissible a allowList = admissible b allowList)
      (source.logged text) (source text) := by
  rintro m _ rfl
  exact ⟨.refl (fun report => Eq.refl (admissible report allowList)) _, rfl⟩

/-- A source that writes down what it hears leads to the same result. -/
theorem converge_of_logged {source : Source ε σ} {allowList : List String} {maxPasses : ℕ}
    {initial : String} {memory memory' : σ} {heard texts : List String}
    {result : Except ε Outcome}
    (h : converge source.logged allowList maxPasses initial (memory, heard) =
      (result, memory', texts)) :
    converge source allowList maxPasses initial memory = (result, memory') := by
  have hstart : (memory, heard).1 = memory := rfl
  obtain ⟨hresult, hmemory⟩ :=
    lockstep_convergeFrom (source.lockstep_logged allowList) maxPasses initial 0 0 hstart
  rw [converge] at h
  rw [h] at hresult hmemory
  exact Prod.ext hresult.eq.symm hmemory.symm

/-- Two sources that answer by functions of the text, and whose answers lead to the same pass over
each text, lead to the same result, whatever they remember. -/
theorem Source.AnswersBy.converge_result_eq {s₁ : Source ε σ} {s₂ : Source ε τ}
    {report₁ report₂ : String → Except ε (List Diagnostic)} (h₁ : s₁.AnswersBy report₁)
    (h₂ : s₂.AnswersBy report₂) {allowList : List String}
    (h : ∀ text, ResultsAgree (fun a b => runPass text a allowList = runPass text b allowList)
      (report₁ text) (report₂ text)) (maxPasses : ℕ) (initial : String) (m : σ) (n : τ) :
    (converge s₁ allowList maxPasses initial m).1 =
      (converge s₂ allowList maxPasses initial n).1 := by
  have hcheck : ∀ text, Lockstep (fun _ _ => True)
      (fun a b => runPass text a allowList = runPass text b allowList) (s₁ text) (s₂ text) := by
    intro text m n _
    have hagree := h text
    rw [← h₁ text m, ← h₂ text n] at hagree
    exact ⟨hagree, trivial⟩
  exact (lockstep_convergeFrom_of_runPass hcheck maxPasses initial 0 0 trivial).1.eq

end Fix

end Fettle
