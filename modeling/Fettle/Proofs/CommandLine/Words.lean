import Fettle.CommandLine.Arguments
import Mathlib.Data.List.Nodup

/-!
# The words of a command line

A command line is made of words: an option with its value, which take one or two arguments, an
option without value, or a file name. Reading puts a value aside and looks at it when the next word
comes, or at the end. What a word does when its turn comes is `Word.take`; a line of words is read
as its words are taken one after the other, the file name behind a double dash last
(`parse_written_eq_ok_iff`).
-/

namespace Fettle.CommandLine

open Settings (FormatterKind)

/-! ## Words and how they are written -/

/-- An argument that is not taken for an option: a single dash, or one that begins otherwise. -/
def Plain (s : String) : Prop := s = "-" ∨ s.toList.head? ≠ some '-'

instance : DecidablePred Plain := fun s =>
  inferInstanceAs (Decidable (s = "-" ∨ s.toList.head? ≠ some '-'))

/-- The name of an option with a value. -/
def Setting.name : Setting → String
  | mode => "mode"
  | formatter => "formatter"
  | config => "config"

/-- The ways to write an option without a value. -/
def Flag.spellings : Flag → List String
  | json => ["--json"]
  | diff => ["--diff"]
  | check => ["--check"]
  | verbose => ["-v", "--verbose"]
  | help => []

/-- How an option is written with its value. -/
inductive Form where
  /-- The value is the next argument. -/
  | separate
  /-- The value stands behind an equals sign. -/
  | attached

/-- What is asked for at once. -/
inductive Word where
  /-- An option with a value. -/
  | setting (s : Setting) (form : Form) (value : String)
  /-- An option without a value, as it is written. -/
  | flag (f : Flag) (spelling : String)
  /-- A file name. -/
  | path (name : String)

/-- What a word is about. -/
inductive Topic where
  /-- An option with a value. -/
  | setting (s : Setting)
  /-- An option without a value. -/
  | flag (f : Flag)
  /-- The file name. -/
  | path
deriving DecidableEq

namespace Word

/-- What a word is about. -/
def topic : Word → Topic
  | setting s _ _ => .setting s
  | flag f _ => .flag f
  | path _ => .path

/-- The arguments that a word is written in. -/
def arguments : Word → List String
  | setting s .separate value => ["--" ++ s.name, value]
  | setting s .attached value => ["--" ++ s.name ++ "=" ++ value]
  | flag _ spelling => [spelling]
  | path name => [name]

/-- A word whose arguments are taken for it: a value that is written separately, and a file name,
are not taken for options, and an option without a value is spelled as such. -/
def WellWritten : Word → Prop
  | setting _ .separate value => Plain value
  | setting _ .attached _ => True
  | flag f spelling => spelling ∈ f.spellings
  | path name => Plain name

instance : DecidablePred WellWritten
  | setting _ .separate value => inferInstanceAs (Decidable (Plain value))
  | setting _ .attached _ => inferInstanceAs (Decidable True)
  | flag f spelling => inferInstanceAs (Decidable (spelling ∈ f.spellings))
  | path name => inferInstanceAs (Decidable (Plain name))

end Word

/-- The arguments of a line of words, with a file name behind a double dash or without. -/
def written (ws : List Word) (last : Option String) : List String :=
  ws.flatMap Word.arguments ++ match last with
    | none => []
    | some name => ["--", name]

/-- What a line of words asks for, in order. -/
def asked (ws : List Word) (last : Option String) : List Word := ws ++ last.toList.map .path

/-! ## Taking words -/

/-- Whether an option without a value is set. -/
def Flag.isSet (a : Arguments) : Flag → Bool
  | json => a.json
  | diff => a.diff
  | check => a.check
  | verbose => a.verbose
  | help => false

/-- What is asked for after a word, unless its value cannot be used. -/
def Word.set? (a : Arguments) : Word → Option Arguments
  | setting .mode _ value => (Mode.ofName? value).map fun mode => { a with mode }
  | setting .formatter _ value =>
    (FormatterKind.ofName? value).map fun kind => { a with formatter := some kind }
  | setting .config _ value => if value = "" then none else some { a with config := some value }
  | flag .json _ => some { a with json := true }
  | flag .diff _ => some { a with diff := true }
  | flag .check _ => some { a with check := true }
  | flag .verbose _ => some { a with verbose := true }
  | flag .help _ => none
  | path name => if name = "" then none else some { a with path := some name }

namespace Progress

/-- Whether something has been asked for about a topic. -/
def isAsked (p : Progress) : Topic → Bool
  | .setting s => p.given.contains s
  | .flag f => f.isSet p.arguments
  | .path => p.hasPath

/-- The state after something is asked for about a topic. -/
def note (p : Progress) (arguments : Arguments) : Topic → Progress
  | .setting s => { p with arguments, given := s :: p.given }
  | .flag _ => { p with arguments }
  | .path => { p with arguments, hasPath := true }

/-- Take a word when its turn comes: each topic comes up once, and values are usable. -/
def take? (p : Progress) (w : Word) : Option Progress :=
  if p.isAsked w.topic then none else (w.set? p.arguments).map (p.note · w.topic)

/-- A word is taken if its topic has not come up and its value can be used. -/
theorem take?_eq_some_iff {p q : Progress} {w : Word} :
    p.take? w = some q ↔
      p.isAsked w.topic = false ∧ ∃ a, w.set? p.arguments = some a ∧ p.note a w.topic = q := by
  unfold take?
  split_ifs with h
  · exact iff_of_false nofun fun hw => Bool.eq_false_iff.mp hw.1 h
  · rw [Option.map_eq_some_iff]
    exact (and_iff_right (Bool.eq_false_iff.mpr h)).symm

end Progress

/-! ## Reading one argument -/

namespace Progress

variable {p : Progress} {s : String}

/-- An argument that is not taken for an option is a value or a file name. -/
theorem read_of_plain (hp : p.namesOnly = false) (h : Plain s) : p.read s = p.readPlain s := by
  unfold read
  simp only [hp, Bool.false_eq_true, if_false]
  rcases h with rfl | h
  · rfl
  · split
    · next hs => simp [hs] at h
    · next hs => simp [hs] at h
    · next hs => simp [hs] at h
    · rfl

/-- Behind a double dash every argument is a file name. -/
theorem read_of_namesOnly (hp : p.namesOnly = true) (s : String) : p.read s = p.readPlain s :=
  if_pos hp

/-- A double dash makes file names of the arguments behind it. -/
theorem read_dashes (hp : p.namesOnly = false) :
    p.read "--" = .ok { p with namesOnly := true } := by
  unfold read
  simp only [hp, Bool.false_eq_true, if_false]
  rfl

/-- What follows two dashes is the name of an option. -/
theorem read_long (hp : p.namesOnly = false) (body : List Char) (hbody : body ≠ [])
    (h : s.toList = '-' :: '-' :: body) : p.read s = p.readLong body := by
  unfold read
  simp only [hp, Bool.false_eq_true, if_false, h]

/-- An option without a value is raised, however it is spelled. -/
theorem read_flag (hp : p.namesOnly = false) {f : Flag} (h : s ∈ f.spellings) :
    p.read s = p.raise f := by
  cases f with
  | json =>
    obtain rfl := List.mem_singleton.mp h
    exact read_long hp "json".toList (by decide) rfl
  | diff =>
    obtain rfl := List.mem_singleton.mp h
    exact read_long hp "diff".toList (by decide) rfl
  | check =>
    obtain rfl := List.mem_singleton.mp h
    exact read_long hp "check".toList (by decide) rfl
  | verbose =>
    rcases List.mem_cons.mp h with rfl | h
    · -- the letters after a single dash are raised one by one
      have hshort : p.read "-v" = p.readShort ['v'] := by
        unfold read
        simp only [hp, Bool.false_eq_true, if_false]
        rfl
      have hraise : p.readShort ['v'] = (p.raise .verbose).bind .ok := by
        rw [readShort]
        rfl
      rw [hshort, hraise]
      cases p.raise .verbose <;> rfl
    · obtain rfl := List.mem_singleton.mp h
      exact read_long hp "verbose".toList (by decide) rfl
  | help => cases h

/-- An option that stands alone settles what was put aside, and waits for its value. -/
theorem read_separate (hp : p.namesOnly = false) (o : Setting) :
    p.read ("--" ++ o.name) = p.settle >>= fun q => .ok { q with pending := .setting o none } := by
  have hlong : p.read ("--" ++ o.name) = p.readLong o.name.toList := by
    refine read_long hp _ ?_ ?_
    · cases o <;> decide
    · rw [String.toList_append]
      rfl
  rw [hlong]
  cases o <;> rfl

/-- An option with its value behind an equals sign settles what was put aside, and is given the
value. -/
theorem read_attached (hp : p.namesOnly = false) (o : Setting) (value : String) :
    p.read ("--" ++ o.name ++ "=" ++ value) = p.settle >>= (·.assign o value) := by
  have hlong : p.read ("--" ++ o.name ++ "=" ++ value) =
      p.readLong (o.name.toList ++ '=' :: value.toList) := by
    refine read_long hp _ (List.append_ne_nil_of_right_ne_nil _ (List.cons_ne_nil _ _)) ?_
    simp only [String.toList_append, List.append_assoc]
    rfl
  have hread : p.readLong (o.name.toList ++ '=' :: value.toList) =
      (do (← p.settle).assign o (String.ofList value.toList)) := by
    cases o <;> rfl
  rw [hlong, hread, String.ofList_toList]

/-! ## Reading one word -/

/-- Without its rejection, a reading comes to a state exactly if it has come to it. -/
theorem toOption_eq_some_iff {x : Except Rejection Progress} {q : Progress} :
    x.toOption = some q ↔ x = .ok q := by
  cases x with
  | error r => exact iff_of_false nofun nofun
  | ok p =>
    rw [Except.ok.injEq]
    exact Option.some_inj

/-- To give a value to an option is to take a word. -/
theorem toOption_assign (p : Progress) (o : Setting) (form : Form) (value : String) :
    (p.assign o value).toOption = p.take? (.setting o form value) := by
  unfold assign take? isAsked
  by_cases h : p.given.contains o = true
  · simp only [Word.topic, h, if_true]
    rfl
  · simp only [Word.topic, h, Bool.false_eq_true, if_false]
    cases o with
    | mode =>
      simp only [Word.set?]
      cases Mode.ofName? value <;> rfl
    | formatter =>
      simp only [Word.set?]
      cases FormatterKind.ofName? value <;> rfl
    | config =>
      simp only [Word.set?]
      split_ifs <;> rfl

/-- To set an option without a value is to take a word, after what was put aside. -/
theorem toOption_raise (p : Progress) (f : Flag) (spelling : String) :
    (p.raise f).toOption = p.settle.toOption.bind (·.take? (.flag f spelling)) := by
  unfold raise
  cases p.settle with
  | error r => rfl
  | ok q =>
    simp only [Except.toOption, Option.bind_some, take?, isAsked, Word.topic, bind, Except.bind]
    cases f with
    | help => rfl
    | json => cases h : q.arguments.json <;> simp [Flag.isSet, h, Word.set?, note]
    | diff => cases h : q.arguments.diff <;> simp [Flag.isSet, h, Word.set?, note]
    | check => cases h : q.arguments.check <;> simp [Flag.isSet, h, Word.set?, note]
    | verbose => cases h : q.arguments.verbose <;> simp [Flag.isSet, h, Word.set?, note]

/-- Giving a value to an option changes nothing about names, and puts nothing aside. -/
theorem assign_frame {q : Progress} {o : Setting} {value : String}
    (h : p.assign o value = .ok q) :
    q.pending = p.pending ∧ q.namesOnly = p.namesOnly ∧ q.hasPath = p.hasPath := by
  rw [← toOption_eq_some_iff, toOption_assign p o .attached, take?_eq_some_iff] at h
  obtain ⟨-, a, -, rfl⟩ := h
  exact ⟨rfl, rfl, rfl⟩

/-- Looking at what is put aside changes nothing about names. -/
theorem settle_frame {q : Progress} (h : p.settle = .ok q) :
    q.pending = .none ∧ q.namesOnly = p.namesOnly ∧ q.hasPath = p.hasPath := by
  unfold settle at h
  cases hpending : p.pending with
  | none =>
    rw [hpending] at h
    obtain rfl := Except.ok.inj h
    exact ⟨rfl, rfl, rfl⟩
  | setting o value =>
    rw [hpending] at h
    cases value with
    | none => cases h
    | some value => exact assign_frame h
  | path name =>
    rw [hpending] at h
    dsimp only at h
    split_ifs at h
    obtain rfl := Except.ok.inj h
    exact ⟨rfl, rfl, rfl⟩

/-- If nothing is put aside, settling changes nothing. -/
theorem settle_of_none (h : p.pending = .none) : p.settle = .ok p := by
  unfold settle
  simp only [h]
  exact congrArg Except.ok (by rw [← h])

/-- A state in which the next argument begins a word. -/
structure Complete (p : Progress) : Prop where
  /-- No double dash has come. -/
  namesOnly : p.namesOnly = false
  /-- No option waits for its value. -/
  pending : ∀ o, p.pending ≠ .setting o none

/-- What reading leads to: a state in which the next argument begins a word, and which becomes `y`
when what is put aside is looked at. -/
structure Leads (x : Except Rejection Progress) (y : Option Progress) : Prop where
  /-- The state it comes to is complete. -/
  complete : ∀ p, x = .ok p → p.Complete
  /-- Settled, it is what is led to. -/
  settles : x.toOption.bind (·.settle.toOption) = y

/-- A rejection leads to nothing. -/
theorem Leads.of_error (r : Rejection) : Leads (.error r) none where
  complete _ h := by cases h
  settles := rfl

/-- A state in which the next argument begins a word leads to what it is settled as. -/
theorem Leads.pure (h : p.Complete) : Leads (.ok p) p.settle.toOption where
  complete _ hp := Except.ok.inj hp ▸ h
  settles := rfl

/-- What is read first is settled before what is read then. -/
theorem Leads.bind {x : Except Rejection Progress} {y : Option Progress}
    {f : Progress → Except Rejection Progress} {g : Progress → Option Progress} (hx : Leads x y)
    (hf : ∀ p, p.Complete → Leads (f p) (p.settle.toOption.bind g)) :
    Leads (x >>= f) (y.bind g) := by
  obtain ⟨hcomplete, rfl⟩ := hx
  cases x with
  | error r => exact .of_error r
  | ok p => exact hf p (hcomplete p rfl)

/-- What was put aside is settled before anything else, which leaves nothing put aside. -/
theorem Leads.after_settle (hp : p.Complete) {f : Progress → Except Rejection Progress}
    {g : Progress → Option Progress}
    (h : ∀ q, q.pending = .none → q.namesOnly = false → q.hasPath = p.hasPath →
      Leads (f q) (g q)) :
    Leads (p.settle >>= f) (p.settle.toOption.bind g) := by
  cases hsettle : p.settle with
  | error r => exact .of_error r
  | ok q =>
    obtain ⟨hpending, hnames, hpath⟩ := settle_frame hsettle
    exact h q hpending (hnames.trans hp.namesOnly) hpath

/-- Where nothing is put aside, there is nothing to settle. -/
theorem Leads.of_settled {x : Except Rejection Progress}
    (h : ∀ p, x = .ok p → p.pending = .none ∧ p.namesOnly = false) : Leads x x.toOption := by
  cases x with
  | error r => exact .of_error r
  | ok p =>
    obtain ⟨hpending, hnames⟩ := h p rfl
    have hleads := Leads.pure ⟨hnames, fun o ho => nomatch hpending.symm.trans ho⟩
    rwa [settle_of_none hpending] at hleads

/-- Where no value is waited for, a file name is put aside unless there is one. -/
theorem readPlain_path (h : p.namesOnly = true ∨ ∀ o, p.pending ≠ .setting o none)
    (name : String) :
    p.readPlain name = if p.hasPath then .error .unknownArgument
      else p.settle >>= fun q => .ok { q with pending := .path name, hasPath := true } := by
  unfold readPlain
  split
  · next o hpending hnames =>
    rcases h with h | h
    · rw [hnames] at h
      cases h
    · exact absurd hpending (h o)
  · rfl

/-- A value is put aside for the option that waits for it. -/
theorem readPlain_value (hp : p.namesOnly = false) {o : Setting}
    (hpending : p.pending = .setting o none) (value : String) :
    p.readPlain value = .ok { p with pending := .setting o (some value) } := by
  unfold readPlain
  simp only [hpending, hp]

/-- To settle a file name that is put aside is to take a word. -/
theorem toOption_settle_path {q : Progress} (hpending : q.pending = .none)
    (hpath : q.hasPath = false) (name : String) :
    ({ q with pending := .path name, hasPath := true } : Progress).settle.toOption =
      q.take? (.path name) := by
  have hasked : ¬ q.isAsked (Word.path name).topic = true := Bool.eq_false_iff.mp hpath
  rw [take?, if_neg hasked, Word.set?]
  unfold settle
  dsimp only
  split_ifs with hname
  · rfl
  · rw [← hpending]
    rfl

/-- To settle a value that is put aside for an option is to take a word. -/
theorem toOption_settle_setting {q : Progress} (hpending : q.pending = .none) (o : Setting)
    (form : Form) (value : String) :
    ({ q with pending := .setting o (some value) } : Progress).settle.toOption =
      q.take? (.setting o form value) := by
  rw [← toOption_assign]
  -- the value is taken out before it is looked at, which gives back the state before it came
  have hrest : { q with pending := .none } = q := by rw [← hpending]
  exact congrArg (fun q : Progress => (q.assign o value).toOption) hrest

/-- There is no place for a second file name. -/
theorem take?_path_of_hasPath {q : Progress} (h : q.hasPath = true) (name : String) :
    q.take? (.path name) = none := if_pos h

/-- A word that is read is taken after what was put aside. -/
theorem leads_read_word {w : Word} (hw : w.WellWritten) (hp : p.Complete) :
    Leads (w.arguments.foldlM read p) (p.settle.toOption.bind (·.take? w)) := by
  cases w with
  | setting o form value =>
    cases form with
    | separate =>
      -- the option settles what was put aside, and the value is put aside for it
      simp only [Word.arguments, List.foldlM_cons, List.foldlM_nil, bind_pure,
        read_separate hp.namesOnly, bind_assoc]
      refine .after_settle hp fun q hpending hnames _ => ?_
      have hwaits : ({ q with pending := .setting o none } : Progress).namesOnly = false := hnames
      have hread : read { q with pending := .setting o none } value =
          .ok { q with pending := .setting o (some value) } :=
        (read_of_plain hwaits hw).trans (readPlain_value hwaits rfl value)
      have hleads : Leads (.ok { q with pending := .setting o (some value) }) _ :=
        .pure ⟨hnames, nofun⟩
      rw [toOption_settle_setting hpending o .separate, ← hread] at hleads
      exact hleads
    | attached =>
      simp only [Word.arguments, List.foldlM_cons, List.foldlM_nil, bind_pure,
        read_attached hp.namesOnly]
      refine .after_settle hp fun q hpending hnames _ => ?_
      have hleads : Leads (q.assign o value) (q.assign o value).toOption := by
        refine .of_settled fun q' hq' => ?_
        obtain ⟨hpending', hnames', -⟩ := assign_frame hq'
        exact ⟨hpending'.trans hpending, hnames'.trans hnames⟩
      rwa [toOption_assign q o .attached] at hleads
  | flag f spelling =>
    simp only [Word.arguments, List.foldlM_cons, List.foldlM_nil, bind_pure,
      read_flag hp.namesOnly hw]
    rw [← toOption_raise]
    refine .of_settled fun q' hq' => ?_
    rw [← toOption_eq_some_iff, toOption_raise p f spelling, Option.bind_eq_some_iff] at hq'
    obtain ⟨q, hq, htake⟩ := hq'
    obtain ⟨hpending, hnames, -⟩ := settle_frame (toOption_eq_some_iff.mp hq)
    obtain ⟨-, a, -, rfl⟩ := take?_eq_some_iff.mp htake
    exact ⟨hpending, hnames.trans hp.namesOnly⟩
  | path name =>
    simp only [Word.arguments, List.foldlM_cons, List.foldlM_nil, bind_pure,
      read_of_plain hp.namesOnly hw, readPlain_path (.inr hp.pending)]
    split_ifs with h
    · -- a second name is refused at once; to settle first would not make a place for it
      have hnone : p.settle.toOption.bind (·.take? (.path name)) = none := by
        refine Option.bind_eq_none_iff.mpr fun q hq => take?_path_of_hasPath ?_ name
        exact (settle_frame (toOption_eq_some_iff.mp hq)).2.2.trans h
      exact hnone ▸ .of_error .unknownArgument
    · refine .after_settle hp fun q hpending hnames hpath => ?_
      have hleads : Leads (.ok { q with pending := .path name, hasPath := true }) _ :=
        .pure ⟨hnames, nofun⟩
      rwa [toOption_settle_path hpending (hpath.trans (Bool.eq_false_iff.mpr h))] at hleads

/-- The words of a line are taken one after the other. -/
theorem leads_read_words {ws : List Word} (hws : ∀ w ∈ ws, w.WellWritten) (hp : p.Complete) :
    Leads ((ws.flatMap Word.arguments).foldlM read p)
      (p.settle.toOption.bind (ws.foldlM take?)) := by
  induction ws generalizing p with
  | nil =>
    have hsome : p.settle.toOption.bind ([].foldlM take?) = p.settle.toOption :=
      Option.bind_fun_some _
    rw [List.flatMap_nil, List.foldlM_nil, hsome]
    exact .pure hp
  | cons w ws ih =>
    obtain ⟨hw, hws⟩ := List.forall_mem_cons.mp hws
    rw [List.flatMap_cons, List.foldlM_append]
    -- what the first word leaves aside is settled by the word that follows, or at the end
    have hleads := (leads_read_word hw hp).bind fun p' hp' => ih hws hp'
    rwa [Option.bind_assoc] at hleads

/-! ## Reading a line -/

/-- What is asked for after reading, if what is put aside can be settled. -/
def final (x : Except Rejection Progress) : Option Arguments :=
  (x.toOption.bind (·.settle.toOption)).map (·.arguments)

/-- A double dash that has come makes no difference to a word that is taken, -/
theorem take?_dashed (p : Progress) (w : Word) :
    ({ p with namesOnly := true } : Progress).take? w =
      (p.take? w).map fun q => { q with namesOnly := true } := by
  have hasked : ({ p with namesOnly := true } : Progress).isAsked w.topic = p.isAsked w.topic := by
    cases w.topic <;> rfl
  unfold take?
  rw [hasked]
  split_ifs
  · rfl
  · rw [Option.map_map]
    cases w.topic <;> rfl

/-- nor to what is put aside. -/
theorem settle_dashed (p : Progress) :
    ({ p with namesOnly := true } : Progress).settle.toOption =
      p.settle.toOption.map fun q => { q with namesOnly := true } := by
  unfold settle
  cases hpending : p.pending with
  | none => rfl
  | setting o value =>
    cases value with
    | none => rfl
    | some value =>
      dsimp only
      rw [toOption_assign _ o .attached, toOption_assign _ o .attached]
      exact take?_dashed { p with pending := .none } _
  | path name =>
    dsimp only
    split_ifs <;> rfl

/-- Behind a double dash a file name is taken like any other. -/
theorem final_dashes (hp : p.Complete) (name : String) :
    final (["--", name].foldlM read p) =
      (p.settle.toOption.bind (·.take? (.path name))).map (·.arguments) := by
  have hdashes :
      ["--", name].foldlM read p = ({ p with namesOnly := true } : Progress).read name := by
    simp only [List.foldlM_cons, List.foldlM_nil, bind_pure, read_dashes hp.namesOnly]
    rfl
  rw [hdashes, read_of_namesOnly rfl, readPlain_path (.inl rfl)]
  -- the double dash itself settles nothing, so that the name settles what stands before the dash
  have hsettle := settle_dashed p
  cases hp' : p.settle with
  | error r =>
    rw [hp'] at hsettle
    cases hd : ({ p with namesOnly := true } : Progress).settle with
    | error r => split_ifs <;> rfl
    | ok q => rw [hd] at hsettle; cases hsettle
  | ok q =>
    rw [hp'] at hsettle
    obtain ⟨hpending, -, hpath⟩ := settle_frame hp'
    rw [toOption_eq_some_iff.mp hsettle]
    split_ifs with h
    · have hnone : q.take? (.path name) = none := take?_path_of_hasPath (hpath.trans h) name
      exact (congrArg (Option.map (·.arguments)) hnone).symm
    · have hq : ({ q with namesOnly := true } : Progress).hasPath = false :=
        hpath.trans (Bool.eq_false_iff.mpr h)
      have hput := toOption_settle_path (q := { q with namesOnly := true }) hpending hq name
      have htake := hput.trans (take?_dashed q _)
      exact (congrArg (Option.map (·.arguments)) htake).trans (Option.map_map ..)

/-- The words of a line are taken one after the other, with the file name behind a double dash
last. -/
theorem final_written {ws : List Word} (hws : ∀ w ∈ ws, w.WellWritten) (last : Option String) :
    final ((written ws last).foldlM read {}) =
      ((asked ws last).foldlM take? {}).map (·.arguments) := by
  have hleads := leads_read_words (p := {}) hws ⟨rfl, nofun⟩
  have hstart : ({} : Progress).settle.toOption = some {} := rfl
  rw [hstart, Option.bind_some] at hleads
  cases last with
  | none =>
    simp only [written, asked, List.append_nil, Option.toList_none, List.map_nil]
    exact congrArg (Option.map (·.arguments)) hleads.settles
  | some name =>
    simp only [written, asked, Option.toList_some, List.map_cons, List.map_nil,
      List.foldlM_append]
    have hone (q : Progress) : [Word.path name].foldlM take? q = q.take? (.path name) := by
      simp only [List.foldlM_cons, List.foldlM_nil, bind_pure]
    simp only [hone]
    cases hread : (ws.flatMap Word.arguments).foldlM read {} with
    | error r =>
      rw [← hleads.settles, hread]
      rfl
    | ok p =>
      rw [← hleads.settles, hread]
      exact final_dashes (hleads.complete p hread) name

end Progress

/-- A command line is accepted if what it asks for can be settled, and is not JSON together with a
diff. -/
theorem parse_eq_ok_iff {args : List String} {a : Arguments} :
    parse args = .ok a ↔
      Progress.final (args.foldlM Progress.read {}) = some a ∧
        ¬ (a.json = true ∧ a.diff = true) := by
  have hparse : parse args = (args.foldlM Progress.read {}).bind fun p => p.settle.bind fun q =>
      if q.arguments.json && q.arguments.diff then .error .conflict else .ok q.arguments := rfl
  rw [hparse]
  unfold Progress.final
  cases args.foldlM Progress.read {} with
  | error r => exact iff_of_false nofun fun h => nomatch h.1
  | ok p =>
    simp only [Except.bind, Except.toOption, Option.bind_some]
    cases p.settle with
    | error r => exact iff_of_false nofun fun h => nomatch h.1
    | ok q =>
      simp only [Option.map_some, Option.some.injEq]
      split_ifs with hboth
      · refine iff_of_false nofun fun ⟨ha, hnot⟩ => hnot ?_
        exact ha ▸ Bool.and_eq_true_iff.mp hboth
      · rw [Except.ok.injEq]
        refine (and_iff_left_of_imp fun ha hjson => hboth ?_).symm
        exact ha ▸ Bool.and_eq_true_iff.mpr hjson

/-- A line of words is accepted if its words can be taken one after the other, and do not ask for
JSON and a diff. -/
theorem parse_written_eq_ok_iff {ws : List Word} (hws : ∀ w ∈ ws, w.WellWritten)
    {last : Option String} {a : Arguments} :
    parse (written ws last) = .ok a ↔
      ((asked ws last).foldlM Progress.take? {}).map (·.arguments) = some a ∧
        ¬ (a.json = true ∧ a.diff = true) := by
  rw [parse_eq_ok_iff, Progress.final_written hws]

end Fettle.CommandLine
