import Fettle.Proofs.CommandLine.Words

/-!
# The spellings of a request

A request is spelled by every line of words that asks for what the request asks for, each thing
once, in any order (`Spells`). Taking a word changes what is asked for about its topic and nothing
else, so a spelling is read as the request that it spells; a line in which a topic comes up twice is
not accepted, nor is one that asks for JSON and for a diff (`parse_of_spells`).
-/

namespace Fettle.Settings

/-- A formatting tool is found under its name. -/
theorem FormatterKind.ofName?_name (k : FormatterKind) : ofName? k.name = some k := by
  cases k <;> rfl

end Fettle.Settings

namespace Fettle.CommandLine

open Settings (FormatterKind)

/-- A mode is found under its name. -/
theorem Mode.ofName?_name (m : Mode) : ofName? m.name = some m := by
  cases m <;> rfl

/-! ## What a request asks for -/

/-- The value that a request has for an option. -/
def Arguments.value? (a : Arguments) : Setting → Option String
  | .mode => some a.mode.name
  | .formatter => a.formatter.map FormatterKind.name
  | .config => a.config

/-- The topics about which a request asks for something that is not asked for by default. -/
def Arguments.Needs (a : Arguments) : Topic → Prop
  | .setting .mode => a.mode ≠ .shed
  | .setting s => a.value? s ≠ none
  | .flag f => f.isSet a = true
  | .path => a.path ≠ none

/-- A request that can be made: no name is empty, and not both JSON and a diff are asked for. -/
structure Arguments.Possible (a : Arguments) : Prop where
  /-- The file name is not empty. -/
  path : a.path ≠ some ""
  /-- The name of the settings file is not empty. -/
  config : a.config ≠ some ""
  /-- JSON and a diff exclude each other. -/
  exclusive : ¬ (a.json = true ∧ a.diff = true)

/-- A word asks for what a request asks for. -/
def Word.Fits (a : Arguments) : Word → Prop
  | setting s _ value => a.value? s = some value
  | flag f _ => f.isSet a = true
  | path name => a.path = some name

instance (a : Arguments) : DecidablePred (Word.Fits a)
  | .setting s _ value => inferInstanceAs (Decidable (a.value? s = some value))
  | .flag f _ => inferInstanceAs (Decidable (f.isSet a = true))
  | .path name => inferInstanceAs (Decidable (a.path = some name))

/-- A line of words that spells a request. Its words stand in any order; a file name that would be
taken for an option can only stand behind a double dash, where any file name may stand. -/
structure Spells (a : Arguments) (ws : List Word) (last : Option String) : Prop where
  /-- Each word is taken for what it is. -/
  wellWritten : ∀ w ∈ ws, w.WellWritten
  /-- Each word asks for what the request asks for. -/
  fits : ∀ w ∈ asked ws last, w.Fits a
  /-- No topic comes up twice. -/
  once : ((asked ws last).map Word.topic).Nodup
  /-- What is not asked for by default is asked for. -/
  complete : ∀ t, a.Needs t → t ∈ (asked ws last).map Word.topic

/-- A line of words that asks for too much: a topic comes up twice, as an option that is repeated,
perhaps with another value, or as a second file name, or JSON and a diff are both asked for. -/
def Overloaded (ws : List Word) (last : Option String) : Prop :=
  ¬ ((asked ws last).map Word.topic).Nodup ∨
    Topic.flag .json ∈ ws.map Word.topic ∧ Topic.flag .diff ∈ ws.map Word.topic

/-! ## Requests topic by topic -/

/-- Two requests ask for the same about a topic. -/
def Topic.Same (a b : Arguments) : Topic → Prop
  | setting .mode => a.mode = b.mode
  | setting .formatter => a.formatter = b.formatter
  | setting .config => a.config = b.config
  | flag f => f.isSet a = f.isSet b
  | path => a.path = b.path

section

variable {a b c : Arguments} {t : Topic} {w : Word}

/-- A request asks for the same as itself. -/
theorem Topic.Same.refl (a : Arguments) (t : Topic) : t.Same a a := by
  match t with
  | setting .mode | setting .formatter | setting .config | flag _ | path => exact rfl

/-- Asking for the same is transitive. -/
theorem Topic.Same.trans (hab : t.Same a b) (hbc : t.Same b c) : t.Same a c := by
  match t with
  | setting .mode | setting .formatter | setting .config | flag _ | path => exact Eq.trans hab hbc

/-- Requests that ask for the same about every topic are the same. -/
theorem Arguments.eq_of_same (h : ∀ t : Topic, t.Same a b) : a = b := by
  obtain ⟨path, mode, formatter, config, json, diff, check, verbose⟩ := a
  obtain ⟨path', mode', formatter', config', json', diff', check', verbose'⟩ := b
  rw [mk.injEq]
  exact ⟨h .path, h (.setting .mode), h (.setting .formatter), h (.setting .config),
    h (.flag .json), h (.flag .diff), h (.flag .check), h (.flag .verbose)⟩

/-- About a topic that it does not need a request asks for what is asked for by default. -/
theorem Arguments.same_default (h : ¬ a.Needs t) : t.Same {} a := by
  match t with
  | .setting .mode => exact (not_not.mp h).symm
  | .setting .formatter => exact (Option.map_eq_none_iff.mp (not_not.mp h)).symm
  | .setting .config => exact (not_not.mp h).symm
  | .flag f =>
    have hdefault : f.isSet {} = false := by cases f <;> rfl
    exact hdefault.trans (Bool.eq_false_iff.mpr h).symm
  | .path => exact (not_not.mp h).symm

/-- A word changes nothing about other topics. -/
theorem Word.same_of_set? (h : w.set? b = some c) (ht : t ≠ w.topic) : t.Same c b := by
  rcases w with ⟨_ | _ | _, form, value⟩ | ⟨_ | _ | _ | _ | _, spelling⟩ | name
  case flag.help => cases h
  case' setting.mode => obtain ⟨m, -, rfl⟩ := Option.map_eq_some_iff.mp h
  case' setting.formatter => obtain ⟨k, -, rfl⟩ := Option.map_eq_some_iff.mp h
  case' setting.config | path =>
    obtain ⟨-, h⟩ := Option.ite_none_left_eq_some.mp h
    obtain rfl := Option.some.inj h
  case' flag.json | flag.diff | flag.check | flag.verbose => obtain rfl := Option.some.inj h
  -- each word updates one field, and another topic is about another field
  all_goals
    rcases t with (_ | _ | _) | (_ | _ | _ | _ | _) | _ <;> first | rfl | exact absurd rfl ht

/-- A word that fits a request can be taken, and makes what is asked for the same about its
topic. -/
theorem Word.exists_set? (ha : a.Possible) (hw : w.Fits a) (b : Arguments) :
    ∃ c, w.set? b = some c ∧ w.topic.Same c a := by
  cases w with
  | setting s form value =>
    cases s with
    | mode =>
      obtain rfl := Option.some.inj hw
      exact ⟨{ b with mode := a.mode }, by rw [set?, Mode.ofName?_name]; rfl, rfl⟩
    | formatter =>
      obtain ⟨k, hk, rfl⟩ := Option.map_eq_some_iff.mp hw
      exact ⟨{ b with formatter := some k }, by rw [set?, FormatterKind.ofName?_name]; rfl, hk.symm⟩
    | config =>
      have hvalue : value ≠ "" := fun h => ha.config (h ▸ hw)
      exact ⟨{ b with config := some value }, if_neg hvalue, Eq.symm hw⟩
  | flag f spelling =>
    cases f with
    | json => exact ⟨{ b with json := true }, rfl, Eq.symm hw⟩
    | diff => exact ⟨{ b with diff := true }, rfl, Eq.symm hw⟩
    | check => exact ⟨{ b with check := true }, rfl, Eq.symm hw⟩
    | verbose => exact ⟨{ b with verbose := true }, rfl, Eq.symm hw⟩
    | help => cases hw
  | path name =>
    have hname : name ≠ "" := fun h => ha.path (h ▸ hw)
    exact ⟨{ b with path := some name }, if_neg hname, Eq.symm hw⟩

end

/-! ## Taking a line -/

namespace Progress

variable {a : Arguments} {p q : Progress} {w : Word} {ws : List Word} {ts : List Topic}

/-- A word that sets an option without a value leaves it set. -/
theorem isSet_of_set? {f : Flag} {b c : Arguments} (h : w.set? b = some c)
    (hf : w.topic = .flag f) : f.isSet c = true := by
  cases w with
  | setting s form value => cases hf
  | path name => cases hf
  | flag g spelling =>
    obtain rfl := Topic.flag.inj hf
    cases g with
    | help => cases h
    | json | diff | check | verbose =>
      obtain rfl := Option.some.inj h
      rfl

/-- After a word, it has been asked for something about its topic, and otherwise about what it had
been before. -/
theorem isAsked_take? (h : p.take? w = some q) (t : Topic) :
    q.isAsked t = true ↔ t = w.topic ∨ p.isAsked t = true := by
  obtain ⟨-, c, hset, rfl⟩ := take?_eq_some_iff.mp h
  cases t with
  | setting s => cases w.topic <;> simp [note, isAsked]
  | path => cases w.topic <;> simp [note, isAsked]
  | flag f =>
    have hnote : (p.note c w.topic).isAsked (.flag f) = f.isSet c := by cases w.topic <;> rfl
    rw [hnote]
    by_cases hf : Topic.flag f = w.topic
    · exact iff_of_true (isSet_of_set? hset hf.symm) (.inl hf)
    · rw [or_iff_right hf, show f.isSet c = f.isSet p.arguments from Word.same_of_set? hset hf]
      rfl

/-- What reading has come to carries a request as far as some topics: these have come up, what is
asked for about these is what the request asks for, and about others the default. -/
structure Carries (p : Progress) (a : Arguments) (ts : List Topic) : Prop where
  /-- The topics have come up. -/
  isAsked : ∀ t, p.isAsked t = true ↔ t ∈ ts
  /-- What has come up is what the request asks for. -/
  come : ∀ t ∈ ts, t.Same p.arguments a
  /-- What has not come up is left. -/
  left : ∀ t ∉ ts, t.Same p.arguments {}

/-- At the start nothing has been asked for. -/
theorem isAsked_start (t : Topic) : ({} : Progress).isAsked t = false := by
  match t with
  | .setting _ | .path => rfl
  | .flag f => cases f <;> rfl

/-- At the start no topic has come up, and everything is at its default. -/
theorem carries_start (a : Arguments) : Carries {} a [] where
  isAsked t := iff_of_false (Bool.eq_false_iff.mp (isAsked_start t)) List.not_mem_nil
  come _ h := absurd h List.not_mem_nil
  left t _ := .refl {} t

/-- A word that fits can be taken if its topic has not come up. -/
theorem Carries.exists_take? (hp : p.Carries a ts) (ha : a.Possible) (hw : w.Fits a)
    (hnew : w.topic ∉ ts) : ∃ q, p.take? w = some q ∧ q.Carries a (w.topic :: ts) := by
  obtain ⟨c, hset, hsame⟩ := Word.exists_set? ha hw p.arguments
  have hasked : p.isAsked w.topic = false :=
    Bool.eq_false_iff.mpr fun h => hnew ((hp.isAsked _).mp h)
  have htake : p.take? w = some (p.note c w.topic) := take?_eq_some_iff.mpr ⟨hasked, c, hset, rfl⟩
  have harguments : (p.note c w.topic).arguments = c := by cases w.topic <;> rfl
  refine ⟨_, htake, ⟨fun t => ?_, fun t ht => ?_, fun t ht => ?_⟩⟩
  · rw [isAsked_take? htake, hp.isAsked, List.mem_cons]
  · rw [harguments]
    by_cases htopic : t = w.topic
    · exact htopic ▸ hsame
    · have hcame : t ∈ ts := (List.mem_cons.mp ht).resolve_left htopic
      exact (Word.same_of_set? hset htopic).trans (hp.come t hcame)
  · obtain ⟨htopic, ht⟩ := not_or.mp (mt List.mem_cons.mpr ht)
    rw [harguments]
    exact (Word.same_of_set? hset htopic).trans (hp.left t ht)

/-- Words that fit can be taken one after the other, in any order, if each is about something
else. -/
theorem Carries.exists_foldlM (hp : p.Carries a ts) (ha : a.Possible) (hws : ∀ w ∈ ws, w.Fits a)
    (honce : (ws.map Word.topic).Nodup) (hnew : ∀ t ∈ ws.map Word.topic, t ∉ ts) :
    ∃ q, ws.foldlM take? p = some q ∧ q.Carries a ((ws.map Word.topic).reverse ++ ts) := by
  induction ws generalizing p ts with
  | nil => exact ⟨p, rfl, hp⟩
  | cons w ws ih =>
    obtain ⟨hw, hws⟩ := List.forall_mem_cons.mp hws
    obtain ⟨hfirst, honce⟩ := List.nodup_cons.mp honce
    obtain ⟨hwnew, hnew⟩ := List.forall_mem_cons.mp hnew
    obtain ⟨p', htake, hp'⟩ := hp.exists_take? ha hw hwnew
    -- the topic of the first word joins those that have come up
    obtain ⟨q, hq, hcarries⟩ := ih hp' hws honce fun t ht hts =>
      (List.mem_cons.mp hts).elim (fun h => hfirst (h ▸ ht)) (hnew t ht)
    refine ⟨q, by rw [List.foldlM_cons, htake]; exact hq, ?_⟩
    rwa [List.map_cons, List.reverse_cons, List.append_assoc]

/-- What has come up in a line was new when it came, and nothing else comes up. -/
theorem isAsked_foldlM (h : ws.foldlM take? p = some q) :
    (ws.map Word.topic).Nodup ∧ (∀ t ∈ ws.map Word.topic, p.isAsked t = false) ∧
      ∀ t, q.isAsked t = true ↔ t ∈ ws.map Word.topic ∨ p.isAsked t = true := by
  induction ws generalizing p with
  | nil =>
    obtain rfl := Option.some.inj h
    exact ⟨List.nodup_nil, fun _ ht => absurd ht List.not_mem_nil,
      fun t => (or_iff_right List.not_mem_nil).symm⟩
  | cons w ws ih =>
    rw [List.foldlM_cons] at h
    obtain ⟨p', htake, hrun⟩ := Option.bind_eq_some_iff.mp h
    obtain ⟨honce, hnew, hasked⟩ := ih hrun
    have hstep := isAsked_take? htake
    -- the first topic has come up when the other words are taken, so it is not among theirs
    refine ⟨List.nodup_cons.mpr ⟨fun hw => ?_, honce⟩,
      List.forall_mem_cons.mpr ⟨?_, fun t ht => ?_⟩, fun t => ?_⟩
    · exact Bool.eq_false_iff.mp (hnew _ hw) ((hstep _).mpr (.inl rfl))
    · exact (take?_eq_some_iff.mp htake).1
    · exact Bool.eq_false_iff.mpr fun hp =>
        Bool.eq_false_iff.mp (hnew t ht) ((hstep t).mpr (.inr hp))
    · rw [hasked, hstep, List.map_cons, List.mem_cons, or_assoc]
      exact or_left_comm

end Progress

/-! ## Spellings are read as what they spell -/

variable {a : Arguments} {ws : List Word} {last : Option String}

/-- A spelling of a request that can be made is read as the request. -/
theorem parse_written_of_spells (ha : a.Possible) (h : Spells a ws last) :
    parse (written ws last) = .ok a := by
  obtain ⟨q, hrun, hq⟩ := (Progress.carries_start a).exists_foldlM ha h.fits h.once
    fun _ _ => List.not_mem_nil
  -- what the line does not come to is what the request leaves at its default
  have hall (t : Topic) : t.Same q.arguments a := by
    by_cases ht : t ∈ (asked ws last).map Word.topic
    · exact hq.come t (by simpa using ht)
    · exact (hq.left t (by simpa using ht)).trans (Arguments.same_default (mt (h.complete t) ht))
  rw [parse_written_eq_ok_iff h.wellWritten, hrun]
  exact ⟨congrArg some (Arguments.eq_of_same hall), ha.exclusive⟩

/-- A line that is accepted does not ask for too much. -/
theorem not_overloaded_of_parse_eq_ok (hws : ∀ w ∈ ws, w.WellWritten)
    (h : parse (written ws last) = .ok a) : ¬ Overloaded ws last := by
  obtain ⟨htaken, hexclusive⟩ := (parse_written_eq_ok_iff hws).mp h
  obtain ⟨q, hrun, rfl⟩ := Option.map_eq_some_iff.mp htaken
  obtain ⟨honce, -, hasked⟩ := Progress.isAsked_foldlM hrun
  have hcame {t : Topic} (ht : t ∈ ws.map Word.topic) : q.isAsked t = true := by
    refine (hasked t).mpr (.inl ?_)
    rw [asked, List.map_append]
    exact List.mem_append_left _ ht
  rintro (htwice | ⟨hjson, hdiff⟩)
  -- the words of an accepted line have all been taken, each for a topic that was new
  · exact htwice honce
  · exact hexclusive ⟨hcame hjson, hcame hdiff⟩

/-- A spelling of a request that can be made is read as the request, in which an input file is
missing exactly if no file name or a single dash is given; a line that asks for too much is not
accepted. -/
theorem parse_of_spells (ha : a.Possible) (h : Spells a ws last) :
    parse (written ws last) = .ok a ∧
      (a.inputPath = none ↔ a.path = none ∨ a.path = some "-") ∧
      ∀ (ws' : List Word) (last' : Option String), (∀ w ∈ ws', w.WellWritten) →
        Overloaded ws' last' → ∃ r, parse (written ws' last') = .error r := by
  refine ⟨parse_written_of_spells ha h, ?_, fun ws' last' hws' hover => ?_⟩
  · rw [Arguments.inputPath, Option.filter_eq_none_iff]
    cases a.path with
    | none => simp
    | some name => simp
  · cases hparse : parse (written ws' last') with
    | error r => exact ⟨r, rfl⟩
    | ok b => exact absurd hover (not_overloaded_of_parse_eq_ok hws' hparse)

/-- A request whose values look like options, and a spelling of it. -/
theorem parse_of_spells_like_options :
    let a : Arguments := { path := some "--diff", mode := .lint, formatter := some .ruff,
                           config := some "-c=d", json := true, verbose := true }
    let ws : List Word := [.flag .verbose "-v", .setting .config .attached "-c=d",
      .setting .mode .separate "lint", .flag .json "--json", .setting .formatter .attached "ruff"]
    a.Possible ∧ Spells a ws (some "--diff") ∧
      parse ["-v", "--config=-c=d", "--mode", "lint", "--json", "--formatter=ruff", "--",
        "--diff"] = .ok a ∧
      a.inputPath ≠ none ∧
      ∃ r, parse ["--diff", "--json", "--", "--diff"] = .error r := by
  intro a ws
  have ha : a.Possible := ⟨by decide, by decide, by decide⟩
  have h : Spells a ws (some "--diff") := by
    refine ⟨by decide, by decide, by decide, fun t ht => ?_⟩
    rcases t with (_ | _ | _) | (_ | _ | _ | _ | _) | _ <;> first | decide | cases ht
  obtain ⟨hparse, hinput, hreject⟩ := parse_of_spells ha h
  refine ⟨ha, h, hparse, fun hnone => ?_, ?_⟩
  · exact (hinput.mp hnone).elim (by decide) (by decide)
  · exact hreject [.flag .diff "--diff", .flag .json "--json"] (some "--diff") (by decide)
      (.inr ⟨by decide, by decide⟩)

end Fettle.CommandLine
