import Fettle.Proofs.Json.Records
import Fettle.Proofs.Json.Writing

/-!
# Reading records from what is written

A value is written on one line, or over several lines at some level. Both kinds of text are built
alike (`Written`): lists and objects hold the written elements and members, with blanks where blanks
may stand. `Returns` says that a reader reads what is written of a datum as the datum. It holds of
numbers and strings, and of lists and records (`Record.reads_of_written`) if it holds of what they
are made of.
-/

namespace Fettle.Json

variable {α ρ : Type}

/-! ## What is written -/

/-- The texts that are written for a value. -/
inductive Written (v : Value) : List Char → Prop
  /-- The text on one line. -/
  | compact : Written v v.write
  /-- The text over several lines, at a level. -/
  | laidOut (level : ℕ) : Written v (v.layOut level)

/-- Nothing is written in one way only, -/
theorem Written.null_eq {cs : List Char} (h : Written .null cs) : cs = ['n', 'u', 'l', 'l'] := by
  cases h <;> rfl

/-- a natural number in its digits, -/
theorem Written.ofNat_eq {n : ℕ} {cs : List Char} (h : Written (.ofNat n) cs) :
    cs = Nat.toDigits 10 n := by
  cases h <;> rfl

/-- and a string between quotes. -/
theorem Written.string_eq {s : String} {cs : List Char} (h : Written (.string s) cs) :
    cs = writeString s := by
  cases h <;> rfl

/-- Elements on one line are items of a list, without blanks. -/
theorem separated_writeElements (vs : List Value) :
    Separated Written vs (Value.writeElements vs) := by
  induction vs with
  | nil => exact .none spaces_nil
  | cons v vs ih =>
    cases vs with
    | nil =>
      have hone := Separated.one spaces_nil (Written.compact (v := v)) spaces_nil
      rwa [List.append_nil, List.nil_append] at hone
    | cons w vs =>
      have hmore := Separated.more spaces_nil (Written.compact (v := v)) spaces_nil ih
      rwa [List.append_nil, List.nil_append] at hmore

/-- Members on one line are items of an object, without blanks. -/
theorem separated_writeMembers (ms : List (String × Value)) :
    Separated (NamedItem Written) ms (Value.writeMembers ms) := by
  have hmember : ∀ n : String × Value,
      NamedItem Written n (writeString n.1 ++ ':' :: n.2.write) := fun n =>
    ⟨_, [], [], _, spellsString_writeString n.1, spaces_nil, spaces_nil, .compact, rfl⟩
  induction ms with
  | nil => exact .none spaces_nil
  | cons m ms ih =>
    cases ms with
    | nil =>
      have hone := Separated.one spaces_nil (hmember m) spaces_nil
      rwa [List.append_nil, List.nil_append] at hone
    | cons n ms =>
      have hmore := Separated.more spaces_nil (hmember m) spaces_nil ih
      rwa [List.append_nil, List.nil_append] at hmore

/-- A written list holds its written elements. -/
theorem Written.array_eq {vs : List Value} {cs : List Char} (h : Written (.array vs) cs) :
    ∃ inner, Separated Written vs inner ∧ cs = '[' :: inner ++ [']'] := by
  cases h with
  | compact => exact ⟨_, separated_writeElements vs, rfl⟩
  | laidOut level =>
    cases vs with
    | nil => exact ⟨[], .none spaces_nil, rfl⟩
    | cons v vs =>
      exact ⟨_, separated_layOutElements (fun w _ => .laidOut (level + 1))
        (spaces_indentation level), rfl⟩

/-- A written object holds its written members. -/
theorem Written.object_eq {ms : List (String × Value)} {cs : List Char}
    (h : Written (.object ms) cs) :
    ∃ inner, Separated (NamedItem Written) ms inner ∧ cs = '\x7b' :: inner ++ ['\x7d'] := by
  cases h with
  | compact => exact ⟨_, separated_writeMembers ms, rfl⟩
  | laidOut level =>
    cases ms with
    | nil => exact ⟨[], .none spaces_nil, rfl⟩
    | cons m ms =>
      exact ⟨_, separated_layOutMembers (fun n _ => .laidOut (level + 1))
        (spaces_indentation level), rfl⟩

/-- The members of a written object under their names, each with the text of its value. -/
theorem exists_given {ms : List (String × Value)} {inner : List Char}
    (h : Separated (NamedItem Written) ms inner) :
    ∃ given, Separated Record.MemberOf given inner ∧ given.map Prod.fst = ms.map Prod.fst ∧
      ∀ g ∈ given, ∃ m ∈ ms, m.1 = g.1 ∧ Written m.2 g.2 := by
  have hmember : ∀ {m : String × Value} {cs : List Char}, NamedItem Written m cs →
      ∃ value, Record.MemberOf (m.1, value) cs ∧ Written m.2 value := by
    rintro m cs ⟨name, s, s', value, hname, hs, hs', hvalue, rfl⟩
    exact ⟨value, ⟨name, s, s', value, hname, hs, hs', rfl, rfl⟩, hvalue⟩
  induction h with
  | none hs => exact ⟨[], .none hs, rfl, fun _ hg => absurd hg List.not_mem_nil⟩
  | @one m s cs s' hs hm hs' =>
    obtain ⟨value, hgiven, hvalue⟩ := hmember hm
    refine ⟨[(m.1, value)], .one hs hgiven hs', rfl, ?_⟩
    exact List.forall_mem_singleton.mpr ⟨m, List.mem_cons_self, rfl, hvalue⟩
  | @more m n ms s cs s' more hs hm hs' _ ih =>
    obtain ⟨value, hgiven, hvalue⟩ := hmember hm
    obtain ⟨given, hrest, hnames, hvalues⟩ := ih
    obtain ⟨g, given, rfl⟩ := List.exists_cons_of_ne_nil (l := given) (by rintro rfl; cases hnames)
    refine ⟨(m.1, value) :: g :: given, .more hs hgiven hs' hrest, congrArg (m.1 :: ·) hnames, ?_⟩
    refine List.forall_mem_cons.mpr ⟨⟨m, List.mem_cons_self, rfl, hvalue⟩, fun g' hg' => ?_⟩
    obtain ⟨m', hm', hvalue'⟩ := hvalues g' hg'
    exact ⟨m', List.mem_cons_of_mem m hm', hvalue'⟩

/-- A member with what is written for its value; it may not be lacking. -/
def writtenMember (m : String × Value) : Member := ⟨m.1, Written m.2, False⟩

/-- A written object spells its members. -/
theorem Written.spellsObject {ms : List (String × Value)} (hnames : (ms.map Prod.fst).Nodup)
    {cs : List Char} (h : Written (.object ms) cs) : SpellsObject (ms.map writtenMember) cs := by
  obtain ⟨inner, hinner, rfl⟩ := h.object_eq
  obtain ⟨given, hgiven, hsame, hvalues⟩ := exists_given hinner
  refine ⟨given, inner, hgiven, rfl, (hsame ▸ hnames).filter _, fun g hg => .inl ?_, ?_⟩
  · obtain ⟨m, hm, hname, hvalue⟩ := hvalues g hg
    exact ⟨writtenMember m, List.mem_map_of_mem hm, hname, hvalue⟩
  · refine List.forall_mem_map.mpr fun m hm => .inl ?_
    rw [hsame]
    exact List.mem_map_of_mem hm

/-! ## What readers return -/

/-- A reader reads what is written of a datum as the datum. -/
def Returns (read : Reader α) (toJson : α → Value) (a : α) : Prop :=
  ∀ cs, Written (toJson a) cs → Reads read a cs

/-- A natural number of 64 bits comes back from its text. -/
theorem returns_nat {n : ℕ} (h : n ≤ maxNat64) : Returns readNat .ofNat n := fun _ hcs =>
  SpellsNat.reads ⟨h, hcs.ofNat_eq⟩

/-- A string that is written is spelled. -/
theorem Written.spellsString {s : String} {cs : List Char} (h : Written (.string s) cs) :
    SpellsString s cs :=
  h.string_eq ▸ spellsString_writeString s

/-- A text comes back from its string. -/
theorem returns_text (expected s : String) : Returns (readTextAs expected) .string s :=
  fun _ hcs => hcs.spellsString.reads expected

/-- Items that stand for data are items for the data. -/
theorem Separated.of_map {β : Type} {Item : β → List Char → Prop} {Item' : α → List Char → Prop}
    {f : α → β} {as : List α} {cs : List Char} (h : Separated Item (as.map f) cs)
    (hitem : ∀ a ∈ as, ∀ cs, Item (f a) cs → Item' a cs) : Separated Item' as cs := by
  generalize hbs : as.map f = bs at h
  induction h generalizing as with
  | none hs =>
    obtain rfl := List.map_eq_nil_iff.mp hbs
    exact .none hs
  | one hs hb hs' =>
    obtain ⟨a, rfl, rfl⟩ := List.map_eq_singleton_iff.mp hbs
    exact .one hs (hitem a List.mem_cons_self _ hb) hs'
  | more hs hb hs' _ ih =>
    obtain ⟨a, as, rfl, rfl, htail⟩ := List.map_eq_cons_iff.mp hbs
    obtain ⟨a', as, rfl, -, -⟩ := List.map_eq_cons_iff.mp htail
    have hrest := ih (fun b hb => hitem b (List.mem_cons_of_mem a hb)) htail
    exact .more hs (hitem a List.mem_cons_self _ hb) hs' hrest

section

variable {read : Reader α} {toJson : α → Value}

/-- A datum that may be absent is returned, if a text for it does not begin like the word for
nothing. -/
theorem returns_option {c : Char} (hspace : isSpace c = false) (hnull : c ≠ 'n')
    (hbegins : ∀ a cs, Written (toJson a) cs → ∃ rest, cs = c :: rest) {o : Option α}
    (h : ∀ a ∈ o, Returns read toJson a) : Returns (readOption read) (.ofOption toJson) o := by
  intro cs hcs
  have hread : ∀ a cs, a ∈ o ∧ Written (toJson a) cs → Reads read a cs := fun a cs ha =>
    h a ha.1 cs ha.2
  refine reads_option hread hspace hnull (fun a cs ha => hbegins a cs ha.2) ?_
  cases o with
  | none => exact hcs.null_eq
  | some a => exact ⟨rfl, hcs⟩

/-- A list is returned if its elements are. -/
theorem returns_list (hbegins : ∀ a cs, Written (toJson a) cs → Begins cs) {as : List α}
    (h : ∀ a ∈ as, Returns read toJson a) :
    Returns (readList read) (fun as => .array (as.map toJson)) as := by
  intro cs hcs
  obtain ⟨inner, hinner, rfl⟩ := hcs.array_eq
  have hread : ∀ a cs, a ∈ as ∧ Written (toJson a) cs → Reads read a cs := fun a cs ha =>
    h a ha.1 cs ha.2
  refine reads_list hread (fun a cs ha => hbegins a cs ha.2) ⟨inner, ?_, rfl⟩
  exact hinner.of_map fun a ha cs hcs => ⟨ha, hcs⟩

end

/-- A record is read from what is written of an object with its members. -/
theorem Record.reads_of_written {r : Record ρ} {ms : List (String × Value)}
    {part : List String → ρ}
    (hfields : List.Forall₂ (Field.Stores part) r.fields (ms.map writtenMember))
    (hnames : (ms.map Prod.fst).Nodup) (hstart : part [] = r.start) {t : ρ}
    (hpart : ∀ seen, (∀ m ∈ ms, m.1 ∈ seen) → part seen = t) {cs : List Char}
    (h : Written (.object ms) cs) : Reads r.read t cs := by
  have hspelled : ((ms.map writtenMember).map Member.name).Nodup := by
    rwa [List.map_map]
  refine reads_of_spellsObject hfields hspelled hstart (fun seen hseen => ?_)
    (h.spellsObject hnames)
  exact hpart seen fun m hm => (hseen _ (List.mem_map_of_mem hm)).resolve_right False.elim

/-- A datum that is returned is parsed from both texts that are written of it. -/
theorem Returns.parse_eq {read : Reader α} {toJson : α → Value} {a : α}
    (h : Returns read toJson a) :
    parse read (toJson a).compact = .ok a ∧ parse read (toJson a).pretty = .ok a := by
  have hparse : ∀ cs, Written (toJson a) cs → parse read (String.ofList cs) = .ok a :=
    fun cs hcs => (h cs hcs).parse_eq spaces_nil spaces_nil (by simp)
  exact ⟨hparse _ .compact, hparse _ (.laidOut 0)⟩

end Fettle.Json
