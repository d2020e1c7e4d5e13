import Fettle.Proofs.Json.Skipping
import Mathlib.Data.List.Forall2
import Mathlib.Data.List.Nodup

/-!
# Reading records from objects

A record whose fields store what a table of members spells is read from every spelling of an object
with that table (`Record.reads_of_spellsObject`). The induction is on the members that the object
gives. What carries it is that the record read so far is determined by the names seen so far
(`Field.Stores`), and that the members still given can complete it (`Outstanding`).
-/

namespace Fettle.Json

variable {ρ : Type}

/-- A field reads a member of a table and stores it. The record in which the members with some
names are stored is `part` of those names. -/
structure Field.Stores (part : List String → ρ) (f : Field ρ) (m : Member) : Prop where
  /-- The field and the member have the same name. -/
  name : f.name = m.name
  /-- An object may lack the field if it may lack the member. -/
  mayLack : m.MayLack → f.mayLackInObject = true
  /-- Whatever else is stored, the field is stored from each spelling of the member. -/
  store : ∀ seen cs, m.Spells cs → Reads (f.store (part seen)) (part (m.name :: seen)) cs

/-- A field whose value is read and put in its place stores the member whose value is read so. -/
theorem Field.stores_map {α : Type} {part : List String → ρ} {read : Reader α} {set : ρ → α → ρ}
    {a : α} {Spells : List Char → Prop} {MayLack : Prop} {inObject : Bool}
    (hlack : MayLack → inObject = true) (hread : ∀ cs, Spells cs → Reads read a cs) {name : String}
    (hset : ∀ seen, set (part seen) a = part (name :: seen)) (inList : Bool) :
    Field.Stores part ⟨name, fun r => set r <$> read, inObject, inList⟩
      ⟨name, Spells, MayLack⟩ where
  name := rfl
  mayLack := hlack
  store seen cs h := hset seen ▸ (hread cs h).map (set (part seen))

/-- The value of a member once its name is seen, and what stands in its place before that. -/
def onceSeen {α : Type} (seen : List String) (name : String) (value start : α) : α :=
  if name ∈ seen then value else start

section

variable {α : Type} {seen : List String} {name other : String} {value start : α}

/-- A member that has been seen is stored. -/
@[simp]
theorem onceSeen_cons_self : onceSeen (name :: seen) name value start = value :=
  if_pos List.mem_cons_self

/-- Seeing another member makes no difference. -/
@[simp]
theorem onceSeen_cons_of_ne (h : other ≠ name) :
    onceSeen (name :: seen) other value start = onceSeen seen other value start := by
  simp [onceSeen, h]

/-- A member that is not seen in the end is one that may be lacking. -/
theorem onceSeen_eq {MayLack : Prop} (h : name ∈ seen ∨ MayLack) (hlack : MayLack → value = start) :
    onceSeen seen name value start = value := by
  unfold onceSeen
  split_ifs with hseen
  · rfl
  · exact (hlack (h.resolve_left hseen)).symm

end

/-- After the members with some names are seen, the members given by the rest of an object complete
a table. -/
structure Outstanding (table : List Member) (seen : List String)
    (given : List (String × List Char)) : Prop where
  /-- No member of the table is given twice. -/
  once : ((given.map Prod.fst).filter (· ∈ table.map Member.name) ++ seen).Nodup
  /-- What is given is a member of the table, or any value with another name. -/
  fits : ∀ g ∈ given, (∃ m ∈ table, m.name = g.1 ∧ m.Spells g.2) ∨
    g.1 ∉ table.map Member.name ∧ ∃ depth, ValueText depth g.2
  /-- No member of the table is lacking that may not be. -/
  complete : ∀ m ∈ table, m.name ∈ given.map Prod.fst ∨ m.name ∈ seen ∨ m.MayLack

section

variable {table : List Member} {seen : List String} {name : String}
  {given : List (String × List Char)}

/-- Once a member of the table is read, its name is seen. -/
theorem Outstanding.known {m : Member} {cs : List Char}
    (h : Outstanding table seen ((m.name, cs) :: given)) (hm : m ∈ table) :
    m.name ∉ seen ∧ Outstanding table (m.name :: seen) given := by
  have honce := h.once
  -- The name moves from those that are given to those that are seen.
  have hknown : decide (m.name ∈ table.map Member.name) = true :=
    decide_eq_true (List.mem_map_of_mem hm)
  rw [List.map_cons, List.filter_cons, if_pos hknown, List.cons_append] at honce
  refine ⟨fun hseen => (List.nodup_cons.mp honce).1 (List.mem_append_right _ hseen), ?_, ?_, ?_⟩
  · exact List.nodup_middle.mpr honce
  · exact fun g hg => h.fits g (List.mem_cons_of_mem _ hg)
  · intro m' hm'
    rcases h.complete m' hm' with hgiven | hseen | hlack
    · rcases List.mem_cons.mp hgiven with heq | hgiven
      · exact .inr (.inl (List.mem_cons.mpr (.inl heq)))
      · exact .inl hgiven
    · exact .inr (.inl (List.mem_cons_of_mem _ hseen))
    · exact .inr (.inr hlack)

/-- A member with another name changes nothing. -/
theorem Outstanding.unknown {cs : List Char} (h : Outstanding table seen ((name, cs) :: given))
    (hname : name ∉ table.map Member.name) : Outstanding table seen given := by
  have honce := h.once
  have hunknown : ¬ decide (name ∈ table.map Member.name) = true := by rwa [decide_eq_true_iff]
  rw [List.map_cons, List.filter_cons, if_neg hunknown] at honce
  refine ⟨honce, fun g hg => h.fits g (List.mem_cons_of_mem _ hg), fun m hm => ?_⟩
  rcases h.complete m hm with hgiven | hseen
  · rcases List.mem_cons.mp hgiven with rfl | hgiven
    · exact absurd (List.mem_map_of_mem hm) hname
    · exact .inl hgiven
  · exact .inr hseen

end

section

variable {fields : List (Field ρ)} {table : List Member} {part : List String → ρ}

/-- Each member of a table has its field. -/
theorem Field.exists_stores (hfields : List.Forall₂ (Field.Stores part) fields table)
    (hnames : (table.map Member.name).Nodup) {m : Member} (hm : m ∈ table) :
    ∃ f, fields.find? (·.name == m.name) = some f ∧ f.Stores part m := by
  induction hfields with
  | nil => exact absurd hm List.not_mem_nil
  | @cons f m' fields table hf hfields ih =>
    rw [List.map_cons, List.nodup_cons] at hnames
    rcases List.mem_cons.mp hm with rfl | hm
    · exact ⟨f, List.find?_cons_of_pos (beq_iff_eq.mpr hf.name), hf⟩
    -- The names differ, so the search passes over this field.
    · have hother : ¬ (f.name == m.name) = true := by
        rw [beq_iff_eq, hf.name]
        exact fun heq => hnames.1 (heq ▸ List.mem_map_of_mem hm)
      obtain ⟨f', hfind, hf'⟩ := ih hnames.2 hm
      rw [← List.find?_cons_of_neg (p := fun f : Field ρ => f.name == m.name) hother] at hfind
      exact ⟨f', hfind, hf'⟩

/-- A name that no member of a table has is the name of no field. -/
theorem Field.find?_eq_none (hfields : List.Forall₂ (Field.Stores part) fields table)
    {name : String} (hname : name ∉ table.map Member.name) :
    fields.find? (·.name == name) = none := by
  induction hfields with
  | nil => rfl
  | @cons f m fields table hf hfields ih =>
    rw [List.map_cons, List.mem_cons, not_or] at hname
    have hother : ¬ (f.name == name) = true := by
      rw [beq_iff_eq, hf.name]
      exact Ne.symm hname.1
    rw [List.find?_cons_of_neg (p := fun f : Field ρ => f.name == name) hother]
    exact ih hname.2

/-- When nothing is outstanding, no field is missing. -/
theorem Field.all_seen (hfields : List.Forall₂ (Field.Stores part) fields table)
    {seen : List String} (hseen : ∀ m ∈ table, m.name ∈ seen ∨ m.MayLack) :
    fields.find? (fun f => !f.mayLackInObject && !seen.contains f.name) = none := by
  induction hfields with
  | nil => rfl
  | @cons f m fields table hf hfields ih =>
    have hpresent : (!f.mayLackInObject && !seen.contains f.name) = false := by
      rcases hseen m List.mem_cons_self with hm | hm
      · rw [hf.name, List.contains_iff_mem.mpr hm, Bool.not_true, Bool.and_false]
      · rw [hf.mayLack hm, Bool.not_true, Bool.false_and]
    rw [List.find?_cons_of_neg (by rw [hpresent]; exact Bool.false_ne_true)]
    exact ih fun m hm => hseen m (List.mem_cons_of_mem _ hm)

end

namespace Record

/-- How a member of an object is spelled, its name and the text of its value given. -/
abbrev MemberOf (g : String × List Char) : List Char → Prop :=
  MemberText (SpellsString g.1) (· = g.2)

/-- A member begins with the quote of its name. -/
theorem MemberOf.begins (g : String × List Char) (cs : List Char) (h : MemberOf g cs) :
    ∃ c rest, cs = c :: rest ∧ c = '"' := by
  obtain ⟨_, s, s', value, ⟨body, -, rfl⟩, -, -, -, rfl⟩ := h
  exact ⟨'"', _, rfl, rfl⟩

/-- A name without escapes, and a value with no blanks between them. -/
theorem memberOf_plain {name : String} (value : List Char) (h : ∀ c ∈ name.toList, Plain c) :
    MemberOf (name, value)
      ('"' :: name.toList ++ ['"'] ++ ([] ++ ':' :: ([] ++ value))) :=
  ⟨_, [], [], value, spellsString_plain h, spaces_nil, spaces_nil, rfl, rfl⟩

variable {r : Record ρ} {table : List Member} {part : List String → ρ}

section

variable {name : String} {ns s s' value rest : List Char} (hname : SpellsString name ns)
  (hs : Spaces s) (hs' : Spaces s') {seen : List String} (acc : ρ)
include hname hs hs'

/-- A member that no field asks for is passed over. -/
theorem readMember_unknown (hfind : r.fields.find? (·.name == name) = none) {depth : ℕ}
    (hvalue : ValueText depth value) (hrest : Delimited rest) :
    r.readMember seen acc (ns ++ (s ++ ':' :: (s' ++ (value ++ rest)))) =
      .ok ((acc, seen), rest) := by
  obtain ⟨body, hbody, rfl⟩ := hname
  unfold readMember
  rw [List.append_assoc, List.cons_append, List.singleton_append,
    Reader.bind_of_ok (take_cons _ _), Reader.bind_of_ok (stringBody_append hbody _), hfind]
  show (colon >>= fun _ => skipAny >>= fun _ => pure (acc, seen)) (s ++ ':' :: _) = _
  rw [Reader.bind_of_ok (colon_append hs _),
    Reader.bind_of_ok (skipAny_reads hvalue s' rest hs' hrest)]
  rfl

/-- A member that a field asks for is stored, and its name is seen. -/
theorem readMember_known {f : Field ρ} (hfind : r.fields.find? (·.name == name) = some f)
    (hseen : name ∉ seen) {acc' : ρ} (hvalue : Reads (f.store acc) acc' value)
    (hrest : Delimited rest) :
    r.readMember seen acc (ns ++ (s ++ ':' :: (s' ++ (value ++ rest)))) =
      .ok ((acc', name :: seen), rest) := by
  have hnew : ¬ seen.contains name = true := by rwa [List.contains_iff_mem]
  obtain ⟨body, hbody, rfl⟩ := hname
  unfold readMember
  rw [List.append_assoc, List.cons_append, List.singleton_append,
    Reader.bind_of_ok (take_cons _ _), Reader.bind_of_ok (stringBody_append hbody _), hfind]
  show (if seen.contains name then _ else
    colon >>= fun _ => f.store acc >>= fun acc => pure (acc, name :: seen) : Reader _)
    (s ++ ':' :: _) = _
  rw [if_neg hnew, Reader.bind_of_ok (colon_append hs _),
    Reader.bind_of_ok (hvalue s' rest hs' hrest)]
  rfl

end

/-- At the end of an object it is seen whether a member is missing. -/
theorem readMembers_brace {s : List Char} (hs : Spaces s) (t : Char) (clock : Clock) (first : Bool)
    (seen : List String) (acc : ρ) (rest : List Char) :
    r.readMembers (t :: clock) first seen acc (s ++ '\x7d' :: rest) =
      (match r.firstMissing seen with
        | some f => complain (.missing f.name)
        | none => pure acc : Reader ρ) rest := by
  unfold readMembers
  rw [Reader.bind_of_ok (nextToken_append hs rfl rest)]
  rfl

/-- The end of an object, when nothing is outstanding. -/
theorem readMembers_end (hfields : List.Forall₂ (Field.Stores part) r.fields table)
    {s : List Char} (hs : Spaces s) {seen : List String} (h : Outstanding table seen [])
    {clock : Clock} (hclock : 0 < clock.length) (first : Bool) (acc : ρ) (rest : List Char) :
    r.readMembers clock first seen acc (s ++ '\x7d' :: rest) = .ok (acc, rest) := by
  obtain ⟨t, clock, rfl⟩ := List.exists_cons_of_length_pos hclock
  have hmissing : r.firstMissing seen = none :=
    Field.all_seen hfields fun m hm => (h.complete m hm).resolve_left List.not_mem_nil
  rw [readMembers_brace hs, hmissing]
  rfl

/-- After a comma the members are read like those of an object that begins there. -/
theorem readMembers_comma {g : String × List Char} {given : List (String × List Char)}
    {cs : List Char} (h : Separated MemberOf (g :: given) cs) {s : List Char} (hs : Spaces s)
    (t : Char) (clock : Clock) (seen : List String) (acc : ρ) (rest : List Char) :
    r.readMembers (t :: clock) false seen acc (s ++ ',' :: (cs ++ rest)) =
      r.readMembers (t :: clock) true seen acc (cs ++ rest) := by
  obtain ⟨s', c, more, hs', rfl, rfl, -⟩ := h.begins MemberOf.begins
  rw [List.append_assoc, List.cons_append]
  unfold readMembers
  rw [Reader.bind_of_ok (nextToken_append hs' rfl _), Reader.bind_of_ok (nextToken_append hs rfl _)]
  show (take >>= fun _ => nextToken >>= _ : Reader ρ) _ = _
  rw [Reader.bind_of_ok (take_cons _ _), Reader.bind_of_ok (nextToken_append hs' rfl _)]
  rfl

/-- The first of some members is read, and then the others. -/
theorem readMembers_cons (hfields : List.Forall₂ (Field.Stores part) r.fields table)
    (hnames : (table.map Member.name).Nodup) {g : String × List Char}
    {given : List (String × List Char)} {cs : List Char} (hg : MemberOf g cs) {seen : List String}
    (h : Outstanding table seen (g :: given)) {s : List Char} (hs : Spaces s) {rest : List Char}
    (hrest : Delimited rest) (t : Char) (clock : Clock) :
    ∃ seen', Outstanding table seen' given ∧
      r.readMembers (t :: clock) true seen (part seen) (s ++ (cs ++ rest)) =
        r.readMembers clock false seen' (part seen') rest := by
  obtain ⟨name, value⟩ := g
  obtain ⟨ns, b, b', value, hname, hb, hb', rfl, rfl⟩ := hg
  -- Either a field asks for the member and stores it, or it is passed over.
  have hmember : ∃ seen', Outstanding table seen' given ∧
      r.readMember seen (part seen) (ns ++ (b ++ ':' :: (b' ++ (value ++ rest)))) =
        .ok ((part seen', seen'), rest) := by
    rcases h.fits _ List.mem_cons_self with ⟨m, hm, rfl, hvalue⟩ | ⟨hunknown, depth, hvalue⟩
    · obtain ⟨f, hfind, hf⟩ := Field.exists_stores hfields hnames hm
      obtain ⟨hseen, h⟩ := h.known hm
      exact ⟨m.name :: seen, h, readMember_known hname hb hb' (part seen) hfind hseen
        (hf.store seen value hvalue) hrest⟩
    · exact ⟨seen, h.unknown hunknown, readMember_unknown hname hb hb' (part seen)
        (Field.find?_eq_none hfields hunknown) hvalue hrest⟩
  obtain ⟨seen', h', hmember⟩ := hmember
  refine ⟨seen', h', ?_⟩
  obtain ⟨body, -, rfl⟩ := hname
  conv_lhs => unfold readMembers
  simp only [List.append_assoc, List.cons_append] at hmember ⊢
  rw [Reader.bind_of_ok (nextToken_append hs rfl _)]
  exact Reader.bind_of_ok hmember

/-- The members of an object are read up to its end, and complete the record. -/
theorem readMembers_of_separated (hfields : List.Forall₂ (Field.Stores part) r.fields table)
    (hnames : (table.map Member.name).Nodup) {t : ρ}
    (hpart : ∀ seen, (∀ m ∈ table, m.name ∈ seen ∨ m.MayLack) → part seen = t)
    {given : List (String × List Char)} {cs : List Char} (hcs : Separated MemberOf given cs)
    {seen : List String} (h : Outstanding table seen given) (clock : Clock)
    (hclock : given.length < clock.length) (rest : List Char) :
    r.readMembers clock true seen (part seen) (cs ++ '\x7d' :: rest) = .ok (t, rest) := by
  -- When nothing is outstanding, the record is complete.
  have hend : ∀ {s : List Char} {clock : Clock} {seen : List String} (first : Bool), Spaces s →
      0 < clock.length → Outstanding table seen [] →
      r.readMembers clock first seen (part seen) (s ++ '\x7d' :: rest) = .ok (t, rest) := by
    intro s clock seen first hs hclock h
    rw [readMembers_end hfields hs h hclock,
      hpart seen fun m hm => (h.complete m hm).resolve_left List.not_mem_nil]
  have hdelimited : Delimited ('\x7d' :: rest) := delimited_cons (.inr (.inr rfl)) rest
  -- The clock has a step for each member that is given and one for the end.
  induction hcs generalizing clock seen with
  | none hs => exact hend true hs hclock h
  | @one g s cs s' hs hg hs' =>
    obtain ⟨t', clock, rfl⟩ := List.exists_cons_of_length_pos (Nat.zero_lt_of_lt hclock)
    obtain ⟨seen', h', hcons⟩ := readMembers_cons hfields hnames hg h hs
      (hdelimited.append hs') t' clock
    rw [List.append_assoc, List.append_assoc, hcons]
    exact hend false hs' (Nat.lt_of_succ_lt_succ hclock) h'
  | @more g g' given s cs s' more hs hg hs' hmore ih =>
    obtain ⟨t', clock, rfl⟩ := List.exists_cons_of_length_pos (Nat.zero_lt_of_lt hclock)
    have hclock' : (g' :: given).length < clock.length := Nat.lt_of_succ_lt_succ hclock
    have hcomma : Delimited (s' ++ ',' :: (more ++ '\x7d' :: rest)) :=
      (delimited_cons (.inl rfl) _).append hs'
    obtain ⟨seen', h', hcons⟩ := readMembers_cons hfields hnames hg h hs hcomma t' clock
    obtain ⟨t'', clock, rfl⟩ := List.exists_cons_of_length_pos (Nat.zero_lt_of_lt hclock')
    rw [List.append_assoc, List.append_assoc, List.append_assoc, List.cons_append, hcons,
      readMembers_comma hmore hs']
    exact ih h' _ hclock'

/-- A record is read from every spelling of an object with its members. -/
theorem reads_of_spellsObject (hfields : List.Forall₂ (Field.Stores part) r.fields table)
    (hnames : (table.map Member.name).Nodup) (hstart : part [] = r.start) {t : ρ}
    (hpart : ∀ seen, (∀ m ∈ table, m.name ∈ seen ∨ m.MayLack) → part seen = t)
    {cs : List Char} (h : SpellsObject table cs) : Reads r.read t cs := by
  obtain ⟨given, inner, hinner, rfl, honce, hfits, hcomplete⟩ := h
  intro s rest hs _
  have houtstanding : Outstanding table [] given := by
    refine ⟨by rwa [List.append_nil], hfits, fun m hm => ?_⟩
    rcases hcomplete m hm with hgiven | hlack
    exacts [.inl hgiven, .inr (.inr hlack)]
  have hclock : given.length < (clockFor (inner ++ '\x7d' :: rest)).length := by
    have hlength : given.length ≤ inner.length := hinner.length_le MemberOf.begins
    rw [clockFor, List.length_cons, List.length_append]
    omega
  have hobject : '\x7b' :: inner ++ ['\x7d'] ++ rest = '\x7b' :: (inner ++ '\x7d' :: rest) := by
    rw [List.append_assoc, List.cons_append, List.singleton_append]
  unfold read
  rw [hobject, Reader.bind_of_ok (nextToken_append hs rfl _)]
  show r.readMembers (clockFor (inner ++ '\x7d' :: rest)) true [] r.start
    (inner ++ '\x7d' :: rest) = _
  rw [← hstart]
  exact readMembers_of_separated hfields hnames hpart hinner houtstanding _ hclock rest

end Record

/-- An object begins with its brace. -/
theorem SpellsObject.begins {table : List Member} {cs : List Char} (h : SpellsObject table cs) :
    ∃ rest, cs = '\x7b' :: rest := by
  obtain ⟨given, inner, -, rfl, -⟩ := h
  exact ⟨_, rfl⟩

/-- An object begins as a value does. -/
theorem SpellsObject.begins_value {table : List Member} {cs : List Char}
    (h : SpellsObject table cs) : Begins cs :=
  begins_of_cons h.begins rfl (by decide) (by decide)

end Fettle.Json
