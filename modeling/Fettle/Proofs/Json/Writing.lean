import Fettle.Json.Document
import Fettle.Json.Writer
import Fettle.Proofs.Json.Reading

/-!
# What is written is read back

The writer puts every string and every number of 64 bits in one of the spellings that the reader
knows, and lays out lists and objects with blanks where blanks may stand. `ReadAs` says that a text
is read as a value of any kind; lists and objects inherit it from their items. So a value whose
numbers have at most 64 bits (`Value.Exact`) is read back from its text (`parse_pretty`).
-/

namespace Fettle.Json

variable {α : Type}

/-! ## Strings and numbers as they are written -/

/-- A number below the limit is spelled by its four digits. -/
theorem fourHexDigits_spell {n : ℕ} (hn : n < 65536) : FourHexDigits n (fourHexDigits n) := by
  have hdigit : ∀ k, HexDigit (k % 16) (Nat.digitChar (k % 16)) := fun k =>
    ⟨Nat.mod_lt k (by decide), .inl rfl⟩
  have hvalue : ((n / 4096 % 16 * 16 + n / 256 % 16) * 16 + n / 16 % 16) * 16 + n % 16 = n := by
    omega
  have h := FourHexDigits.mk (hdigit (n / 4096)) (hdigit (n / 256)) (hdigit (n / 16)) (hdigit n)
  rwa [hvalue] at h

/-- A character stands in a written string in one of its spellings. -/
theorem spellsChar_escapeChar (c : Char) : SpellsChar c (escapeChar c) := by
  unfold escapeChar
  split_ifs with hquote hbackslash h₁ h₂ h₃ h₄ h₅ hcontrol
  · exact .letter (by rw [hquote]; decide)
  · exact .letter (by rw [hbackslash]; decide)
  · exact .letter (by rw [h₁]; decide)
  · exact .letter (by rw [h₂]; decide)
  · exact .letter (by rw [h₃]; decide)
  · exact .letter (by rw [h₄]; decide)
  · exact .letter (by rw [h₅]; decide)
  · exact .number (fourHexDigits_spell (by omega))
  · exact .plain ⟨hquote, hbackslash, Nat.le_of_not_lt hcontrol⟩

/-- Characters are spelled by their escapes, one behind the other. -/
theorem spellsChars_flatMap (cs : List Char) : SpellsChars cs (cs.flatMap escapeChar) := by
  induction cs with
  | nil => exact .nil
  | cons c cs ih => exact .cons (spellsChar_escapeChar c) ih

/-- A written string spells the string. -/
theorem spellsString_writeString (s : String) : SpellsString s (writeString s) :=
  ⟨_, spellsChars_flatMap s.toList, rfl⟩

/-! ## Texts that are read as values -/

/-- A text is read as a value of any kind: it begins like a value, and the reader takes it if it may
make as many steps as there are characters. -/
structure ReadAs (v : Value) (cs : List Char) : Prop where
  /-- The text begins like a value. -/
  begins : Begins cs
  /-- The text is read as the value. -/
  reads : ∀ fuel, cs.length ≤ fuel → Reads (readValue fuel) v cs

/-- A text is read as a value if its first character begins one and the reader reads the value from
there. -/
theorem ReadAs.of_cons {v : Value} {c : Char} {cs : List Char} (hspace : isSpace c = false)
    (hlist : c ≠ ']') (hobject : c ≠ '\x7d')
    (h : ∀ fuel rest, cs.length ≤ fuel → Delimited rest →
      readValue (fuel + 1) (c :: (cs ++ rest)) = .ok (v, rest)) : ReadAs v (c :: cs) := by
  refine ⟨⟨c, cs, rfl, hspace, hlist, hobject⟩, fun fuel hfuel s rest hs hrest => ?_⟩
  obtain ⟨fuel, rfl⟩ := Nat.exists_eq_add_of_le' (Nat.le_trans (Nat.succ_pos _) hfuel)
  have hread := h fuel rest (Nat.le_of_succ_le_succ hfuel) hrest
  unfold readValue at hread ⊢
  rw [Reader.bind_of_ok (nextToken_cons hspace _)] at hread
  rw [List.cons_append, Reader.bind_of_ok (nextToken_append hs hspace _)]
  exact hread

/-- Nothing is read back, -/
theorem readAs_null : ReadAs .null ['n', 'u', 'l', 'l'] :=
  .of_cons rfl (by decide) (by decide) fun _ _ _ _ => rfl

/-- and so is a truth value, -/
theorem readAs_bool (b : Bool) : ReadAs (.bool b) (Value.write (.bool b)) := by
  cases b with
  | false => exact .of_cons rfl (by decide) (by decide) fun _ _ _ _ => rfl
  | true => exact .of_cons rfl (by decide) (by decide) fun _ _ _ _ => rfl

/-- a string in any spelling, -/
theorem SpellsString.readAs {s : String} {cs : List Char} (h : SpellsString s cs) :
    ReadAs (.string s) cs := by
  obtain ⟨body, hbody, rfl⟩ := h
  refine .of_cons rfl (by decide) (by decide) fun fuel rest _ _ => ?_
  unfold readValue
  rw [Reader.bind_of_ok (nextToken_cons rfl _)]
  show (Value.string <$> stringBody) (body ++ ['"'] ++ rest) = _
  rw [List.append_assoc]
  exact Reader.map_of_ok (stringBody_append hbody rest)

/-- and a natural number. -/
theorem SpellsNat.readAs {n : ℕ} {cs : List Char} (h : SpellsNat n cs) :
    ReadAs (.ofNat n) cs := by
  obtain ⟨c, more, rfl, hc⟩ := h.begins
  have hne : ∀ {d : Char}, d.isDigit = false → c ≠ d := by
    rintro d hd rfl
    rw [hd] at hc
    cases hc
  refine .of_cons (isSpace_of_isDigit hc) (hne rfl) (hne rfl) fun fuel rest _ hrest => ?_
  have hnumber : number false (c :: (more ++ rest)) = .ok (.natural n, rest) := by
    rw [← List.cons_append, h.2]
    exact number_append h.1 hrest
  unfold readValue
  rw [Reader.bind_of_ok (nextToken_cons (isSpace_of_isDigit hc) _)]
  -- A digit is none of the characters that begin other values.
  generalize hhead : some c = head
  split
  · cases hhead
  · exact absurd (Option.some.inj hhead) (hne rfl)
  · exact absurd (Option.some.inj hhead) (hne rfl)
  · exact absurd (Option.some.inj hhead) (hne rfl)
  · exact absurd (Option.some.inj hhead) (hne rfl)
  · exact absurd (Option.some.inj hhead) (hne rfl)
  · exact absurd (Option.some.inj hhead) (hne rfl)
  · exact absurd (Option.some.inj hhead) (hne rfl)
  · obtain rfl := Option.some.inj hhead
    rw [if_pos hc]
    exact Reader.map_of_ok hnumber

/-! ## Lists and objects -/

/-- A reader of the items between two brackets: it reads the first item and goes on with the others,
begins anew after a comma, and ends with the closing bracket. -/
structure ReadsItems (closing : Char) (Item : α → List Char → Prop)
    (read : ℕ → Bool → Reader (List α)) : Prop where
  /-- The bracket may follow an item. -/
  closes : closing = ']' ∨ closing = '\x7d'
  /-- Items are not empty. -/
  length_pos : ∀ a cs, Item a cs → 0 < cs.length
  /-- The first item is read, and then the others. -/
  first : ∀ {a : α} {cs s rest : List Char} {fuel : ℕ}, Item a cs → Spaces s → Delimited rest →
    cs.length ≤ fuel →
    read (fuel + 1) true (s ++ (cs ++ rest)) = (read fuel false >>= fun as => pure (a :: as)) rest
  /-- After a comma the items are read like those between brackets that begin there. -/
  comma : ∀ {a : α} {as : List α} {cs s : List Char} (fuel : ℕ) (rest : List Char),
    Separated Item (a :: as) cs → Spaces s →
    read (fuel + 1) false (s ++ ',' :: (cs ++ rest)) = read (fuel + 1) true (cs ++ rest)
  /-- The closing bracket is taken. -/
  last : ∀ {s : List Char} (fuel : ℕ) (first : Bool) (rest : List Char), Spaces s →
    read (fuel + 1) first (s ++ closing :: rest) = .ok ([], rest)

/-- The items between two brackets are read. -/
theorem ReadsItems.read_of_separated {closing : Char} {Item : α → List Char → Prop}
    {read : ℕ → Bool → Reader (List α)} (hread : ReadsItems closing Item read) {as : List α}
    {cs : List Char} (h : Separated Item as cs) {fuel : ℕ} (hfuel : cs.length < fuel)
    (rest : List Char) : read fuel true (cs ++ closing :: rest) = .ok (as, rest) := by
  have hdelimited : Delimited (closing :: rest) := delimited_cons (.inr hread.closes) rest
  obtain ⟨fuel, rfl⟩ := Nat.exists_eq_add_of_le' (Nat.zero_lt_of_lt hfuel)
  -- Every item takes at least one character and one step.
  induction h generalizing fuel with
  | none hs => exact hread.last fuel true rest hs
  | @one a s cs s' hs ha hs' =>
    have hpos := hread.length_pos a cs ha
    rw [List.length_append, List.length_append] at hfuel
    obtain ⟨fuel, rfl⟩ := Nat.exists_eq_add_of_le' (show 0 < fuel by omega)
    rw [List.append_assoc, List.append_assoc,
      hread.first ha hs (hdelimited.append hs') (by omega),
      Reader.bind_of_ok (hread.last fuel false rest hs')]
    rfl
  | @more a b as s cs s' more hs ha hs' hmore ih =>
    have hpos := hread.length_pos a cs ha
    simp only [List.length_append, List.length_cons] at hfuel
    have hcomma : Delimited (s' ++ ',' :: (more ++ closing :: rest)) :=
      (delimited_cons (.inl rfl) _).append hs'
    obtain ⟨fuel, rfl⟩ := Nat.exists_eq_add_of_le' (show 0 < fuel by omega)
    have hrest := ih fuel (by omega)
    rw [← hread.comma fuel _ hmore hs'] at hrest
    rw [List.append_assoc, List.append_assoc, List.append_assoc, List.cons_append,
      hread.first ha hs hcomma (by omega), Reader.bind_of_ok hrest]
    rfl

/-- The elements of a list. -/
theorem readsItems_readValues : ReadsItems ']' ReadAs readValues where
  closes := .inl rfl
  length_pos := by
    intro v cs hv
    obtain ⟨c, more, rfl, -⟩ := hv.begins
    exact Nat.succ_pos _
  first := by
    intro v cs s rest fuel hv hs hrest hfuel
    have hread := hv.reads fuel hfuel [] rest spaces_nil hrest
    obtain ⟨c, more, rfl, hspace, hend, -⟩ := hv.begins
    conv_lhs => unfold readValues
    rw [List.cons_append, Reader.bind_of_ok (nextElement_first hspace hend hs _)]
    exact Reader.bind_of_ok hread
  comma := by
    intro v vs cs s fuel rest h hs
    obtain ⟨s', c, more, hs', rfl, ⟨hspace, hend, -⟩, -⟩ := h.begins fun _ _ hv => hv.begins
    rw [List.append_assoc, List.cons_append]
    unfold readValues
    rw [Reader.bind_of_ok (nextElement_first hspace hend hs' _),
      Reader.bind_of_ok (nextElement_comma hspace hend hs' hs _)]
  last := by
    intro s fuel first rest hs
    unfold readValues
    rw [Reader.bind_of_ok (nextElement_end hs first rest)]
    rfl

/-- A text is read as a member of an object. -/
def MemberReadAs (m : String × Value) (cs : List Char) : Prop :=
  MemberText (SpellsString m.1) (ReadAs m.2) cs

/-- A member begins with the quote of its name. -/
theorem MemberReadAs.begins {m : String × Value} {cs : List Char} (h : MemberReadAs m cs) :
    ∃ c more, cs = c :: more ∧ c = '"' := by
  obtain ⟨name, s, s', value, hname, -, -, -, rfl⟩ := h
  obtain ⟨more, rfl⟩ := hname.begins
  exact ⟨_, _, rfl, rfl⟩

/-- The members of an object. -/
theorem readsItems_readNamed : ReadsItems '\x7d' MemberReadAs readNamed where
  closes := .inr rfl
  length_pos := by
    intro m cs hm
    obtain ⟨c, more, rfl, -⟩ := hm.begins
    exact Nat.succ_pos _
  first := by
    intro m cs s rest fuel hm hs hrest hfuel
    obtain ⟨name, v⟩ := m
    obtain ⟨_, t, t', value, ⟨body, hbody, rfl⟩, ht, ht', hvalue, rfl⟩ := hm
    simp only [List.length_append, List.length_cons] at hfuel
    -- Name, colon and value are read one after another, each from the text behind the last.
    have hname := stringBody_append hbody (t ++ ':' :: (t' ++ (value ++ rest)))
    have hread := hvalue.reads fuel (by omega) t' rest ht' hrest
    conv_lhs => unfold readNamed
    simp only [List.cons_append, List.append_assoc, List.nil_append]
    rw [Reader.bind_of_ok (nextToken_append hs rfl _)]
    show (nextToken >>= _) _ = _
    rw [Reader.bind_of_ok (nextToken_cons rfl _)]
    show (stringBody >>= fun name => colon >>= fun _ => readValue fuel >>= fun v =>
      readNamed fuel false >>= fun ms => pure ((name, v) :: ms))
      (body ++ '"' :: (t ++ ':' :: (t' ++ (value ++ rest)))) = _
    rw [Reader.bind_of_ok hname, Reader.bind_of_ok (colon_append ht _), Reader.bind_of_ok hread]
  comma := by
    intro m ms cs s fuel rest h hs
    obtain ⟨s', c, more, hs', rfl, rfl, -⟩ := h.begins fun _ _ hm => hm.begins
    rw [List.append_assoc, List.cons_append]
    unfold readNamed
    rw [Reader.bind_of_ok (nextToken_append hs' rfl _), Reader.bind_of_ok (nextToken_append hs rfl _)]
    show (take >>= fun _ => nextToken >>= _) _ = _
    rw [Reader.bind_of_ok (take_cons _ _), Reader.bind_of_ok (nextToken_append hs' rfl _)]
    rfl
  last := by
    intro s fuel first rest hs
    unfold readNamed
    rw [Reader.bind_of_ok (nextToken_append hs rfl rest)]
    rfl

/-- A list is read as its elements are. -/
theorem readAs_array {vs : List Value} {inner : List Char} (h : Separated ReadAs vs inner) :
    ReadAs (.array vs) ('[' :: inner ++ [']']) := by
  rw [List.cons_append]
  refine .of_cons rfl (by decide) (by decide) fun fuel rest hfuel _ => ?_
  rw [List.length_append, List.length_singleton] at hfuel
  rw [List.append_assoc]
  unfold readValue
  rw [Reader.bind_of_ok (nextToken_cons rfl _)]
  show (Value.array <$> readValues fuel true) (inner ++ ']' :: rest) = _
  exact Reader.map_of_ok (readsItems_readValues.read_of_separated h hfuel rest)

/-- An object is read as its members are. -/
theorem readAs_object {ms : List (String × Value)} {inner : List Char}
    (h : Separated MemberReadAs ms inner) :
    ReadAs (.object ms) ('\x7b' :: inner ++ ['\x7d']) := by
  rw [List.cons_append]
  refine .of_cons rfl (by decide) (by decide) fun fuel rest hfuel _ => ?_
  rw [List.length_append, List.length_singleton] at hfuel
  rw [List.append_assoc]
  unfold readValue
  rw [Reader.bind_of_ok (nextToken_cons rfl _)]
  show (Value.object <$> readNamed fuel true) (inner ++ '\x7d' :: rest) = _
  exact Reader.map_of_ok (readsItems_readNamed.read_of_separated h hfuel rest)

/-! ## Values -/

/-- The numbers of a value have at most 64 bits. -/
inductive Value.Exact : Value → Prop
  /-- Nothing. -/
  | null : Exact .null
  /-- A truth value. -/
  | bool (b : Bool) : Exact (.bool b)
  /-- A natural number of 64 bits. -/
  | ofNat {n : ℕ} (h : n ≤ maxNat64) : Exact (.ofNat n)
  /-- A string. -/
  | string (s : String) : Exact (.string s)
  /-- A list of such values. -/
  | array {vs : List Value} (h : ∀ v ∈ vs, Exact v) : Exact (.array vs)
  /-- An object whose members have such values. -/
  | object {ms : List (String × Value)} (h : ∀ m ∈ ms, Exact m.2) : Exact (.object ms)

/-- Indentation consists of blanks. -/
theorem spaces_indentation (level : ℕ) : Spaces (Value.indentation level) := by
  intro c hc
  rcases List.mem_cons.mp hc with rfl | hc
  · exact .inr (.inl rfl)
  · exact .inl (List.eq_of_mem_replicate hc)

/-- Elements that are each on a line of their own are items of a list. -/
theorem separated_layOutElements {Item : Value → List Char → Prop} {level : ℕ} {v : Value}
    {vs : List Value} (h : ∀ w ∈ v :: vs, Item w (w.layOut level)) {s : List Char} (hs : Spaces s) :
    Separated Item (v :: vs) (Value.layOutElements level (v :: vs) ++ s) := by
  induction vs generalizing v with
  | nil => exact .one (spaces_indentation level) (h v List.mem_cons_self) hs
  | cons w vs ih =>
    have hrest := ih fun u hu => h u (List.mem_cons_of_mem v hu)
    have hv := h v List.mem_cons_self
    have hmore := Separated.more (spaces_indentation level) hv spaces_nil hrest
    rw [List.append_nil] at hmore
    unfold Value.layOutElements
    rw [List.append_assoc, List.cons_append]
    exact hmore

/-- How a member of an object is spelled: its name as any string, and its value as an item. -/
def NamedItem (Item : Value → List Char → Prop) (m : String × Value) : List Char → Prop :=
  MemberText (SpellsString m.1) (Item m.2)

/-- Members that are each on a line of their own are items of an object. -/
theorem separated_layOutMembers {Item : Value → List Char → Prop} {level : ℕ} {m : String × Value}
    {ms : List (String × Value)} (h : ∀ n ∈ m :: ms, Item n.2 (n.2.layOut level)) {s : List Char}
    (hs : Spaces s) :
    Separated (NamedItem Item) (m :: ms) (Value.layOutMembers level (m :: ms) ++ s) := by
  have hmember : ∀ n : String × Value, Item n.2 (n.2.layOut level) →
      NamedItem Item n (writeString n.1 ++ ':' :: ' ' :: n.2.layOut level) := fun n hn =>
    ⟨_, [], [' '], _, spellsString_writeString n.1, spaces_nil,
      fun c hc => .inl (List.mem_singleton.mp hc), hn, rfl⟩
  induction ms generalizing m with
  | nil =>
    have hone := Separated.one (spaces_indentation level) (hmember m (h m List.mem_cons_self)) hs
    unfold Value.layOutMembers
    simp only [List.append_assoc] at hone ⊢
    exact hone
  | cons n ms ih =>
    have hrest := ih fun u hu => h u (List.mem_cons_of_mem m hu)
    have hmore := Separated.more (spaces_indentation level)
      (hmember m (h m List.mem_cons_self)) spaces_nil hrest
    rw [List.append_nil] at hmore
    unfold Value.layOutMembers
    simp only [List.append_assoc, List.cons_append] at hmore ⊢
    exact hmore

/-- A value is read from its text over several lines, at any level. -/
theorem Value.Exact.readAs_layOut {v : Value} (h : v.Exact) (level : ℕ) :
    ReadAs v (v.layOut level) := by
  induction h generalizing level with
  | null => exact readAs_null
  | bool b => exact readAs_bool b
  | ofNat h => exact SpellsNat.readAs ⟨h, rfl⟩
  | string s => exact (spellsString_writeString s).readAs
  | @array vs h ih =>
    cases vs with
    | nil => exact readAs_array (.none spaces_nil)
    | cons v vs =>
      have hinner := separated_layOutElements (fun w hw => ih w hw (level + 1))
        (spaces_indentation level)
      exact readAs_array hinner
  | @object ms h ih =>
    cases ms with
    | nil => exact readAs_object (.none spaces_nil)
    | cons m ms =>
      have hinner := separated_layOutMembers (fun n hn => ih n hn (level + 1))
        (spaces_indentation level)
      exact readAs_object hinner

/-- A value is read back from its text over several lines, with a line feed after it. -/
theorem Value.Exact.parse_pretty {v : Value} (h : v.Exact) :
    Value.parse (v.pretty ++ "\n") = .ok v := by
  have hread : Reads (fun rest => readValue (2 * rest.length + 2) rest) v (v.layOut 0) := by
    intro s rest hs hrest
    refine (h.readAs_layOut 0).reads _ ?_ s rest hs hrest
    rw [List.length_append, List.length_append]
    omega
  have hfeed : Spaces ['\n'] := fun c hc => .inr (.inl (List.mem_singleton.mp hc))
  refine hread.parse_eq spaces_nil hfeed ?_
  rw [String.toList_append]
  unfold Value.pretty
  rw [String.toList_ofList]
  rfl

end Fettle.Json
