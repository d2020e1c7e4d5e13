import Fettle.Proofs.Json.Extension
import Fettle.Proofs.Json.Skipping

/-!
# Reading values from longer texts

Values that are passed over, lists and records are read from longer texts like the tokens they are
made of; a record keeps what is true of it at the start and kept by each of its fields
(`Record.extends_read`). A list ends with a bracket, so it is read from a longer text even if
nothing is left after it (`readList_append`).
-/

namespace Fettle.Json

variable {α : Type}

/-! ## Values that nobody asks for -/

/-- A backslash with one of the letters is passed over as a whole. -/
theorem skipString_of_letter {l : Char} (h : (letterEscape l).isSome = true) (t : Char)
    (clock : Clock) (cs : List Char) :
    skipString (t :: clock) ('\\' :: l :: cs) = skipString clock cs :=
  if_pos h

/-- A backslash with a `u` is passed over with the four digits behind it. -/
theorem skipString_unicode (t : Char) (clock : Clock) (cs : List Char) :
    skipString (t :: clock) ('\\' :: 'u' :: cs) =
      (takeFourHex >>= fun _ => skipString clock) cs := by
  cases h : takeFourHex cs with
  | error e =>
    rw [Reader.bind_of_error h]
    unfold skipString
    dsimp only
    rw [if_neg (by decide), if_pos rfl, if_neg (by decide), if_pos rfl, h]
  | ok p => rw [Reader.bind_of_ok h, skipString_of_number h]

/-- A string that is passed over ends with its quote, so a longer text makes no difference to it. -/
theorem extends_skipString {clock clock' : Clock} (hle : clock.length ≤ clock'.length) :
    Extends Any (skipString clock) (skipString clock') := by
  induction clock generalizing clock' with
  | nil => exact (fails_failHere _).extends
  | cons t clock ih =>
    obtain ⟨t', clock', rfl⟩ := List.exists_cons_of_length_pos (Nat.zero_lt_of_lt hle)
    have hle' : clock.length ≤ clock'.length := Nat.le_of_succ_le_succ hle
    intro cs u rest h
    unfold skipString at h
    split at h
    · cases h
    · next c cs =>
      -- The end of the string, an escape, a control character (an error), or a plain character.
      split_ifs at h with hquote hbackslash hcontrol
      · exact (extends_pure trivial cs u rest h).cons fun more => if_pos hquote
      · obtain rfl := hbackslash
        split at h
        · cases h
        · next d cs =>
          split_ifs at h with hletter hu
          · exact (ih hle' cs u rest h).cons₂ fun more => skipString_of_letter hletter _ _ _
          · obtain rfl := hu
            have hread := (skipString_unicode t clock cs).symm.trans h
            have hextends := extends_takeFourHex.bind fun _ _ => ih hle'
            exact (hextends cs u rest hread).cons₂ fun more => skipString_unicode _ _ _
      · refine (ih hle' cs u rest h).cons fun more => ?_
        show (if c = '"' then _ else if c = '\\' then _ else if c.toNat < 32 then _ else
          skipString clock' (cs ++ more)) = _
        rw [if_neg hquote, if_neg hbackslash, if_neg hcontrol]

/-- Without a point there is no fraction, and the exponent follows. -/
theorem skipFraction_of_ne {c : Char} (hc : c ≠ '.') (cs : List Char) :
    skipFraction (c :: cs) = skipExponent (c :: cs) := by
  unfold skipFraction
  split
  · next heq => exact absurd (List.cons.inj heq).1 hc
  · next heq => exact absurd (List.cons.inj heq).1 hc
  · rfl

/-- Whether a sign stands in front is known as soon as there is a character. -/
theorem afterSign_append_of_ne_nil {cs : List Char} (h : cs ≠ []) (more : List Char) :
    afterSign (cs ++ more) = afterSign cs ++ more := by
  obtain ⟨c, cs, rfl⟩ := List.exists_cons_of_ne_nil h
  by_cases hc : c = '+' ∨ c = '-'
  · rcases hc with rfl | rfl <;> rfl
  · have hsign : ∀ cs, afterSign (c :: cs) = c :: cs := by
      intro cs
      unfold afterSign
      split
      · next heq => exact absurd (.inl (List.cons.inj heq).1) hc
      · next heq => exact absurd (.inr (List.cons.inj heq).1) hc
      · rfl
    rw [List.cons_append, hsign, hsign, List.cons_append]

/-- A sign is the front of a text. -/
theorem afterSign_suffix (cs : List Char) : afterSign cs <:+ cs := by
  unfold afterSign
  split
  · exact List.suffix_cons _ _
  · exact List.suffix_cons _ _
  · exact List.suffix_rfl

/-- An exponent that is passed over is passed over in a longer text, unless its digits are the end
of the text, where they could go on. -/
theorem extends_skipExponent : Extends Any skipExponent skipExponent := by
  intro cs u rest h
  cases cs with
  | nil =>
    cases h
    exact ⟨trivial, List.suffix_rfl, fun hne => absurd rfl hne⟩
  | cons e cs =>
    rw [skipExponent_cons] at h
    split_ifs at h with he
    · split at h
      · next d ds hsign =>
        split_ifs at h with hd
        cases h
        -- The text goes on with a digit after the sign.
        have hcs : cs ≠ [] := by
          rintro rfl
          cases hsign
        refine ⟨trivial, ?_, fun hne more => ?_⟩
        · have hds : d :: ds <:+ cs := hsign ▸ afterSign_suffix cs
          exact (List.dropWhile_suffix _).trans ((List.suffix_cons d ds).trans
            (hds.trans (List.suffix_cons e cs)))
        · rw [List.cons_append, skipExponent_cons, if_pos he, afterSign_append_of_ne_nil hcs, hsign]
          dsimp only [List.cons_append]
          rw [if_pos hd, dropWhile_append_of_ne_nil hne]
      · cases h
    · exact (extends_pure trivial (e :: cs) u rest h).congr fun more =>
        (skipExponent_cons e _).trans (if_neg he)

/-- A fraction is passed over in a longer text, with the exponent behind it. -/
theorem extends_skipFraction : Extends Any skipFraction skipFraction := by
  intro cs u rest h
  cases cs with
  | nil =>
    cases h
    exact ⟨trivial, List.suffix_rfl, fun hne => absurd rfl hne⟩
  | cons c cs =>
    by_cases hc : c = '.'
    · -- A point is not the end of a number: a digit has to follow.
      obtain rfl := hc
      cases cs with
      | nil => cases h
      | cons d cs =>
        by_cases hd : d.isDigit = true
        · have hread : (digits >>= fun _ => skipExponent) cs = .ok (u, rest) :=
            (if_pos hd).symm.trans h
          have hextends := extends_digits.bind fun _ _ => extends_skipExponent
          exact (hextends cs u rest hread).cons₂ fun more => if_pos hd
        · cases (if_neg hd).symm.trans h
    · rw [skipFraction_of_ne hc] at h
      exact (extends_skipExponent _ u rest h).congr fun more => skipFraction_of_ne hc _

/-- A number is passed over in a longer text, unless the text ends with it. -/
theorem extends_skipNumber : Extends Any skipNumber skipNumber := by
  intro cs u rest h
  unfold skipNumber at h
  split at h
  · cases h
  · next c cs =>
    split_ifs at h with hzero hdigit
    · -- A zero is the only digit before the fraction.
      split at h
      · cases h
        exact ⟨trivial, List.nil_suffix, fun hne => absurd rfl hne⟩
      · next d cs =>
        split_ifs at h with hd
        obtain rfl := hzero
        refine (extends_skipFraction _ u rest h).cons fun more => skipNumber_zero ?_
        rintro _ ⟨⟩
        exact Bool.eq_false_iff.mpr hd
    · have hread : (digits >>= fun _ => skipFraction) cs = .ok (u, rest) := h
      have hextends := extends_digits.bind fun _ _ => extends_skipFraction
      exact (hextends cs u rest hread).cons fun more => (if_neg hzero).trans (if_pos hdigit)

/-- Values, elements and members are passed over with clocks that are long enough. -/
theorem extends_skip {clock clock' : Clock} (hle : clock.length ≤ clock'.length) :
    Extends Any (skipValue clock) (skipValue clock') ∧
      Extends Any (skipElements clock) (skipElements clock') ∧
      Extends Any (skipMember clock) (skipMember clock') ∧
      Extends Any (skipMembers clock) (skipMembers clock') := by
  have hfail : ∀ cause, Extends Any (failNext cause : Reader Unit) (failNext cause) := fun cause =>
    (fails_failNext cause).extends
  -- Each of the four calls others of them with the clock that is left, so all are shown at once.
  induction clock generalizing clock' with
  | nil =>
    exact ⟨(fails_failNext .endInValue).extends, (fails_failNext .endInList).extends,
      (fails_failNext .endInObject).extends, (fails_failNext .endInObject).extends⟩
  | cons t clock ih =>
    obtain ⟨t', clock', rfl⟩ := List.exists_cons_of_length_pos (Nat.zero_lt_of_lt hle)
    obtain ⟨hvalue, helements, hmember, hmembers⟩ := ih (Nat.le_of_succ_le_succ hle)
    have hword : ∀ w, Extends Any (take >>= fun _ => word w) (take >>= fun _ => word w) := fun w =>
      extends_take.bind fun _ _ => extends_word w
    have hstring : Extends Any skipStringBody skipStringBody :=
      Extends.of_clock fun _ _ hle => extends_skipString hle
    refine ⟨?_, ?_, ?_, ?_⟩
    · refine extends_nextToken.bind fun next _ => ?_
      split
      · exact hfail _
      · exact hword _
      · exact hword _
      · exact hword _
      · exact extends_take.bind fun _ _ => extends_skipNumber
      · exact extends_take.bind fun _ _ => hstring
      · refine extends_take.bind fun _ _ => extends_nextToken.bind fun next _ => ?_
        split
        · exact extends_take
        · exact hfail _
        · exact hvalue.bind fun _ _ => helements
      · refine extends_take.bind fun _ _ => extends_nextToken.bind fun next _ => ?_
        split
        · exact extends_take
        · exact hfail _
        · exact hmember.bind fun _ _ => hmembers
      · exact .ite (fun _ => extends_skipNumber) fun _ => hfail _
    · refine extends_nextToken.bind fun next _ => ?_
      split
      · exact extends_take.bind fun _ _ => hvalue.bind fun _ _ => helements
      · exact extends_take
      · exact hfail _
      · exact hfail _
    · refine extends_nextToken.bind fun next _ => ?_
      split
      · exact extends_take.bind fun _ _ => hstring.bind fun _ _ =>
          extends_colon.bind fun _ _ => hvalue
      · exact hfail _
      · exact hfail _
    · refine extends_nextToken.bind fun next _ => ?_
      split
      · exact extends_take.bind fun _ _ => hmember.bind fun _ _ => hmembers
      · exact extends_take
      · exact hfail _
      · exact hfail _

/-- A value that is passed over is passed over in a longer text, whose clock is longer. -/
theorem extends_skipAny : Extends Any skipAny skipAny :=
  Extends.of_clock fun _ _ hle => (extends_skip hle).1

/-! ## Numbers, words and lists -/

/-- A natural number that is read has at most 64 bits. -/
theorem extends_readNat : Extends (· ≤ maxNat64) readNat readNat := by
  refine extends_nextToken.bind fun next _ => ?_
  split
  · exact (fails_failNext _).extends
  · refine .ite (fun _ => .ite (fun _ => extends_take.bind fun _ _ => ?_) fun _ => ?_) fun _ =>
      (fails_wrongKind _).extends
    all_goals
      refine (extends_number _).bind fun x hx => ?_
      split
      · exact extends_pure (hx _ rfl)
      · exact (fails_complain _).extends
      · exact (fails_complain _).extends

/-- A text is read from longer texts too, whatever it is called in messages. -/
theorem extends_readTextAs (expected : String) :
    Extends Any (readTextAs expected) (readTextAs expected) := by
  refine extends_nextToken.bind fun next _ => ?_
  split
  · exact (fails_failNext _).extends
  · exact extends_take.bind fun _ _ => extends_stringBody
  · exact (fails_wrongKind _).extends

/-- The word for nothing is read from longer texts too. -/
theorem extends_readNothing : Extends Any readNothing readNothing := by
  refine extends_nextToken.bind fun next _ => ?_
  split
  · exact (fails_failNext _).extends
  · exact extends_take.bind fun _ _ => extends_word _
  · exact (fails_wrongKind _).extends

/-- A word is read from longer texts too, be it alone or the only member of an object. -/
theorem extends_readWord (ofWord : String → α) :
    Extends Any (readWord ofWord) (readWord ofWord) := by
  refine extends_nextToken.bind fun next _ => ?_
  split
  · exact (extends_readTextAs _).map fun _ _ => trivial
  · refine extends_take.bind fun _ _ => (extends_readTextAs _).bind fun w _ =>
      extends_colon.bind fun _ _ => extends_readNothing.bind fun _ _ =>
        extends_nextToken.bind fun next _ => ?_
    split
    · exact extends_take.bind fun _ _ => extends_pure trivial
    · exact (fails_failHere _).extends
    · exact (fails_failHere _).extends
  · exact (fails_failNext _).extends
  · exact (fails_failNext _).extends

/-- Whether a list goes on is the same in a longer text, if something is left. -/
theorem extends_nextElement (first : Bool) :
    Extends Any (nextElement first) (nextElement first) := by
  refine extends_nextToken.bind fun next _ => ?_
  split
  · exact (fails_failNext _).extends
  · exact extends_pure trivial
  · refine .ite (fun _ => extends_pure trivial) fun _ => .ite (fun _ => ?_) fun _ => ?_
    · refine extends_take.bind fun _ _ => extends_nextToken.bind fun next _ => ?_
      split
      · exact (fails_failNext _).extends
      · exact extends_pure trivial
      · exact (fails_failNext _).extends
    · exact (fails_failNext _).extends

/-- Where a list has to end, nothing but its bracket is read. -/
theorem extends_endList : Extends Any endList endList := by
  refine extends_nextToken.bind fun next _ => ?_
  split
  · exact extends_take
  · refine Fails.extends (.bind fun _ => .bind fun next => ?_)
    split
    · exact fails_failNext _
    · exact fails_failNext _
  · exact (fails_failNext _).extends
  · exact (fails_failNext _).extends

section

variable {P : α → Prop} {read : Reader α} (hread : Extends P read read)
include hread

/-- An option of a value is read as the value is, unless it is nothing. -/
theorem extends_readOption :
    Extends (fun o => ∀ a ∈ o, P a) (readOption read) (readOption read) := by
  refine extends_nextToken.bind fun next _ => ?_
  split
  · refine extends_take.bind fun _ _ => (extends_word _).bind fun _ _ => extends_pure ?_
    rintro _ ⟨⟩
  · refine hread.map fun a ha => ?_
    rintro _ ⟨⟩
    exact ha

/-- Elements are read one by one from a longer text, whose clock is longer, each with the property.
-/
theorem extends_readElements {clock clock' : Clock} (hle : clock.length ≤ clock'.length)
    (first : Bool) : Extends (fun as => ∀ a ∈ as, P a) (readElements read clock first)
      (readElements read clock' first) := by
  induction clock generalizing clock' first with
  | nil => exact (fails_failNext _).extends
  | cons t clock ih =>
    obtain ⟨t', clock', rfl⟩ := List.exists_cons_of_length_pos (Nat.zero_lt_of_lt hle)
    refine (extends_nextElement first).bind fun goesOn _ => .ite (fun _ => ?_) fun _ => ?_
    · refine hread.bind fun a ha => (ih (Nat.le_of_succ_le_succ hle) false).bind fun as has => ?_
      exact extends_pure (List.forall_mem_cons.mpr ⟨ha, has⟩)
    · exact extends_pure fun _ h => absurd h List.not_mem_nil

/-- The elements of a list are read from longer texts too, each with the property. -/
theorem extends_readList :
    Extends (fun as => ∀ a ∈ as, P a) (readList read) (readList read) := by
  refine extends_nextToken.bind fun next _ => ?_
  split
  · exact (fails_failNext _).extends
  · have helements := Extends.of_clock fun _ _ hle => extends_readElements hread hle true
    exact extends_take.bind fun _ _ => helements.bind fun as has =>
      extends_endList.bind fun _ _ => extends_pure has
  · exact (fails_wrongKind _).extends

end

/-- An option of a text is read from longer texts too. -/
theorem extends_optionText : Extends Any (readOption readText) (readOption readText) :=
  (extends_readOption (extends_readTextAs "a string")).mono fun _ _ => trivial

/-- A list ends with a bracket. -/
theorem endList_eq_ok {cs rest : List Char} (h : endList cs = .ok ((), rest)) :
    ∃ s, Spaces s ∧ cs = s ++ ']' :: rest := by
  obtain ⟨next, left, hnext, hleft⟩ := Reader.bind_eq_ok h
  obtain ⟨hhead, s, hs, rfl⟩ := nextToken_eq_ok hnext
  refine ⟨s, hs, ?_⟩
  split at hleft
  · obtain ⟨left, rfl⟩ := List.head?_eq_some_iff.mp hhead
    cases hleft
    rfl
  · refine absurd hleft (Fails.ne_ok (.bind fun _ => .bind fun next => ?_))
    split
    · exact fails_failNext _
    · exact fails_failNext _
  · cases hleft
  · cases hleft

/-- At its bracket a list ends, whatever comes behind it. -/
theorem endList_append {s : List Char} (hs : Spaces s) (rest : List Char) :
    endList (s ++ ']' :: rest) = .ok ((), rest) := by
  unfold endList
  rw [Reader.bind_of_ok (nextToken_append hs rfl rest)]
  rfl

/-- A list is read from a longer text even if nothing was left after it. -/
theorem readList_append {P : α → Prop} {read : Reader α} (hread : Extends P read read)
    {cs rest : List Char} {as : List α} (h : readList read cs = .ok (as, rest)) (more : List Char) :
    readList read (cs ++ more) = .ok (as, rest ++ more) := by
  obtain ⟨next, left, hnext, h⟩ := Reader.bind_eq_ok h
  have hhead := (nextToken_eq_ok hnext).1
  split at h
  · cases h
  · obtain ⟨inner, rfl⟩ := List.head?_eq_some_iff.mp hhead
    obtain ⟨_, _, ⟨⟩, h⟩ := Reader.bind_eq_ok h
    obtain ⟨as, mid, helements, h⟩ := Reader.bind_eq_ok h
    obtain ⟨_, rest, hend, ⟨⟩⟩ := Reader.bind_eq_ok h
    obtain ⟨s, hs, rfl⟩ := endList_eq_ok hend
    -- What is left of each reader on the way at least goes on with the bracket.
    have hbracket : s ++ ']' :: rest ≠ [] :=
      List.append_ne_nil_of_right_ne_nil s (List.cons_ne_nil _ _)
    have hnext' := (extends_nextToken _ _ _ hnext).append (List.cons_ne_nil _ _) more
    have helements' := (Extends.of_clock (fun _ _ hle => extends_readElements hread hle true) _ _ _
      helements).append hbracket more
    have hend' := endList_append hs (rest ++ more)
    rw [List.append_assoc] at helements'
    unfold readList
    rw [Reader.bind_of_ok hnext']
    show (take >>= fun _ => (fun rest => readElements read (clockFor rest) true rest :
      Reader (List α)) >>= fun as => endList >>= fun _ => pure as) _ = _
    rw [List.cons_append, Reader.bind_of_ok (take_cons _ _)]
    refine (Reader.bind_of_ok (x := fun rest => readElements read (clockFor rest) true rest)
      helements').trans ?_
    exact Reader.bind_of_ok hend'
  · exact absurd h (fails_wrongKind _).ne_ok

/-! ## Records -/

namespace Record

variable {ρ : Type} {Inv : ρ → Prop} {r : Record ρ}

/-- A member that is there twice is a fault, whatever its second value is. -/
theorem fails_stopAtDuplicate (name : String) : Fails (stopAtDuplicate name : Reader ρ) := by
  refine .bind fun next => .ite ?_ (fails_complain _)
  exact .bind fun _ => fails_complain _

/-- Every field keeps what is true of the record before it, and is read from longer texts. -/
def Keeps (Inv : ρ → Prop) (fields : List (Field ρ)) : Prop :=
  ∀ f ∈ fields, ∀ acc, Inv acc → Extends Inv (f.store acc) (f.store acc)

/-- The field of a value that is read and put in its place. -/
theorem Keeps.cons {α : Type} {P : α → Prop} {read : Reader α} {set : ρ → α → ρ} {name : String}
    {inObject inList : Bool} {fields : List (Field ρ)} (hread : Extends P read read)
    (hset : ∀ r a, Inv r → P a → Inv (set r a)) (h : Keeps Inv fields) :
    Keeps Inv (⟨name, fun r => set r <$> read, inObject, inList⟩ :: fields) :=
  List.forall_mem_cons.mpr ⟨fun r hr => hread.map fun a => hset r a hr, h⟩

/-- The field of a value of which nothing has to be known. -/
theorem Keeps.cons_any {α : Type} {P : α → Prop} {read : Reader α} {set : ρ → α → ρ} {name : String}
    {inObject inList : Bool} {fields : List (Field ρ)} (hread : Extends P read read)
    (h : Keeps Any fields) :
    Keeps Any (⟨name, fun r => set r <$> read, inObject, inList⟩ :: fields) :=
  .cons hread (fun _ _ _ _ => trivial) h

/-- Where there are no fields, nothing is changed. -/
theorem keeps_nil : Keeps Inv [] := fun _ h => absurd h List.not_mem_nil

/-- The values of a record that is written as a list are read in turn, and each keeps what is true
of the record. -/
theorem extends_readPositional {fields : List (Field ρ)} (hfields : Keeps Inv fields) (i : ℕ)
    (first : Bool) {acc : ρ} (hacc : Inv acc) :
    Extends Inv (r.readPositional i fields first acc) (r.readPositional i fields first acc) := by
  induction fields generalizing i first acc with
  | nil => exact extends_endList.bind fun _ _ => extends_pure hacc
  | cons f fields ih =>
    refine (extends_nextElement first).bind fun goesOn _ => .ite (fun _ => ?_) fun _ => ?_
    · have hf := hfields f List.mem_cons_self acc hacc
      exact hf.bind fun acc hacc =>
        ih (fun g hg => hfields g (List.mem_cons_of_mem f hg)) (i + 1) false hacc
    · refine extends_endList.bind fun _ _ => ?_
      split
      · exact (fails_complain _).extends
      · exact extends_pure hacc

variable (hfields : Keeps Inv r.fields)
include hfields

/-- A member is stored in its field, or passed over if there is no such field, and what is true of
the record is kept. -/
theorem extends_readMember (seen : List String) {acc : ρ} (hacc : Inv acc) :
    Extends (fun p => Inv p.1) (r.readMember seen acc) (r.readMember seen acc) := by
  refine extends_take.bind fun _ _ => extends_stringBody.bind fun name _ => ?_
  split
  · exact extends_colon.bind fun _ _ => extends_skipAny.bind fun _ _ => extends_pure hacc
  · next f hfind =>
    refine .ite (fun _ => (fails_stopAtDuplicate name).extends) fun _ => ?_
    have hf := hfields f (List.mem_of_find?_eq_some hfind) acc hacc
    exact extends_colon.bind fun _ _ => hf.bind fun acc hacc => extends_pure hacc

/-- Members are read one by one, and what is true of the record is kept. -/
theorem extends_readMembers {clock clock' : Clock} (hle : clock.length ≤ clock'.length)
    (first : Bool) (seen : List String) {acc : ρ} (hacc : Inv acc) :
    Extends Inv (r.readMembers clock first seen acc) (r.readMembers clock' first seen acc) := by
  induction clock generalizing clock' first seen acc with
  | nil => exact (fails_failNext _).extends
  | cons t clock ih =>
    obtain ⟨t', clock', rfl⟩ := List.exists_cons_of_length_pos (Nat.zero_lt_of_lt hle)
    -- A member and those behind it, which is where the braces and commas lead to below.
    have hmember : Extends Inv
        (r.readMember seen acc >>= fun p => r.readMembers clock false p.2 p.1)
        (r.readMember seen acc >>= fun p => r.readMembers clock' false p.2 p.1) :=
      (extends_readMember hfields seen hacc).bind fun p hp =>
        ih (Nat.le_of_succ_le_succ hle) false p.2 hp
    refine extends_nextToken.bind fun next _ => ?_
    split
    · exact (fails_failNext _).extends
    · refine extends_take.bind fun _ _ => ?_
      split
      · exact (fails_complain _).extends
      · exact extends_pure hacc
    · refine .ite (fun _ => ?_) fun _ => ?_
      · exact .ite (fun _ => hmember) fun _ => (fails_failNext _).extends
      · refine .ite (fun _ => ?_) fun _ => (fails_failNext _).extends
        refine extends_take.bind fun _ _ => extends_nextToken.bind fun next _ => ?_
        split
        · exact hmember
        · exact (fails_failNext _).extends
        · exact (fails_failNext _).extends
        · exact (fails_failNext _).extends

/-- A record is read from longer texts too, and what is true of it at the start and kept by every
field is true of what is read. -/
theorem extends_read (hstart : Inv r.start) : Extends Inv r.read r.read := by
  refine extends_nextToken.bind fun next _ => ?_
  split
  · exact (fails_failNext _).extends
  · exact extends_take.bind fun _ _ => extends_readPositional hfields 0 true hstart
  · exact extends_take.bind fun _ _ =>
      Extends.of_clock fun _ _ hle => extends_readMembers hfields hle true [] hstart
  · exact (fails_wrongKind _).extends

end Record

/-! ## Whole texts -/

/-- What is read by a reader and changed by a function has been read by the reader. -/
theorem exists_of_map_eq_ok {ε β : Type} {x : Except ε α} {f : α → β} {b : β}
    (h : f <$> x = .ok b) : ∃ a, x = .ok a ∧ f a = b := by
  cases x with
  | error e => cases h
  | ok a => exact ⟨a, rfl, Except.ok.inj h⟩

/-- A text is read as a whole if only blanks are left of it. -/
theorem parse_eq_ok_iff {read : Reader α} {text : String} {a : α} :
    parse read text = .ok a ↔ ∃ rest, read text.toList = .ok (a, rest) ∧ Spaces rest := by
  rw [Json.parse_eq]
  constructor
  · intro h
    obtain ⟨⟨_, _⟩, hwhole, rfl⟩ := exists_of_map_eq_ok h
    obtain ⟨a, rest, hread, hend⟩ := Reader.bind_eq_ok hwhole
    obtain ⟨next, left, hnext, hleft⟩ := Reader.bind_eq_ok hend
    obtain ⟨hhead, s, hs, rfl⟩ := nextToken_eq_ok hnext
    split at hleft
    · obtain rfl := List.head?_eq_none_iff.mp hhead
      cases hleft
      exact ⟨_, hread, by rwa [List.append_nil]⟩
    · cases hleft
  · rintro ⟨rest, hread, hrest⟩
    rw [Reader.bind_of_ok hread, Reader.bind_of_ok (nextToken_spaces hrest)]
    rfl

end Fettle.Json
