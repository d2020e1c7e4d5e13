import Fettle.Proofs.Json.Reading

/-!
# Passing over what nobody asks for

A value that is not asked for is passed over from each of its spellings, however deeply it is nested
(`skipAny_reads`). Lists and objects are passed over in the same way (`Nest`): by induction on their
items, with a clock that is at least as long as the text of what is still to come.
-/

namespace Fettle.Json

/-! ## Strings -/

/-- Four digits after a backslash are passed over. -/
theorem skipString_of_number {n : ℕ} {cs rest : List Char} (h : takeFourHex cs = .ok (n, rest))
    (t : Char) (clock : Clock) :
    skipString (t :: clock) ('\\' :: 'u' :: cs) = skipString clock rest := by
  conv_lhs => unfold skipString
  dsimp only
  rw [if_neg (by decide), if_pos rfl, if_neg (by decide), if_pos rfl, h]

/-- The rest of a string is passed over. -/
theorem skipString_of_stringBody {body : List Char} (h : StringBody body) (clock : Clock)
    (hclock : body.length < clock.length) (rest : List Char) :
    skipString clock (body ++ '"' :: rest) = .ok ((), rest) := by
  obtain ⟨t, clock, rfl⟩ := List.exists_cons_of_length_pos (Nat.zero_lt_of_lt hclock)
  -- One unit of the clock serves one step, and each step takes at least one character.
  induction h generalizing t clock with
  | nil => rfl
  | @plain c more h hmore ih =>
    obtain ⟨hquote, hbackslash, hcontrol⟩ := h
    have hclock' : more.length < clock.length := Nat.lt_of_succ_lt_succ hclock
    obtain ⟨t', clock, rfl⟩ := List.exists_cons_of_length_pos (Nat.zero_lt_of_lt hclock')
    show (if c = '"' then _ else if c = '\\' then _ else if c.toNat < 32 then _ else
      skipString (t' :: clock) (more ++ '"' :: rest)) = _
    rw [if_neg hquote, if_neg hbackslash, if_neg (Nat.not_lt.mpr hcontrol), ih t' clock hclock']
  | @letter l c more h hmore ih =>
    have hclock' : more.length < clock.length := by
      rw [List.length_cons, List.length_cons, List.length_cons] at hclock
      omega
    obtain ⟨t', clock, rfl⟩ := List.exists_cons_of_length_pos (Nat.zero_lt_of_lt hclock')
    have hsome : (letterEscape l).isSome = true := by rw [letterEscape_of_mem h]; rfl
    show (if (letterEscape l).isSome then skipString (t' :: clock) (more ++ '"' :: rest) else _) = _
    rw [if_pos hsome, ih t' clock hclock']
  | @number n cs more h hmore ih =>
    have hclock' : more.length < clock.length := by
      rw [List.length_append, List.length_cons, List.length_cons, List.length_cons] at hclock
      omega
    obtain ⟨t', clock, rfl⟩ := List.exists_cons_of_length_pos (Nat.zero_lt_of_lt hclock')
    rw [List.append_assoc]
    exact (skipString_of_number (takeFourHex_append h _) t _).trans (ih t' clock hclock')

/-- What follows the opening quote of a string is passed over. -/
theorem skipStringBody_append {body : List Char} (h : StringBody body) (rest : List Char) :
    skipStringBody (body ++ '"' :: rest) = .ok ((), rest) := by
  refine skipString_of_stringBody h _ ?_ rest
  rw [clockFor, List.length_cons, List.length_append]
  omega

/-! ## Numbers -/

/-- A text that does not go on with a digit. -/
def NoDigit (cs : List Char) : Prop := ∀ c, cs.head? = some c → c.isDigit = false

/-- A delimiter is no digit. -/
theorem Delimited.noDigit {rest : List Char} (h : Delimited rest) : NoDigit rest := fun _ hc =>
  (h.ends_number hc).1

/-- An exponent does not begin with a digit, nor does what follows where there is none. -/
theorem ExponentText.noDigit {cs rest : List Char} (h : ExponentText cs) (hrest : Delimited rest) :
    NoDigit (cs ++ rest) := by
  rcases h with rfl | ⟨e, sign, ds, he, -, -, rfl⟩
  · exact hrest.noDigit
  · rintro _ ⟨⟩
    rcases he with rfl | rfl <;> rfl

/-- A fraction does not begin with a digit, nor does what follows where there is none. -/
theorem FractionText.noDigit {cs cs' rest : List Char} (h : FractionText cs)
    (h' : ExponentText cs') (hrest : Delimited rest) : NoDigit (cs ++ (cs' ++ rest)) := by
  rcases h with rfl | ⟨ds, -, rfl⟩
  · exact h'.noDigit hrest
  · rintro _ ⟨⟩
    rfl

/-- What is left of an exponent when its sign is taken, if it has one. -/
def afterSign : List Char → List Char
  | '+' :: rest => rest
  | '-' :: rest => rest
  | rest => rest

/-- Behind a sign, or without one, stands the first digit. -/
theorem afterSign_append {sign : List Char} (hsign : sign = [] ∨ sign = ['+'] ∨ sign = ['-'])
    {d : Char} (hd : d.isDigit = true) (rest : List Char) :
    afterSign (sign ++ d :: rest) = d :: rest := by
  rcases hsign with rfl | rfl | rfl
  · rw [List.nil_append]
    unfold afterSign
    split
    · next heq => cases heq; cases hd
    · next heq => cases heq; cases hd
    · rfl
  · rfl
  · rfl

/-- An exponent is passed over if its letter stands there, and must then have a digit. -/
theorem skipExponent_cons (e : Char) (cs : List Char) :
    skipExponent (e :: cs) =
      if e = 'e' ∨ e = 'E' then
        match afterSign cs with
        | d :: rest => if d.isDigit then .ok ((), rest.dropWhile Char.isDigit)
          else .error ⟨.invalidNumber, afterSign cs, 1⟩
        | [] => .error ⟨.invalidNumber, [], 0⟩
      else .ok ((), e :: cs) := rfl

/-- An exponent is passed over. -/
theorem skipExponent_append {cs rest : List Char} (h : ExponentText cs) (hrest : Delimited rest) :
    skipExponent (cs ++ rest) = .ok ((), rest) := by
  rcases h with rfl | ⟨e, sign, ds, he, hsign, ⟨hnil, hds⟩, rfl⟩
  · cases rest with
    | nil => rfl
    | cons c rest =>
      obtain ⟨-, -, he, hE⟩ := hrest.ends_number (c := c) rfl
      exact if_neg (not_or.mpr ⟨he, hE⟩)
  · obtain ⟨d, ds, rfl⟩ := List.exists_cons_of_ne_nil hnil
    have hd := hds d List.mem_cons_self
    have hdrop := (takeWhile_digits (fun c hc => hds c (List.mem_cons_of_mem d hc))
      hrest.noDigit).2
    rw [List.cons_append, List.append_assoc, List.cons_append, skipExponent_cons, if_pos he,
      afterSign_append hsign hd]
    dsimp only
    rw [if_pos hd, hdrop]

/-- The digits after a decimal point and an exponent are passed over. -/
theorem skipFraction_append {cs cs' rest : List Char} (h : FractionText cs)
    (h' : ExponentText cs') (hrest : Delimited rest) :
    skipFraction (cs ++ (cs' ++ rest)) = .ok ((), rest) := by
  rcases h with rfl | ⟨ds, ⟨hnil, hds⟩, rfl⟩
  · -- No decimal point begins what follows.
    have hpoint : (cs' ++ rest).head? ≠ some '.' := by
      rcases h' with rfl | ⟨e, sign, ds, rfl | rfl, -, -, rfl⟩
      · exact fun hc => (hrest.ends_number hc).2.1 rfl
      · exact fun hc => absurd (Option.some.inj hc) (by decide)
      · exact fun hc => absurd (Option.some.inj hc) (by decide)
    rw [List.nil_append]
    have hskip := skipExponent_append h' hrest
    generalize cs' ++ rest = tail at hpoint hskip ⊢
    unfold skipFraction
    split
    · exact absurd rfl hpoint
    · exact absurd rfl hpoint
    · exact hskip
  · obtain ⟨d, ds, rfl⟩ := List.exists_cons_of_ne_nil hnil
    have hdrop := (takeWhile_digits (fun c hc => hds c (List.mem_cons_of_mem d hc))
      (h'.noDigit hrest)).2
    show (if d.isDigit then skipExponent ((ds ++ (cs' ++ rest)).dropWhile Char.isDigit)
      else _) = _
    rw [if_pos (hds d List.mem_cons_self), hdrop, skipExponent_append h' hrest]

/-- A zero is passed over if no digit follows it. -/
theorem skipNumber_zero {cs : List Char} (h : NoDigit cs) :
    skipNumber ('0' :: cs) = skipFraction cs := by
  cases cs with
  | nil => rfl
  | cons d cs =>
    show (if d.isDigit then _ else skipFraction (d :: cs)) = _
    rw [h d rfl, if_neg Bool.false_ne_true]

/-- A number whose sign is taken is passed over. -/
theorem skipNumber_append {whole cs cs' rest : List Char} (h : WholeText whole)
    (hcs : FractionText cs) (hcs' : ExponentText cs') (hrest : Delimited rest) :
    skipNumber (whole ++ (cs ++ (cs' ++ rest))) = .ok ((), rest) := by
  obtain ⟨⟨hnil, hds⟩, hzero⟩ := h
  obtain ⟨c, ds, rfl⟩ := List.exists_cons_of_ne_nil hnil
  have hnext := hcs.noDigit hcs' hrest
  have hskip := skipFraction_append hcs hcs' hrest
  -- A zero stands alone; any other digit is followed by more digits or none.
  by_cases hc : c = '0'
  · obtain rfl := hc
    obtain rfl : ds = [] := (List.cons.inj (hzero rfl)).2
    exact (skipNumber_zero hnext).trans hskip
  · have hdrop := (takeWhile_digits (fun d hd => hds d (List.mem_cons_of_mem c hd)) hnext).2
    show (if c = '0' then _ else if c.isDigit then
      skipFraction ((ds ++ (cs ++ (cs' ++ rest))).dropWhile Char.isDigit) else _) = _
    rw [if_neg hc, if_pos (hds c List.mem_cons_self), hdrop, hskip]

/-! ## Values -/

/-- A reader with a clock passes over a text as soon as its clock is as long as the text. -/
def Skips (skip : Clock → Reader Unit) (cs : List Char) : Prop :=
  ∀ clock, cs.length ≤ clock.length → Reads (skip clock) () cs

/-- What any number begins with. -/
theorem NumberText.begins {cs : List Char} (h : NumberText cs) :
    ∃ c rest, cs = c :: rest ∧ (c = '-' ∨ c.isDigit = true) := by
  obtain ⟨sign, whole, cs, cs', rfl | rfl, ⟨⟨hnil, hds⟩, -⟩, -, -, rfl⟩ := h
  · obtain ⟨d, ds, rfl⟩ := List.exists_cons_of_ne_nil hnil
    exact ⟨d, _, rfl, .inr (hds d List.mem_cons_self)⟩
  · exact ⟨'-', _, rfl, .inl rfl⟩

/-- A scalar begins as a value does. -/
theorem ScalarText.begins {cs : List Char} (h : ScalarText cs) : Begins cs := by
  rcases h with rfl | rfl | rfl | h | ⟨body, -, rfl⟩
  · exact ⟨'n', _, rfl, rfl, by decide, by decide⟩
  · exact ⟨'t', _, rfl, rfl, by decide, by decide⟩
  · exact ⟨'f', _, rfl, rfl, by decide, by decide⟩
  · obtain ⟨c, rest, rfl, hc⟩ := h.begins
    have hc' : isSpace c = false ∧ c ≠ ']' ∧ c ≠ '\x7d' := by
      rcases hc with rfl | hc
      · exact ⟨rfl, by decide, by decide⟩
      · refine ⟨isSpace_of_isDigit hc, ?_, ?_⟩ <;> rintro rfl <;> exact absurd hc (by decide)
    exact ⟨c, rest, rfl, hc'⟩
  · exact ⟨'"', _, rfl, rfl, by decide, by decide⟩

/-- Every value begins as a value does. -/
theorem ValueText.begins {depth : ℕ} {cs : List Char} (h : ValueText depth cs) : Begins cs := by
  cases depth with
  | zero => exact ScalarText.begins h
  | succ depth =>
    rcases h with h | ⟨us, inner, -, rfl⟩ | ⟨us, inner, -, rfl⟩
    · exact h.begins
    · exact ⟨'[', _, rfl, rfl, by decide, by decide⟩
    · exact ⟨'\x7b', _, rfl, rfl, by decide, by decide⟩

/-- A member begins as a value does, with a quote. -/
theorem MemberText.begins {Item : List Char → Prop} {cs : List Char}
    (h : MemberText StringText Item cs) : Begins cs := by
  obtain ⟨_, s, s', value, ⟨body, -, rfl⟩, -, -, -, rfl⟩ := h
  exact ⟨'"', _, rfl, rfl, by decide, by decide⟩

/-- Blanks before a value are skipped. -/
theorem skipValue_blanks {c : Char} (hc : isSpace c = false) {s : List Char} (hs : Spaces s)
    (t : Char) (clock : Clock) (rest : List Char) :
    skipValue (t :: clock) (s ++ c :: rest) = skipValue (t :: clock) (c :: rest) := by
  unfold skipValue
  rw [Reader.bind_of_ok (nextToken_append hs hc rest), Reader.bind_of_ok (nextToken_cons hc rest)]

/-- A text is passed over if it is without blanks before it. -/
theorem Begins.skips {cs : List Char} (h : Begins cs)
    (hskip : ∀ t clock rest, Delimited rest → cs.length ≤ clock.length + 1 →
      skipValue (t :: clock) (cs ++ rest) = .ok ((), rest)) : Skips skipValue cs := by
  obtain ⟨c, more, rfl, hc, -⟩ := h
  intro clock hclock s rest hs hrest
  obtain ⟨t, clock, rfl⟩ := List.exists_cons_of_length_pos
    (Nat.lt_of_lt_of_le (Nat.succ_pos _) hclock : 0 < clock.length)
  rw [List.cons_append, skipValue_blanks hc hs]
  exact hskip t clock rest hrest hclock

/-- A digit begins a number without a sign. -/
theorem skipValue_of_isDigit {c : Char} (hc : c.isDigit = true) (t : Char) (clock : Clock)
    (rest : List Char) : skipValue (t :: clock) (c :: rest) = skipNumber (c :: rest) := by
  unfold skipValue
  rw [Reader.bind_of_ok (nextToken_cons (isSpace_of_isDigit hc) rest)]
  generalize hhead : some c = head
  split
  · cases hhead
  iterate 7
    · cases hhead
      exact absurd hc (by decide)
  · obtain rfl := Option.some.inj hhead
    exact congrFun (if_pos hc) _

/-- A value without elements or members is passed over. -/
theorem ScalarText.skips {cs : List Char} (h : ScalarText cs) : Skips skipValue cs := by
  refine h.begins.skips fun t clock rest hrest _ => ?_
  rcases h with rfl | rfl | rfl | ⟨sign, whole, cs, cs', hsign, hwhole, hcs, hcs', rfl⟩ |
    ⟨body, hbody, rfl⟩
  · rfl
  · rfl
  · rfl
  · have hskip := skipNumber_append hwhole hcs hcs' hrest
    rw [List.append_assoc, List.append_assoc, List.append_assoc]
    rcases hsign with rfl | rfl
    · obtain ⟨d, ds, rfl⟩ := List.exists_cons_of_ne_nil hwhole.1.1
      exact (skipValue_of_isDigit (hwhole.1.2 d List.mem_cons_self) t clock _).trans hskip
    · exact hskip
  · rw [List.append_assoc]
    exact skipStringBody_append hbody rest

/-! ## Lists and objects -/

/-- What passes over items between two brackets: one reader for each item, and one for the items
that remain and the closing bracket. -/
structure Nest (opening closing : Char) (item remaining : Clock → Reader Unit) : Prop where
  /-- A value may begin with the opening bracket. -/
  opens : Begins [opening]
  /-- The closing bracket is one of two. -/
  closes : closing = ']' ∨ closing = '\x7d'
  /-- No items stand between the brackets. -/
  empty : ∀ t clock s rest, Spaces s →
    skipValue (t :: clock) (opening :: (s ++ closing :: rest)) = .ok ((), rest)
  /-- The first item, and those that remain. -/
  first : ∀ t clock s c rest, Spaces s → isSpace c = false → c ≠ closing →
    skipValue (t :: clock) (opening :: (s ++ c :: rest)) =
      (item clock >>= fun _ => remaining clock) (c :: rest)
  /-- The next item, and those that remain. -/
  next : ∀ t clock s rest, Spaces s →
    remaining (t :: clock) (s ++ ',' :: rest) = (item clock >>= fun _ => remaining clock) rest
  /-- No items remain. -/
  last : ∀ t clock s rest, Spaces s → remaining (t :: clock) (s ++ closing :: rest) = .ok ((), rest)

/-- A list that is not read is empty, or has a first element. -/
theorem skipValue_list (t : Char) (clock : Clock) (rest : List Char) :
    skipValue (t :: clock) ('[' :: rest) =
      (nextToken >>= fun next => match next with
        | some ']' => take
        | none => failNext .endInList
        | some _ => skipValue clock >>= fun _ => skipElements clock) rest := by
  conv_lhs => unfold skipValue
  rw [Reader.bind_of_ok (nextToken_cons rfl _)]
  rfl

/-- The elements of a list between its brackets. -/
theorem nest_list : Nest '[' ']' skipValue skipElements where
  opens := ⟨'[', [], rfl, rfl, by decide, by decide⟩
  closes := .inl rfl
  empty t clock s rest hs := by
    rw [skipValue_list, Reader.bind_of_ok (nextToken_append hs rfl rest)]
    rfl
  first t clock s c rest hs hc hend := by
    rw [skipValue_list, Reader.bind_of_ok (nextToken_append hs hc rest)]
    generalize hhead : some c = head
    split
    · exact absurd (Option.some.inj hhead) hend
    · cases hhead
    · rfl
  next t clock s rest hs := by
    conv_lhs => unfold skipElements
    rw [Reader.bind_of_ok (nextToken_append hs rfl rest)]
    rfl
  last t clock s rest hs := by
    unfold skipElements
    rw [Reader.bind_of_ok (nextToken_append hs rfl rest)]
    rfl

/-- An object that is not read is empty, or has a first member. -/
theorem skipValue_object (t : Char) (clock : Clock) (rest : List Char) :
    skipValue (t :: clock) ('\x7b' :: rest) =
      (nextToken >>= fun next => match next with
        | some '\x7d' => take
        | none => failNext .endInObject
        | some _ => skipMember clock >>= fun _ => skipMembers clock) rest := by
  conv_lhs => unfold skipValue
  rw [Reader.bind_of_ok (nextToken_cons rfl _)]
  rfl

/-- The members of an object between its brackets. -/
theorem nest_object : Nest '\x7b' '\x7d' skipMember skipMembers where
  opens := ⟨'\x7b', [], rfl, rfl, by decide, by decide⟩
  closes := .inr rfl
  empty t clock s rest hs := by
    rw [skipValue_object, Reader.bind_of_ok (nextToken_append hs rfl rest)]
    rfl
  first t clock s c rest hs hc hend := by
    rw [skipValue_object, Reader.bind_of_ok (nextToken_append hs hc rest)]
    generalize hhead : some c = head
    split
    · exact absurd (Option.some.inj hhead) hend
    · cases hhead
    · rfl
  next t clock s rest hs := by
    conv_lhs => unfold skipMembers
    rw [Reader.bind_of_ok (nextToken_append hs rfl rest)]
    rfl
  last t clock s rest hs := by
    unfold skipMembers
    rw [Reader.bind_of_ok (nextToken_append hs rfl rest)]
    rfl

section

variable {opening closing : Char} {item remaining : Clock → Reader Unit}
  (hnest : Nest opening closing item remaining) {Item : List Char → Prop}
  (hitem : ∀ cs, Item cs → Skips item cs)
include hnest hitem

/-- Items are passed over one after another, and the closing bracket after them. -/
theorem Nest.skipItems_of_separated {us : List Unit} {cs : List Char}
    (h : Separated (fun _ => Item) us cs) (hus : us ≠ []) (clock : Clock)
    (hclock : cs.length < clock.length) (rest : List Char) :
    (item clock >>= fun _ => remaining clock) (cs ++ closing :: rest) = .ok ((), rest) := by
  -- Every item and the comma after it take at least one character and one step of the clock.
  induction h generalizing clock with
  | none hs => exact absurd rfl hus
  | @one u s cs s' hs hcs hs' =>
    rw [List.length_append, List.length_append] at hclock
    have hrest : Delimited (closing :: rest) := delimited_cons (.inr hnest.closes) rest
    rw [List.append_assoc, List.append_assoc,
      Reader.bind_of_ok (hitem cs hcs clock (by omega) s _ hs (hrest.append hs'))]
    obtain ⟨t, clock, rfl⟩ := List.exists_cons_of_length_pos (Nat.zero_lt_of_lt hclock)
    exact hnest.last t clock s' rest hs'
  | @more u v us s cs s' more hs hcs hs' hmore ih =>
    rw [List.length_append, List.length_append, List.length_append, List.length_cons] at hclock
    have hrest : Delimited (s' ++ ',' :: (more ++ closing :: rest)) :=
      (delimited_cons (.inl rfl) _).append hs'
    rw [List.append_assoc, List.append_assoc, List.append_assoc, List.cons_append,
      Reader.bind_of_ok (hitem cs hcs clock (by omega) s _ hs hrest)]
    obtain ⟨t, clock, rfl⟩ := List.exists_cons_of_length_pos (Nat.zero_lt_of_lt hclock)
    rw [List.length_cons] at hclock
    show remaining (t :: clock) _ = _
    rw [hnest.next t clock s' _ hs', ih (List.cons_ne_nil v us) clock (by omega)]

/-- Brackets and the items between them are passed over. -/
theorem Nest.skips (hbegins : ∀ cs, Item cs → Begins cs) {us : List Unit} {inner : List Char}
    (h : Separated (fun _ => Item) us inner) :
    Skips skipValue (opening :: inner ++ [closing]) := by
  have hopens : Begins (opening :: inner ++ [closing]) := by
    obtain ⟨_, _, ⟨rfl, -⟩, hc⟩ := hnest.opens
    exact ⟨opening, _, rfl, hc⟩
  refine hopens.skips fun t clock rest _ hclock => ?_
  rw [List.length_append, List.length_cons, List.length_cons, List.length_nil] at hclock
  rw [List.append_assoc, List.cons_append]
  cases us with
  | nil =>
    obtain ⟨hs⟩ := h
    exact hnest.empty t clock inner rest hs
  | cons u us =>
    obtain ⟨s, c, more, hs, rfl, ⟨hc, hlist, hobject⟩, hmore⟩ := h.begins fun _ => hbegins
    -- What begins an item is no closing bracket of either kind.
    have hend : c ≠ closing := by
      rcases hnest.closes with rfl | rfl
      exacts [hlist, hobject]
    rw [List.length_append] at hclock
    rw [List.append_assoc, List.cons_append, hnest.first t clock s c _ hs hc hend]
    exact hnest.skipItems_of_separated hitem hmore (List.cons_ne_nil u us) clock (by omega) rest

end

/-- A member is passed over if its value is. -/
theorem skipMember_skips {Item : List Char → Prop} (hitem : ∀ cs, Item cs → Skips skipValue cs)
    {cs : List Char} (h : MemberText StringText Item cs) : Skips skipMember cs := by
  obtain ⟨_, s, s', value, ⟨body, hbody, rfl⟩, hs, hs', hvalue, rfl⟩ := h
  intro clock hclock blanks rest hblanks hrest
  simp only [List.length_append, List.length_cons, List.length_nil] at hclock
  -- One step goes to the member, and its value is shorter by the name and the colon.
  obtain ⟨t, clock, rfl⟩ := List.exists_cons_of_length_pos
    (Nat.lt_of_lt_of_le (by omega) hclock : 0 < clock.length)
  rw [List.length_cons] at hclock
  have htext : '"' :: body ++ ['"'] ++ (s ++ ':' :: (s' ++ value)) ++ rest =
      '"' :: (body ++ '"' :: (s ++ ':' :: (s' ++ (value ++ rest)))) := by
    simp only [List.append_assoc, List.cons_append, List.nil_append]
  unfold skipMember
  rw [htext, Reader.bind_of_ok (nextToken_append hblanks rfl _)]
  show (take >>= fun _ => skipStringBody >>= fun _ => colon >>= fun _ => skipValue clock)
    ('"' :: (body ++ '"' :: (s ++ ':' :: (s' ++ (value ++ rest))))) = _
  rw [Reader.bind_of_ok (take_cons _ _), Reader.bind_of_ok (skipStringBody_append hbody _),
    Reader.bind_of_ok (colon_append hs _)]
  exact hitem value hvalue clock (by omega) s' rest hs' hrest

/-- Every value is passed over, however deeply it is nested. -/
theorem ValueText.skips {depth : ℕ} {cs : List Char} (h : ValueText depth cs) :
    Skips skipValue cs := by
  induction depth generalizing cs with
  | zero => exact ScalarText.skips h
  | succ depth ih =>
    rcases h with h | ⟨us, inner, h, rfl⟩ | ⟨us, inner, h, rfl⟩
    · exact h.skips
    · exact nest_list.skips (fun _ => ih) (fun _ => ValueText.begins) h
    · exact nest_object.skips (fun _ => skipMember_skips fun _ => ih)
        (fun _ => MemberText.begins) h

/-- A value that nobody asks for is passed over. -/
theorem skipAny_reads {depth : ℕ} {cs : List Char} (h : ValueText depth cs) :
    Reads skipAny () cs := by
  intro s rest hs hrest
  refine h.skips _ ?_ s rest hs hrest
  rw [clockFor, List.length_cons, List.length_append, List.length_append]
  omega

end Fettle.Json
