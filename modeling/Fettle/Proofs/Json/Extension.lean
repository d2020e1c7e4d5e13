import Fettle.Proofs.Json.Reading
import Mathlib.Data.List.TakeWhile

/-!
# Reading longer texts

A reader that leaves something of a text does not look past what it leaves: from a longer text it
reads the same value and leaves the same, with what the text is longer by after it. At the very end
of a text this may fail, since a number there could go on. `Extends` relates two readers in this
way, because a longer text is read with a longer clock, and says in passing what is true of every
value that is read. It has a rule for each way to build readers, and the readers of tokens, strings
and numbers are shown to extend themselves by the rules.
-/

namespace Fettle.Json

variable {α β : Type}

/-! ## Rules -/

/-- A reader that has read a value from a text and left the rest: the value has a property, the rest
is an end of the text, and if it is not empty, `read'` reads the same from every longer text. -/
structure Lasting (P : α → Prop) (read' : Reader α) (cs : List Char) (a : α) (rest : List Char) :
    Prop where
  /-- The value has the property. -/
  value : P a
  /-- What is left is an end of the text. -/
  suffix : rest <:+ cs
  /-- If something is left, a longer text is read like this one. -/
  append : rest ≠ [] → ∀ more, read' (cs ++ more) = .ok (a, rest ++ more)

/-- Whatever the first reader reads has a property, and the second one reads it from every longer
text, unless the text ends with it. -/
def Extends (P : α → Prop) (read read' : Reader α) : Prop :=
  ∀ cs a rest, read cs = .ok (a, rest) → Lasting P read' cs a rest

/-- A reader that reads nothing. -/
def Fails (read : Reader α) : Prop := ∀ cs, ∃ f, read cs = .error f

/-- After a reader that fails, nothing is read. -/
theorem Reader.bind_of_error {x : Reader α} {f : α → Reader β} {cs : List Char} {e : Fault}
    (h : x cs = .error e) : (x >>= f) cs = .error e := by
  show (x cs >>= fun p => f p.1 p.2) = _
  rw [h]
  rfl

/-- Two readers that follow each other have read something only if both have. -/
theorem Reader.bind_eq_ok {x : Reader α} {f : α → Reader β} {cs rest : List Char} {b : β}
    (h : (x >>= f) cs = .ok (b, rest)) :
    ∃ a mid, x cs = .ok (a, mid) ∧ f a mid = .ok (b, rest) := by
  cases hx : x cs with
  | error e =>
    rw [Reader.bind_of_error hx] at h
    cases h
  | ok p => exact ⟨p.1, p.2, rfl, (Reader.bind_of_ok hx).symm.trans h⟩

/-- A reader that fails has read nothing. -/
theorem Fails.ne_ok {read : Reader α} (h : Fails read) {cs : List Char} {p : α × List Char} :
    read cs ≠ .ok p := by
  obtain ⟨e, he⟩ := h cs
  rw [he]
  rintro ⟨⟩

/-- A reader after which all readers fail fails. -/
theorem Fails.bind {x : Reader α} {f : α → Reader β} (h : ∀ a, Fails (f a)) : Fails (x >>= f) := by
  intro cs
  cases hx : (x >>= f) cs with
  | error e => exact ⟨e, rfl⟩
  | ok p =>
    obtain ⟨a, mid, -, hf⟩ := Reader.bind_eq_ok hx
    exact absurd hf (h a).ne_ok

/-- To stop before the next character is to fail, -/
theorem fails_failHere (cause : Cause) : Fails (failHere cause : Reader α) := fun _ => ⟨_, rfl⟩

/-- and so it is to stop in it, -/
theorem fails_failNext (cause : Cause) : Fails (failNext cause : Reader α) := fun _ => ⟨_, rfl⟩

/-- or to stop because the data does not fit. -/
theorem fails_complain (complaint : Data.Complaint) : Fails (complain complaint : Reader α) :=
  fails_failHere _

/-- A value of the wrong kind is never read. -/
theorem fails_wrongKind (expected : String) : Fails (wrongKind expected : Reader α) := by
  unfold wrongKind
  refine Fails.bind fun cs => ?_
  split
  · exact .bind fun _ => .bind fun _ => fails_complain _
  · exact .bind fun _ => .bind fun _ => fails_complain _
  · exact .bind fun _ => .bind fun _ => fails_complain _
  · exact .bind fun _ => .bind fun _ => fails_complain _
  · exact .bind fun _ => .bind fun _ => fails_complain _
  · exact fails_complain _
  · exact fails_complain _
  · split
    · exact .bind fun _ => fails_complain _
    · exact fails_failNext _
  · exact fails_failNext _

/-- A choice between readers that fail fails. -/
theorem Fails.ite {p : Prop} [Decidable p] {x y : Reader α} (hx : Fails x) (hy : Fails y) :
    Fails (if p then x else y) := by
  split_ifs
  exacts [hx, hy]

section

variable {P Q : α → Prop} {read read' : Reader α}

/-- What fails extends to anything, as nothing is read by it. -/
theorem Fails.extends (h : Fails read) : Extends P read read' := fun _ _ _ hread =>
  absurd hread h.ne_ok

/-- A property of what is read may be weakened. -/
theorem Extends.mono (h : Extends P read read') (hPQ : ∀ a, P a → Q a) : Extends Q read read' := by
  intro cs a rest hread
  obtain ⟨hvalue, hsuffix, happend⟩ := h cs a rest hread
  exact ⟨hPQ a hvalue, hsuffix, happend⟩

/-- A reader that takes nothing takes nothing from a longer text. -/
theorem extends_pure {a : α} (h : P a) : Extends P (pure a) (pure a) := by
  rintro cs _ _ ⟨⟩
  exact ⟨h, List.suffix_rfl, fun _ _ => rfl⟩

end

/-- Two readers that follow each other extend if each of them does, the second one for all that the
first one may have read. -/
theorem Extends.bind {P : α → Prop} {Q : β → Prop} {x x' : Reader α} {f f' : α → Reader β}
    (hx : Extends P x x') (hf : ∀ a, P a → Extends Q (f a) (f' a)) :
    Extends Q (x >>= f) (x' >>= f') := by
  intro cs b rest h
  obtain ⟨a, mid, hxa, hfa⟩ := Reader.bind_eq_ok h
  obtain ⟨ha, hmid, hxappend⟩ := hx cs a mid hxa
  obtain ⟨hb, hrest, hfappend⟩ := hf a ha mid b rest hfa
  refine ⟨hb, hrest.trans hmid, fun hne more => ?_⟩
  -- If something is left in the end, something was left in between.
  have hmid_ne : mid ≠ [] := by
    rintro rfl
    exact hne (List.suffix_nil.mp hrest)
  rw [Reader.bind_of_ok (hxappend hmid_ne more)]
  exact hfappend hne more

/-- A reader whose value is changed by a function extends if the reader does. -/
theorem Extends.map {P : α → Prop} {Q : β → Prop} {x x' : Reader α} (hx : Extends P x x')
    {f : α → β} (hf : ∀ a, P a → Q (f a)) : Extends Q (f <$> x) (f <$> x') :=
  hx.bind fun a ha => extends_pure (hf a ha)

/-- A property that every value has. -/
abbrev Any (_ : α) : Prop := True

/-- A reader with a clock may be given the clock of the text. -/
theorem Extends.of_clock {P : α → Prop} {read : Clock → Reader α}
    (h : ∀ clock clock' : Clock, clock.length ≤ clock'.length →
      Extends P (read clock) (read clock')) :
    Extends P (fun rest => read (clockFor rest) rest) (fun rest => read (clockFor rest) rest) := by
  intro cs a rest hread
  have hle : ∀ more, (clockFor cs).length ≤ (clockFor (cs ++ more)).length := fun more => by
    rw [clockFor, clockFor, List.length_cons, List.length_cons, List.length_append]
    omega
  obtain ⟨hvalue, hsuffix, -⟩ := h _ _ (Nat.le_refl _) cs a rest hread
  exact ⟨hvalue, hsuffix, fun hne more => (h _ _ (hle more) cs a rest hread).append hne more⟩

/-- A reader may look at the whole text if that decides nothing of what it reads. -/
theorem extends_get {P : α → Prop} {f f' : List Char → Reader α}
    (h : ∀ cs cs', Extends P (f cs) (f' cs')) : Extends P (get >>= f) (get >>= f') := by
  intro cs a rest hread
  obtain ⟨hvalue, hsuffix, -⟩ := h cs cs cs a rest hread
  exact ⟨hvalue, hsuffix, fun hne more => (h cs (cs ++ more) cs a rest hread).append hne more⟩

/-- A choice extends if both readers do, where they are chosen. -/
theorem Extends.ite {P : α → Prop} {p : Prop} [Decidable p] {x x' y y' : Reader α}
    (hx : p → Extends P x x') (hy : ¬ p → Extends P y y') :
    Extends P (if p then x else y) (if p then x' else y') := by
  split_ifs with h
  exacts [hx h, hy h]

/-- A reader may look at the next character, whatever it decides. -/
theorem extends_head {P : α → Prop} {f f' : List Char → Reader α}
    (h : ∀ cs cs', cs'.head? = cs.head? → Extends P (f cs) (f' cs')) :
    Extends P (get >>= f) (get >>= f') := by
  intro cs a rest hread
  obtain ⟨hvalue, hsuffix, -⟩ := h cs cs rfl cs a rest hread
  refine ⟨hvalue, hsuffix, fun hne more => ?_⟩
  have hcs : cs ≠ [] := by
    rintro rfl
    exact hne (List.suffix_nil.mp hsuffix)
  exact (h cs (cs ++ more) (List.head?_append_of_ne_nil _ hcs) cs a rest hread).append hne more

/-- Readers that read the same from longer texts are alike in this. -/
theorem Lasting.congr {P : α → Prop} {read' x' : Reader α} {cs rest : List Char} {a : α}
    (h : Lasting P x' cs a rest) (hx : ∀ more, read' (cs ++ more) = x' (cs ++ more)) :
    Lasting P read' cs a rest :=
  ⟨h.value, h.suffix, fun hne more => (hx more).trans (h.append hne more)⟩

/-- What is read after the first character of a text. -/
theorem Lasting.cons {P : α → Prop} {read' x' : Reader α} {c : Char} {cs rest : List Char} {a : α}
    (h : Lasting P x' cs a rest) (hx : ∀ more, read' (c :: (cs ++ more)) = x' (cs ++ more)) :
    Lasting P read' (c :: cs) a rest :=
  ⟨h.value, h.suffix.trans (List.suffix_cons c cs), fun hne more =>
    (hx more).trans (h.append hne more)⟩

/-- What is read after the first two characters of a text. -/
theorem Lasting.cons₂ {P : α → Prop} {read' x' : Reader α} {c d : Char} {cs rest : List Char}
    {a : α} (h : Lasting P x' cs a rest)
    (hx : ∀ more, read' (c :: d :: (cs ++ more)) = x' (cs ++ more)) :
    Lasting P read' (c :: d :: cs) a rest := by
  have hsecond : Lasting P (fun cs => read' (c :: cs)) (d :: cs) a rest := h.cons hx
  exact hsecond.cons fun _ => rfl

/-! ## Tokens -/

/-- What is dropped from the front of a text is dropped from a longer one, if it ends there. -/
theorem dropWhile_append_of_ne_nil {p : Char → Bool} {cs : List Char} (h : cs.dropWhile p ≠ [])
    (more : List Char) : (cs ++ more).dropWhile p = cs.dropWhile p ++ more := by
  rw [List.dropWhile_append, List.isEmpty_eq_false_iff.mpr h]
  rfl

/-- Blanks are passed over up to the next token, which is there if something is left. -/
theorem extends_nextToken : Extends Any nextToken nextToken := by
  rintro cs _ _ ⟨⟩
  refine ⟨trivial, List.dropWhile_suffix _, fun hne more => ?_⟩
  show Except.ok _ = _
  rw [dropWhile_append_of_ne_nil hne, List.head?_append_of_ne_nil _ hne]

/-- The next token is what follows the blanks at the front. -/
theorem nextToken_eq_ok {cs left : List Char} {next : Option Char}
    (h : nextToken cs = .ok (next, left)) : left.head? = next ∧ ∃ s, Spaces s ∧ cs = s ++ left := by
  cases h
  refine ⟨rfl, cs.takeWhile isSpace, fun c hc => ?_, List.takeWhile_append_dropWhile.symm⟩
  exact isSpace_iff.mp (List.mem_takeWhile_imp hc)

/-- A character is taken. -/
theorem extends_take : Extends Any take take := by
  rintro cs _ _ ⟨⟩
  refine ⟨trivial, List.tail_suffix cs, fun hne more => ?_⟩
  cases cs with
  | nil => exact absurd rfl hne
  | cons c cs => rfl

/-- A word is taken character by character. -/
theorem extends_word (w : List Char) : Extends Any (word w) (word w) := by
  induction w with
  | nil => exact extends_pure trivial
  | cons c w ih =>
    intro cs u rest h
    unfold word at h
    split at h
    · cases h
    · next d cs =>
      split_ifs at h with hd
      exact (ih cs u rest h).cons fun more => if_pos hd

/-- A colon is taken, after blanks. -/
theorem extends_colon : Extends Any colon colon := by
  refine extends_nextToken.bind fun o _ => ?_
  split
  · exact extends_take
  · exact (fails_failNext _).extends
  · exact (fails_failNext _).extends

/-! ## Strings -/

/-- Four digits are the first four characters of a text, and only these matter. -/
theorem exists_of_fourHex {cs : List Char} {n : ℕ} (h : fourHex cs = some n) :
    ∃ a b c d rest, cs = a :: b :: c :: d :: rest ∧
      ∀ rest', fourHex (a :: b :: c :: d :: rest') = some n := by
  unfold fourHex at h
  split at h
  · exact ⟨_, _, _, _, _, rfl, fun _ => h⟩
  · cases h

/-- Four digits are taken. -/
theorem extends_takeFourHex : Extends Any takeFourHex takeFourHex := by
  intro cs n rest h
  unfold takeFourHex at h
  split at h
  · next hn =>
    obtain ⟨a, b, c, d, rest', rfl, hfour⟩ := exists_of_fourHex hn
    cases h
    refine ⟨trivial, ⟨[a, b, c, d], rfl⟩, fun _ more => ?_⟩
    unfold takeFourHex
    rw [List.cons_append, List.cons_append, List.cons_append, List.cons_append, hfour]
    rfl
  · split_ifs at h

/-- The character that has to come between two numbers is taken. -/
theorem extends_takeBetween (c : Char) : Extends Any (takeBetween c) (takeBetween c) := by
  intro cs u rest h
  unfold takeBetween at h
  split at h
  · cases h
  · next d cs =>
    split_ifs at h with hd
    exact (extends_pure trivial cs u rest h).cons fun more => if_pos hd

/-- A number in an escape is taken, with a second one behind it if it is the first half of a pair.
-/
theorem extends_numericEscape : Extends Any numericEscape numericEscape := by
  unfold numericEscape
  refine extends_takeFourHex.bind fun n _ => ?_
  split_ifs
  · exact (fails_failHere _).extends
  · exact extends_pure trivial
  · refine (extends_takeBetween _).bind fun _ _ => (extends_takeBetween _).bind fun _ _ =>
      extends_takeFourHex.bind fun m _ => ?_
    split_ifs
    · exact (fails_failHere _).extends
    · exact extends_pure trivial

/-- An escape is taken, be it a letter or a number. -/
theorem extends_escape : Extends Any escape escape := by
  intro cs c rest h
  unfold escape at h
  split at h
  · cases h
  · next d cs =>
    split at h
    · next hd =>
      refine (extends_pure trivial cs c rest h).cons fun more => ?_
      exact escape_letter hd (cs ++ more)
    · next hd =>
      split_ifs at h with hu
      obtain rfl := hu
      exact (extends_numericEscape cs c rest h).cons fun more => escape_number (cs ++ more)

/-- After a backslash the escape is read, and then the string goes on. -/
theorem stringFrom_backslash (t : Char) (clock : Clock) (before cs : List Char) :
    stringFrom (t :: clock) before ('\\' :: cs) =
      (escape >>= fun c => stringFrom clock (c :: before)) cs := by
  cases h : escape cs with
  | error e =>
    rw [Reader.bind_of_error h]
    unfold stringFrom
    dsimp only
    rw [if_neg (by decide), if_pos rfl, h]
  | ok p => rw [Reader.bind_of_ok h, stringFrom_of_escape h]

/-- A string ends with its quote, so a longer text, which has a longer clock, makes no difference to
it. -/
theorem extends_stringFrom {clock clock' : Clock} (hle : clock.length ≤ clock'.length)
    (before : List Char) : Extends Any (stringFrom clock before) (stringFrom clock' before) := by
  -- The induction is on the shorter clock, which every character of the string moves on by one.
  induction clock generalizing clock' before with
  | nil => exact (fails_failHere _).extends
  | cons t clock ih =>
    obtain ⟨t', clock', rfl⟩ := List.exists_cons_of_length_pos (Nat.zero_lt_of_lt hle)
    have hle' : clock.length ≤ clock'.length := Nat.le_of_succ_le_succ hle
    intro cs s rest h
    cases cs with
    | nil => cases h
    | cons c cs =>
      by_cases hbackslash : c = '\\'
      · obtain rfl := hbackslash
        rw [stringFrom_backslash] at h
        have hextends := extends_escape.bind fun d _ => ih hle' (d :: before)
        exact (hextends cs s rest h).cons fun more => stringFrom_backslash _ _ _ _
      · unfold stringFrom at h
        dsimp only at h
        rw [if_neg hbackslash] at h
        split_ifs at h with hquote hcontrol
        · refine (extends_pure trivial cs s rest h).cons fun more => ?_
          exact if_pos hquote
        · refine (ih hle' (c :: before) cs s rest h).cons fun more => ?_
          show (if c = '"' then _ else if c = '\\' then _ else if c.toNat < 32 then _ else
            stringFrom clock' (c :: before) (cs ++ more)) = _
          rw [if_neg hquote, if_neg hbackslash, if_neg hcontrol]

/-- A string is read with the clock of the text that is left. -/
theorem stringBody_eq : stringBody =
    String.ofList <$> (fun rest => stringFrom (clockFor rest) [] rest : Reader (List Char)) := by
  funext cs
  show stringBody cs =
    (stringFrom (clockFor cs) [] cs >>= fun p => Except.ok (String.ofList p.1, p.2))
  unfold stringBody
  cases stringFrom (clockFor cs) [] cs with
  | error f => rfl
  | ok p => rfl

/-- A string is read from longer texts too. -/
theorem extends_stringBody : Extends Any stringBody stringBody := by
  have hchars := Extends.of_clock fun _ _ hle => extends_stringFrom hle []
  rw [stringBody_eq]
  exact hchars.map fun _ _ => trivial

/-! ## Numbers -/

/-- Digits end where something else comes, and if something is left, that is in the text already. -/
theorem extends_digits : Extends Any digits digits := by
  rintro cs _ _ ⟨⟩
  refine ⟨trivial, List.dropWhile_suffix _, fun hne more => ?_⟩
  have htake : (cs ++ more).takeWhile Char.isDigit = cs.takeWhile Char.isDigit := by
    have hsplit := List.takeWhile_append_dropWhile (p := Char.isDigit) (l := cs ++ more)
    rw [dropWhile_append_of_ne_nil hne, ← List.append_assoc] at hsplit
    have hcs := List.append_cancel_right hsplit
    conv_rhs at hcs => rw [← List.takeWhile_append_dropWhile (p := Char.isDigit) (l := cs)]
    exact List.append_cancel_right hcs
  unfold digits
  rw [htake, dropWhile_append_of_ne_nil hne]

/-- A natural number that is read has at most 64 bits. -/
def Number.Fits (x : Number) : Prop := ∀ n, x = .natural n → n ≤ maxNat64

/-- A float is no natural number. -/
theorem Number.fits_float (x : Decimal.Binary64) : (Number.float x).Fits := fun _ h => by cases h

/-- Digits are gathered only as long as the number has at most 64 bits. -/
theorem gather_fst_le {n : ℕ} (hn : n ≤ maxNat64) (ds : List Char) :
    (gather n ds).1 ≤ maxNat64 := by
  induction ds generalizing n with
  | nil => exact hn
  | cons d ds ih =>
    unfold gather
    dsimp only
    split_ifs with h
    · exact hn
    · exact ih (Nat.le_of_not_lt h)

/-- A float that is made from what was read is taken as it is. -/
theorem extends_float (x : Decimal.Binary64) :
    Extends Number.Fits (pure (.float x)) (pure (.float x)) :=
  extends_pure (Number.fits_float x)

/-- A significand with its exponent is a float, or out of range. -/
theorem extends_scaled (negative : Bool) (significand : ℕ) (exponent : Int) :
    Extends Number.Fits (scaled negative significand exponent)
      (scaled negative significand exponent) := by
  have hfault : Extends Number.Fits (failHere .numberOutOfRange) (failHere .numberOutOfRange) :=
    (fails_failHere _).extends
  unfold scaled
  refine .ite (fun _ => extends_float _) fun _ => .ite (fun _ => ?_) fun _ => ?_
  · exact .ite (fun _ => extends_float _) fun _ => hfault
  · refine .ite (fun _ => hfault) fun _ => ?_
    exact .ite (fun _ => extends_float _) fun _ => extends_float _

/-- An exponent is taken, with its sign and its digits. -/
theorem extends_withExponent (negative : Bool) (significand : ℕ) (shift : Int) :
    Extends Number.Fits (withExponent negative significand shift)
      (withExponent negative significand shift) := by
  refine extends_take.bind fun _ _ => Extends.bind (P := Any) ?_ fun below _ =>
    extends_get fun start start' => extends_digits.bind fun ds _ => ?_
  · -- A sign is a single character.
    intro cs below rest h
    dsimp only at h
    split at h
    · exact (extends_pure trivial _ _ _ h).cons fun more => rfl
    · exact (extends_pure trivial _ _ _ h).cons fun more => rfl
    · next hplus hminus =>
      cases h
      refine ⟨trivial, List.suffix_rfl, fun hne more => ?_⟩
      obtain ⟨c, cs, rfl⟩ := List.exists_cons_of_ne_nil hne
      rw [List.cons_append]
      split
      · next heq => exact absurd (congrArg (· :: cs) (List.cons.inj heq).1) (hplus cs)
      · next heq => exact absurd (congrArg (· :: cs) (List.cons.inj heq).1) (hminus cs)
      · rfl
  · refine .ite (fun _ => ?_) fun _ => ?_
    · exact Fails.extends (.ite (fails_failHere _) (fails_failNext _))
    · split
      · exact .ite (fun _ => Fails.extends fun _ => ⟨_, rfl⟩) fun _ => extends_float _
      · exact extends_scaled _ _ _

/-- A fraction is taken, and the exponent if there is one. -/
theorem extends_withFraction (negative : Bool) {significand : ℕ} (shift : Int) :
    Extends Number.Fits (withFraction negative significand shift)
      (withFraction negative significand shift) := by
  refine extends_take.bind fun _ _ => extends_digits.bind fun ds _ =>
    extends_head fun left left' hnext => ?_
  rw [hnext]
  refine .ite (fun _ => ?_) fun _ => ?_
  · exact Fails.extends (.ite (fails_failNext _) (fails_failNext _))
  · exact .ite (fun _ => extends_withExponent _ _ _) fun _ => extends_scaled _ _ _

/-- A number is taken, and if it is a natural number it has at most 64 bits. -/
theorem extends_number (negative : Bool) :
    Extends Number.Fits (number negative) (number negative) := by
  -- Where the number starts only decides where its faults are.
  refine extends_get fun start start' => extends_digits.bind fun ds _ =>
    extends_head fun left left' hnext => ?_
  rw [hnext]
  split
  · exact Fails.extends fun _ => ⟨_, rfl⟩
  · exact Fails.extends fun _ => ⟨_, rfl⟩
  · refine .ite (fun _ => extends_withFraction _ _) fun _ => ?_
    refine .ite (fun _ => extends_withExponent _ _ _) fun _ => ?_
    refine .ite (fun _ => extends_scaled _ _ _) fun _ => .ite (fun _ => ?_) fun _ => ?_
    · refine .ite (fun _ => extends_float _) fun _ => extends_pure fun _ h => ?_
      cases h
    · refine extends_pure ?_
      rintro _ ⟨⟩
      exact gather_fst_le (Nat.zero_le _) _

end Fettle.Json
