import Fettle.Json.Record
import Fettle.Proofs.Json.Spelling

/-!
# Reading what is spelled

A reader reads a text as a value (`Reads`) if it takes the text and nothing else, whatever blanks
stand before it and whatever follows it that cannot go on a value. Strings and natural numbers are
read from all their spellings.
-/

namespace Fettle.Json

variable {α β : Type}

/-! ## Readers that follow one another -/

/-- After a reader that succeeds, the next one starts with what is left. -/
theorem Reader.bind_of_ok {x : Reader α} {f : α → Reader β} {cs cs' : List Char} {a : α}
    (h : x cs = .ok (a, cs')) : (x >>= f) cs = f a cs' := by
  show (x cs >>= fun p => f p.1 p.2) = f a cs'
  rw [h]
  rfl

/-- A value that is read is changed by the function. -/
theorem Reader.map_of_ok {x : Reader α} {f : α → β} {cs cs' : List Char} {a : α}
    (h : x cs = .ok (a, cs')) : (f <$> x) cs = .ok (f a, cs') := by
  show (x cs >>= fun p => Except.ok (f p.1, p.2)) = _
  rw [h]
  rfl

/-- A reader may look at what is left. -/
theorem Reader.get_eq (cs : List Char) : (get : Reader (List Char)) cs = .ok (cs, cs) := rfl

/-! ## Blanks and tokens -/

/-- There are four blanks. -/
theorem isSpace_iff {c : Char} :
    isSpace c = true ↔ c = ' ' ∨ c = '\n' ∨ c = '\t' ∨ c = '\r' := by
  simp [isSpace, or_assoc]

/-- Between tokens there may be nothing. -/
theorem spaces_nil : Spaces [] := fun _ h => absurd h List.not_mem_nil

/-- Blanks are skipped before a token. -/
theorem nextToken_append {s : List Char} (hs : Spaces s) {c : Char} (hc : isSpace c = false)
    (rest : List Char) : nextToken (s ++ c :: rest) = .ok (some c, c :: rest) := by
  unfold nextToken
  rw [List.dropWhile_append_of_pos fun c hc => isSpace_iff.mpr (hs c hc),
    List.dropWhile_cons_of_neg (by rw [hc]; exact Bool.false_ne_true)]
  rfl

/-- Without blanks before it, the next token is the next character. -/
theorem nextToken_cons {c : Char} (hc : isSpace c = false) (rest : List Char) :
    nextToken (c :: rest) = .ok (some c, c :: rest) :=
  nextToken_append spaces_nil hc rest

/-- Behind blanks alone there is no token. -/
theorem nextToken_spaces {s : List Char} (hs : Spaces s) : nextToken s = .ok (none, []) := by
  have hdrop : s.dropWhile isSpace = [] := by
    have h : (s ++ []).dropWhile isSpace = [].dropWhile isSpace :=
      List.dropWhile_append_of_pos fun c hc => isSpace_iff.mpr (hs c hc)
    rwa [List.append_nil] at h
  unfold nextToken
  rw [hdrop]
  rfl

/-- The first character is taken. -/
theorem take_cons (c : Char) (rest : List Char) : take (c :: rest) = .ok ((), rest) := rfl

/-- A colon is taken with the blanks before it. -/
theorem colon_append {s : List Char} (hs : Spaces s) (rest : List Char) :
    colon (s ++ ':' :: rest) = .ok ((), rest) := by
  unfold colon
  rw [Reader.bind_of_ok (nextToken_append hs rfl rest)]
  rfl

/-- What may follow a value: the end of the text, a blank, a comma or a closing bracket. -/
def Delimited (rest : List Char) : Prop :=
  ∀ c, rest.head? = some c → c ∈ [' ', '\n', '\t', '\r', ',', ']', '\x7d']

/-- Blanks before a delimiter make no difference. -/
theorem Delimited.append {s rest : List Char} (hs : Spaces s) (h : Delimited rest) :
    Delimited (s ++ rest) := by
  cases s with
  | nil => exact h
  | cons c s =>
    rintro _ ⟨⟩
    rcases hs c List.mem_cons_self with rfl | rfl | rfl | rfl <;> decide

/-- A comma and the closing brackets are delimiters. -/
theorem delimited_cons {c : Char} (hc : c = ',' ∨ c = ']' ∨ c = '\x7d') (rest : List Char) :
    Delimited (c :: rest) := by
  rintro _ ⟨⟩
  rcases hc with rfl | rfl | rfl <;> decide

/-- A reader reads a text as a value: it takes the text and nothing else, with any blanks before it
and anything after it that may follow a value. -/
def Reads (read : Reader α) (a : α) (cs : List Char) : Prop :=
  ∀ s rest, Spaces s → Delimited rest → read (s ++ (cs ++ rest)) = .ok (a, rest)

/-- A value that is read is changed by the function. -/
theorem Reads.map {read : Reader α} {a : α} {cs : List Char} (h : Reads read a cs) (f : α → β) :
    Reads (f <$> read) (f a) cs := fun s rest hs hrest =>
  Reader.map_of_ok (h s rest hs hrest)

/-- A text is read as a value with nothing but blanks behind it. -/
theorem parse_eq (read : Reader α) (text : String) :
    parse read text = Prod.fst <$> ((read >>= fun a => nextToken >>= fun next => match next with
      | none => pure a
      | some _ => failNext .trailingCharacters : Reader α) text.toList) := rfl

/-- A text that a reader reads as a value, with blanks around it, parses as the value. -/
theorem Reads.parse_eq {read : Reader α} {a : α} {cs : List Char} (h : Reads read a cs)
    {s s' : List Char} (hs : Spaces s) (hs' : Spaces s') {text : String}
    (htext : text.toList = s ++ (cs ++ s')) : parse read text = .ok a := by
  have hend : Delimited s' := by
    -- Only blanks are left, and then the text ends.
    have hnil : Delimited [] := fun _ hc => absurd hc (Option.some_ne_none _).symm
    exact List.append_nil s' ▸ hnil.append hs'
  have hread := h s s' hs hend
  rw [← htext] at hread
  rw [Json.parse_eq, Reader.bind_of_ok hread, Reader.bind_of_ok (nextToken_spaces hs')]
  rfl

/-- A text begins with a character that may begin a value or a name. -/
def Begins (cs : List Char) : Prop :=
  ∃ c rest, cs = c :: rest ∧ isSpace c = false ∧ c ≠ ']' ∧ c ≠ '\x7d'

/-- A value begins with a character that is neither a blank nor a closing bracket. -/
theorem begins_of_cons {c : Char} {cs : List Char} (h : ∃ rest, cs = c :: rest)
    (hspace : isSpace c = false) (hlist : c ≠ ']') (hobject : c ≠ '\x7d') : Begins cs := by
  obtain ⟨rest, rfl⟩ := h
  exact ⟨c, rest, rfl, hspace, hlist, hobject⟩

/-! ## Strings -/

/-- A hexadecimal digit is worth what it spells. -/
theorem hexValue_of_hexDigit {d : ℕ} {c : Char} (h : HexDigit d c) : hexValue c = some d := by
  obtain ⟨hd, rfl | rfl⟩ := h
  · revert d
    decide
  · revert d
    decide

/-- Four digits are four characters. -/
theorem FourHexDigits.length_eq {n : ℕ} {cs : List Char} (h : FourHexDigits n cs) :
    cs.length = 4 := by
  cases h
  rfl

/-- Four digits are taken as the number that they spell. -/
theorem takeFourHex_append {n : ℕ} {cs : List Char} (h : FourHexDigits n cs) (rest : List Char) :
    takeFourHex (cs ++ rest) = .ok (n, rest) := by
  have hfour : fourHex (cs ++ rest) = some n := by
    cases h with
    | mk h₁ h₂ h₃ h₄ =>
      show (do
        let a ← hexValue _
        let b ← hexValue _
        let c ← hexValue _
        let d ← hexValue _
        pure (((a * 16 + b) * 16 + c) * 16 + d)) = _
      rw [hexValue_of_hexDigit h₁, hexValue_of_hexDigit h₂, hexValue_of_hexDigit h₃,
        hexValue_of_hexDigit h₄]
      rfl
  unfold takeFourHex
  rw [hfour]
  show Except.ok (n, (cs ++ rest).drop 4) = _
  rw [← h.length_eq, List.drop_left]

/-- A letter of the table stands for its character. -/
theorem letterEscape_of_mem {l c : Char} (h : (l, c) ∈ escapeLetters) :
    letterEscape l = some c := by
  simp only [escapeLetters, List.mem_cons, Prod.mk.injEq, List.not_mem_nil, or_false] at h
  rcases h with h | h | h | h | h | h | h | h <;> obtain ⟨rfl, rfl⟩ := h <;> rfl

/-- A character is no half of a pair of surrogates. -/
theorem toNat_not_surrogate (c : Char) : c.toNat < 0xD800 ∨ 0xDFFF < c.toNat := by
  have hvalid := c.valid
  rw [UInt32.isValidChar, Nat.isValidChar] at hvalid
  show c.val.toNat < 0xD800 ∨ 0xDFFF < c.val.toNat
  omega

/-- The number of a character is read as the character. -/
theorem numericEscape_number {c : Char} {cs : List Char} (h : FourHexDigits c.toNat cs)
    (rest : List Char) : numericEscape (cs ++ rest) = .ok (c, rest) := by
  have hc := toNat_not_surrogate c
  unfold numericEscape
  rw [Reader.bind_of_ok (takeFourHex_append h rest), if_neg (by omega), if_pos (by omega),
    Char.ofNat_toNat]
  rfl

/-- The character that has to come is taken. -/
theorem takeBetween_cons (c : Char) (rest : List Char) :
    takeBetween c (c :: rest) = .ok ((), rest) :=
  if_pos rfl

/-- The number of a character as a pair of surrogates is read as the character. -/
theorem numericEscape_pair {c : Char} {high low : ℕ} {cs cs' : List Char}
    (h : FourHexDigits high cs) (h' : FourHexDigits low cs')
    (hhigh : 0xD800 ≤ high ∧ high ≤ 0xDBFF) (hlow : 0xDC00 ≤ low ∧ low ≤ 0xDFFF)
    (hc : c.toNat = 0x10000 + (high - 0xD800) * 0x400 + (low - 0xDC00)) (rest : List Char) :
    numericEscape (cs ++ '\\' :: 'u' :: (cs' ++ rest)) = .ok (c, rest) := by
  have hnumber : (high - 0xD800) * 1024 + (low - 0xDC00) + 0x10000 = c.toNat := by omega
  unfold numericEscape
  rw [Reader.bind_of_ok (takeFourHex_append h _), if_neg (by omega), if_neg (by omega),
    Reader.bind_of_ok (takeBetween_cons _ _), Reader.bind_of_ok (takeBetween_cons _ _),
    Reader.bind_of_ok (takeFourHex_append h' rest), if_neg (by omega), hnumber, Char.ofNat_toNat]
  rfl

/-- A letter behind a backslash is read as the character that it stands for, -/
theorem escape_letter {l c : Char} (h : letterEscape l = some c) (rest : List Char) :
    escape (l :: rest) = .ok (c, rest) := by
  unfold escape
  dsimp only
  rw [h]

/-- and a `u` as the number behind it. -/
theorem escape_number (rest : List Char) : escape ('u' :: rest) = numericEscape rest := rfl

/-- An escape is read as its character, and the reader goes on after it. -/
theorem stringFrom_of_escape {c : Char} {escaped rest : List Char}
    (h : escape escaped = .ok (c, rest)) (t : Char) (clock : Clock) (before : List Char) :
    stringFrom (t :: clock) before ('\\' :: escaped) = stringFrom clock (c :: before) rest := by
  conv_lhs => unfold stringFrom
  dsimp only
  rw [if_neg (by decide), if_pos rfl, h]

/-- One spelled character of a string is read. -/
theorem stringFrom_of_spellsChar {c : Char} {cs : List Char} (h : SpellsChar c cs) (t : Char)
    (clock : Clock) (before rest : List Char) :
    stringFrom (t :: clock) before (cs ++ rest) = stringFrom clock (c :: before) rest := by
  cases h with
  | plain h =>
    obtain ⟨hquote, hbackslash, hcontrol⟩ := h
    show (if c = '"' then _ else if c = '\\' then _ else if c.toNat < 32 then _ else
      stringFrom clock (c :: before) rest) = _
    rw [if_neg hquote, if_neg hbackslash, if_neg (by omega)]
  | letter h =>
    exact stringFrom_of_escape (escape_letter (letterEscape_of_mem h) rest) t clock before
  | number h =>
    have hread := numericEscape_number h rest
    exact stringFrom_of_escape ((escape_number _).trans hread) t clock before
  | pair h h' hhigh hlow hc =>
    have hread := numericEscape_pair h h' hhigh hlow hc rest
    rw [← List.cons_append, ← List.cons_append, ← List.append_assoc] at hread
    exact stringFrom_of_escape ((escape_number _).trans hread) t clock before

/-- The characters of a string are read up to the quote, each from its spelling. -/
theorem stringFrom_of_spellsChars {s body : List Char} (h : SpellsChars s body) (clock : Clock)
    (before rest : List Char) (hclock : s.length < clock.length) :
    stringFrom clock before (body ++ '"' :: rest) = .ok (before.reverse ++ s, rest) := by
  induction h generalizing clock before with
  | nil =>
    cases clock with
    | nil => exact absurd hclock (Nat.not_lt_zero _)
    | cons t clock =>
      rw [List.append_nil]
      rfl
  | @cons c s cs body hc hs ih =>
    cases clock with
    | nil => exact absurd hclock (Nat.not_lt_zero _)
    | cons t clock =>
      rw [List.append_assoc, stringFrom_of_spellsChar hc,
        ih _ _ (by rw [List.length_cons, List.length_cons] at hclock; omega),
        List.reverse_cons, List.append_assoc]
      rfl

/-- A character takes at least one to spell, -/
theorem SpellsChar.length_pos {c : Char} {cs : List Char} (h : SpellsChar c cs) :
    0 < cs.length := by
  cases h <;> exact Nat.succ_pos _

/-- so a string is no longer than its spelling, and the clock of the text lasts. -/
theorem SpellsChars.length_le {s body : List Char} (h : SpellsChars s body) :
    s.length ≤ body.length := by
  induction h with
  | nil => exact Nat.le_refl _
  | cons hc hs ih =>
    have := hc.length_pos
    rw [List.length_cons, List.length_append]
    omega

/-- What follows the opening quote of a spelled string is read as the string. -/
theorem stringBody_append {s : String} {body : List Char} (h : SpellsChars s.toList body)
    (rest : List Char) : stringBody (body ++ '"' :: rest) = .ok (s, rest) := by
  have hclock : s.toList.length < (clockFor (body ++ '"' :: rest)).length := by
    have := h.length_le
    rw [clockFor, List.length_cons, List.length_append]
    omega
  unfold stringBody
  rw [stringFrom_of_spellsChars h _ [] rest hclock]
  show Except.ok (String.ofList s.toList, rest) = _
  rw [String.ofList_toList]

/-- Characters that need no escape spell themselves. -/
theorem spellsChars_plain {cs : List Char} (h : ∀ c ∈ cs, Plain c) : SpellsChars cs cs := by
  induction cs with
  | nil => exact .nil
  | cons c cs ih =>
    have hcs : SpellsChars cs cs := ih fun d hd => h d (List.mem_cons_of_mem _ hd)
    exact .cons (.plain (h c List.mem_cons_self)) hcs

/-- Plain characters between quotes spell themselves. -/
theorem spellsString_plain {s : String} (h : ∀ c ∈ s.toList, Plain c) :
    SpellsString s ('"' :: s.toList ++ ['"']) :=
  ⟨s.toList, spellsChars_plain h, rfl⟩

/-- A string begins with a quote. -/
theorem SpellsString.begins {s : String} {cs : List Char} (h : SpellsString s cs) :
    ∃ rest, cs = '"' :: rest := by
  obtain ⟨body, -, rfl⟩ := h
  exact ⟨_, rfl⟩

/-- A string is read from each of its spellings. -/
theorem SpellsString.reads {s : String} {cs : List Char} (h : SpellsString s cs)
    (expected : String) : Reads (readTextAs expected) s cs := by
  obtain ⟨body, hbody, rfl⟩ := h
  intro spaces rest hspaces _
  unfold readTextAs
  rw [List.cons_append, List.cons_append, Reader.bind_of_ok (nextToken_append hspaces rfl _)]
  show stringBody (body ++ ['"'] ++ rest) = _
  rw [List.append_assoc]
  exact stringBody_append hbody rest

/-! ## Numbers -/

/-- Digits that stand for a number of 64 bits are all gathered. -/
theorem gather_of_le {cs : List Char} {n : ℕ} (h : Nat.ofDigitChars 10 cs n ≤ maxNat64) :
    gather n cs = (Nat.ofDigitChars 10 cs n, cs.length) := by
  induction cs generalizing n with
  | nil => rfl
  | cons c cs ih =>
    rw [Nat.ofDigitChars_cons, Nat.mul_comm] at h ⊢
    -- The number does not shrink as digits are appended, so it has fitted before.
    have hfits : n * 10 + (c.toNat - '0'.toNat) ≤ maxNat64 := by
      refine Nat.le_trans ?_ h
      rw [Nat.ofDigitChars_eq_ofDigitChars_zero]
      exact Nat.le_add_right_of_le (Nat.le_mul_of_pos_left _ (Nat.pow_pos (by decide)))
    show (if maxNat64 < n * 10 + (c.toNat - '0'.toNat) then _ else _) = _
    rw [if_neg (Nat.not_lt.mpr hfits), ih h]
    rfl

/-- Decimal digits begin with zero only if the number is zero. -/
theorem toDigits_eq_zero_cons {n : ℕ} {ds : List Char} (h : Nat.toDigits 10 n = '0' :: ds) :
    ds = [] := by
  induction n using Nat.strongRecOn generalizing ds with
  | ind n ih =>
    rw [Nat.toDigits_eq_if (by decide)] at h
    split_ifs at h with hn
    · exact (List.cons.inj h).2.symm
    · -- The digits before the last one would be a zero, but the number has two digits.
      obtain ⟨c, cs, hcs⟩ := List.exists_cons_of_ne_nil
        (Nat.toDigits_ne_nil : Nat.toDigits 10 (n / 10) ≠ [])
      rw [hcs, List.cons_append, List.cons.injEq] at h
      obtain ⟨rfl, -⟩ := h
      have hzero := hcs
      rw [ih _ (Nat.div_lt_self (by omega) (by decide)) hcs] at hzero
      have hvalue := congrArg (fun ds => Nat.ofDigitChars 10 ds 0) hzero
      rw [Nat.ofDigitChars_ten_toDigits] at hvalue
      have : n / 10 = 0 := hvalue
      omega

/-- A digit is no blank. -/
theorem isSpace_of_isDigit {c : Char} (h : c.isDigit = true) : isSpace c = false := by
  rw [Bool.eq_false_iff]
  intro hspace
  rcases isSpace_iff.mp hspace with rfl | rfl | rfl | rfl <;> revert h <;> decide

/-- The character after a value is neither a digit nor another part of a number. -/
theorem Delimited.ends_number {rest : List Char} (h : Delimited rest) {c : Char}
    (hc : rest.head? = some c) : c.isDigit = false ∧ c ≠ '.' ∧ c ≠ 'e' ∧ c ≠ 'E' := by
  have hmem := h c hc
  simp only [List.mem_cons, List.not_mem_nil, or_false] at hmem
  rcases hmem with rfl | rfl | rfl | rfl | rfl | rfl | rfl <;> decide

/-- Digits are taken up to the first character that is none. -/
theorem takeWhile_digits {ds rest : List Char} (hds : ∀ c ∈ ds, c.isDigit = true)
    (hrest : ∀ c, rest.head? = some c → c.isDigit = false) :
    (ds ++ rest).takeWhile Char.isDigit = ds ∧ (ds ++ rest).dropWhile Char.isDigit = rest := by
  rw [List.takeWhile_append_of_pos hds, List.dropWhile_append_of_pos hds]
  cases rest with
  | nil => exact ⟨List.append_nil ds, rfl⟩
  | cons c rest =>
    have hc : ¬ c.isDigit = true := by rw [hrest c rfl]; exact Bool.false_ne_true
    rw [List.takeWhile_cons_of_neg hc, List.dropWhile_cons_of_neg hc]
    exact ⟨List.append_nil ds, rfl⟩

/-- A number is written in digits. -/
theorem isDigit_of_mem {n : ℕ} {c : Char} (h : c ∈ Nat.toDigits 10 n) : c.isDigit = true :=
  Nat.isDigit_of_mem_toDigits (by decide) (by decide) h

/-- The decimal digits of a number of 64 bits are read as the number. -/
theorem number_append {n : ℕ} (hn : n ≤ maxNat64) {rest : List Char} (hrest : Delimited rest) :
    number false (Nat.toDigits 10 n ++ rest) = .ok (.natural n, rest) := by
  have hread : digits (Nat.toDigits 10 n ++ rest) = .ok (Nat.toDigits 10 n, rest) := by
    obtain ⟨htake, hdrop⟩ := takeWhile_digits (fun _ => isDigit_of_mem)
      fun c hc => (hrest.ends_number hc).1
    unfold digits
    rw [htake, hdrop]
  have hgather : gather 0 (Nat.toDigits 10 n) = (n, (Nat.toDigits 10 n).length) := by
    rw [gather_of_le (by rwa [Nat.ofDigitChars_ten_toDigits]), Nat.ofDigitChars_ten_toDigits]
  have hends : ∀ {c}, (c = '.' ∨ c = 'e' ∨ c = 'E') → rest.head? ≠ some c := by
    rintro c hc hhead
    obtain ⟨-, h₁, h₂, h₃⟩ := hrest.ends_number hhead
    rcases hc with hc | hc | hc
    exacts [h₁ hc, h₂ hc, h₃ hc]
  -- No zero stands in front of other digits, so the reader does not stop after the first digit.
  have hzero : ∀ ds, Nat.toDigits 10 n = '0' :: ds → ds = [] := fun _ => toDigits_eq_zero_cons
  have hnil : Nat.toDigits 10 n ≠ [] := Nat.toDigits_ne_nil
  unfold number
  rw [Reader.bind_of_ok (Reader.get_eq _), Reader.bind_of_ok hread,
    Reader.bind_of_ok (Reader.get_eq _)]
  generalize Nat.toDigits 10 n = ds at *
  split
  · contradiction
  · cases hzero _ rfl
  · rw [hgather]
    show (if rest.head? = some '.' then _ else _ : Reader Number) rest = _
    rw [if_neg (hends (.inl rfl)), if_neg (not_or.mpr ⟨hends (.inr (.inl rfl)),
      hends (.inr (.inr rfl))⟩), if_neg (not_not_intro (Nat.sub_self _)), if_neg Bool.false_ne_true]
    rfl

/-- A number begins with a digit. -/
theorem SpellsNat.begins {n : ℕ} {cs : List Char} (h : SpellsNat n cs) :
    ∃ c rest, cs = c :: rest ∧ c.isDigit = true := by
  obtain ⟨-, rfl⟩ := h
  obtain ⟨c, rest, hcs⟩ := List.exists_cons_of_ne_nil
    (Nat.toDigits_ne_nil : Nat.toDigits 10 n ≠ [])
  exact ⟨c, rest, hcs, isDigit_of_mem (by rw [hcs]; exact List.mem_cons_self)⟩

/-- A natural number of 64 bits is read from its decimal digits. -/
theorem SpellsNat.reads {n : ℕ} {cs : List Char} (h : SpellsNat n cs) : Reads readNat n cs := by
  obtain ⟨c, more, rfl, hc⟩ := h.begins
  intro s rest hs hrest
  have hminus : (c == '-') = false := by
    rw [beq_eq_false_iff_ne]
    rintro rfl
    exact absurd hc (by decide)
  have hnumber : number false (c :: more ++ rest) = .ok (.natural n, rest) := by
    rw [h.2]
    exact number_append h.1 hrest
  unfold readNat
  rw [List.cons_append, Reader.bind_of_ok (nextToken_append hs (isSpace_of_isDigit hc) _)]
  simp only [hminus, hc, Bool.false_or, if_true, Bool.false_eq_true, if_false]
  exact Reader.bind_of_ok hnumber

/-! ## Values that may be null, and words -/

/-- A value that may be null is read from its spellings, if those of the value do not begin like the
word for nothing. -/
theorem reads_option {read : Reader α} {Item : α → List Char → Prop}
    (hread : ∀ a cs, Item a cs → Reads read a cs) {c : Char} (hspace : isSpace c = false)
    (hnull : c ≠ 'n') (hbegins : ∀ a cs, Item a cs → ∃ rest, cs = c :: rest) {a : Option α}
    {cs : List Char} (h : SpellsOption Item a cs) : Reads (readOption read) a cs := by
  intro s rest hs hrest
  unfold readOption
  cases a with
  | none =>
    obtain rfl : cs = ['n', 'u', 'l', 'l'] := h
    rw [List.cons_append, Reader.bind_of_ok (nextToken_append hs rfl _)]
    rfl
  | some a =>
    obtain ⟨more, rfl⟩ := hbegins a cs h
    rw [List.cons_append, Reader.bind_of_ok (nextToken_append hs hspace _)]
    generalize hhead : some c = head
    split
    · exact absurd (Option.some.inj hhead) hnull
    · exact Reader.map_of_ok (hread a _ h [] rest spaces_nil hrest)

/-- A word is read from each spelling of it as a string. -/
theorem SpellsString.reads_word {s : String} {cs : List Char} (h : SpellsString s cs)
    (ofWord : String → α) : Reads (readWord ofWord) (ofWord s) cs := by
  intro spaces rest hspaces hrest
  have hread := h.reads "variant identifier" [] rest spaces_nil hrest
  obtain ⟨body, -, rfl⟩ := h
  unfold readWord
  rw [List.cons_append, List.cons_append, Reader.bind_of_ok (nextToken_append hspaces rfl _)]
  exact Reader.map_of_ok hread

/-! ## Lists -/

/-- The text of some items begins with the first item, and the blanks before it may be left out. -/
theorem Separated.begins {Item : α → List Char → Prop} {P : Char → Prop} {a : α} {as : List α}
    {cs : List Char} (hbegins : ∀ a cs, Item a cs → ∃ c rest, cs = c :: rest ∧ P c)
    (h : Separated Item (a :: as) cs) :
    ∃ s c rest, Spaces s ∧ cs = s ++ c :: rest ∧ P c ∧ Separated Item (a :: as) (c :: rest) := by
  cases h with
  | @one _ s cs s' hs ha hs' =>
    obtain ⟨c, rest, rfl, hc⟩ := hbegins a _ ha
    exact ⟨s, c, rest ++ s', hs, by rw [List.append_assoc, List.cons_append], hc,
      .one spaces_nil ha hs'⟩
  | @more _ _ _ s cs s' rest' hs ha hs' hrest =>
    obtain ⟨c, rest, rfl, hc⟩ := hbegins a _ ha
    refine ⟨s, c, rest ++ s' ++ ',' :: rest', hs, ?_, hc, .more spaces_nil ha hs' hrest⟩
    simp only [List.append_assoc, List.cons_append]

/-- No item is without a character. -/
theorem Separated.length_le {Item : α → List Char → Prop} {P : Char → Prop}
    (hbegins : ∀ a cs, Item a cs → ∃ c rest, cs = c :: rest ∧ P c) {as : List α} {cs : List Char}
    (h : Separated Item as cs) : as.length ≤ cs.length := by
  induction h with
  | none hs => exact Nat.zero_le _
  | one hs ha hs' =>
    obtain ⟨c, more, rfl, -⟩ := hbegins _ _ ha
    simp only [List.length_append, List.length_cons, List.length_nil]
    omega
  | more hs ha hs' hrest ih =>
    obtain ⟨c, more, rfl, -⟩ := hbegins _ _ ha
    simp only [List.length_append, List.length_cons] at ih ⊢
    omega

section

variable {c : Char} (hspace : isSpace c = false) (hend : c ≠ ']') {s : List Char} (hs : Spaces s)
include hspace hend hs

/-- The first element stands behind blanks, -/
theorem nextElement_first (rest : List Char) :
    nextElement true (s ++ c :: rest) = .ok (true, c :: rest) := by
  unfold nextElement
  rw [Reader.bind_of_ok (nextToken_append hs hspace rest)]
  generalize hhead : some c = head
  split
  · cases hhead
  · exact absurd (Option.some.inj hhead) hend
  · rfl

/-- each other one behind a comma, -/
theorem nextElement_comma {s' : List Char} (hs' : Spaces s') (rest : List Char) :
    nextElement false (s' ++ ',' :: (s ++ c :: rest)) = .ok (true, c :: rest) := by
  unfold nextElement
  rw [Reader.bind_of_ok (nextToken_append hs' rfl _)]
  show (take >>= fun _ => nextToken >>= _) (',' :: (s ++ c :: rest)) = _
  rw [Reader.bind_of_ok (take_cons _ _), Reader.bind_of_ok (nextToken_append hs hspace rest)]
  generalize hhead : some c = head
  split
  · exact absurd (Option.some.inj hhead) hend
  · rfl
  · cases hhead

end

/-- and the bracket ends the list. -/
theorem nextElement_end {s : List Char} (hs : Spaces s) (first : Bool) (rest : List Char) :
    nextElement first (s ++ ']' :: rest) = .ok (false, ']' :: rest) := by
  unfold nextElement
  rw [Reader.bind_of_ok (nextToken_append hs rfl rest)]
  rfl

section

variable {read : Reader α} {Item : α → List Char → Prop}
  (hread : ∀ a cs, Item a cs → Reads read a cs) (hbegins : ∀ a cs, Item a cs → Begins cs)
include hread hbegins

/-- The first of some elements is read, and then the others. -/
theorem readElements_cons {a : α} {cs : List Char} (ha : Item a cs) {s : List Char}
    (hs : Spaces s) {rest : List Char} (hrest : Delimited rest) (t : Char) (clock : Clock) :
    readElements read (t :: clock) true (s ++ (cs ++ rest)) =
      (readElements read clock false >>= fun as => pure (a :: as)) rest := by
  obtain ⟨c, more, rfl, hspace, hend, -⟩ := hbegins a cs ha
  conv_lhs => unfold readElements
  rw [List.cons_append, Reader.bind_of_ok (nextElement_first hspace hend hs _)]
  exact Reader.bind_of_ok (hread a _ ha [] rest spaces_nil hrest)

omit hread in
/-- After a comma the elements are read like those of a list that begins there. -/
theorem readElements_comma {a : α} {as : List α} {cs : List Char}
    (h : Separated Item (a :: as) cs) {s : List Char} (hs : Spaces s) (t : Char) (clock : Clock)
    (rest : List Char) :
    readElements read (t :: clock) false (s ++ ',' :: (cs ++ rest)) =
      readElements read (t :: clock) true (cs ++ rest) := by
  obtain ⟨s', c, more, hs', rfl, ⟨hspace, hend, -⟩, -⟩ := h.begins hbegins
  rw [List.append_assoc, List.cons_append]
  unfold readElements
  rw [Reader.bind_of_ok (nextElement_first hspace hend hs' _),
    Reader.bind_of_ok (nextElement_comma hspace hend hs' hs _)]

/-- The elements of a list are read up to its end. -/
theorem readElements_of_separated {as : List α} {cs : List Char} (h : Separated Item as cs)
    (clock : Clock) (hclock : as.length < clock.length) (rest : List Char) :
    readElements read clock true (cs ++ ']' :: rest) = .ok (as, ']' :: rest) := by
  -- The end of the list is noticed with the next step of the clock.
  have hend : ∀ {s : List Char} {clock : Clock} (first : Bool), Spaces s → 0 < clock.length →
      readElements read clock first (s ++ ']' :: rest) = .ok ([], ']' :: rest) := by
    intro s clock first hs hclock
    obtain ⟨t, clock, rfl⟩ := List.exists_cons_of_length_pos hclock
    unfold readElements
    rw [Reader.bind_of_ok (nextElement_end hs first rest)]
    rfl
  have hdelimited : Delimited (']' :: rest) := delimited_cons (.inr (.inl rfl)) rest
  induction h generalizing clock with
  | none hs => exact hend true hs hclock
  | @one a s cs s' hs ha hs' =>
    obtain ⟨t, clock, rfl⟩ := List.exists_cons_of_length_pos (Nat.zero_lt_of_lt hclock)
    rw [List.append_assoc, List.append_assoc,
      readElements_cons hread hbegins ha hs (hdelimited.append hs'),
      Reader.bind_of_ok (hend false hs' (Nat.lt_of_succ_lt_succ hclock))]
    rfl
  | @more a b as s cs s' more hs ha hs' hmore ih =>
    obtain ⟨t, clock, rfl⟩ := List.exists_cons_of_length_pos (Nat.zero_lt_of_lt hclock)
    have hclock' : (b :: as).length < clock.length := Nat.lt_of_succ_lt_succ hclock
    have hcomma : Delimited (s' ++ ',' :: (more ++ ']' :: rest)) :=
      (delimited_cons (.inl rfl) _).append hs'
    rw [List.append_assoc, List.append_assoc, List.append_assoc, List.cons_append,
      readElements_cons hread hbegins ha hs hcomma]
    obtain ⟨t', clock, rfl⟩ := List.exists_cons_of_length_pos (Nat.zero_lt_of_lt hclock')
    have hrest := ih _ hclock'
    rw [← readElements_comma hbegins hmore hs'] at hrest
    rw [Reader.bind_of_ok hrest]
    rfl

/-- A list is read from its spellings. -/
theorem reads_list {as : List α} {cs : List Char} (h : SpellsList Item as cs) :
    Reads (readList read) as cs := by
  obtain ⟨inner, hinner, rfl⟩ := h
  intro s rest hs hrest
  have hclock : as.length < (clockFor (inner ++ ']' :: rest)).length := by
    have := hinner.length_le hbegins
    rw [clockFor, List.length_cons, List.length_append]
    omega
  have helements := readElements_of_separated hread hbegins hinner _ hclock rest
  have hlist : '[' :: inner ++ [']'] ++ rest = '[' :: (inner ++ ']' :: rest) := by
    rw [List.cons_append, List.cons_append, List.append_assoc]
    rfl
  unfold readList
  rw [hlist, Reader.bind_of_ok (nextToken_append hs rfl _)]
  show ((fun rest => readElements read (clockFor rest) true rest : Reader (List α)) >>=
    fun as => endList >>= fun _ => pure as) (inner ++ ']' :: rest) = _
  refine (Reader.bind_of_ok (x := fun rest => readElements read (clockFor rest) true rest)
    helements).trans ?_
  rfl

end

/-- A list begins with a bracket. -/
theorem SpellsList.begins {Item : α → List Char → Prop} {as : List α} {cs : List Char}
    (h : SpellsList Item as cs) : Begins cs := by
  obtain ⟨inner, -, rfl⟩ := h
  exact ⟨'[', _, rfl, rfl, by decide, by decide⟩

end Fettle.Json
