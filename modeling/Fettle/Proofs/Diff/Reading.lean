import Fettle.Proofs.Diff.Rows

/-!
# A diff can be read back

The lines of a diff are cut like those of any text, and read from the last one on: a line that
begins with a backslash says that the line before it has no ending, a sign gives a row, and a header
makes a hunk of the rows behind it. What is printed for hunks is read back as their headers and
their rows (`readHunks_join`), so a diff tells what the lines of a text are, and whether the last
one has an ending.
-/

namespace Fettle.Diff

/-- What has been read of a diff, from its end. -/
structure Reading where
  /-- The line before has no ending. -/
  hint : Bool
  /-- The rows of a hunk whose header has not been met. -/
  rows : List Row
  /-- The hunks that have been read, each with its header. -/
  hunks : List (String × List Row)

/-- Read a line. -/
def Reading.take (line : String) (r : Reading) : Reading :=
  let unsigned := line.toList.drop 1
  let content := String.ofList (if r.hint then unsigned.dropLast else unsigned)
  match line.toList.head? with
  | some ' ' => ⟨false, .kept content :: r.rows, r.hunks⟩
  | some '-' => ⟨false, .deleted content :: r.rows, r.hunks⟩
  | some '+' => ⟨false, .inserted content :: r.rows, r.hunks⟩
  | some '@' => ⟨false, [], (line, r.rows) :: r.hunks⟩
  | _ => { r with hint := true }

/-- Read lines that come before what has been read. -/
def Reading.takeAll (r : Reading) (text : List Char) : Reading :=
  ((linesFrom [] text).map String.ofList).foldr Reading.take r

/-- The hunks of a diff, without the two lines that it begins with. -/
def readHunks (text : String) : List (String × List Row) :=
  (Reading.takeAll ⟨false, [], []⟩ text.toList).hunks

/-! ## Cutting lines -/

/-- The character ends no line. -/
def Inner (c : Char) : Prop := c ≠ '\n' ∧ c ≠ '\r'

/-- A line is characters that end no line, with a line ending or with nothing behind them. -/
def IsLine (line : List Char) : Prop :=
  ∃ content ending, line = content ++ ending ∧ (∀ c ∈ content, Inner c) ∧
    ending ∈ [[], ['\n'], ['\r'], ['\r', '\n']]

/-- Characters that end no line are added to the line that is being cut. -/
theorem linesFrom_content {content : List Char} (h : ∀ c ∈ content, Inner c)
    (line rest : List Char) :
    linesFrom line (content ++ rest) = linesFrom (content.reverse ++ line) rest := by
  induction content generalizing line with
  | nil => rfl
  | cons c content ih =>
    obtain ⟨⟨hfeed, hreturn⟩, hcontent⟩ := List.forall_mem_cons.mp h
    have hstep : linesFrom line (c :: (content ++ rest)) =
        linesFrom (c :: line) (content ++ rest) := by
      rw [linesFrom, if_neg (by simp [hfeed, hreturn])]
      exact fun _ h _ => hreturn h
    rw [List.cons_append, hstep, ih hcontent, List.reverse_cons, List.append_assoc]
    rfl

/-- A line with an ending is cut off, unless a line feed comes behind a carriage return. -/
theorem linesFrom_line {content ending rest : List Char} (h : ∀ c ∈ content, Inner c)
    (hending : ending ∈ [['\n'], ['\r'], ['\r', '\n']]) (hrest : rest.head? ≠ some '\n') :
    linesFrom [] (content ++ ending ++ rest) = (content ++ ending) :: linesFrom [] rest := by
  rw [List.append_assoc, linesFrom_content h, List.append_nil]
  simp only [List.mem_cons, List.not_mem_nil, or_false] at hending
  rcases hending with rfl | rfl | rfl
  · rw [List.cons_append, List.nil_append, linesFrom, if_pos (.inl rfl), List.reverse_cons,
      List.reverse_reverse]
    exact fun _ h => absurd h (by decide)
  · rw [List.cons_append, List.nil_append, linesFrom, if_pos (.inr rfl), List.reverse_cons,
      List.reverse_reverse]
    rintro cs - rfl
    exact hrest rfl
  · rw [List.cons_append, List.cons_append, List.nil_append, linesFrom, List.reverse_cons,
      List.reverse_cons, List.reverse_reverse, List.append_assoc]
    rfl

/-- Every line of a text is a line. -/
theorem isLine_of_mem_linesFrom {line cs : List Char} (hline : ∀ c ∈ line, Inner c) :
    ∀ l ∈ linesFrom line cs, IsLine l := by
  have hreverse : ∀ {line : List Char}, (∀ c ∈ line, Inner c) → ∀ c ∈ line.reverse, Inner c :=
    fun h c hc => h c (List.mem_reverse.mp hc)
  have hnone : ∀ c ∈ ([] : List Char), Inner c := fun _ hc => absurd hc List.not_mem_nil
  fun_induction linesFrom line cs with
  | case1 => exact fun _ hl => absurd hl List.not_mem_nil
  | case2 line _ =>
    intro l hl
    obtain rfl := List.mem_singleton.mp hl
    exact ⟨line.reverse, [], (List.append_nil _).symm, hreverse hline, by simp⟩
  | case3 line cs ih =>
    refine List.forall_mem_cons.mpr ⟨?_, ih hnone⟩
    exact ⟨line.reverse, ['\r', '\n'], by simp, hreverse hline, by simp⟩
  | case4 line c cs _ hc ih =>
    refine List.forall_mem_cons.mpr ⟨?_, ih hnone⟩
    exact ⟨line.reverse, [c], by simp, hreverse hline, by rcases hc with rfl | rfl <;> simp⟩
  | case5 line c cs _ hc ih =>
    exact ih (List.forall_mem_cons.mpr ⟨not_or.mp hc, hline⟩)

/-- Every line of a text is a line. -/
theorem isLine_of_mem_lines {text line : String} (h : line ∈ lines text) : IsLine line.toList := by
  obtain ⟨l, hl, rfl⟩ := List.mem_map.mp h
  rw [String.toList_ofList]
  exact isLine_of_mem_linesFrom (fun _ hc => absurd hc List.not_mem_nil) l hl

/-- A line has an ending if there is something behind the characters that end no line. -/
theorem isTerminated_eq {line : String} {content ending : List Char}
    (hline : line.toList = content ++ ending) (h : ∀ c ∈ content, Inner c)
    (hending : ending ∈ [[], ['\n'], ['\r'], ['\r', '\n']]) :
    isTerminated line = !ending.isEmpty := by
  unfold isTerminated
  rw [hline]
  simp only [List.mem_cons, List.not_mem_nil, or_false] at hending
  rcases hending with rfl | rfl | rfl | rfl
  · rw [List.append_nil]
    cases hlast : content.getLast? with
    | none => rfl
    | some c =>
      obtain ⟨hfeed, hreturn⟩ := h c (List.mem_of_getLast? hlast)
      simp [hfeed, hreturn]
  all_goals simp

/-! ## Reading rows and headers -/

/-- The sign that a row begins with. -/
def Row.sign : Row → Char
  | kept _ => ' '
  | deleted _ => '-'
  | inserted _ => '+'

/-- A sign ends no line, -/
theorem Row.inner_sign (row : Row) : Inner row.sign := by
  cases row <;> simp [Inner, sign]

/-- What stands behind a line without an ending, after a line feed. -/
def hintText : List Char := '\\' :: " No newline at end of file".toList

/-- nor does any character of the hint. -/
theorem inner_hintText : ∀ c ∈ hintText, Inner c := by
  simp [hintText, Inner]

/-- The hint stands on a line of its own. -/
theorem hint_eq : "\n\\ No newline at end of file\n".toList = '\n' :: (hintText ++ ['\n']) := by
  simp [hintText]

/-- A row is its sign, its line, and the hint if the line has no ending. -/
theorem Row.toList_text (row : Row) :
    row.text.toList = row.sign :: row.line.toList ++
      if isTerminated row.line then [] else '\n' :: (hintText ++ ['\n']) := by
  rw [← hint_eq]
  have hnone : "".toList = [] := rfl
  cases row <;>
    simp only [text, sign, line, lineText, String.toList_append, apply_ite String.toList, hnone] <;>
    rfl

namespace Reading

/-- What is read of a line with an ending, and of what comes behind it. -/
theorem takeAll_line (r : Reading) {content ending rest : List Char} (h : ∀ c ∈ content, Inner c)
    (hending : ending ∈ [['\n'], ['\r'], ['\r', '\n']]) (hrest : rest.head? ≠ some '\n') :
    r.takeAll (content ++ ending ++ rest) =
      (r.takeAll rest).take (String.ofList (content ++ ending)) := by
  rw [takeAll, linesFrom_line h hending hrest]
  rfl

/-- A line with a sign is read as a row. -/
theorem take_row {r : Reading} (hhint : r.hint = false) (row : Row) :
    r.take (String.ofList (row.sign :: row.line.toList)) =
      ⟨false, row :: r.rows, r.hunks⟩ := by
  cases row <;> simp [take, Row.sign, Row.line, hhint]

/-- Before a hint, the line feed is taken off the line again. -/
theorem take_row_of_hint {r : Reading} (hhint : r.hint = true) (row : Row) :
    r.take (String.ofList (row.sign :: row.line.toList ++ ['\n'])) =
      ⟨false, row :: r.rows, r.hunks⟩ := by
  cases row <;> simp [take, Row.sign, Row.line, hhint]

/-- The hint says that the line before it has no ending. -/
theorem take_hint (r : Reading) :
    r.take (String.ofList (hintText ++ ['\n'])) = { r with hint := true } := by
  rw [take, String.toList_ofList]
  rfl

/-- A row is read back, with the hint behind it. -/
theorem takeAll_row {r : Reading} {rest : List Char} (row : Row) (hline : IsLine row.line.toList)
    (hrest : rest.head? ≠ some '\n') (hhint : (r.takeAll rest).hint = false) :
    r.takeAll (row.text.toList ++ rest) =
      ⟨false, row :: (r.takeAll rest).rows, (r.takeAll rest).hunks⟩ := by
  obtain ⟨content, ending, heq, hcontent, hending⟩ := hline
  have hinner : ∀ c ∈ row.sign :: content, Inner c :=
    List.forall_mem_cons.mpr ⟨row.inner_sign, hcontent⟩
  rw [Row.toList_text, isTerminated_eq heq hcontent hending]
  by_cases hnone : ending = []
  · -- The line feed before the hint ends the line, and the hint takes it away again.
    subst hnone
    rw [List.append_nil] at heq
    have hhinted : r.takeAll (hintText ++ ['\n'] ++ rest) = { r.takeAll rest with hint := true } := by
      rw [takeAll_line r inner_hintText (by simp) hrest, take_hint]
    have hhead : (hintText ++ ['\n'] ++ rest).head? ≠ some '\n' := fun h =>
      absurd (Option.some.inj h) (by decide)
    have hended : ['\n'] ∈ [['\n'], ['\r'], ['\r', '\n']] := List.mem_cons_self
    have hrow := takeAll_line r hinner hended hhead
    rw [hhinted, ← heq, take_row_of_hint rfl] at hrow
    rw [← hrow]
    simp [heq]
  · have hended : ending ∈ [['\n'], ['\r'], ['\r', '\n']] :=
      (List.mem_cons.mp hending).resolve_left hnone
    have hrow := takeAll_line r hinner hended hrest
    rw [List.cons_append, ← heq, take_row hhint] at hrow
    rw [← hrow]
    simp [hnone]

/-- The rows of a hunk are read back. -/
theorem takeAll_rows {r : Reading} {rest : List Char} {rows : List Row}
    (hrows : ∀ row ∈ rows, IsLine row.line.toList) (hrest : rest.head? ≠ some '\n')
    (hhint : (r.takeAll rest).hint = false) :
    r.takeAll ((String.join (rows.map Row.text)).toList ++ rest) =
        ⟨false, rows ++ (r.takeAll rest).rows, (r.takeAll rest).hunks⟩ ∧
      ((String.join (rows.map Row.text)).toList ++ rest).head? ≠ some '\n' := by
  induction rows with
  | nil =>
    refine ⟨?_, hrest⟩
    show r.takeAll rest = _
    rw [← hhint]
    rfl
  | cons row rows ih =>
    obtain ⟨hrow, hrows⟩ := List.forall_mem_cons.mp hrows
    obtain ⟨hmore, hhead⟩ := ih hrows
    rw [List.map_cons, String.join_cons, String.toList_append, List.append_assoc,
      takeAll_row row hrow hhead (by rw [hmore]), hmore]
    refine ⟨rfl, ?_⟩
    rw [Row.toList_text]
    exact fun h => row.inner_sign.1 (Option.some.inj h)

end Reading

/-- No character of a text ends a line. -/
def Unbroken (text : String) : Prop := ∀ c ∈ text.toList, Inner c

/-- Texts without line endings, one behind the other, have none. -/
theorem Unbroken.append {a b : String} (ha : Unbroken a) (hb : Unbroken b) : Unbroken (a ++ b) := by
  intro c hc
  rw [String.toList_append, List.mem_append] at hc
  exact hc.elim (ha c) (hb c)

/-- A number has no line endings, -/
theorem unbroken_number (n : ℕ) : Unbroken (toString n) := by
  intro c hc
  have hdigits : (toString n).toList = Nat.toDigits 10 n := by simp
  have hdigit := Nat.isDigit_of_mem_toDigits (by decide) (by decide) (hdigits ▸ hc)
  constructor <;> rintro rfl <;> exact absurd hdigit (by decide)

/-- nor has one side of a header. -/
theorem unbroken_sideText (start stop : ℕ) : Unbroken (sideText start stop) := by
  have hcomma : Unbroken "," := by simp [Unbroken, Inner]
  have hcommaZero : Unbroken ",0" := by simp [Unbroken, Inner]
  dsimp only [sideText]
  split_ifs
  · exact unbroken_number _
  · exact (unbroken_number _).append hcommaZero
  · exact ((unbroken_number _).append hcomma).append (unbroken_number _)

/-- A header is one line, which begins with the sign of a header. -/
theorem Hunk.exists_header_eq (h : Hunk) :
    ∃ content, h.header.toList = '@' :: content ++ ['\n'] ∧ ∀ c ∈ '@' :: content, Inner c := by
  have hfront : Unbroken "@@ -" := by simp [Unbroken, Inner]
  have hbetween : Unbroken " +" := by simp [Unbroken, Inner]
  have hback : Unbroken " @@" := by simp [Unbroken, Inner]
  generalize hold : sideText h.oldStart (h.oldStart + h.oldLength) = old
  generalize hnew : sideText h.newStart (h.newStart + h.newLength) = new
  have hcontent : Unbroken ("@@ -" ++ old ++ " +" ++ new ++ " @@") := by
    subst hold hnew
    exact (((hfront.append (unbroken_sideText _ _)).append hbetween).append
      (unbroken_sideText _ _)).append hback
  have hsign : ("@@ -" ++ old ++ " +" ++ new ++ " @@").toList =
      '@' :: ("@ -" ++ old ++ " +" ++ new ++ " @@").toList := by
    simp
  refine ⟨("@ -" ++ old ++ " +" ++ new ++ " @@").toList, ?_, ?_⟩
  · have hheader : h.header = "@@ -" ++ old ++ " +" ++ new ++ " @@\n" := by
      rw [Hunk.header, hold, hnew]
      rfl
    rw [← hsign, hheader]
    simp
  · rw [← hsign]
    exact hcontent

namespace Reading

/-- A header makes a hunk of the rows behind it. -/
theorem take_header (r : Reading) {content : List Char} :
    r.take (String.ofList ('@' :: content)) =
      ⟨false, [], (String.ofList ('@' :: content), r.rows) :: r.hunks⟩ := by
  simp [take]

/-- A hunk is read back. -/
theorem takeAll_hunk {r : Reading} {rest : List Char} (h : Hunk)
    (hrows : ∀ row ∈ h.rows, IsLine row.line.toList) (hrest : rest.head? ≠ some '\n')
    (hdone : (r.takeAll rest).hint = false ∧ (r.takeAll rest).rows = []) :
    r.takeAll (h.text.toList ++ rest) =
      ⟨false, [], (h.header, h.rows) :: (r.takeAll rest).hunks⟩ := by
  obtain ⟨content, heq, hcontent⟩ := h.exists_header_eq
  obtain ⟨hread, hhead⟩ := takeAll_rows hrows hrest hdone.1
  have hheader : String.ofList ('@' :: content ++ ['\n']) = h.header := by
    rw [← heq, String.ofList_toList]
  rw [Hunk.text, String.toList_append, heq, List.append_assoc,
    takeAll_line r hcontent (by simp) hhead, hread, hdone.2, List.append_nil]
  rw [List.cons_append] at hheader ⊢
  rw [take_header, hheader]

/-- What is printed for hunks is read back. -/
theorem takeAll_hunks {hunks : List Hunk}
    (hlines : ∀ h ∈ hunks, ∀ row ∈ h.rows, IsLine row.line.toList) :
    takeAll ⟨false, [], []⟩ (String.join (hunks.map Hunk.text)).toList =
        ⟨false, [], hunks.map fun h => (h.header, h.rows)⟩ ∧
      (String.join (hunks.map Hunk.text)).toList.head? ≠ some '\n' := by
  induction hunks with
  | nil => exact ⟨rfl, by simp⟩
  | cons h hunks ih =>
    obtain ⟨hrows, hlines⟩ := List.forall_mem_cons.mp hlines
    obtain ⟨hmore, hhead⟩ := ih hlines
    rw [List.map_cons, String.join_cons, String.toList_append,
      takeAll_hunk h hrows hhead (by rw [hmore]; exact ⟨rfl, rfl⟩), hmore]
    refine ⟨rfl, ?_⟩
    obtain ⟨content, heq, -⟩ := h.exists_header_eq
    rw [Hunk.text, String.toList_append, heq]
    exact fun h => absurd (Option.some.inj h) (by decide)

end Reading

/-- What is printed for hunks is read back as their headers and their rows. -/
theorem readHunks_join {hunks : List Hunk}
    (hlines : ∀ h ∈ hunks, ∀ row ∈ h.rows, IsLine row.line.toList) :
    readHunks (String.join (hunks.map Hunk.text)) = hunks.map fun h => (h.header, h.rows) :=
  congrArg Reading.hunks (Reading.takeAll_hunks hlines).1

end Fettle.Diff
