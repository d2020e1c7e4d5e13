import Fettle.Diff.Unified
import Mathlib.Data.List.Basic
import Mathlib.Data.Nat.Notation

/-!
# A diff is empty only between equal texts

A script that keeps all lines that it speaks of is a script between equal lists of lines
(`agree_of_conquer`). Sliding, joining and cutting into hunks may move an operation that changes
lines, or merge it with another, but never leave a script without one (`Changes`). So texts that
differ have a hunk, and `unified_eq_empty_iff` follows.
-/

namespace Fettle.Diff

/-! ## Lines -/

/-- The lines, joined, are the text. -/
theorem flatten_linesFrom (line cs : List Char) :
    (linesFrom line cs).flatten = line.reverse ++ cs := by
  fun_induction linesFrom line cs with
  | case1 => rfl
  | case2 line => rw [List.flatten_singleton, List.append_nil]
  | case3 line cs ih =>
    rw [List.flatten_cons, ih]
    simp only [List.reverse_cons, List.reverse_nil, List.append_assoc, List.cons_append,
      List.nil_append]
  | case4 line c cs _ _ ih =>
    rw [List.flatten_cons, ih, List.reverse_cons, List.reverse_nil, List.append_assoc]
    rfl
  | case5 line c cs _ _ ih =>
    rw [ih, List.reverse_cons, List.append_assoc]
    rfl

/-- A text is known by its lines. -/
theorem lines_inj {a b : String} : lines a = lines b ↔ a = b := by
  refine ⟨fun h => ?_, congrArg lines⟩
  have hjoined : ∀ text : String, ((lines text).map String.toList).flatten = text.toList := by
    intro text
    rw [lines, List.map_map]
    have hid : String.toList ∘ String.ofList = id := funext fun _ => String.toList_ofList
    rw [hid, List.map_id, flatten_linesFrom]
    rfl
  have hchars : a.toList = b.toList := by rw [← hjoined a, h, hjoined b]
  exact String.toList_inj.mp hchars

/-! ## Scripts that keep everything -/

/-- Some operation of a script changes lines. -/
def Changes (ops : List Op) : Prop := ∃ op ∈ ops, op.kind ≠ .equal

/-- A part of the old lines and a part of the new lines are equal, line by line. -/
structure Part.Agree (old new : Array String) (p : Part) : Prop where
  /-- Both parts have the same number of lines. -/
  length : p.oldLength = p.newLength
  /-- The lines at the same place are equal. -/
  line : ∀ i < p.oldLength, old[p.oldStart + i]? = new[p.newStart + i]?

/-- The lines of a part do not run backwards. -/
structure Part.Proper (p : Part) : Prop where
  /-- Old lines. -/
  old : p.oldStart ≤ p.oldStop
  /-- New lines. -/
  new : p.newStart ≤ p.newStop

/-- A part whose ends come behind its starts is proper. -/
theorem Part.proper_mk {s e t f : ℕ} (hold : s ≤ e) (hnew : t ≤ f) : Part.Proper ⟨s, e, t, f⟩ :=
  ⟨hold, hnew⟩

section

variable {old new : Array String}

variable (old new) in
/-- No more lines are counted from the front than asked for, -/
theorem commonFront_le (n i j : ℕ) : commonFront old new n i j ≤ n := by
  fun_induction commonFront old new n i j with
  | case1 => exact Nat.le_refl 0
  | case2 n i j h ih => exact Nat.succ_le_succ ih
  | case3 => exact Nat.zero_le _

/-- The lines in common at the fronts are equal. -/
theorem getElem?_of_lt_commonFront {n i j k : ℕ} (hk : k < commonFront old new n i j) :
    old[i + k]? = new[j + k]? := by
  induction n generalizing i j k with
  | zero => exact absurd hk (Nat.not_lt_zero k)
  | succ n ih =>
    unfold commonFront at hk
    split_ifs at hk with h
    · cases k with
      | zero => exact h.1
      | succ k =>
        have hnext := ih (Nat.lt_of_succ_lt_succ hk)
        rw [show i + (k + 1) = i + 1 + k by omega, show j + (k + 1) = j + 1 + k by omega]
        exact hnext
    · exact absurd hk (Nat.not_lt_zero k)

variable (old new) in
/-- and none from the back that are not there. -/
theorem commonBack_le (n i j : ℕ) :
    commonBack old new n i j ≤ n ∧ commonBack old new n i j ≤ i ∧ commonBack old new n i j ≤ j := by
  fun_induction commonBack old new n i j with
  | case1 => omega
  | case2 n i j h ih => omega
  | case3 => omega

/-- The lines in common at the backs are equal. -/
theorem getElem?_of_lt_commonBack {n i j k : ℕ} (hk : k < commonBack old new n i j) :
    old[i - 1 - k]? = new[j - 1 - k]? := by
  induction n generalizing i j k with
  | zero => exact absurd hk (Nat.not_lt_zero k)
  | succ n ih =>
    unfold commonBack at hk
    split_ifs at hk with h
    · cases k with
      | zero => exact h.2.2.1
      | succ k =>
        have hnext := ih (Nat.lt_of_succ_lt_succ hk)
        rw [show i - 1 - (k + 1) = i - 1 - 1 - k by omega,
          show j - 1 - (k + 1) = j - 1 - 1 - k by omega]
        exact hnext
    · exact absurd hk (Nat.not_lt_zero k)

/-- Parts that follow one another agree together if each agrees. -/
theorem Part.Agree.append {s x e t y f : ℕ} (h₁ : Part.Agree old new ⟨s, x, t, y⟩)
    (h₂ : Part.Agree old new ⟨x, e, y, f⟩) (hp₁ : Part.Proper ⟨s, x, t, y⟩)
    (hp₂ : Part.Proper ⟨x, e, y, f⟩) : Part.Agree old new ⟨s, e, t, f⟩ := by
  obtain ⟨hlength₁, hline₁⟩ := h₁
  obtain ⟨hlength₂, hline₂⟩ := h₂
  obtain ⟨hold₁, hnew₁⟩ := hp₁
  obtain ⟨hold₂, hnew₂⟩ := hp₂
  simp only [Part.oldLength, Part.newLength] at *
  refine ⟨by simp only [Part.oldLength, Part.newLength]; omega, fun i hi => ?_⟩
  simp only [Part.oldLength] at hi
  by_cases hfirst : i < x - s
  · exact hline₁ i hfirst
  · have hsecond := hline₂ (i - (x - s)) (by omega)
    rw [show x + (i - (x - s)) = s + i by omega,
      show y + (i - (x - s)) = t + i by omega] at hsecond
    exact hsecond

variable (old new) in
/-- The lines counted from the front agree, -/
theorem agree_commonFront (n i j : ℕ) :
    Part.Agree old new
      ⟨i, i + commonFront old new n i j, j, j + commonFront old new n i j⟩ := by
  refine ⟨by simp only [Part.oldLength, Part.newLength]; omega, fun k hk => ?_⟩
  have hk' : k < commonFront old new n i j := by
    simp only [Part.oldLength] at hk
    omega
  exact getElem?_of_lt_commonFront hk'

variable (old new) in
/-- and so do those counted from the back. -/
theorem agree_commonBack (n i j : ℕ) :
    Part.Agree old new
      ⟨i - commonBack old new n i j, i, j - commonBack old new n i j, j⟩ := by
  obtain ⟨-, hi, hj⟩ := commonBack_le old new n i j
  refine ⟨by simp only [Part.oldLength, Part.newLength]; omega, fun k hk => ?_⟩
  simp only [Part.oldLength] at hk
  -- The line at place `k` from the front is the one at place `back - 1 - k` from the back.
  have hback : commonBack old new n i j - 1 - k < commonBack old new n i j := by omega
  have hline := getElem?_of_lt_commonBack hback
  rw [show i - 1 - (commonBack old new n i j - 1 - k) = i - commonBack old new n i j + k by omega,
    show j - 1 - (commonBack old new n i j - 1 - k) = j - commonBack old new n i j + k by omega]
    at hline
  exact hline

/-- A script that begins with a change has one. -/
theorem changes_cons {op : Op} {ops : List Op} (h : op.kind ≠ .equal) : Changes (op :: ops) :=
  ⟨op, List.mem_cons_self, h⟩

/-- A script in two parts has a change if one of them has. -/
theorem changes_append {as bs : List Op} : Changes (as ++ bs) ↔ Changes as ∨ Changes bs := by
  simp only [Changes, List.mem_append, or_and_right, exists_or]

/-- What is left of a part when the lines in common at its front and at its back are taken off. -/
def Part.trim (old new : Array String) (p : Part) : Part :=
  let front := commonFront old new (min p.oldLength p.newLength) p.oldStart p.newStart
  let p : Part := { p with oldStart := p.oldStart + front, newStart := p.newStart + front }
  let back := commonBack old new (min p.oldLength p.newLength) p.oldStop p.newStop
  { p with oldStop := p.oldStop - back, newStop := p.newStop - back }

/-- The operations for a part that has no lines in common at its ends. -/
def conquerTrimmed (old new : Array String) (fuel : ℕ) (p : Part) : List Op :=
  let whole :=
    [Op.remove p.oldStart p.oldLength p.newStart, Op.add p.oldStart p.newStart p.newLength]
  if p.oldLength = 0 ∧ p.newLength = 0 then []
  else if p.newLength = 0 then [Op.remove p.oldStart p.oldLength p.newStart]
  else if p.oldLength = 0 then [Op.add p.oldStart p.newStart p.newLength]
  else match fuel with
    | 0 => whole
    | fuel + 1 =>
      match meet old new p with
      | none => whole
      | some (x, y) =>
        let x := max p.oldStart (min x p.oldStop)
        let y := max p.newStart (min y p.newStop)
        conquer old new fuel ⟨p.oldStart, x, p.newStart, y⟩ ++
          conquer old new fuel ⟨x, p.oldStop, y, p.newStop⟩

variable (old new) in
/-- The script for a part keeps the lines in common at its ends. -/
theorem exists_conquer_eq (fuel : ℕ) (p : Part) :
    ∃ front back, conquer old new fuel p =
      front ++ conquerTrimmed old new fuel (p.trim old new) ++ back := by
  cases fuel <;> exact ⟨_, _, rfl⟩

variable (old new) in
/-- The lines that are taken off are equal, and what is left does not run backwards. -/
theorem exists_trim_eq {s e t f : ℕ} (hp : Part.Proper ⟨s, e, t, f⟩) :
    ∃ x x' y y', Part.trim old new ⟨s, e, t, f⟩ = ⟨x, x', y, y'⟩ ∧
      Part.Proper ⟨s, x, t, y⟩ ∧ Part.Proper ⟨x, x', y, y'⟩ ∧ Part.Proper ⟨x', e, y', f⟩ ∧
      Part.Agree old new ⟨s, x, t, y⟩ ∧ Part.Agree old new ⟨x', e, y', f⟩ := by
  obtain ⟨hold, hnew⟩ := hp
  have hfront := commonFront_le old new (min (e - s) (f - t)) s t
  have hagree := agree_commonFront old new (min (e - s) (f - t)) s t
  unfold Part.trim
  simp only [Part.oldLength, Part.newLength] at hold hnew ⊢
  generalize commonFront old new (min (e - s) (f - t)) s t = front at hfront hagree ⊢
  have hback := commonBack_le old new (min (e - (s + front)) (f - (t + front))) e f
  have hagree' := agree_commonBack old new
    (min (e - (s + front)) (f - (t + front))) e f
  generalize commonBack old new (min (e - (s + front)) (f - (t + front))) e f = back
    at hback hagree' ⊢
  exact ⟨_, _, _, _, rfl, Part.proper_mk (by omega) (by omega), Part.proper_mk (by omega) (by omega),
    Part.proper_mk (by omega) (by omega), hagree, hagree'⟩

/-- What is left of a part agrees if nothing is changed there and the cuts do their work. -/
theorem agree_of_conquerTrimmed {fuel : ℕ} {p : Part} (hp : p.Proper)
    (hcut : ∀ k < fuel, ∀ q : Part, q.Proper → ¬ Changes (conquer old new k q) → q.Agree old new)
    (h : ¬ Changes (conquerTrimmed old new fuel p)) : p.Agree old new := by
  have hremove : ∀ ops, Changes (Op.remove p.oldStart p.oldLength p.newStart :: ops) :=
    fun _ => changes_cons nofun
  have hadd : ∀ ops, Changes (Op.add p.oldStart p.newStart p.newLength :: ops) :=
    fun _ => changes_cons nofun
  unfold conquerTrimmed at h
  split at h
  · next hempty =>
    refine ⟨hempty.1.trans hempty.2.symm, fun i hi => ?_⟩
    rw [hempty.1] at hi
    exact absurd hi (Nat.not_lt_zero i)
  split at h
  · exact absurd (hremove _) h
  split at h
  · exact absurd (hadd _) h
  split at h
  · exact absurd (hremove _) h
  split at h
  · exact absurd (hremove _) h
  · -- The part is cut in two.
    rw [changes_append, not_or] at h
    obtain ⟨hold, hnew⟩ := hp
    have hfirst := hcut _ (Nat.lt_succ_self _) _ (Part.proper_mk (by omega) (by omega)) h.1
    have hsecond := hcut _ (Nat.lt_succ_self _) _ (Part.proper_mk (by omega) (by omega)) h.2
    exact hfirst.append hsecond (Part.proper_mk (by omega) (by omega))
      (Part.proper_mk (by omega) (by omega))

/-- A script that changes nothing is a script between parts that agree. The induction is on the
number of cuts that may be made. -/
theorem agree_of_conquer {fuel : ℕ} {p : Part} (hp : p.Proper)
    (h : ¬ Changes (conquer old new fuel p)) : p.Agree old new := by
  induction fuel using Nat.strongRecOn generalizing p with
  | ind fuel ih =>
    obtain ⟨s, e, t, f⟩ := p
    obtain ⟨x, x', y, y', htrim, hp₁, hp₂, hp₃, hfront, hback⟩ := exists_trim_eq old new hp
    obtain ⟨front, back, heq⟩ := exists_conquer_eq old new fuel ⟨s, e, t, f⟩
    rw [heq, htrim, changes_append, changes_append, not_or, not_or] at h
    have hmiddle := agree_of_conquerTrimmed hp₂ (fun k hk q hq => ih k hk hq) h.1.2
    exact (hfront.append hmiddle hp₁ hp₂).append hback
      ⟨Nat.le_trans hp₁.old hp₂.old, Nat.le_trans hp₁.new hp₂.new⟩ hp₃

/-- A script between lists of lines that differ changes lines. -/
theorem changes_script (h : old ≠ new) : Changes (script old new) := by
  by_contra hnone
  have hagree := agree_of_conquer (Part.proper_mk (Nat.zero_le _) (Nat.zero_le _)) hnone
  apply h
  have hsize : old.size = new.size := hagree.length
  refine Array.ext_getElem? fun i => ?_
  by_cases hi : i < old.size
  · have hline := hagree.line i hi
    simp only [Nat.zero_add] at hline
    exact hline
  · rw [Array.getElem?_eq_none (Nat.le_of_not_lt hi),
      Array.getElem?_eq_none (hsize ▸ Nat.le_of_not_lt hi)]

end

/-! ## Sliding -/

section

variable (old new : Array String)

/-- An operation that slides up stays of its kind, -/
theorem Cursor.kind_slideUp (fuel : ℕ) (c : Cursor) :
    (c.slideUp old new fuel).this.kind = c.this.kind := by
  fun_induction Cursor.slideUp old new fuel c <;> simp_all [Op.moveUp, Op.lengthen]

/-- and so does one that slides down. -/
theorem Cursor.kind_slideDown (fuel : ℕ) (c : Cursor) :
    (c.slideDown old new fuel).this.kind = c.this.kind := by
  fun_induction Cursor.slideDown old new fuel c <;> simp_all [Op.moveDown, Op.lengthen]

/-- Sliding may merge operations, but only with the one that slides, which stays. -/
theorem changes_slideFrom {kind : Kind} (hkind : kind ≠ .equal) (bound fuel : ℕ)
    {before after : List Op} (h : Changes before ∨ Changes after) :
    Changes (slideFrom old new kind bound fuel before after) := by
  have hreverse : ∀ {ops : List Op}, Changes ops → Changes ops.reverse :=
    fun ⟨op, hop, hchange⟩ => ⟨op, List.mem_reverse.mpr hop, hchange⟩
  induction fuel generalizing before after with
  | zero => exact changes_append.mpr (h.imp hreverse id)
  | succ fuel ih =>
    cases after with
    | nil => exact hreverse (h.resolve_right fun ⟨_, hop, _⟩ => List.not_mem_nil hop)
    | cons op after =>
      unfold slideFrom
      split
      · next hop =>
        refine ih (.inl (changes_cons ?_))
        rw [Cursor.kind_slideDown, Cursor.kind_slideUp]
        exact hop ▸ hkind
      · refine ih ?_
        rcases h with ⟨op', hop', hchange⟩ | ⟨op', hop', hchange⟩
        · exact .inl ⟨op', List.mem_cons_of_mem op hop', hchange⟩
        · rcases List.mem_cons.mp hop' with rfl | hop'
          · exact .inl (changes_cons hchange)
          · exact .inr ⟨op', hop', hchange⟩

/-- Sliding all operations of a kind loses no change. -/
theorem changes_slide {kind : Kind} (hkind : kind ≠ .equal) {ops : List Op} (h : Changes ops) :
    Changes (slide old new kind ops) :=
  changes_slideFrom old new hkind _ _ (.inr h)

end

/-! ## Joining -/

/-- What is pending changes lines if it is not kept lines. -/
structure Pending.Proper (p : Pending) : Prop where
  /-- Deleted lines. -/
  delete : ∀ op ∈ p.delete, op.kind ≠ .equal
  /-- Inserted lines. -/
  insert : ∀ op ∈ p.insert, op.kind ≠ .equal

/-- Deleted or inserted lines are pending. -/
def Pending.Waits (p : Pending) : Prop := p.delete.isSome ∨ p.insert.isSome

/-- A change that waits is handed over. -/
theorem Pending.changes_flushChange {p : Pending} (hp : p.Proper) (h : p.Waits) :
    Changes p.flushChange := by
  obtain ⟨equal, delete, insert⟩ := p
  cases delete with
  | some d =>
    cases insert with
    | some i => exact changes_cons nofun
    | none => exact changes_cons (hp.delete d rfl)
  | none =>
    cases insert with
    | some i => exact changes_cons (hp.insert i rfl)
    | none => exact absurd h (by simp [Pending.Waits])

/-- An operation with more lines is of the same kind. -/
theorem Op.kind_lengthen (op : Op) (n : ℕ) : (op.lengthen n).kind = op.kind := by
  unfold Op.lengthen
  split <;> rfl

/-- A change that takes up a change is a change. -/
theorem Pending.kind_extend {a : Option Op} {op : Op} (ha : ∀ op ∈ a, op.kind ≠ .equal)
    (hop : op.kind ≠ .equal) : (Pending.extend a op).kind ≠ .equal := by
  cases a with
  | none => exact hop
  | some a =>
    show (a.lengthen _).kind ≠ .equal
    rw [Op.kind_lengthen]
    exact ha a rfl

/-- Joining leaves no operation that changes lines behind. -/
theorem changes_joinFrom {p : Pending} (hp : p.Proper) {ops : List Op}
    (h : p.Waits ∨ Changes ops) : Changes (joinFrom p ops) := by
  fun_induction joinFrom p ops with
  | case1 p =>
    have hwaits := h.resolve_right fun ⟨_, hop, _⟩ => List.not_mem_nil hop
    exact changes_append.mpr (.inr (Pending.changes_flushChange hp hwaits))
  | case2 p op ops hkind ih =>
    -- A kept line hands over what is pending; a change that comes later is found there.
    rcases h with hwaits | ⟨op', hop', hchange⟩
    · exact changes_append.mpr (.inl (Pending.changes_flushChange hp hwaits))
    · rcases List.mem_cons.mp hop' with rfl | hop'
      · exact absurd hkind hchange
      · exact changes_append.mpr (.inr (ih ⟨nofun, nofun⟩ (.inr ⟨op', hop', hchange⟩)))
  | case3 p op ops hkind ih =>
    have hop : op.kind ≠ .equal := by rw [hkind]; exact nofun
    -- The change is pending from now on, so it waits whatever has waited before.
    refine changes_append.mpr (.inr (ih ⟨?_, hp.insert⟩ (.inl (.inl rfl))))
    rintro _ ⟨⟩
    exact Pending.kind_extend hp.delete hop
  | case4 p op ops hkind ih =>
    have hop : op.kind ≠ .equal := by rw [hkind]; exact nofun
    refine changes_append.mpr (.inr (ih ⟨hp.delete, ?_⟩ (.inl (.inr rfl))))
    rintro _ ⟨⟩
    exact Pending.kind_extend hp.insert hop
  | case5 p op ops hkind ih =>
    have hop : op.kind ≠ .equal := by rw [hkind]; exact nofun
    exact changes_append.mpr (.inr (changes_cons hop))

/-- Lists of lines that differ have an operation that changes lines. -/
theorem changes_operations {old new : Array String} (h : old ≠ new) :
    Changes (operations old new) := by
  have hdelete : Kind.delete ≠ .equal := nofun
  have hinsert : Kind.insert ≠ .equal := nofun
  have hempty : ({} : Pending).Proper :=
    ⟨fun _ h => absurd h (Option.not_mem_none _), fun _ h => absurd h (Option.not_mem_none _)⟩
  unfold operations
  refine changes_joinFrom hempty (.inr ?_)
  exact changes_slide old new hinsert (changes_slide old new hdelete (changes_script h))

/-! ## Hunks -/

/-- A script that begins with a kept run has its change behind it. -/
theorem changes_of_cons {op : Op} {ops : List Op} (hop : op.kind = .equal)
    (h : Changes (op :: ops)) : Changes ops := by
  obtain ⟨op', hop', hchange⟩ := h
  rcases List.mem_cons.mp hop' with rfl | hop'
  · exact absurd hop hchange
  · exact ⟨op', hop', hchange⟩

/-- Cutting down the kept run that a script begins with loses no change, -/
theorem Changes.trimFirst {ops : List Op} (h : Changes ops) : Changes (trimFirst ops) := by
  fun_cases Diff.trimFirst ops with
  | case1 op ops hop n =>
    obtain ⟨op', hop', hchange⟩ := changes_of_cons hop h
    exact ⟨op', List.mem_cons_of_mem _ hop', hchange⟩
  | case2 op ops hop => exact h
  | case3 => exact h

/-- nor does cutting down the one that it ends with. -/
theorem Changes.trimLast {ops : List Op} (h : Changes ops) : Changes (trimLast ops) := by
  fun_induction Diff.trimLast ops with
  | case1 => exact h
  | case2 op hop =>
    obtain ⟨_, hnone, _⟩ := changes_of_cons hop h
    exact absurd hnone List.not_mem_nil
  | case3 op hop => exact h
  | case4 op next ops ih =>
    obtain ⟨op', hop', hchange⟩ := h
    rcases List.mem_cons.mp hop' with rfl | hop'
    · exact changes_cons hchange
    · obtain ⟨op'', hop'', hchange'⟩ := ih ⟨op', hop', hchange⟩
      exact ⟨op'', List.mem_cons_of_mem op hop'', hchange'⟩

/-- What is collected is left out only if it keeps its lines. -/
theorem hunksFrom_ne_nil {pending ops : List Op} (h : Changes (pending ++ ops)) :
    hunksFrom pending ops ≠ [] := by
  fun_induction hunksFrom pending ops with
  | case1 => exact absurd h fun ⟨_, hop, _⟩ => List.not_mem_nil hop
  | case2 op hop =>
    obtain ⟨_, hnone, _⟩ := changes_of_cons hop h
    exact absurd hnone List.not_mem_nil
  | case3 op hop => exact List.cons_ne_nil _ _
  | case4 pending => exact List.cons_ne_nil _ _
  | case5 pending op ops hop n ih => exact List.cons_ne_nil _ _
  | case6 pending op ops hop ih =>
    rw [List.append_cons] at h
    exact ih h

/-- A script that changes lines has a hunk. -/
theorem hunks_ne_nil {ops : List Op} (h : Changes ops) : hunks ops ≠ [] := by
  have htrimmed : Changes ([] ++ trimLast (trimFirst ops)) := h.trimFirst.trimLast
  unfold hunks
  exact hunksFrom_ne_nil htrimmed

/-- A diff between texts is empty exactly if the texts are equal. -/
theorem unified_eq_empty_iff {name source formatted : String} :
    unified name source formatted = "" ↔ source = formatted := by
  constructor
  · intro h
    by_contra hne
    have hlines : (lines source).toArray ≠ (lines formatted).toArray := fun heq =>
      hne (lines_inj.mp (List.toArray_inj heq))
    have hhunks : hunks (operations (lines source).toArray (lines formatted).toArray) ≠ [] :=
      hunks_ne_nil (changes_operations hlines)
    obtain ⟨hunk, rest, hcons⟩ := List.exists_cons_of_ne_nil hhunks
    -- A diff with a hunk begins with its headers.
    unfold unified at h
    simp only [if_neg hne, hcons, String.append_eq_empty_iff] at h
    exact absurd h.1.1.1.1.1 (by decide)
  · rintro rfl
    exact if_pos rfl

end Fettle.Diff
