import Fettle.Proofs.Diff.Presence

/-!
# Scripts that lead from one text to the other

A script is read from a place in the old lines and a place in the new ones, and every operation
moves both places on by the lines that it speaks of. An operation is at home (`Op.At`) where it
keeps lines that are equal, deletes the old lines at the old place, or inserts the new lines at the
new place. An insertion that changes places with a deletion keeps the old place it was given, and
so does the deletion keep its new one, so these are known only in scripts that do not hold both
kinds. A script leads from places to places (`Leads`) if each operation is at home where it is
read. The script of the search leads through all lines of both texts (`leads_script`).
-/

namespace Fettle.Diff

section

variable (kinds : Kind → Prop) (old new : Array String)

/-- Two runs of `n` lines are equal, line by line. -/
def Same (i j n : ℕ) : Prop := ∀ k < n, old[i + k]? = new[j + k]?

/-- What an operation says of its lines is true at a place in the old lines and a place in the new
ones. The script may hold operations of some kinds. -/
structure Op.At (op : Op) (i j : ℕ) : Prop where
  /-- The operation is of one of the kinds. -/
  kind : kinds op.kind
  /-- All but insertions among deletions know their place in the old lines. -/
  oldStart : op.kind ≠ .insert ∨ ¬ kinds .delete → op.oldStart = i
  /-- All but deletions among insertions know their place in the new lines. -/
  newStart : op.kind ≠ .delete ∨ ¬ kinds .insert → op.newStart = j
  /-- All but insertions have old lines. -/
  oldLength : op.oldLength = 0 ↔ op.kind = .insert
  /-- All but deletions have new lines. -/
  newLength : op.newLength = 0 ↔ op.kind = .delete
  /-- Lines that are kept are equal. -/
  same : op.kind = .equal → op.newLength = op.oldLength ∧ Same old new i j op.oldLength

/-- A script, read from a pair of places, is true at every step and ends at another pair. -/
def Leads : ℕ → ℕ → List Op → ℕ → ℕ → Prop
  | i, j, [], i', j' => i = i' ∧ j = j'
  | i, j, op :: ops, i', j' =>
    op.At kinds old new i j ∧ Leads (i + op.oldLength) (j + op.newLength) ops i' j'

end

section

variable {kinds : Kind → Prop} {old new : Array String} {i j i' j' n : ℕ} {op : Op} {ops : List Op}

/-! ## Equal runs -/

/-- Two stretches of common lines that follow each other are one. -/
theorem Same.append {m : ℕ} (h₁ : Same old new i j m) (h₂ : Same old new (i + m) (j + m) n) :
    Same old new i j (m + n) := by
  intro k hk
  by_cases hfirst : k < m
  · exact h₁ k hfirst
  · have hsecond := h₂ (k - m) (by omega)
    rw [show i + m + (k - m) = i + k by omega, show j + m + (k - m) = j + k by omega] at hsecond
    exact hsecond

/-- A run inside two equal runs, `m` lines behind their first lines. -/
theorem Same.part (m : ℕ) {l : ℕ} (h : Same old new i j n) (hfit : m + l ≤ n) :
    Same old new (i + m) (j + m) l := by
  intro k hk
  rw [Nat.add_assoc, Nat.add_assoc]
  exact h (m + k) (by omega)

variable (old new) in
/-- The lines counted from the front are common, -/
theorem same_commonFront (n i j : ℕ) : Same old new i j (commonFront old new n i j) :=
  fun _ hk => getElem?_of_lt_commonFront hk

variable (old new) in
/-- and so are those counted from the back. -/
theorem same_commonBack (n i j : ℕ) :
    Same old new (i - commonBack old new n i j) (j - commonBack old new n i j)
      (commonBack old new n i j) := by
  intro k hk
  refine (agree_commonBack old new n i j).line k ?_
  have hle := (commonBack_le old new n i j).2.1
  simp only [Part.oldLength]
  omega

/-! ## Operations by kind -/

/-- A kept run stands where its lines are common to both texts. -/
theorem Op.at_equal (hkind : op.kind = .equal) :
    op.At kinds old new i j ↔ kinds .equal ∧ op.oldStart = i ∧ op.newStart = j ∧
      0 < op.oldLength ∧ op.newLength = op.oldLength ∧ Same old new i j op.oldLength := by
  constructor
  · rintro ⟨hkinds, hold, hnew, hlength, -, hsame⟩
    obtain ⟨heq, hlines⟩ := hsame hkind
    have hpos : op.oldLength ≠ 0 := fun h => by simp [hlength.mp h] at hkind
    exact ⟨hkind ▸ hkinds, hold (by simp [hkind]), hnew (by simp [hkind]), Nat.pos_of_ne_zero hpos,
      heq, hlines⟩
  · rintro ⟨hkinds, hold, hnew, hpos, heq, hlines⟩
    refine ⟨hkind ▸ hkinds, fun _ => hold, fun _ => hnew, ?_, ?_, fun _ => ⟨heq, hlines⟩⟩ <;>
      simp only [hkind, reduceCtorEq, iff_false] <;> omega

/-- A deletion stands at its old lines; its place in the new text is right where nothing is
inserted. -/
theorem Op.at_delete (hkind : op.kind = .delete) :
    op.At kinds old new i j ↔ kinds .delete ∧ op.oldStart = i ∧
      (¬ kinds .insert → op.newStart = j) ∧ 0 < op.oldLength ∧ op.newLength = 0 := by
  constructor
  · rintro ⟨hkinds, hold, hnew, hlength, hnone, -⟩
    have hpos : op.oldLength ≠ 0 := fun h => by simp [hlength.mp h] at hkind
    exact ⟨hkind ▸ hkinds, hold (by simp [hkind]), fun h => hnew (.inr h), Nat.pos_of_ne_zero hpos,
      hnone.mpr hkind⟩
  · rintro ⟨hkinds, hold, hnew, hpos, hnone⟩
    refine ⟨hkind ▸ hkinds, fun _ => hold, fun h => hnew (h.resolve_left (absurd hkind)), ?_, ?_, ?_⟩ <;>
      simp only [hkind, reduceCtorEq, iff_false, iff_true, false_implies] <;> omega

/-- An insertion stands at its new lines; its place in the old text is right where nothing is
deleted. -/
theorem Op.at_insert (hkind : op.kind = .insert) :
    op.At kinds old new i j ↔ kinds .insert ∧ op.newStart = j ∧
      (¬ kinds .delete → op.oldStart = i) ∧ op.oldLength = 0 ∧ 0 < op.newLength := by
  constructor
  · rintro ⟨hkinds, hold, hnew, hnone, hlength, -⟩
    have hpos : op.newLength ≠ 0 := fun h => by simp [hlength.mp h] at hkind
    exact ⟨hkind ▸ hkinds, hnew (by simp [hkind]), fun h => hold (.inr h), hnone.mpr hkind,
      Nat.pos_of_ne_zero hpos⟩
  · rintro ⟨hkinds, hnew, hold, hnone, hpos⟩
    refine ⟨hkind ▸ hkinds, fun h => hold (h.resolve_left (absurd hkind)), fun _ => hnew, ?_, ?_, ?_⟩ <;>
      simp only [hkind, reduceCtorEq, iff_false, iff_true, false_implies] <;> omega

/-- A replacement knows both its places. -/
theorem Op.at_replace (hkind : op.kind = .replace) :
    op.At kinds old new i j ↔ kinds .replace ∧
      op.oldStart = i ∧ op.newStart = j ∧ 0 < op.oldLength ∧ 0 < op.newLength := by
  constructor
  · rintro ⟨hkinds, hold, hnew, hlength, hlength', -⟩
    have hpos : op.oldLength ≠ 0 := fun h => by simp [hlength.mp h] at hkind
    have hpos' : op.newLength ≠ 0 := fun h => by simp [hlength'.mp h] at hkind
    exact ⟨hkind ▸ hkinds, hold (by simp [hkind]), hnew (by simp [hkind]), Nat.pos_of_ne_zero hpos,
      Nat.pos_of_ne_zero hpos'⟩
  · rintro ⟨hkinds, hold, hnew, hpos, hpos'⟩
    refine ⟨hkind ▸ hkinds, fun _ => hold, fun _ => hnew, ?_, ?_, ?_⟩ <;>
      simp only [hkind, reduceCtorEq, iff_false, false_implies] <;> omega

/-- Common lines may be kept where they stand. -/
theorem Op.at_keep (hkinds : kinds .equal) (hpos : 0 < n) (hsame : Same old new i j n) :
    (Op.keep i j n).At kinds old new i j :=
  (Op.at_equal rfl).mpr ⟨hkinds, rfl, rfl, hpos, rfl, hsame⟩

/-- An operation that is true somewhere speaks of lines. -/
theorem Op.At.isEmpty_ne_true (h : op.At kinds old new i j) : ¬ op.isEmpty = true := by
  intro hempty
  simp only [Op.isEmpty, Bool.and_eq_true, beq_iff_eq] at hempty
  have hinsert := h.oldLength.mp hempty.1
  rw [h.newLength.mp hempty.2] at hinsert
  exact absurd hinsert nofun

/-! ## Scripts -/

/-- A script in two parts leads where its second part leads from where the first one has led. -/
theorem leads_append {as bs : List Op} :
    Leads kinds old new i j (as ++ bs) i' j' ↔
      ∃ x y, Leads kinds old new i j as x y ∧ Leads kinds old new x y bs i' j' := by
  induction as generalizing i j with
  | nil =>
    refine ⟨fun h => ⟨i, j, ⟨rfl, rfl⟩, h⟩, ?_⟩
    rintro ⟨x, y, ⟨rfl, rfl⟩, h⟩
    exact h
  | cons op as ih =>
    simp only [List.cons_append, Leads, ih]
    constructor
    · rintro ⟨hop, x, y, has, hbs⟩
      exact ⟨x, y, ⟨hop, has⟩, hbs⟩
    · rintro ⟨x, y, ⟨hop, has⟩, hbs⟩
      exact ⟨hop, x, y, has, hbs⟩

/-- The end of a script may be exchanged for another that leads to the same places. -/
theorem Leads.exchange {as bs cs : List Op} (h : Leads kinds old new i j (as ++ bs) i' j')
    (hex : ∀ {x y}, Leads kinds old new x y bs i' j' → Leads kinds old new x y cs i' j') :
    Leads kinds old new i j (as ++ cs) i' j' := by
  obtain ⟨x, y, has, hbs⟩ := leads_append.mp h
  exact leads_append.mpr ⟨x, y, has, hex hbs⟩

/-- No operation of a script that leads somewhere is empty, -/
theorem Leads.isEmpty_ne_true (h : Leads kinds old new i j ops i' j') :
    ∀ op ∈ ops, ¬ op.isEmpty = true := by
  induction ops generalizing i j with
  | nil => exact fun _ hop => absurd hop List.not_mem_nil
  | cons op ops ih => exact List.forall_mem_cons.mpr ⟨h.1.isEmpty_ne_true, ih h.2⟩

/-- A script may be read as one that may hold replacements. -/
theorem Leads.mono (h : Leads kinds old new i j ops i' j') :
    Leads (fun kind => kind = .replace ∨ kinds kind) old new i j ops i' j' := by
  induction ops generalizing i j with
  | nil => exact h
  | cons op ops ih =>
    obtain ⟨⟨hkinds, hold, hnew, hlength, hlength', hsame⟩, hops⟩ := h
    refine ⟨⟨.inr hkinds, fun h => hold (h.imp_right ?_), fun h => hnew (h.imp_right ?_), hlength,
      hlength', hsame⟩, ih hops⟩
    · exact fun hnot hkind => hnot (.inr hkind)
    · exact fun hnot hkind => hnot (.inr hkind)

/-- and each is of one of the kinds. -/
theorem Leads.kind_of_mem (h : Leads kinds old new i j ops i' j') : ∀ op ∈ ops, kinds op.kind := by
  induction ops generalizing i j with
  | nil => exact fun _ hop => absurd hop List.not_mem_nil
  | cons op ops ih => exact List.forall_mem_cons.mpr ⟨h.1.kind, ih h.2⟩

/-- A script does not lead back. -/
theorem Leads.le (h : Leads kinds old new i j ops i' j') : i ≤ i' ∧ j ≤ j' := by
  induction ops generalizing i j with
  | nil => exact ⟨Nat.le_of_eq h.1, Nat.le_of_eq h.2⟩
  | cons op ops ih =>
    obtain ⟨hold, hnew⟩ := ih h.2
    omega

/-! ## The script of the search -/

/-- Lines that are kept, if there are any. -/
theorem leads_keep (hsame : Same old new i j n) :
    (∀ op ∈ if 0 < n then [Op.keep i j n] else [], kinds op.kind) →
      Leads kinds old new i j (if 0 < n then [Op.keep i j n] else []) (i + n) (j + n) := by
  split
  · next hpos =>
    exact fun hkinds => ⟨Op.at_keep (hkinds _ List.mem_cons_self) hpos hsame, rfl, rfl⟩
  · next hnone =>
    have hzero : n = 0 := by omega
    subst hzero
    exact fun _ => ⟨rfl, rfl⟩

variable (old new) in
/-- A script keeps the lines in common at the ends of its part. -/
theorem conquer_eq (fuel s e t f : ℕ) :
    conquer old new fuel ⟨s, e, t, f⟩ =
      let front := commonFront old new (min (e - s) (f - t)) s t
      let back := commonBack old new (min (e - (s + front)) (f - (t + front))) e f
      (if 0 < front then [Op.keep s t front] else []) ++
        conquerTrimmed old new fuel ⟨s + front, e - back, t + front, f - back⟩ ++
        (if 0 < back then [Op.keep (e - back) (f - back) back] else []) := by
  cases fuel <;> rfl

/-- What is left of a part is led through if the scripts of its cuts lead through them. -/
theorem leads_conquerTrimmed {fuel : ℕ} {p : Part} (hp : p.Proper)
    (hcut : ∀ k < fuel, ∀ q : Part, q.Proper → (∀ op ∈ conquer old new k q, kinds op.kind) →
      Leads kinds old new q.oldStart q.newStart (conquer old new k q) q.oldStop q.newStop) :
    (∀ op ∈ conquerTrimmed old new fuel p, kinds op.kind) →
      Leads kinds old new p.oldStart p.newStart (conquerTrimmed old new fuel p)
        p.oldStop p.newStop := by
  obtain ⟨hold, hnew⟩ := hp
  have hn : p.oldLength = p.oldStop - p.oldStart := rfl
  have hm : p.newLength = p.newStop - p.newStart := rfl
  have hremove : 0 < p.oldLength → kinds .delete →
      (Op.remove p.oldStart p.oldLength p.newStart).At kinds old new p.oldStart p.newStart :=
    fun hpos hkind => (Op.at_delete rfl).mpr ⟨hkind, rfl, fun _ => rfl, hpos, rfl⟩
  have hadd : ∀ i, 0 < p.newLength → kinds .insert → (¬ kinds .delete → p.oldStart = i) →
      (Op.add p.oldStart p.newStart p.newLength).At kinds old new i p.newStart :=
    fun _ hpos hkind hplace => (Op.at_insert rfl).mpr ⟨hkind, rfl, hplace, rfl, hpos⟩
  have hwhole : 0 < p.oldLength → 0 < p.newLength →
      (∀ op ∈ [Op.remove p.oldStart p.oldLength p.newStart,
        Op.add p.oldStart p.newStart p.newLength], kinds op.kind) →
      Leads kinds old new p.oldStart p.newStart
        [Op.remove p.oldStart p.oldLength p.newStart, Op.add p.oldStart p.newStart p.newLength]
        p.oldStop p.newStop := by
    intro hpos hpos' hkinds
    obtain ⟨hdelete, hinsert⟩ := List.forall_mem_cons.mp hkinds
    refine ⟨hremove hpos hdelete, hadd _ hpos' (hinsert _ List.mem_cons_self) ?_, ?_, ?_⟩
    · exact fun hnot => absurd hdelete hnot
    · simp only [Op.remove, Op.add]
      omega
    · simp only [Op.remove, Op.add]
      omega
  unfold conquerTrimmed
  split
  · exact fun _ => ⟨by omega, by omega⟩
  split
  · exact fun hkinds => ⟨hremove (by omega) (hkinds _ List.mem_cons_self),
      by simp only [Op.remove]; omega, by simp only [Op.remove]; omega⟩
  split
  · exact fun hkinds => ⟨hadd _ (by omega) (hkinds _ List.mem_cons_self) fun _ => rfl,
      by simp only [Op.add]; omega, by simp only [Op.add]; omega⟩
  split
  · exact hwhole (by omega) (by omega)
  split
  · exact hwhole (by omega) (by omega)
  · -- The part is cut in two.
    next k _ x y _ =>
    intro hkinds
    obtain ⟨hkinds₁, hkinds₂⟩ := List.forall_mem_append.mp hkinds
    have hfirst := hcut k (Nat.lt_succ_self k)
      ⟨p.oldStart, max p.oldStart (min x p.oldStop), p.newStart, max p.newStart (min y p.newStop)⟩
      (Part.proper_mk (by omega) (by omega)) hkinds₁
    have hsecond := hcut k (Nat.lt_succ_self k)
      ⟨max p.oldStart (min x p.oldStop), p.oldStop, max p.newStart (min y p.newStop), p.newStop⟩
      (Part.proper_mk (by omega) (by omega)) hkinds₂
    exact leads_append.mpr ⟨_, _, hfirst, hsecond⟩

/-- The script for a part leads through it. The induction is on the number of cuts that may be
made. -/
theorem leads_conquer {fuel : ℕ} {p : Part} (hp : p.Proper)
    (hkinds : ∀ op ∈ conquer old new fuel p, kinds op.kind) :
    Leads kinds old new p.oldStart p.newStart (conquer old new fuel p) p.oldStop p.newStop := by
  induction fuel using Nat.strongRecOn generalizing p with
  | ind fuel ih =>
    obtain ⟨s, e, t, f⟩ := p
    obtain ⟨hold, hnew⟩ := hp
    simp only at hold hnew
    rw [conquer_eq] at hkinds ⊢
    dsimp only at hkinds ⊢
    -- Of the common lines at both ends only their number and that they agree is needed.
    have hfront := commonFront_le old new (min (e - s) (f - t)) s t
    have hsame := same_commonFront old new (min (e - s) (f - t)) s t
    generalize commonFront old new (min (e - s) (f - t)) s t = front at hfront hsame hkinds ⊢
    have hback := commonBack_le old new (min (e - (s + front)) (f - (t + front))) e f
    have hsame' := same_commonBack old new (min (e - (s + front)) (f - (t + front))) e f
    generalize commonBack old new (min (e - (s + front)) (f - (t + front))) e f = back
      at hback hsame' hkinds ⊢
    obtain ⟨hkinds, hkindsBack⟩ := List.forall_mem_append.mp hkinds
    obtain ⟨hkindsFront, hkindsMiddle⟩ := List.forall_mem_append.mp hkinds
    have hproper : Part.Proper ⟨s + front, e - back, t + front, f - back⟩ :=
      Part.proper_mk (by omega) (by omega)
    have hmiddle := leads_conquerTrimmed hproper (fun k hk q hq => ih k hk hq) hkindsMiddle
    have hlast := leads_keep hsame' hkindsBack
    rw [show e - back + back = e by omega, show f - back + back = f by omega] at hlast
    exact leads_append.mpr
      ⟨_, _, leads_append.mpr ⟨_, _, leads_keep hsame hkindsFront, hmiddle⟩, hlast⟩

variable (old new) in
/-- The search has found an operation of the kind. -/
def Found (kind : Kind) : Prop := ∃ op ∈ script old new, op.kind = kind

variable (old new) in
/-- The script between two lists of lines leads through both. -/
theorem leads_script : Leads (Found old new) old new 0 0 (script old new) old.size new.size :=
  leads_conquer (Part.proper_mk (Nat.zero_le _) (Nat.zero_le _)) fun op hop => ⟨op, hop, rfl⟩

end

end Fettle.Diff
