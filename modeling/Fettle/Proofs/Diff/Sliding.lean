import Fettle.Proofs.Diff.Places

/-!
# Sliding leads to the same places

Every step of sliding exchanges two or three neighbouring operations for others that lead from the
same places to the same places: neighbours change places (`Leads.swap`), are merged
(`Leads.merge`), or an insertion passes kept lines (`Leads.passUp`, `Leads.passDown`), which are
given to the kept run on its other side. So sliding leads where the script led before
(`Leads.slide`), with operations of the kinds that the script held.
-/

namespace Fettle.Diff

/-- What is left of a kept run, if anything is left. -/
def Op.rest (op : Op) : List Op := if op.isEmpty then [] else [op]

/-- Kept lines in front of a script, given to the run that it begins with if that is a kept one. -/
def keepAbove (x y n : ℕ) : List Op → List Op
  | op :: ops => if op.kind = .equal then (op.moveUp n).lengthen n :: ops else .keep x y n :: op :: ops
  | [] => [.keep x y n]

/-- Kept lines behind a script, which is turned around, given to the run that it ends with if that
is a kept one. -/
def keepBelow (x y n : ℕ) : List Op → List Op
  | op :: ops => if op.kind = .equal then op.lengthen n :: ops else .keep x y n :: op :: ops
  | [] => [.keep x y n]

/-- The script that an operation is looked at in. -/
def Cursor.ops (c : Cursor) : List Op := c.before.reverse ++ c.this :: c.after

variable {kinds : Kind → Prop} {old new : Array String} {i j i' j' n : ℕ} {op a b : Op}
  {ops : List Op}

/-! ## The steps -/

/-- Deletions and insertions may change places. -/
theorem Leads.swap
    (hkinds : a.kind = .delete ∧ b.kind = .insert ∨ a.kind = .insert ∧ b.kind = .delete)
    (h : Leads kinds old new i j (a :: b :: ops) i' j') :
    Leads kinds old new i j (b :: a :: ops) i' j' := by
  obtain ⟨ha, hb, hops⟩ := h
  rw [Nat.add_right_comm i, Nat.add_right_comm j] at hops
  -- As the script holds both kinds, neither needs to know its place on the other side.
  rcases hkinds with ⟨hdelete, hinsert⟩ | ⟨hinsert, hdelete⟩
  · obtain ⟨hk, hold, -, hpos, hnone⟩ := (Op.at_delete hdelete).mp ha
    obtain ⟨hk', hnew, -, hnone', hpos'⟩ := (Op.at_insert hinsert).mp hb
    refine ⟨(Op.at_insert hinsert).mpr ⟨hk', ?_, fun hnot => absurd hk hnot, hnone', hpos'⟩,
      (Op.at_delete hdelete).mpr ⟨hk, ?_, fun hnot => absurd hk' hnot, hpos, hnone⟩, hops⟩
    · omega
    · omega
  · obtain ⟨hk', hnew, -, hnone', hpos'⟩ := (Op.at_insert hinsert).mp ha
    obtain ⟨hk, hold, -, hpos, hnone⟩ := (Op.at_delete hdelete).mp hb
    refine ⟨(Op.at_delete hdelete).mpr ⟨hk, ?_, fun hnot => absurd hk' hnot, hpos, hnone⟩,
      (Op.at_insert hinsert).mpr ⟨hk', ?_, fun hnot => absurd hk hnot, hnone', hpos'⟩, hops⟩
    · omega
    · omega

/-- Neighbours of one kind may be merged, unless they are replacements. -/
theorem Leads.merge (hkind : a.kind = b.kind) (hplain : a.kind ≠ .replace)
    (h : Leads kinds old new i j (a :: b :: ops) i' j') :
    Leads kinds old new i j (a.lengthen (max b.oldLength b.newLength) :: ops) i' j' := by
  obtain ⟨ha, hb, hops⟩ := h
  rw [Nat.add_assoc, Nat.add_assoc] at hops
  -- A kept run has both lengths, a change only one; the larger of the two serves all kinds.
  cases hk : a.kind with
  | equal =>
    obtain ⟨hkinds, hold, hnew, hpos, heq, hsame⟩ := (Op.at_equal hk).mp ha
    obtain ⟨-, -, -, -, heq', hsame'⟩ := (Op.at_equal (hkind ▸ hk)).mp hb
    rw [heq] at hsame'
    simp only [Op.lengthen, hk]
    rw [heq', Nat.max_self]
    refine ⟨(Op.at_equal rfl).mpr
      ⟨hkinds, hold, hnew, Nat.add_pos_left hpos _, ?_, hsame.append hsame'⟩, ?_⟩
    · exact congrArg (· + b.oldLength) heq
    · rwa [heq'] at hops
  | delete =>
    obtain ⟨hkinds, hold, hnew, hpos, hnone⟩ := (Op.at_delete hk).mp ha
    obtain ⟨-, -, -, -, hnone'⟩ := (Op.at_delete (hkind ▸ hk)).mp hb
    simp only [Op.lengthen, hk]
    rw [hnone', Nat.max_zero]
    refine ⟨(Op.at_delete rfl).mpr ⟨hkinds, hold, hnew, Nat.add_pos_left hpos _, hnone⟩, ?_⟩
    rwa [hnone', Nat.add_zero] at hops
  | insert =>
    obtain ⟨hkinds, hnew, hold, hnone, hpos⟩ := (Op.at_insert hk).mp ha
    obtain ⟨-, -, -, hnone', -⟩ := (Op.at_insert (hkind ▸ hk)).mp hb
    simp only [Op.lengthen, hk]
    rw [hnone', Nat.zero_max]
    refine ⟨(Op.at_insert rfl).mpr ⟨hkinds, hnew, hold, hnone, Nat.add_pos_left hpos _⟩, ?_⟩
    rwa [hnone', Nat.add_zero] at hops
  | replace => exact absurd hk hplain

/-- An insertion takes up the one behind it. -/
theorem Leads.merge_insert (ha : a.kind = .insert) (hb : b.kind = .insert)
    (h : Leads kinds old new i j (a :: b :: ops) i' j') :
    Leads kinds old new i j (a.lengthen b.newLength :: ops) i' j' := by
  obtain ⟨-, -, -, hnone, -⟩ := (Op.at_insert hb).mp h.2.1
  have hmerged := h.merge (ha.trans hb.symm) (by simp [ha])
  rwa [hnone, Nat.zero_max] at hmerged

/-- A deletion takes up the one behind it. -/
theorem Leads.merge_delete (ha : a.kind = .delete) (hb : b.kind = .delete)
    (h : Leads kinds old new i j (a :: b :: ops) i' j') :
    Leads kinds old new i j (a.lengthen b.oldLength :: ops) i' j' := by
  obtain ⟨-, -, -, -, hnone⟩ := (Op.at_delete hb).mp h.2.1
  have hmerged := h.merge (ha.trans hb.symm) (by simp [ha])
  rwa [hnone, Nat.max_zero] at hmerged

/-! ## Kept runs -/

/-- What is left of a kept run stands in front of a script if anything is left. -/
theorem Op.rest_append (op : Op) (ops : List Op) :
    op.rest ++ ops = if op.isEmpty then ops else op :: ops := by
  unfold Op.rest
  split <;> rfl

/-- What is left of a kept run is one operation at most, so turning it around changes nothing. -/
theorem Op.reverse_rest (op : Op) : op.rest.reverse = op.rest := by
  unfold Op.rest
  split <;> rfl

/-- Kept lines in front of a script, as sliding up puts them there. -/
theorem keepAbove_eq (x y n : ℕ) (ops : List Op) :
    keepAbove x y n ops = match ops with
      | next :: after =>
        if next.kind = .equal then (next.moveUp n).lengthen n :: after
        else .keep x y n :: next :: after
      | [] => [.keep x y n] := by
  cases ops <;> rfl

/-- Kept lines behind a script, as sliding down puts them there. -/
theorem keepBelow_eq (x y n : ℕ) (ops : List Op) :
    keepBelow x y n ops = match ops with
      | prev :: before =>
        if prev.kind = .equal then prev.lengthen n :: before else .keep x y n :: prev :: before
      | [] => [.keep x y n] := by
  cases ops <;> rfl

/-- Kept lines may be given to the kept run that follows them. -/
theorem Leads.keepAbove {x y : ℕ} (h : Leads kinds old new i j (.keep x y n :: ops) i' j') :
    Leads kinds old new i j (keepAbove x y n ops) i' j' := by
  fun_cases Diff.keepAbove x y n ops with
  | case1 op ops hkind =>
    obtain ⟨hkeep, hop, hops⟩ := h
    obtain ⟨hkinds, -, -, hpos, -, hsame⟩ := (Op.at_equal rfl).mp hkeep
    obtain ⟨-, hold, hnew, hpos', heq, hsame'⟩ := (Op.at_equal hkind).mp hop
    simp only [Op.keep] at hpos hsame hold hnew hsame' hops
    simp only [Op.moveUp, Op.lengthen, hkind]
    refine ⟨(Op.at_equal rfl).mpr ⟨hkinds, by dsimp only; omega, by dsimp only; omega,
      Nat.add_pos_left hpos' _, congrArg (· + n) heq, ?_⟩, ?_⟩
    · dsimp only
      rw [Nat.add_comm op.oldLength]
      exact hsame.append hsame'
    · rwa [Nat.add_comm op.oldLength, Nat.add_comm op.newLength, ← Nat.add_assoc, ← Nat.add_assoc]
  | case2 op ops hkind => exact h
  | case3 => exact h

/-- Kept lines may be given to the kept run before them. -/
theorem Leads.keepBelow {before : List Op} {x y : ℕ}
    (h : Leads kinds old new i j (before.reverse ++ .keep x y n :: ops) i' j') :
    Leads kinds old new i j ((keepBelow x y n before).reverse ++ ops) i' j' := by
  fun_cases Diff.keepBelow x y n before with
  | case1 op before hkind =>
    rw [List.reverse_cons, List.append_assoc] at h ⊢
    refine h.exchange fun h => ?_
    have hmerged := h.merge hkind (by simp [hkind])
    rwa [show max (Op.keep x y n).oldLength (Op.keep x y n).newLength = n from Nat.max_self n]
      at hmerged
  | case2 op before hkind => rwa [List.reverse_cons, List.append_assoc]
  | case3 => exact h

/-- A kept run leads on, and if it is empty it may be left out. -/
theorem Leads.rest (hkinds : kinds .equal) (hkind : op.kind = .equal) (hold : op.oldStart = i)
    (hnew : op.newStart = j)
    (heq : op.newLength = op.oldLength) (hsame : Same old new i j op.oldLength)
    (h : Leads kinds old new (i + op.oldLength) (j + op.oldLength) ops i' j') :
    Leads kinds old new i j (op.rest ++ ops) i' j' := by
  unfold Op.rest
  split
  · next hempty =>
    have hzero : op.oldLength = 0 := by
      simp only [Op.isEmpty, Bool.and_eq_true, beq_iff_eq] at hempty
      exact hempty.1
    rwa [hzero] at h
  · next hfull =>
    have hpos : 0 < op.oldLength := by
      simp only [Op.isEmpty, Bool.and_eq_true, beq_iff_eq] at hfull
      omega
    refine ⟨(Op.at_equal hkind).mpr ⟨hkinds, hold, hnew, hpos, heq, hsame⟩, ?_⟩
    rwa [heq]

/-- An insertion passes the last of the kept lines before it, which repeat its last lines. -/
theorem Leads.passUp (ha : a.kind = .equal) (hb : b.kind = .insert) (hn : 0 < n)
    (hfit : n ≤ a.oldLength) (hsame : Same old new (a.oldStop - n) (b.newStop - n) n)
    (h : Leads kinds old new i j (a :: b :: ops) i' j') :
    Leads kinds old new i j
      ((a.shorten n).rest ++ b.moveUp n :: .keep (a.oldStop - n) (b.newStop - n) n :: ops) i' j' := by
  obtain ⟨hkept, hinserted, hops⟩ := h
  obtain ⟨hkinds, hold, hnew, hpos, heq, hlines⟩ := (Op.at_equal ha).mp hkept
  obtain ⟨hkinds', hnew', hold', hnone, hpos'⟩ := (Op.at_insert hb).mp hinserted
  have hstop : a.oldStop - n = i + (a.oldLength - n) := by
    unfold Op.oldStop
    omega
  have hstop' : b.newStop - n = j + (a.oldLength - n) + b.newLength := by
    unfold Op.newStop
    omega
  rw [hstop, hstop'] at hsame ⊢
  simp only [Op.shorten, ha]
  -- First what is left of the kept run, then the insertion `n` lines earlier, then the lines that
  -- it has passed.
  refine Leads.rest hkinds rfl hold hnew (congrArg (· - n) heq)
    (hlines.part 0 (by dsimp only; omega)) ?_
  have hkind : (b.moveUp n).kind = .insert := hb
  have hplace : b.newStart - n = j + (a.oldLength - n) := by omega
  have hplace' : ¬ kinds .delete → b.oldStart - n = i + (a.oldLength - n) := by
    intro hnot
    have hknown := hold' hnot
    omega
  refine ⟨(Op.at_insert hkind).mpr ⟨hkinds', hplace, hplace', hnone, hpos'⟩, ?_⟩
  simp only [Op.moveUp, hnone, Nat.add_zero] at hops ⊢
  refine ⟨Op.at_keep hkinds hn hsame, ?_⟩
  simp only [Op.keep]
  rwa [show i + (a.oldLength - n) + n = i + a.oldLength by omega,
    show j + (a.oldLength - n) + b.newLength + n = j + a.newLength + b.newLength by omega]

/-- An insertion passes the first of the kept lines behind it, which repeat its first lines. -/
theorem Leads.passDown (ha : a.kind = .insert) (hb : b.kind = .equal) (hn : 0 < n)
    (hfit : n ≤ b.oldLength) (hsame : Same old new b.oldStart a.newStart n)
    (h : Leads kinds old new i j (a :: b :: ops) i' j') :
    Leads kinds old new i j
      (.keep b.oldStart a.newStart n :: a.moveDown n :: (((b.moveDown n).shorten n).rest ++ ops))
      i' j' := by
  obtain ⟨hinserted, hkept, hops⟩ := h
  obtain ⟨hkinds', hnew, hold', hnone, hpos⟩ := (Op.at_insert ha).mp hinserted
  obtain ⟨hkinds, hold, hnew', hpos', heq, hlines⟩ := (Op.at_equal hb).mp hkept
  rw [hnone, Nat.add_zero] at hold hlines hops
  rw [hold, hnew] at hsame ⊢
  refine ⟨Op.at_keep hkinds hn hsame, ?_⟩
  simp only [Op.keep]
  have hkind : (a.moveDown n).kind = .insert := ha
  refine ⟨(Op.at_insert hkind).mpr ⟨hkinds', congrArg (· + n) hnew,
    fun hnot => congrArg (· + n) (hold' hnot), hnone, hpos⟩, ?_⟩
  have hrest := hlines.part n (l := b.oldLength - n) (by omega)
  simp only [Op.moveDown, Op.shorten, hb, hnone, Nat.add_zero]
  rw [Nat.add_right_comm j] at hrest
  refine Leads.rest hkinds rfl (by dsimp only; omega) (by dsimp only; omega)
    (congrArg (· - n) heq) hrest ?_
  rwa [show i + n + (b.oldLength - n) = i + b.oldLength by omega,
    show j + n + a.newLength + (b.oldLength - n) = j + a.newLength + b.newLength by omega]

/-! ## Sliding -/

namespace Cursor

/-- Sliding an operation up leads where the script led before: every step is an exchange of
neighbours, a merge or the removal of an empty run. -/
theorem leads_slideUp {fuel : ℕ} {c : Cursor} (h : Leads kinds old new i j c.ops i' j') :
    Leads kinds old new i j (c.slideUp old new fuel).ops i' j' := by
  fun_induction slideUp old new fuel c with
  | case1 c => exact h
  | case2 fuel c hnone => exact h
  | case3 fuel c prev before hbefore hequal hinsert n hpos after prev' before' ih =>
    -- The insertion passes kept lines, which go from the run before it to the run behind it.
    refine ih ?_
    obtain ⟨hle, -, -⟩ := commonBack_le old new (min prev.oldLength c.this.newLength) prev.oldStop
      c.this.newStop
    have hsame := same_commonBack old new (min prev.oldLength c.this.newLength) prev.oldStop
      c.this.newStop
    have hsplit : before' = (prev.shorten n).rest ++ before := (Op.rest_append _ _).symm
    have hafter : after = keepAbove (prev.oldStop - n) (c.this.newStop - n) n c.after :=
      (keepAbove_eq _ _ _ _).symm
    simp only [Cursor.ops, hbefore, hsplit, hafter, List.reverse_cons, List.reverse_append,
      Op.reverse_rest, List.append_assoc] at h ⊢
    refine h.exchange fun h => ?_
    have hpassed := h.passUp hequal hinsert hpos (by omega) hsame
    refine hpassed.exchange fun h => ?_
    exact ⟨h.1, h.2.keepAbove⟩
  | case4 fuel c prev before hbefore hequal hinsert n hnone hempty ih =>
    -- No run of a script is empty, so none is ever dropped.
    exact absurd hempty (h.isEmpty_ne_true prev (by simp [Cursor.ops, hbefore]))
  | case5 => exact h
  | case6 fuel c prev before hbefore hequal hdelete hempty ih =>
    exact absurd hempty (h.isEmpty_ne_true prev (by simp [Cursor.ops, hbefore]))
  | case7 => exact h
  | case8 fuel c prev before hbefore hdelete hinsert ih =>
    -- This is where an insertion and a deletion lose their places on the other side.
    refine ih ?_
    simp only [Cursor.ops, hbefore, List.reverse_cons, List.append_assoc] at h ⊢
    exact h.exchange fun h => h.swap (.inl ⟨hdelete, hinsert⟩)
  | case9 fuel c prev before hbefore hinsert hdelete ih =>
    refine ih ?_
    simp only [Cursor.ops, hbefore, List.reverse_cons, List.append_assoc] at h ⊢
    exact h.exchange fun h => h.swap (.inr ⟨hinsert, hdelete⟩)
  | case10 fuel c prev before hbefore hprev hthis ih =>
    refine ih ?_
    simp only [Cursor.ops, hbefore, List.reverse_cons, List.append_assoc] at h ⊢
    exact h.exchange fun h => h.merge_insert hprev hthis
  | case11 fuel c prev before hbefore hprev hthis ih =>
    refine ih ?_
    simp only [Cursor.ops, hbefore, List.reverse_cons, List.append_assoc] at h ⊢
    exact h.exchange fun h => h.merge_delete hprev hthis
  | case12 => exact h

/-- Sliding an operation down leads where the script led before. -/
theorem leads_slideDown {fuel : ℕ} {c : Cursor} (h : Leads kinds old new i j c.ops i' j') :
    Leads kinds old new i j (c.slideDown old new fuel).ops i' j' := by
  fun_induction slideDown old new fuel c with
  | case1 c => exact h
  | case2 fuel c hnone => exact h
  | case3 fuel c next after hafter hequal hinsert n hpos before next' after' ih =>
    -- The insertion passes kept lines, which go from the run behind it to the run before it.
    refine ih ?_
    have hle := commonFront_le old new (min next.oldLength c.this.newLength) next.oldStart
      c.this.newStart
    have hsame := same_commonFront old new (min next.oldLength c.this.newLength) next.oldStart
      c.this.newStart
    have hsplit : after' = ((next.moveDown n).shorten n).rest ++ after := (Op.rest_append _ _).symm
    have hbefore : before = keepBelow next.oldStart c.this.newStart n c.before :=
      (keepBelow_eq _ _ _ _).symm
    simp only [Cursor.ops, hafter, hsplit, hbefore] at h ⊢
    refine Leads.keepBelow (h.exchange fun h => ?_)
    exact h.passDown hinsert hequal hpos (by omega) hsame
  | case4 fuel c next after hafter hequal hinsert n hnone hempty ih =>
    exact absurd hempty (h.isEmpty_ne_true next (by simp [Cursor.ops, hafter]))
  | case5 => exact h
  | case6 fuel c next after hafter hequal hdelete hempty ih =>
    exact absurd hempty (h.isEmpty_ne_true next (by simp [Cursor.ops, hafter]))
  | case7 => exact h
  | case8 fuel c next after hafter hdelete hinsert ih =>
    refine ih ?_
    simp only [Cursor.ops, hafter, List.reverse_cons, List.append_assoc] at h ⊢
    exact h.exchange fun h => h.swap (.inr ⟨hinsert, hdelete⟩)
  | case9 fuel c next after hafter hinsert hdelete ih =>
    refine ih ?_
    simp only [Cursor.ops, hafter, List.reverse_cons, List.append_assoc] at h ⊢
    exact h.exchange fun h => h.swap (.inl ⟨hdelete, hinsert⟩)
  | case10 fuel c next after hafter hnext hthis ih =>
    refine ih ?_
    simp only [Cursor.ops, hafter] at h ⊢
    exact h.exchange fun h => h.merge_insert hthis hnext
  | case11 fuel c next after hafter hnext hthis ih =>
    refine ih ?_
    simp only [Cursor.ops, hafter] at h ⊢
    exact h.exchange fun h => h.merge_delete hthis hnext
  | case12 => exact h

end Cursor

/-- What sliding one operation up and down preserves, sliding them all preserves. -/
theorem slideFrom_of {P : List Op → Prop} {kind : Kind} {bound fuel : ℕ} {before after : List Op}
    (hslide : ∀ c : Cursor, P c.ops → P ((c.slideUp old new bound).slideDown old new bound).ops)
    (h : P (before.reverse ++ after)) : P (slideFrom old new kind bound fuel before after) := by
  fun_induction slideFrom old new kind bound fuel before after with
  | case1 before after => exact h
  | case2 fuel before => rwa [List.append_nil] at h
  | case3 fuel before op after hkind c c' ih =>
    refine ih ?_
    rw [List.reverse_cons, List.append_assoc]
    exact hslide ⟨before, op, after⟩ h
  | case4 fuel before op after hkind ih =>
    refine ih ?_
    rwa [List.reverse_cons, List.append_assoc]

/-- Sliding leads where the script led before. -/
theorem Leads.slide {kind : Kind} (h : Leads kinds old new i j ops i' j') :
    Leads kinds old new i j (slide old new kind ops) i' j' :=
  slideFrom_of (P := fun ops => Leads kinds old new i j ops i' j')
    (fun _ hc => Cursor.leads_slideDown (Cursor.leads_slideUp hc)) h

end Fettle.Diff
