import Fettle.Proofs.Diff.Joining

/-!
# Hunks cover the changes

A script is cut into hunks by leaving out kept lines: those in front of the first three before a
change, those behind the last three after one, and what is between. So between two hunks lie equal
runs, and every hunk leads on from where the run before it ends (`covered_hunks`). A hunk begins or
ends with a change only where both texts do.
-/

namespace Fettle.Diff

section

variable (kinds : Kind → Prop) (old new : Array String)

/-- A hunk stands behind an equal run of `n` lines. -/
structure Stands (hunk : List Op) (i j n i' j' : ℕ) : Prop where
  /-- The lines in front of the hunk are common. -/
  gap : Same old new i j n
  /-- The hunk leads on. -/
  leads : Leads kinds old new (i + n) (j + n) hunk i' j'
  /-- The hunk has a change. -/
  changes : Changes hunk
  /-- Kept runs and changes take turns. -/
  alternate : Alternate hunk
  /-- A hunk begins with a change only at the very top. -/
  top : ∀ op ∈ hunk.head?, op.kind ≠ .equal → i + n = 0 ∧ j + n = 0
  /-- A hunk ends with a change only at the very bottom. -/
  bottom : ∀ op ∈ hunk.getLast?, op.kind ≠ .equal → i' = old.size ∧ j' = new.size

/-- From a pair of places on, the texts are equal but for what hunks lead through. -/
def Covered : ℕ → ℕ → List (List Op) → Prop
  | i, j, [] => ∃ n, Same old new i j n ∧ i + n = old.size ∧ j + n = new.size
  | i, j, hunk :: hunks => ∃ n i' j', Stands kinds old new hunk i j n i' j' ∧ Covered i' j' hunks

end

/-- A script begins with a short kept run, or with a change at the very top. -/
def Opens (i j : ℕ) (ops : List Op) : Prop :=
  ∀ op ∈ ops.head?, if op.kind = .equal then op.oldLength ≤ 2 * context else i = 0 ∧ j = 0

variable {kinds : Kind → Prop} {old new : Array String} {i j i' j' n : ℕ} {op : Op} {ops : List Op}

/-! ## Cutting kept runs -/

/-- Whether kept runs and changes take turns depends on the kinds alone. -/
theorem Alternate.congr {as bs : List Op} (h : Alternate as)
    (hkinds : as.map Op.kind = bs.map Op.kind) : Alternate bs := by
  unfold Alternate at h ⊢
  rw [← List.isChain_map (R := fun a b => a = .equal ↔ b ≠ .equal) Op.kind] at h ⊢
  rwa [← hkinds]

/-- Of two neighbours that take turns, one is a change. -/
theorem Alternate.changes {a b : Op} (h : Alternate (a :: b :: ops)) : Changes (a :: b :: ops) := by
  obtain ⟨hturn, -⟩ := List.isChain_cons_cons.mp h
  by_cases hkind : a.kind = .equal
  · exact ⟨b, by simp, hturn.mp hkind⟩
  · exact ⟨a, by simp, hkind⟩

/-- A script with a change is not empty. -/
theorem Changes.ne_nil (h : Changes ops) : ops ≠ [] := by
  rintro rfl
  obtain ⟨op, hop, -⟩ := h
  exact absurd hop List.not_mem_nil

/-- The last lines of a kept run. -/
theorem Op.At.keep_last (hop : op.At kinds old new i j) (hkind : op.kind = .equal)
    (hn : n < op.oldLength) :
    (Op.keep (op.oldStart + n) (op.newStart + n) (op.oldLength - n)).At kinds old new
        (i + n) (j + n) ∧
      Same old new i j n := by
  obtain ⟨hkinds, rfl, rfl, -, -, hsame⟩ := (Op.at_equal hkind).mp hop
  have hpos : 0 < op.oldLength - n := Nat.sub_pos_of_lt hn
  exact ⟨Op.at_keep hkinds hpos (hsame.part n (by omega)), hsame.part 0 (by omega)⟩

/-- The first lines of a kept run. -/
theorem Op.At.keep_first (hop : op.At kinds old new i j) (hkind : op.kind = .equal)
    (hpos : 0 < n) (hn : n ≤ op.oldLength) :
    (Op.keep op.oldStart op.newStart n).At kinds old new i j ∧
      Same old new (i + n) (j + n) (op.oldLength - n) := by
  obtain ⟨hkinds, rfl, rfl, -, -, hsame⟩ := (Op.at_equal hkind).mp hop
  exact ⟨Op.at_keep hkinds hpos (hsame.part 0 (by omega)), hsame.part n (by omega)⟩

/-- Cutting down the first kept run changes no kind, -/
theorem map_kind_trimFirst : (trimFirst ops).map Op.kind = ops.map Op.kind := by
  fun_cases trimFirst ops <;> simp_all [Op.keep]

/-- and neither does cutting down the last one. -/
theorem map_kind_trimLast : (trimLast ops).map Op.kind = ops.map Op.kind := by
  fun_induction trimLast ops <;> simp_all [Op.keep]

/-- A script whose first kept run has been cut leads on from behind the lines that are left out. -/
theorem exists_leads_trimFirst (h : Leads kinds old new i j ops i' j') :
    ∃ n, Same old new i j n ∧ Leads kinds old new (i + n) (j + n) (trimFirst ops) i' j' ∧
      ∀ op ∈ (trimFirst ops).head?, if op.kind = .equal then op.oldLength ≤ context else n = 0 := by
  have hkept : Same old new i j 0 := fun _ hk => absurd hk (Nat.not_lt_zero _)
  fun_cases trimFirst ops with
  | case1 op ops hkind n =>
    obtain ⟨hop, hops⟩ := h
    obtain ⟨-, -, -, hpos, heq, -⟩ := (Op.at_equal hkind).mp hop
    have hn : n < op.oldLength := by
      simp only [n, context]
      omega
    -- `n` kept lines are left out, and the others still form a run of at most `context` lines.
    obtain ⟨hlast, hsame⟩ := hop.keep_last hkind hn
    refine ⟨n, hsame, ⟨hlast, ?_⟩, ?_⟩
    · simp only [Op.keep]
      rwa [show i + n + (op.oldLength - n) = i + op.oldLength by omega,
        show j + n + (op.oldLength - n) = j + op.newLength by omega]
    · intro op' hop'
      obtain rfl := Option.mem_some.mp hop'
      rw [Op.keep, if_pos rfl]
      simp only [n]
      omega
  | case2 op ops hkind =>
    refine ⟨0, hkept, h, fun op' hop' => ?_⟩
    obtain rfl := Option.mem_some.mp hop'
    rw [if_neg hkind]
  | case3 => exact ⟨0, hkept, h, fun _ hop' => absurd hop' (Option.not_mem_none _)⟩

/-- Cutting the last kept run may shorten the first operation, if there is no other. -/
theorem exists_head_trimLast (hop : op ∈ (trimLast ops).head?) :
    ∃ op' ∈ ops.head?, op'.kind = op.kind ∧ op.oldLength ≤ op'.oldLength := by
  fun_cases trimLast ops with
  | case1 => exact absurd hop (Option.not_mem_none op)
  | case2 op' hkind =>
    rw [trimLast, if_pos hkind] at hop
    obtain rfl := Option.mem_some.mp hop
    exact ⟨op', rfl, hkind, Nat.min_le_left _ _⟩
  | case3 op' hkind =>
    rw [trimLast, if_neg hkind] at hop
    exact ⟨op, hop, rfl, Nat.le_refl _⟩
  | case4 op' next ops => exact ⟨op, hop, rfl, Nat.le_refl _⟩

/-- A script whose last kept run has been cut leads to the lines that are left out. -/
theorem exists_leads_trimLast (h : Leads kinds old new i j ops i' j') :
    ∃ x y n, Leads kinds old new i j (trimLast ops) x y ∧ Same old new x y n ∧
      x + n = i' ∧ y + n = j' ∧
      ∀ op ∈ (trimLast ops).getLast?, op.kind ≠ .equal → n = 0 := by
  have hkept : Same old new i' j' 0 := fun _ hk => absurd hk (Nat.not_lt_zero _)
  fun_induction trimLast ops generalizing i j with
  | case1 => exact ⟨i', j', 0, h, hkept, rfl, rfl, fun _ _ _ => rfl⟩
  | case2 op hkind =>
    obtain ⟨hop, rfl, rfl⟩ := h
    obtain ⟨-, -, -, hpos, heq, -⟩ := (Op.at_equal hkind).mp hop
    obtain ⟨hfirst, hsame⟩ := hop.keep_first hkind (n := min op.oldLength context)
      (by simp only [context]; omega) (Nat.min_le_left _ _)
    refine ⟨_, _, _, ⟨hfirst, rfl, rfl⟩, hsame, ?_, ?_, ?_⟩
    · simp only [Op.keep]
      omega
    · simp only [Op.keep]
      omega
    · intro op' hop' hne
      obtain rfl := Option.mem_some.mp hop'
      exact absurd rfl hne
  | case3 op hkind => exact ⟨i', j', 0, h, hkept, rfl, rfl, fun _ _ _ => rfl⟩
  | case4 op next ops ih =>
    obtain ⟨hop, hops⟩ := h
    obtain ⟨x, y, n, hleads, hsame, hx, hy, hlast⟩ := ih hops
    -- The cut leaves the kinds as they are, so the last operation is not the one in front.
    have hne : trimLast (next :: ops) ≠ [] := by
      intro hnil
      have hkinds : (trimLast (next :: ops)).map Op.kind = (next :: ops).map Op.kind :=
        map_kind_trimLast
      rw [hnil] at hkinds
      simp at hkinds
    refine ⟨x, y, n, ⟨hop, hleads⟩, hsame, hx, hy, ?_⟩
    rwa [List.getLast?_cons_of_ne_nil hne]

/-! ## Collecting hunks -/

/-- A kept run that is cut in two ends one hunk and begins the next. -/
theorem Leads.cut {pending : List Op} (h : Leads kinds old new i j (pending ++ op :: ops) i' j')
    (hkind : op.kind = .equal) (hlong : 2 * context < op.oldLength) :
    ∃ x y, Leads kinds old new i j (pending ++ [.keep op.oldStart op.newStart context]) x y ∧
      Same old new x y (op.oldLength - 2 * context) ∧
      Leads kinds old new (x + (op.oldLength - 2 * context)) (y + (op.oldLength - 2 * context))
        (.keep (op.oldStart + (op.oldLength - context)) (op.newStart + (op.oldLength - context))
          (op.oldLength - (op.oldLength - context)) :: ops) i' j' := by
  obtain ⟨a, b, hpending, hop, hops⟩ := leads_append.mp h
  obtain ⟨-, -, -, -, heq, -⟩ := (Op.at_equal hkind).mp hop
  obtain ⟨hfirst, hsame⟩ :=
    hop.keep_first hkind (n := context) (by simp only [context]; omega) (by omega)
  obtain ⟨hlast, -⟩ :=
    hop.keep_last hkind (n := op.oldLength - context) (by simp only [context] at *; omega)
  -- Behind the first `context` lines the run goes on, and its last `context` lines begin the next
  -- hunk, so the gap is what is between them.
  have hgap := hsame.part 0 (l := op.oldLength - 2 * context) (by omega)
  refine ⟨a + context, b + context, leads_append.mpr ⟨a, b, hpending, hfirst, rfl, rfl⟩, hgap, ?_⟩
  have hplace : ∀ c, c + context + (op.oldLength - 2 * context) = c + (op.oldLength - context) := by
    intro c
    omega
  rw [hplace, hplace]
  refine ⟨hlast, ?_⟩
  simp only [Op.keep]
  have hend : ∀ c, c + (op.oldLength - context) + (op.oldLength - (op.oldLength - context)) =
      c + op.oldLength := by
    intro c
    omega
  rw [hend, hend]
  rwa [heq] at hops

/-- A script that begins with a change begins at the top of both texts. -/
theorem Opens.top (h : Opens i j ops) :
    ∀ op ∈ ops.head?, op.kind ≠ .equal → i = 0 ∧ j = 0 := by
  intro op hop hne
  have hopen := h op hop
  rwa [if_neg hne] at hopen

/-- The induction carries the gap before the hunk that is being collected, and the lines that were
left out at the end. -/
theorem covered_hunksFrom {pending : List Op} {x y m : ℕ} (hgap : Same old new i j n)
    (hleads : Leads kinds old new (i + n) (j + n) (pending ++ ops) x y)
    (halternate : Alternate (pending ++ ops))
    (hopens : Opens (i + n) (j + n) (pending ++ ops))
    (hbottom : ∀ op ∈ (pending ++ ops).getLast?, op.kind ≠ .equal → m = 0)
    (hrest : Same old new x y m) (hold : x + m = old.size) (hnew : y + m = new.size) :
    Covered kinds old new i j (hunksFrom pending ops) := by
  have hdone : Covered kinds old new x y [] := ⟨m, hrest, hold, hnew⟩
  have hends : m = 0 → x = old.size ∧ y = new.size := by omega
  fun_induction hunksFrom pending ops generalizing i j n with
  | case1 =>
    -- Without a change, the gap and the lines that were left out are one common run.
    obtain ⟨rfl, rfl⟩ := hleads
    exact ⟨n + m, hgap.append hrest, by omega, by omega⟩
  | case2 op hkind =>
    obtain ⟨hop, rfl, rfl⟩ := hleads
    obtain ⟨-, -, -, -, heq, hsame⟩ := (Op.at_equal hkind).mp hop
    rw [heq] at hrest hnew
    have hkept := (hgap.append hsame).append (m := n + op.oldLength) (n := m)
      (by rwa [← Nat.add_assoc, ← Nat.add_assoc])
    exact ⟨n + op.oldLength + m, hkept, by omega, by omega⟩
  | case3 op hkind =>
    refine ⟨n, x, y, ⟨hgap, hleads, changes_cons hkind, halternate, hopens.top, ?_⟩, hdone⟩
    exact fun op hop hne => hends (hbottom op hop hne)
  | case4 pending hne hmany =>
    rw [List.append_nil] at hleads halternate hopens hbottom
    have hchanges : Changes pending := by
      obtain ⟨a, more, rfl⟩ := List.exists_cons_of_ne_nil hne
      cases more with
      | nil => exact absurd rfl (hmany a)
      | cons b more => exact halternate.changes
    refine ⟨n, x, y, ⟨hgap, hleads, hchanges, halternate, hopens.top, ?_⟩, hdone⟩
    exact fun op hop hne => hends (hbottom op hop hne)
  | case5 pending op ops hlong k =>
    rename_i ih
    obtain ⟨hkind, hlong⟩ := hlong
    obtain ⟨a, b, hfirst, hkept, hsecond⟩ := hleads.cut hkind hlong
    rw [List.append_cons] at halternate
    have hleft : Alternate (pending ++ [.keep op.oldStart op.newStart context]) :=
      Alternate.congr halternate.left_of_append (by simp [Op.keep, hkind])
    rw [List.append_assoc] at halternate
    have hright : Alternate (.keep (op.oldStart + k) (op.newStart + k) (op.oldLength - k) :: ops) :=
      Alternate.congr halternate.right_of_append (by simp [Op.keep, hkind])
    -- A long kept run does not come first, so there is a change before it.
    obtain ⟨first, more, rfl⟩ : ∃ first more, pending = first :: more := by
      refine List.exists_cons_of_ne_nil ?_
      rintro rfl
      have hshort := hopens op rfl
      rw [if_pos hkind] at hshort
      omega
    have hchanges : Changes (first :: more ++ [.keep op.oldStart op.newStart context]) := by
      cases more <;> exact hleft.changes
    -- The middle of the kept run is the gap before the next hunk.
    refine ⟨n, a, b, ⟨hgap, hfirst, hchanges, hleft, hopens.top, ?_⟩, ih hkept hsecond hright ?_ ?_⟩
    · intro op' hop' hne
      rw [List.getLast?_concat] at hop'
      obtain rfl := Option.mem_some.mp hop'
      exact absurd rfl hne
    · intro op' hop'
      obtain rfl := Option.mem_some.mp hop'
      rw [Op.keep, if_pos rfl]
      simp only [k, context] at *
      omega
    · cases ops with
      | nil =>
        intro op' hop' hne
        obtain rfl := Option.mem_some.mp hop'
        exact absurd rfl hne
      | cons next ops =>
        have hsame : (first :: more ++ op :: next :: ops).getLast? = (next :: ops).getLast? := by
          rw [List.append_cons, List.getLast?_append_of_ne_nil _ (List.cons_ne_nil next ops)]
        rw [hsame] at hbottom
        exact hbottom
  | case6 pending op ops hlong ih =>
    rw [List.append_cons] at hleads halternate hopens hbottom
    exact ih hgap hleads halternate hopens hbottom

/-- The hunks of a script that leads through both texts cover them. -/
theorem covered_hunks (h : Leads kinds old new 0 0 ops old.size new.size)
    (halternate : Alternate ops) :
    Covered kinds old new 0 0 (hunks ops) := by
  obtain ⟨n, hgap, hfirst, htop⟩ := exists_leads_trimFirst h
  obtain ⟨x, y, m, hlast, hrest, hold, hnew, hbottom⟩ := exists_leads_trimLast hfirst
  have htrimmed := halternate.congr (map_kind_trimLast.trans map_kind_trimFirst).symm
  refine covered_hunksFrom hgap hlast htrimmed (fun op hop => ?_) hbottom hrest hold hnew
  obtain ⟨op', hop', hkind, hlength⟩ := exists_head_trimLast hop
  have hfirst := htop op' hop'
  rw [hkind] at hfirst
  split at hfirst
  · next hequal =>
    rw [if_pos hequal]
    simp only [context] at *
    omega
  · next hchange =>
    rw [if_neg hchange]
    omega

/-- Hunks cover what is left of the texts. -/
theorem Covered.le {hunks : List (List Op)} (h : Covered kinds old new i j hunks) :
    i ≤ old.size ∧ j ≤ new.size := by
  induction hunks generalizing i j with
  | nil =>
    obtain ⟨n, -, hold, hnew⟩ := h
    omega
  | cons hunk hunks ih =>
    obtain ⟨n, i', j', hstands, hcovered⟩ := h
    obtain ⟨hold, hnew⟩ := ih hcovered
    obtain ⟨hle, hle'⟩ := hstands.leads.le
    omega

/-- Each of the hunks that cover two texts stands somewhere. -/
theorem Covered.exists_stands {hunks : List (List Op)} (h : Covered kinds old new i j hunks) :
    ∀ hunk ∈ hunks, ∃ i j n i' j', Stands kinds old new hunk i j n i' j' ∧
      i' ≤ old.size ∧ j' ≤ new.size := by
  induction hunks generalizing i j with
  | nil => exact fun _ hhunk => absurd hhunk List.not_mem_nil
  | cons hunk hunks ih =>
    obtain ⟨n, i', j', hstands, hcovered⟩ := h
    exact List.forall_mem_cons.mpr ⟨⟨i, j, n, i', j', hstands, hcovered.le⟩, ih hcovered⟩

variable (old new) in
/-- The hunks of a diff cover the two texts. -/
theorem covered_operations : Covered (Shows old new) old new 0 0 (hunks (operations old new)) :=
  covered_hunks (leads_operations old new) alternate_operations

end Fettle.Diff
