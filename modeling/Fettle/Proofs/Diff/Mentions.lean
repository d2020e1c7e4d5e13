import Fettle.Proofs.Diff.Hunks

/-!
# Deletions and insertions are not lost

What the search deletes or inserts stays deleted or inserted when it slides, though perhaps in
another place, is merged with its like or becomes part of a replacement, and it is part of a hunk.
So a diff without deleted lines comes from a search that found no deletion, and a diff without
inserted lines from one that found no insertion.
-/

namespace Fettle.Diff

/-- Some operation of a script is of one of the kinds. -/
def Mentions (kinds : Kind → Prop) (ops : List Op) : Prop := ∃ op ∈ ops, kinds op.kind

variable {kinds : Kind → Prop} {old new : Array String} {op : Op} {ops : List Op}

/-- A script without operations mentions nothing. -/
theorem not_mentions_nil : ¬ Mentions kinds [] := fun ⟨_, hop, _⟩ => List.not_mem_nil hop

/-- A script mentions what its first operation is and what the others mention. -/
theorem mentions_cons : Mentions kinds (op :: ops) ↔ kinds op.kind ∨ Mentions kinds ops := by
  simp only [Mentions, List.mem_cons, or_and_right, exists_or, exists_eq_left]

/-- A script in two parts mentions what one of them mentions. -/
theorem mentions_append {as bs : List Op} :
    Mentions kinds (as ++ bs) ↔ Mentions kinds as ∨ Mentions kinds bs := by
  simp only [Mentions, List.mem_append, or_and_right, exists_or]

/-- A script that is turned around mentions the same. -/
theorem mentions_reverse : Mentions kinds ops.reverse ↔ Mentions kinds ops := by
  simp only [Mentions, List.mem_reverse]

/-- What a script mentions depends on the kinds of its operations. -/
theorem mentions_of_kinds {as bs : List Op} (hkinds : as.map Op.kind = bs.map Op.kind)
    (h : Mentions kinds as) : Mentions kinds bs := by
  obtain ⟨op, hop, hkind⟩ := h
  have hmem : op.kind ∈ bs.map Op.kind := hkinds ▸ List.mem_map_of_mem hop
  obtain ⟨op', hop', heq⟩ := List.mem_map.mp hmem
  exact ⟨op', hop', heq ▸ hkind⟩

section

variable (hequal : ¬ kinds .equal)

include hequal

/-! ## Sliding -/

/-- Kept lines that are put in front of a script add nothing to what it mentions, -/
theorem mentions_keepAbove {x y n : ℕ} :
    Mentions kinds (keepAbove x y n ops) ↔ Mentions kinds ops := by
  fun_cases keepAbove x y n ops <;>
    simp_all [mentions_cons, not_mentions_nil, Op.kind_lengthen, Op.moveUp, Op.keep]

/-- nor do those that are put behind it. -/
theorem mentions_keepBelow {x y n : ℕ} :
    Mentions kinds (keepBelow x y n ops) ↔ Mentions kinds ops := by
  fun_cases keepBelow x y n ops <;>
    simp_all [mentions_cons, not_mentions_nil, Op.kind_lengthen, Op.keep]

namespace Cursor

/-- What is mentioned is still mentioned when an operation slides up: it changes places, or is
merged with one of its kind. -/
theorem mentions_slideUp {fuel : ℕ} {c : Cursor} (h : Mentions kinds c.ops) :
    Mentions kinds (c.slideUp old new fuel).ops := by
  fun_induction slideUp old new fuel c with
  | case3 fuel c prev before hbefore hprev hinsert n hpos after prev' before' ih =>
    -- The run before the insertion may be used up, but it holds lines that are kept.
    refine ih ?_
    have hsplit : before' = (prev.shorten n).rest ++ before := (Op.rest_append _ _).symm
    have hafter : after = keepAbove (prev.oldStop - n) (c.this.newStop - n) n c.after :=
      (keepAbove_eq _ _ _ _).symm
    simp only [Cursor.ops, hbefore, hsplit, hafter, mentions_append, mentions_cons,
      mentions_reverse, mentions_keepAbove hequal] at h ⊢
    rw [hprev] at h
    rcases h with (habsurd | h) | h
    · exact absurd habsurd hequal
    · exact .inl (.inr h)
    · exact .inr h
  | _ =>
    simp_all [Cursor.ops, mentions_append, mentions_cons, mentions_reverse, Op.kind_lengthen] <;>
    tauto

/-- It is still mentioned when an operation slides down. -/
theorem mentions_slideDown {fuel : ℕ} {c : Cursor} (h : Mentions kinds c.ops) :
    Mentions kinds (c.slideDown old new fuel).ops := by
  fun_induction slideDown old new fuel c with
  | case3 fuel c next after hafter hnext hinsert n hpos before next' after' ih =>
    refine ih ?_
    have hsplit : after' = ((next.moveDown n).shorten n).rest ++ after := (Op.rest_append _ _).symm
    have hbefore : before = keepBelow next.oldStart c.this.newStart n c.before :=
      (keepBelow_eq _ _ _ _).symm
    simp only [Cursor.ops, hafter, hsplit, hbefore, mentions_append, mentions_cons,
      mentions_reverse, mentions_keepBelow hequal] at h ⊢
    rw [hnext] at h
    rcases h with h | h | habsurd | h
    · exact .inl h
    · exact .inr (.inl h)
    · exact absurd habsurd hequal
    · exact .inr (.inr (.inr h))
  | _ =>
    simp_all [Cursor.ops, mentions_append, mentions_cons, mentions_reverse, Op.kind_lengthen] <;>
    tauto

end Cursor

/-- It is still mentioned when all operations of a kind have slid. -/
theorem Mentions.slide {kind : Kind} (h : Mentions kinds ops) :
    Mentions kinds (slide old new kind ops) :=
  slideFrom_of (P := Mentions kinds)
    (fun _ hc => Cursor.mentions_slideDown hequal (Cursor.mentions_slideUp hequal hc)) h

end

/-! ## Joining -/

/-- What is mentioned by a pending operation is its kind. -/
theorem kinds_of_mentions_toList {pending : Option Op} {kind : Kind}
    (hpending : ∀ op ∈ pending, op.kind = kind) (h : Mentions kinds pending.toList) :
    kinds kind := by
  obtain ⟨op, hop, hkind⟩ := h
  rwa [hpending op (Option.mem_toList.mp hop)] at hkind

/-- A change that is pending is handed over, or becomes part of a replacement. -/
theorem mentions_flushChange (hreplace : kinds .replace) {p : Pending}
    (h : Mentions kinds (p.delete.toList ++ p.insert.toList)) : Mentions kinds p.flushChange := by
  obtain ⟨equal, delete, insert⟩ := p
  cases delete with
  | none => cases insert <;> exact h
  | some d =>
    cases insert with
    | none => exact h
    | some i => exact mentions_cons.mpr (.inl hreplace)

/-- What is mentioned by what is pending or yet to come is mentioned when all is joined, if
replacements count: a deletion and an insertion may become one. -/
theorem Mentions.joinFrom (hequal : ¬ kinds .equal) (hreplace : kinds .replace) {p : Pending}
    (hp : p.Sorted) (hplain : Plain ops) (h : Mentions kinds (p.ops ++ ops)) :
    Mentions kinds (joinFrom p ops) := by
  have hkept : ∀ {p : Pending}, p.Sorted → ¬ Mentions kinds p.equal.toList := fun hp h =>
    hequal (kinds_of_mentions_toList hp.equal h)
  fun_induction Diff.joinFrom p ops with
  | case1 p =>
    rw [List.append_nil, Pending.ops, mentions_append] at h
    exact mentions_append.mpr (.inr (mentions_flushChange hreplace (h.resolve_left (hkept hp))))
  | case2 p op ops hkind ih =>
    -- A kept run hands the change over that is pending.
    obtain ⟨-, hops⟩ := List.forall_mem_cons.mp hplain
    rw [Pending.ops, mentions_append, mentions_append, mentions_cons, hkind] at h
    rw [mentions_append]
    rcases h with (h | h) | h | h
    · exact absurd h (hkept hp)
    · exact .inl (mentions_flushChange hreplace h)
    · exact absurd h hequal
    · exact .inr (ih (hp.takeEqual hkind) hops (mentions_append.mpr (.inr h)))
  | case3 p op ops hkind ih =>
    obtain ⟨-, hops⟩ := List.forall_mem_cons.mp hplain
    -- A deletion is pending from now on, with what was pending of its kind.
    have hextended := Pending.kind_extend_eq hp.delete hkind
    rw [Pending.ops, mentions_append, mentions_append, mentions_append, mentions_cons] at h
    refine mentions_append.mpr (.inr (ih (hp.takeDelete hkind) hops ?_))
    show Mentions kinds (Pending.extend p.delete op :: (p.insert.toList ++ ops))
    rw [mentions_cons, mentions_append, hextended]
    rcases h with (h | h | h) | h | h
    · exact absurd h (hkept hp)
    · exact .inl (kinds_of_mentions_toList hp.delete h)
    · exact .inr (.inl h)
    · exact .inl (hkind ▸ h)
    · exact .inr (.inr h)
  | case4 p op ops hkind ih =>
    obtain ⟨-, hops⟩ := List.forall_mem_cons.mp hplain
    have hextended := Pending.kind_extend_eq hp.insert hkind
    rw [Pending.ops, mentions_append, mentions_append, mentions_append, mentions_cons] at h
    refine mentions_append.mpr (.inr (ih (hp.takeInsert hkind) hops ?_))
    show Mentions kinds (p.delete.toList ++ [Pending.extend p.insert op] ++ ops)
    rw [mentions_append, mentions_append, mentions_cons, hextended]
    rcases h with (h | h | h) | h | h
    · exact absurd h (hkept hp)
    · exact .inl (.inl h)
    · exact .inl (.inr (.inl (kinds_of_mentions_toList hp.insert h)))
    · exact .inl (.inr (.inl (hkind ▸ h)))
    · exact .inr h
  | case5 p op ops hkind ih => exact absurd hkind (List.forall_mem_cons.mp hplain).1

/-- What the search has found is shown, alone or in a replacement. -/
theorem mentions_operations {kind : Kind} (hchange : kind ≠ .equal) (h : Found old new kind) :
    Mentions (fun k => k = kind ∨ k = .replace) (operations old new) := by
  have hequal : ¬ (Kind.equal = kind ∨ Kind.equal = .replace) := by
    simp [hchange.symm]
  obtain ⟨op, hop, hkind⟩ := h
  have hscript : Mentions (fun k => k = kind ∨ k = .replace) (script old new) :=
    ⟨op, hop, .inl hkind⟩
  exact Mentions.joinFrom hequal (.inr rfl) Pending.sorted_empty (leads_slide_slide old new).2
    ((hscript.slide hequal).slide hequal)

/-! ## Hunks -/

/-- A change is part of a hunk. -/
theorem exists_mentions_hunksFrom (hequal : ¬ kinds .equal) {pending : List Op}
    (h : Mentions kinds (pending ++ ops)) :
    ∃ hunk ∈ hunksFrom pending ops, Mentions kinds hunk := by
  fun_induction hunksFrom pending ops with
  | case1 => exact absurd h not_mentions_nil
  | case2 op hkind =>
    rw [List.append_nil, mentions_cons, hkind] at h
    exact absurd (h.resolve_right not_mentions_nil) hequal
  | case3 op hkind => exact ⟨_, List.mem_singleton_self _, h⟩
  | case4 pending =>
    rw [List.append_nil] at h
    exact ⟨_, List.mem_singleton_self _, h⟩
  | case5 pending op ops hlong k =>
    rename_i ih
    rw [mentions_append, mentions_cons, hlong.1] at h
    rcases h with h | h | h
    · exact ⟨_, List.mem_cons_self, mentions_append.mpr (.inl h)⟩
    · exact absurd h hequal
    · obtain ⟨hunk, hhunk, hmentions⟩ := ih (mentions_append.mpr (.inr h))
      exact ⟨hunk, List.mem_cons_of_mem _ hhunk, hmentions⟩
  | case6 pending op ops hlong ih =>
    rw [List.append_cons] at h
    exact ih h

/-- What the search has found is part of a hunk, alone or in a replacement. -/
theorem exists_mentions_hunks {kind : Kind} (hchange : kind ≠ .equal) (h : Found old new kind) :
    ∃ hunk ∈ hunks (operations old new), Mentions (fun k => k = kind ∨ k = .replace) hunk := by
  have hequal : ¬ (Kind.equal = kind ∨ Kind.equal = .replace) := by
    simp [hchange.symm]
  have htrimmed : (trimLast (trimFirst (operations old new))).map Op.kind =
      (operations old new).map Op.kind := map_kind_trimLast.trans map_kind_trimFirst
  exact exists_mentions_hunksFrom hequal
    (mentions_of_kinds htrimmed.symm (mentions_operations hchange h))

end Fettle.Diff
