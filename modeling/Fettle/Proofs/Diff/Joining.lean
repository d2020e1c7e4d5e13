import Fettle.Proofs.Diff.Sliding
import Mathlib.Data.List.Chain

/-!
# Joining leads to the same places

Joining takes up a script from its front. What is pending is itself the script of what has been
taken up and not yet handed over (`Pending.ops`), and taking up an operation is swapping it with
the insertion that is pending and merging it with what is pending of its kind. A deletion and an
insertion are handed over as one replacement. So the operations that are shown lead through both
texts (`leads_operations`), and kept runs and changes take turns in them (`alternate_operations`).
-/

namespace Fettle.Diff

/-- What is pending, as a script. -/
def Pending.ops (p : Pending) : List Op := p.equal.toList ++ (p.delete.toList ++ p.insert.toList)

/-- What is pending is kept lines alone, or deleted and inserted lines. -/
structure Pending.Sorted (p : Pending) : Prop where
  /-- Kept lines. -/
  equal : ∀ op ∈ p.equal, op.kind = .equal
  /-- Deleted lines. -/
  delete : ∀ op ∈ p.delete, op.kind = .delete
  /-- Inserted lines. -/
  insert : ∀ op ∈ p.insert, op.kind = .insert
  /-- Kept lines are handed over before other lines are taken up. -/
  alone : p.equal = none ∨ p.delete = none ∧ p.insert = none

/-- Kept runs and changes take turns. -/
def Alternate (ops : List Op) : Prop := ops.IsChain fun a b => a.kind = .equal ↔ b.kind ≠ .equal

/-- Kept runs and changes take turns in a script, which begins with kept lines if these are
pending, and with a change if that is pending. -/
structure Pending.Opens (p : Pending) (ops : List Op) : Prop where
  /-- Kept runs and changes take turns. -/
  alternate : Alternate ops
  /-- The script begins with what is pending. -/
  head : ∀ op ∈ ops.head?, (p.equal ≠ none → op.kind = .equal) ∧
    (p.delete ≠ none ∨ p.insert ≠ none → op.kind ≠ .equal)

/-- A script has no replacements; only joining makes them. -/
def Plain (ops : List Op) : Prop := ∀ op ∈ ops, op.kind ≠ .replace

variable {kinds : Kind → Prop} {old new : Array String} {i j i' j' : ℕ} {op a b : Op} {ops : List Op}
  {p : Pending}

/-! ## Taking up and handing over -/

/-- A deletion with an insertion behind it is a replacement. -/
theorem Leads.join (hreplace : kinds .replace) (ha : a.kind = .delete) (hb : b.kind = .insert)
    (h : Leads kinds old new i j (a :: b :: ops) i' j') :
    Leads kinds old new i j
      (⟨.replace, a.oldStart, a.oldLength, b.newStart, b.newLength⟩ :: ops) i' j' := by
  obtain ⟨hdelete, hinsert, hops⟩ := h
  obtain ⟨-, hold, -, hpos, hnone⟩ := (Op.at_delete ha).mp hdelete
  obtain ⟨-, hnew, -, hnone', hpos'⟩ := (Op.at_insert hb).mp hinsert
  have hplace : b.newStart = j := by omega
  refine ⟨(Op.at_replace rfl).mpr ⟨hreplace, hold, hplace, hpos, hpos'⟩, ?_⟩
  rwa [hnone, hnone'] at hops

/-- An operation that takes up another of its kind stays of that kind. -/
theorem Pending.kind_extend_eq {pending : Option Op} {kind : Kind}
    (hpending : ∀ op ∈ pending, op.kind = kind) (hop : op.kind = kind) :
    (Pending.extend pending op).kind = kind := by
  cases pending with
  | none => exact hop
  | some a => exact (Op.kind_lengthen a _).trans (hpending a rfl)

namespace Pending.Sorted

/-- What is pending stays sorted when a kept run is taken up, -/
theorem takeEqual (hp : p.Sorted) (hkind : op.kind = .equal) :
    Sorted { p with equal := some (extend p.equal op), delete := none, insert := none } := by
  refine ⟨?_, nofun, nofun, .inr ⟨rfl, rfl⟩⟩
  rintro _ ⟨⟩
  exact kind_extend_eq hp.equal hkind

/-- when a deletion is, -/
theorem takeDelete (hp : p.Sorted) (hkind : op.kind = .delete) :
    Sorted { p with equal := none, delete := some (extend p.delete op) } := by
  refine ⟨nofun, ?_, hp.insert, .inl rfl⟩
  rintro _ ⟨⟩
  exact kind_extend_eq hp.delete hkind

/-- and when an insertion is. -/
theorem takeInsert (hp : p.Sorted) (hkind : op.kind = .insert) :
    Sorted { p with equal := none, insert := some (extend p.insert op) } := by
  refine ⟨nofun, hp.delete, ?_, .inl rfl⟩
  rintro _ ⟨⟩
  exact kind_extend_eq hp.insert hkind

end Pending.Sorted

/-- At the start nothing is pending. -/
theorem Pending.sorted_empty : Sorted {} := ⟨nofun, nofun, nofun, .inl rfl⟩

/-- An operation is merged with what is pending of its kind. -/
theorem Leads.extend {pending : Option Op} (hpending : ∀ op' ∈ pending, op'.kind = op.kind)
    (hplain : op.kind ≠ .replace) (h : Leads kinds old new i j (pending.toList ++ op :: ops) i' j') :
    Leads kinds old new i j (Pending.extend pending op :: ops) i' j' := by
  cases pending with
  | none => exact h
  | some a =>
    have hkind := hpending a rfl
    exact Leads.merge hkind (hkind ▸ hplain) h

/-- A deletion passes the insertion that is pending. -/
theorem Leads.passInsert {pending : Option Op} (hpending : ∀ op' ∈ pending, op'.kind = .insert)
    (hdelete : op.kind = .delete) (h : Leads kinds old new i j (pending.toList ++ op :: ops) i' j') :
    Leads kinds old new i j (op :: (pending.toList ++ ops)) i' j' := by
  cases pending with
  | none => exact h
  | some a => exact Leads.swap (.inr ⟨hpending a rfl, hdelete⟩) h

/-- Deleted and inserted lines are handed over. -/
theorem Leads.flushChange (hp : p.Sorted) (hreplace : kinds .replace)
    (h : Leads kinds old new i j (p.delete.toList ++ (p.insert.toList ++ ops)) i' j') :
    Leads kinds old new i j (p.flushChange ++ ops) i' j' := by
  obtain ⟨equal, delete, insert⟩ := p
  cases delete with
  | none => cases insert <;> exact h
  | some d =>
    cases insert with
    | none => exact h
    | some i => exact Leads.join hreplace (hp.delete d rfl) (hp.insert i rfl) h

/-- Joining leads where the script led before, with what is pending in front of it. -/
theorem leads_joinFrom (hp : p.Sorted) (hreplace : kinds .replace) (hplain : Plain ops)
    (h : Leads kinds old new i j (p.ops ++ ops) i' j') :
    Leads kinds old new i j (joinFrom p ops) i' j' := by
  fun_induction joinFrom p ops generalizing i j with
  | case1 p =>
    rw [Pending.ops, List.append_assoc, List.append_assoc] at h
    refine h.exchange fun h => ?_
    have hflushed := h.flushChange hp hreplace
    rwa [List.append_nil] at hflushed
  | case2 p op ops hkind ih =>
    obtain ⟨hop, hops⟩ := List.forall_mem_cons.mp hplain
    rw [Pending.ops, List.append_assoc, List.append_assoc] at h
    -- Either there is nothing to hand over, or there is nothing to extend.
    have hflushed :
        Leads kinds old new i j (p.flushChange ++ (p.equal.toList ++ op :: ops)) i' j' := by
      rcases hp.alone with hnone | ⟨hdelete, hinsert⟩
      · rw [hnone] at h ⊢
        exact h.flushChange hp hreplace
      · rw [hdelete, hinsert] at h
        rwa [Pending.flushChange, hdelete, hinsert]
    refine hflushed.exchange fun h => ih (hp.takeEqual hkind) hops ?_
    exact h.extend (fun a ha => (hp.equal a ha).trans hkind.symm) hop
  | case3 p op ops hkind ih =>
    obtain ⟨hop, hops⟩ := List.forall_mem_cons.mp hplain
    rw [Pending.ops, List.append_assoc, List.append_assoc] at h
    refine h.exchange fun h => ih (hp.takeDelete hkind) hops ?_
    have hpassed := h.exchange fun h => h.passInsert hp.insert hkind
    exact hpassed.extend (fun a ha => (hp.delete a ha).trans hkind.symm) hop
  | case4 p op ops hkind ih =>
    obtain ⟨hop, hops⟩ := List.forall_mem_cons.mp hplain
    rw [Pending.ops, List.append_assoc, List.append_assoc] at h
    refine h.exchange fun h => ih (hp.takeInsert hkind) hops ?_
    show Leads kinds old new _ _ ((p.delete.toList ++ [Pending.extend p.insert op]) ++ ops) _ _
    rw [List.append_assoc]
    exact h.exchange fun h => h.extend (fun a ha => (hp.insert a ha).trans hkind.symm) hop
  | case5 p op ops hkind ih => exact absurd hkind (List.forall_mem_cons.mp hplain).1

/-- The script of the search has no replacements. -/
theorem plain_conquer {fuel : ℕ} {p : Part} : Plain (conquer old new fuel p) := by
  have hnil : Plain [] := fun _ hop => absurd hop List.not_mem_nil
  have hremove : ∀ i n j, Plain [Op.remove i n j] := fun _ _ _ =>
    List.forall_mem_cons.mpr ⟨nofun, hnil⟩
  have hadd : ∀ i j n, Plain [Op.add i j n] := fun _ _ _ => List.forall_mem_cons.mpr ⟨nofun, hnil⟩
  have hkeep : ∀ i j n, Plain (if 0 < n then [Op.keep i j n] else []) := by
    intro i j n
    split
    · exact List.forall_mem_cons.mpr ⟨nofun, hnil⟩
    · exact hnil
  induction fuel using Nat.strongRecOn generalizing p with
  | ind fuel ih =>
    obtain ⟨s, e, t, f⟩ := p
    rw [conquer_eq]
    refine List.forall_mem_append.mpr
      ⟨List.forall_mem_append.mpr ⟨hkeep _ _ _, ?_⟩, hkeep _ _ _⟩
    -- One case for each ending of the search; the last one cuts the part in two.
    unfold conquerTrimmed
    split
    · exact hnil
    split
    · exact hremove _ _ _
    split
    · exact hadd _ _ _
    split
    · exact List.forall_mem_cons.mpr ⟨nofun, hadd _ _ _⟩
    split
    · exact List.forall_mem_cons.mpr ⟨nofun, hadd _ _ _⟩
    · exact List.forall_mem_append.mpr ⟨ih _ (Nat.lt_succ_self _), ih _ (Nat.lt_succ_self _)⟩

/-- The kinds of operations that are shown: those that the search has found, and replacements. -/
def Shows (old new : Array String) (kind : Kind) : Prop := kind = .replace ∨ Found old new kind

variable (old new) in
/-- What sliding makes of the script of the search leads through both texts, and has no
replacements. -/
theorem leads_slide_slide :
    Leads (Found old new) old new 0 0
        (slide old new .insert (slide old new .delete (script old new))) old.size new.size ∧
      Plain (slide old new .insert (slide old new .delete (script old new))) := by
  have hleads : Leads (Found old new) old new 0 0
      (slide old new .insert (slide old new .delete (script old new))) old.size new.size :=
    (leads_script old new).slide.slide
  refine ⟨hleads, fun op hop hkind => ?_⟩
  obtain ⟨op', hop', hkind'⟩ := hleads.kind_of_mem op hop
  exact plain_conquer op' hop' (hkind'.trans hkind)

variable (old new) in
/-- The operations that are shown lead through both texts. -/
theorem leads_operations :
    Leads (Shows old new) old new 0 0 (operations old new) old.size new.size := by
  obtain ⟨hleads, hplain⟩ := leads_slide_slide old new
  exact leads_joinFrom Pending.sorted_empty (.inl rfl) hplain hleads.mono

/-! ## Taking turns -/

/-- A change that is handed over is one operation. -/
theorem Pending.flushChange_eq (hp : p.Sorted) :
    p.flushChange = [] ∧ p.delete = none ∧ p.insert = none ∨
      ∃ op, p.flushChange = [op] ∧ op.kind ≠ .equal ∧ p.equal = none := by
  obtain ⟨equal, delete, insert⟩ := p
  have halone : equal = none ∨ delete = none ∧ insert = none := hp.alone
  cases delete with
  | none =>
    cases insert with
    | none => exact .inl ⟨rfl, rfl, rfl⟩
    | some i =>
      have hkind := hp.insert i rfl
      exact .inr ⟨i, rfl, by simp [hkind], halone.resolve_right nofun⟩
  | some d =>
    have hequal := halone.resolve_right nofun
    cases insert with
    | none =>
      have hkind := hp.delete d rfl
      exact .inr ⟨d, rfl, by simp [hkind], hequal⟩
    | some i => exact .inr ⟨_, rfl, nofun, hequal⟩

/-- Kept lines are handed over in front of a script that begins with a change. -/
theorem Alternate.opens_flushEqual (h : Alternate ops) (hp : p.Sorted)
    (hchange : ∀ op ∈ ops.head?, op.kind ≠ .equal) : p.Opens (p.flushEqual ++ ops) := by
  unfold Pending.flushEqual
  cases hequal : p.equal with
  | none => exact ⟨h, fun op hop => ⟨fun hne => absurd hequal hne, fun _ => hchange op hop⟩⟩
  | some e =>
    have hkind := hp.equal e hequal
    have hchain : Alternate (e :: ops) :=
      List.isChain_cons.mpr ⟨fun op hop => ⟨fun _ => hchange op hop, fun _ => hkind⟩, h⟩
    obtain ⟨hdelete, hinsert⟩ := hp.alone.resolve_left (by simp [hequal])
    refine ⟨hchain, fun op hop => ?_⟩
    obtain rfl := Option.mem_some.mp hop
    exact ⟨fun _ => hkind, fun hwaits => absurd hwaits (by simp [hdelete, hinsert])⟩

/-- A change is handed over in front of a script that begins with kept lines. -/
theorem Alternate.opens_flushChange (h : Alternate ops) (hp : p.Sorted)
    (hkept : ∀ op ∈ ops.head?, op.kind = .equal) : p.Opens (p.flushChange ++ ops) := by
  rcases Pending.flushChange_eq hp with ⟨hnil, hdelete, hinsert⟩ | ⟨c, hone, hkind, hequal⟩
  · rw [hnil]
    refine ⟨h, fun op hop => ⟨fun _ => hkept op hop, ?_⟩⟩
    exact fun hwaits => absurd hwaits (by simp [hdelete, hinsert])
  · rw [hone]
    have hchain : Alternate (c :: ops) :=
      List.isChain_cons.mpr
        ⟨fun op hop => ⟨fun heq => absurd heq hkind, fun hne => absurd (hkept op hop) hne⟩, h⟩
    refine ⟨hchain, fun op hop => ?_⟩
    obtain rfl := Option.mem_some.mp hop
    exact ⟨fun hne => absurd hequal hne, fun _ => hkind⟩

/-- In what joining hands over, kept runs and changes take turns. -/
theorem opens_joinFrom (hp : p.Sorted) (hplain : Plain ops) : p.Opens (joinFrom p ops) := by
  fun_induction joinFrom p ops with
  | case1 p =>
    have hflushed : p.Opens (p.flushChange ++ []) :=
      Alternate.opens_flushChange List.isChain_nil hp fun _ hop =>
        absurd hop (Option.not_mem_none _)
    rw [List.append_nil] at hflushed
    refine hflushed.alternate.opens_flushEqual hp fun op hop => ?_
    rcases Pending.flushChange_eq hp with ⟨hnil, -, -⟩ | ⟨c, hone, hkind, -⟩
    · rw [hnil] at hop
      exact absurd hop (Option.not_mem_none op)
    · rw [hone] at hop
      obtain rfl := Option.mem_some.mp hop
      exact hkind
  | case2 p op ops hkind ih =>
    obtain ⟨-, hops⟩ := List.forall_mem_cons.mp hplain
    -- A kept run is pending now, so what follows begins with it and may come behind a change.
    have hopens := ih (hp.takeEqual hkind) hops
    exact hopens.alternate.opens_flushChange hp fun op' hop' =>
      (hopens.head op' hop').1 (Option.some_ne_none _)
  | case3 p op ops hkind ih =>
    obtain ⟨-, hops⟩ := List.forall_mem_cons.mp hplain
    have hopens := ih (hp.takeDelete hkind) hops
    exact hopens.alternate.opens_flushEqual hp fun op' hop' =>
      (hopens.head op' hop').2 (.inl (Option.some_ne_none _))
  | case4 p op ops hkind ih =>
    obtain ⟨-, hops⟩ := List.forall_mem_cons.mp hplain
    have hopens := ih (hp.takeInsert hkind) hops
    exact hopens.alternate.opens_flushEqual hp fun op' hop' =>
      (hopens.head op' hop').2 (.inr (Option.some_ne_none _))
  | case5 p op ops hkind ih => exact absurd hkind (List.forall_mem_cons.mp hplain).1

/-- Kept runs and changes take turns in the operations that are shown. -/
theorem alternate_operations : Alternate (operations old new) :=
  (opens_joinFrom Pending.sorted_empty (leads_slide_slide _ _).2).alternate

end Fettle.Diff
