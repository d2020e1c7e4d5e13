import Fettle.Proofs.Settings.Field
import Fettle.Settings.Yaml
import Mathlib.Data.List.Nodup

/-!
# Reading layers

A layer is written as named values, in either of two data formats. Both formats store one value
after the other, and in the end each field is as the value that counts for it is read (`Collects`):
left open if no value is given for it or the value is nothing, and set otherwise, also if the value
is an empty list. Of two members of an object with one name the last counts
(`ofJson_object_eq_ok_iff`); in a mapping a field is given at most once
(`ofYaml_mapping_eq_ok_iff`).
-/

namespace Fettle.Settings

open Json (Value)
open Yaml (Document KindTag Mark Node)

variable {ν ε : Type}

/-! ## Values given for fields -/

/-- The field with a name. -/
def Field.ofName? (name : String) : Option Field := all.find? (·.name == name)

/-- A field is found under its own name, and under no other. -/
theorem Field.ofName?_eq_some_iff {name : String} {f : Field} :
    ofName? name = some f ↔ f.name = name := by
  unfold ofName?
  constructor
  · exact fun h => eq_of_beq (List.find?_some h :)
  · rintro rfl
    have hsome : (all.find? (·.name == f.name)).isSome = true :=
      List.find?_isSome.mpr ⟨f, f.mem_all, beq_self_eq_true _⟩
    obtain ⟨g, hg⟩ := Option.isSome_iff_exists.mp hsome
    rw [hg, name_injective (eq_of_beq (List.find?_some hg :))]

/-- No field is found under a name that no field has. -/
theorem Field.ofName?_eq_none_iff {name : String} :
    ofName? name = none ↔ ∀ f : Field, f.name ≠ name := by
  rw [Option.eq_none_iff_forall_ne_some]
  exact forall_congr' fun f => not_congr ofName?_eq_some_iff

/-- Of named values, those that are given for fields. -/
def givenFor (values : List (String × ν)) : List (Field × ν) :=
  values.filterMap fun m => (Field.ofName? m.1).map (·, m.2)

/-- A value with the name of a field is given for the field. -/
theorem givenFor_cons_of_name (f : Field) (v : ν) (values : List (String × ν)) :
    givenFor ((f.name, v) :: values) = (f, v) :: givenFor values := by
  have h : Field.ofName? f.name = some f := Field.ofName?_eq_some_iff.mpr rfl
  simp only [givenFor, List.filterMap_cons, h, Option.map_some]

/-- A value whose name no field has is given for none. -/
theorem givenFor_cons_of_none {name : String} (h : Field.ofName? name = none) (v : ν)
    (values : List (String × ν)) : givenFor ((name, v) :: values) = givenFor values := by
  simp only [givenFor, List.filterMap_cons, h, Option.map_none]

/-- The fields that values are given for are those with their names. -/
theorem map_fst_givenFor (values : List (String × ν)) :
    (givenFor values).map Prod.fst = (values.map Prod.fst).filterMap Field.ofName? := by
  induction values with
  | nil => rfl
  | cons m values ih =>
    obtain ⟨name, v⟩ := m
    cases hname : Field.ofName? name with
    | none => rw [givenFor_cons_of_none hname, ih, List.map_cons, List.filterMap_cons, hname]
    | some f =>
      obtain rfl := Field.ofName?_eq_some_iff.mp hname
      rw [givenFor_cons_of_name, List.map_cons, ih, List.map_cons, List.filterMap_cons, hname]

/-- The value that is given for a field is the one with its name. -/
theorem lookup_givenFor (values : List (String × ν)) (f : Field) :
    (givenFor values).lookup f = values.lookup f.name := by
  induction values with
  | nil => rfl
  | cons m values ih =>
    obtain ⟨name, v⟩ := m
    cases hname : Field.ofName? name with
    | none =>
      have hne : (f.name == name) = false :=
        beq_false_of_ne (Field.ofName?_eq_none_iff.mp hname f)
      rw [givenFor_cons_of_none hname, ih, List.lookup_cons, hne]
    | some g =>
      obtain rfl := Field.ofName?_eq_some_iff.mp hname
      rw [givenFor_cons_of_name, List.lookup_cons, List.lookup_cons, ih]
      by_cases h : f = g
      · rw [h, beq_self_eq_true, beq_self_eq_true]
      · rw [beq_false_of_ne h, beq_false_of_ne fun hn => h (Field.name_injective hn)]

/-- A layer that is made from another by storing what is read from the values given for fields. The
first value that is given for a field counts. -/
def Collects (read : (f : Field) → ν → Except ε (Option f.Value)) (given : List (Field × ν))
    (before after : Layer) : Prop :=
  ∀ f : Field, match given.lookup f with
    | none => after.get f = before.get f
    | some value => read f value = .ok (after.get f)

section

variable {read : (f : Field) → ν → Except ε (Option f.Value)} {given given' : List (Field × ν)}
  {before after : Layer}

/-- Where no values are given, the layer stays as it is. -/
theorem collects_nil_iff : Collects read [] before after ↔ after = before :=
  ⟨fun h => Layer.ext_get h, fun h f => congrArg (Layer.get · f) h⟩

/-- It only matters which value counts for each field. -/
theorem Collects.congr (h : ∀ f, given.lookup f = given'.lookup f) :
    Collects read given before after ↔ Collects read given' before after := by
  unfold Collects
  simp only [h]

/-- What is read from the value in front. -/
theorem Collects.read_front {f : Field} {value : ν}
    (h : Collects read ((f, value) :: given) before after) : read f value = .ok (after.get f) := by
  have hf := h f
  rwa [List.lookup_cons, beq_self_eq_true] at hf

/-- The value in front is stored, and then the others, none of which is for the same field. -/
theorem collects_cons_iff {f : Field} {value : ν} (h : f ∉ given.map Prod.fst) :
    Collects read ((f, value) :: given) before after ↔
      ∃ taken, read f value = .ok taken ∧ Collects read given (before.put f taken) after := by
  have hnone : given.lookup f = none := by
    rw [List.lookup_eq_none_iff]
    exact fun m hm => bne_iff_ne.mpr fun hf => h (hf ▸ List.mem_map_of_mem hm)
  have hself : ((f, value) :: given).lookup f = some value := by
    rw [List.lookup_cons, beq_self_eq_true]
  have hother {g : Field} (hg : g ≠ f) : ((f, value) :: given).lookup g = given.lookup g := by
    rw [List.lookup_cons, beq_false_of_ne hg]
  -- no later value is for `f`, so what is stored in `f` now is there in the end
  constructor
  · intro hc
    refine ⟨after.get f, hc.read_front, fun g => ?_⟩
    by_cases hg : g = f
    · subst hg
      rw [hnone]
      exact (before.get_put_self g _).symm
    · have hc := hc g
      rw [hother hg] at hc
      rwa [before.get_put_of_ne hg]
  · rintro ⟨taken, hread, hc⟩ g
    have hc := hc g
    by_cases hg : g = f
    · subst hg
      rw [hnone, before.get_put_self] at hc
      rw [hself]
      exact hread.trans (congrArg Except.ok hc.symm)
    · rw [hother hg]
      rwa [before.get_put_of_ne hg] at hc

end

/-- A way to read fields by which a field is left open by nothing, in the sense of the data format,
and by nothing else. In particular an empty list sets a list. -/
structure OpensOnNothing (read : (f : Field) → ν → Except ε (Option f.Value))
    (isNothing isEmptyList : ν → Prop) : Prop where
  /-- Nothing leaves a field open. -/
  of_nothing : ∀ value, isNothing value → ∀ f, read f value = .ok none
  /-- All else is read as data, or not at all. -/
  nothing_of_open : ∀ value f, read f value = .ok none → isNothing value
  /-- An empty list sets the rules whose fixes are applied, -/
  allowList : ∀ value, isEmptyList value → read .allowList value = .ok (some [])
  /-- the rules that are asked for when fixing, -/
  select : ∀ value, isEmptyList value → read .select value = .ok (some [])
  /-- and the rules that are asked for when reporting. -/
  lintSelect : ∀ value, isEmptyList value → read .lintSelect value = .ok (some [])

/-- What is given for a field is open after reading only if it is nothing. -/
theorem Field.isNothing_of_readGiven {k : Kinds ν ε} {f : Field} {value : ν}
    (h : f.readGiven k value = .ok none) : k.isNothing value = true := by
  by_contra hsome
  rw [readGiven_of_not_isNothing (Bool.eq_false_iff.mpr hsome)] at h
  cases hread : f.read k value with
  | error e => rw [hread] at h; cases h
  | ok data => rw [hread] at h; cases h

/-! ## Objects -/

section

variable {α : Type} {ms ms' : List (String × α)}

/-- Where names are distinct, a look-up finds what is there. -/
theorem lookup_eq_some_iff_mem (h : (ms.map Prod.fst).Nodup) (name : String) (v : α) :
    ms.lookup name = some v ↔ (name, v) ∈ ms := by
  induction ms with
  | nil => simp
  | cons m ms ih =>
    obtain ⟨other, w⟩ := m
    obtain ⟨hother, hms⟩ := List.nodup_cons.mp h
    rw [List.lookup_cons, List.mem_cons, Prod.mk.injEq]
    by_cases hname : name = other
    · subst hname
      have hnot : (name, v) ∉ ms := fun hm => hother (List.mem_map.mpr ⟨_, hm, rfl⟩)
      simp [hnot, eq_comm]
    · simp [beq_false_of_ne hname, hname, ih hms]

/-- Where names are distinct, the order makes no difference to a look-up. -/
theorem lookup_eq_of_perm (h : (ms.map Prod.fst).Nodup) (hperm : ms.Perm ms') (name : String) :
    ms.lookup name = ms'.lookup name := by
  have h' : (ms'.map Prod.fst).Nodup := (hperm.map Prod.fst).nodup_iff.mp h
  refine Option.ext fun v => ?_
  rw [lookup_eq_some_iff_mem h, lookup_eq_some_iff_mem h', hperm.mem_iff]

/-- Taking out all members with another name makes no difference to a look-up. -/
theorem lookup_filter_ne {name other : String} (h : name ≠ other) (ms : List (String × α)) :
    (ms.filter (·.1 ≠ other)).lookup name = ms.lookup name := by
  induction ms with
  | nil => rfl
  | cons m ms ih =>
    obtain ⟨n, v⟩ := m
    by_cases hn : n = other
    · subst hn
      rw [List.filter_cons_of_neg (by simp), ih, List.lookup_cons, beq_false_of_ne h]
    · rw [List.filter_cons_of_pos (by simpa using hn), List.lookup_cons, List.lookup_cons, ih]

/-- Take up a member in place of the one with its name. -/
def replaceMember (kept : List (String × α)) (m : String × α) : List (String × α) :=
  kept.filter (·.1 ≠ m.1) ++ [m]

/-- The member that is taken up is found first. -/
theorem lookup_replaceMember (kept : List (String × α)) (m : String × α) (name : String) :
    (replaceMember kept m).lookup name = ([m].lookup name).or (kept.lookup name) := by
  unfold replaceMember
  rw [List.lookup_append]
  -- the new member stands behind the others, but none of these has its name any more
  by_cases h : name = m.1
  · have hnone : (kept.filter (·.1 ≠ m.1)).lookup name = none := by
      rw [List.lookup_eq_none_iff]
      intro p hp
      have hp : p.1 ≠ m.1 := by simpa using (List.mem_filter.mp hp).2
      exact bne_iff_ne.mpr fun hname => hp (hname.symm.trans h)
    rw [hnone, Option.none_or, List.lookup_cons, h, beq_self_eq_true, Option.some_or]
  · have hnone : [m].lookup name = none := by
      rw [List.lookup_cons, beq_false_of_ne h, List.lookup_nil]
    rw [lookup_filter_ne h, hnone, Option.or_none, Option.none_or]

/-- Taking up a member keeps names distinct, -/
theorem nodup_replaceMember {kept : List (String × α)} (h : (kept.map Prod.fst).Nodup)
    (m : String × α) : ((replaceMember kept m).map Prod.fst).Nodup := by
  unfold replaceMember
  rw [List.map_append, List.nodup_append']
  refine ⟨h.sublist (List.filter_sublist.map _), List.nodup_singleton _, ?_⟩
  rw [List.disjoint_right]
  intro name hname hkept
  obtain ⟨p, hp, rfl⟩ := List.mem_map.mp hkept
  have hp : p.1 ≠ m.1 := by simpa using (List.mem_filter.mp hp).2
  exact hp (List.mem_singleton.mp hname)

/-- Of members that are taken up one after the other the last with a name is kept. -/
theorem lookup_foldl_replaceMember (kept : List (String × α)) (name : String) :
    (ms.foldl replaceMember kept).lookup name = (ms.reverse.lookup name).or (kept.lookup name) := by
  induction ms generalizing kept with
  | nil => rfl
  | cons m ms ih =>
    rw [List.foldl_cons, ih, lookup_replaceMember, List.reverse_cons, List.lookup_append,
      Option.or_assoc]

/-- and so does taking up one after the other. -/
theorem nodup_foldl_replaceMember {kept : List (String × α)} (h : (kept.map Prod.fst).Nodup) :
    ((ms.foldl replaceMember kept).map Prod.fst).Nodup := by
  induction ms generalizing kept with
  | nil => exact h
  | cons m ms ih => exact ih (nodup_replaceMember h m)

end

/-- Members are sorted after those with the same name have been replaced. -/
theorem perm_sortedMembers (ms : List (String × Value)) :
    (sortedMembers ms).Perm (ms.foldl replaceMember []) := List.mergeSort_perm ..

/-- The members that count have distinct names. -/
theorem nodup_sortedMembers (ms : List (String × Value)) :
    ((sortedMembers ms).map Prod.fst).Nodup :=
  ((perm_sortedMembers ms).map Prod.fst).nodup_iff.mpr (nodup_foldl_replaceMember List.nodup_nil)

/-- Of members with the same name only the last counts. -/
theorem lookup_sortedMembers (ms : List (String × Value)) (name : String) :
    (sortedMembers ms).lookup name = ms.reverse.lookup name := by
  -- sorting by name moves no look-up, since the names are distinct by then
  rw [lookup_eq_of_perm (nodup_sortedMembers ms) (perm_sortedMembers ms),
    lookup_foldl_replaceMember, List.lookup_nil, Option.or_none]

/-- Store a member, unless it is no field. -/
def storeMember (k : Kinds ν ε) (l : Layer) (m : String × ν) : Except ε Layer :=
  match (Layer.members k).lookup m.1 with
  | some store => store l m.2
  | none => .ok l

/-- A member with the name of a field is read and put there. -/
theorem storeMember_of_name (k : Kinds ν ε) (l : Layer) (f : Field) (v : ν) :
    storeMember k l (f.name, v) = (f.readGiven k v).map (l.put f) := by
  obtain ⟨store, hlookup, hstore⟩ := Layer.lookup_members_name k f
  simp only [storeMember, hlookup, hstore]

/-- A member whose name no field has is passed over. -/
theorem storeMember_of_none (k : Kinds ν ε) (l : Layer) {name : String}
    (h : Field.ofName? name = none) (v : ν) : storeMember k l (name, v) = .ok l := by
  simp only [storeMember, Layer.lookup_members_eq_none k (Field.ofName?_eq_none_iff.mp h)]

/-- Members with distinct names are stored one after the other. -/
theorem foldlM_storeMember_eq_ok_iff {k : Kinds ν ε} {ms : List (String × ν)}
    (h : (ms.map Prod.fst).Nodup) {before after : Layer} :
    ms.foldlM (storeMember k) before = .ok after ↔
      Collects (Field.readGiven k) (givenFor ms) before after := by
  induction ms generalizing before with
  | nil =>
    rw [List.foldlM_nil]
    exact ⟨fun h => collects_nil_iff.mpr (Except.ok.inj h).symm,
      fun h => congrArg Except.ok (collects_nil_iff.mp h).symm⟩
  | cons m ms ih =>
    obtain ⟨name, v⟩ := m
    obtain ⟨hname, hms⟩ := List.nodup_cons.mp h
    rw [List.foldlM_cons]
    cases hf : Field.ofName? name with
    | none =>
      -- passed over, and not among the values that are given for fields
      rw [storeMember_of_none k before hf, givenFor_cons_of_none hf]
      exact ih hms
    | some f =>
      obtain rfl := Field.ofName?_eq_some_iff.mp hf
      -- a later value for the field would be a later member with its name
      have hfresh : f ∉ (givenFor ms).map Prod.fst := by
        intro hmem
        rw [map_fst_givenFor] at hmem
        obtain ⟨other, hother, hname'⟩ := List.mem_filterMap.mp hmem
        exact hname (Field.ofName?_eq_some_iff.mp hname' ▸ hother)
      rw [storeMember_of_name, givenFor_cons_of_name, collects_cons_iff hfresh]
      cases hread : f.readGiven k v with
      | error e => exact iff_of_false nofun fun ⟨_, h, _⟩ => nomatch h
      | ok taken =>
        exact (ih hms).trans
          ⟨fun h => ⟨taken, rfl, h⟩, fun ⟨_, h, hc⟩ => Except.ok.inj h ▸ hc⟩

/-- An object is read by storing its members, sorted, one after the other. -/
theorem ofJson_object (ms : List (String × Value)) :
    Layer.ofJson (.object ms) = (sortedMembers ms).foldlM (storeMember jsonKinds) {} := by
  rw [Layer.ofJson]
  congr 1
  funext l m
  obtain ⟨name, v⟩ := m
  unfold storeMember
  dsimp only
  cases (Layer.members jsonKinds).lookup name <;> rfl

/-- An object is read as a layer if each of its members that is a field can be read; of members
with the same name the last counts. -/
theorem ofJson_object_eq_ok_iff {ms : List (String × Value)} {l : Layer} :
    Layer.ofJson (.object ms) = .ok l ↔
      Collects (Field.readGiven jsonKinds) (givenFor ms.reverse) {} l := by
  rw [ofJson_object, foldlM_storeMember_eq_ok_iff (nodup_sortedMembers ms)]
  refine Collects.congr fun f => ?_
  rw [lookup_givenFor, lookup_givenFor, lookup_sortedMembers]

/-- In an object, nothing is the word for it. -/
theorem opensOnNothing_readGiven :
    OpensOnNothing (Field.readGiven jsonKinds) (· = .null) (· = .array []) where
  of_nothing := by
    rintro _ rfl f
    exact f.readGiven_of_isNothing rfl
  nothing_of_open value f h := by
    have hnothing := Field.isNothing_of_readGiven h
    cases value with
    | null => rfl
    | _ => cases hnothing
  allowList := by rintro _ rfl; rfl
  select := by rintro _ rfl; rfl
  lintSelect := by rintro _ rfl; rfl

/-! ## Mappings -/

/-- The text of a key. -/
def keyText? (d : Document) (key : Node) : Option String :=
  match d.resolve key with
  | .scalar _ _ _ s => some s
  | _ => none

/-- The values of a mapping with the texts of their keys. -/
def namedValues (d : Document) (pairs : List (Node × Node)) : List (String × Node) :=
  pairs.filterMap fun pair => (keyText? d pair.1).map (·, d.resolve pair.2)

/-- How a node that is given for a field is read. -/
def readNode (d : Document) (f : Field) (node : Node) : Except LayerFault (Option f.Value) := do
  Reading.checkNothing node
  f.readGiven (Reading.kinds d) node

/-- The keys of a mapping are texts, and no field is named twice, or named before. -/
structure WellKeyed (d : Document) (seen : List String) (pairs : List (Node × Node)) : Prop where
  /-- The keys are texts. -/
  texts : ∀ pair ∈ pairs, (keyText? d pair.1).isSome = true
  /-- A field is named at most once. -/
  once : (((givenFor (namedValues d pairs)).map (·.1.name)) ++ seen).Nodup

section

variable {d : Document} {mark : Mark} {seen : List String} {pairs : List (Node × Node)}
  {key value : Node} {name : String}

/-- A key that has a text is a scalar. -/
theorem resolve_eq_of_keyText? (h : keyText? d key = some name) :
    ∃ mark tag style, d.resolve key = .scalar mark tag style name := by
  unfold keyText? at h
  cases hkey : d.resolve key with
  | scalar mark tag style s =>
    simp only [hkey, Option.some.injEq] at h
    exact ⟨mark, tag, style, h ▸ rfl⟩
  | _ => simp [hkey] at h

/-- A pair whose key has a text is a value with that name. -/
theorem namedValues_cons (h : keyText? d key = some name) :
    namedValues d ((key, value) :: pairs) = (name, d.resolve value) :: namedValues d pairs := by
  simp only [namedValues, List.filterMap_cons, h, Option.map_some]

/-- A key that names no field may be there any number of times. -/
theorem wellKeyed_cons_of_none (h : keyText? d key = some name) (hf : Field.ofName? name = none) :
    WellKeyed d seen ((key, value) :: pairs) ↔ WellKeyed d seen pairs := by
  have hgiven :
      givenFor (namedValues d ((key, value) :: pairs)) = givenFor (namedValues d pairs) := by
    rw [namedValues_cons h, givenFor_cons_of_none hf]
  constructor
  · exact fun hw => ⟨fun pair hp => hw.texts pair (List.mem_cons_of_mem _ hp), hgiven ▸ hw.once⟩
  · refine fun hw => ⟨fun pair hp => ?_, hgiven ▸ hw.once⟩
    rcases List.mem_cons.mp hp with rfl | hp
    · exact h ▸ rfl
    · exact hw.texts pair hp

/-- A key that names a field must not have been seen, and is seen from then on. -/
theorem wellKeyed_cons_of_name {f : Field} (h : keyText? d key = some f.name) :
    WellKeyed d seen ((key, value) :: pairs) ↔
      f.name ∉ seen ∧ WellKeyed d (f.name :: seen) pairs := by
  have hnames : (givenFor (namedValues d ((key, value) :: pairs))).map (·.1.name) ++ seen =
      f.name :: ((givenFor (namedValues d pairs)).map (·.1.name) ++ seen) := by
    rw [namedValues_cons h, givenFor_cons_of_name, List.map_cons, List.cons_append]
  constructor
  · intro hw
    have honce := hw.once
    rw [hnames] at honce
    refine ⟨fun hseen => ?_, ⟨fun pair hp => hw.texts pair (List.mem_cons_of_mem _ hp), ?_⟩⟩
    · exact (List.nodup_cons.mp honce).1 (List.mem_append_right _ hseen)
    · exact List.nodup_middle.mpr honce
  · rintro ⟨-, hw⟩
    refine ⟨fun pair hp => ?_, ?_⟩
    · rcases List.mem_cons.mp hp with rfl | hp
      · exact h ▸ rfl
      · exact hw.texts pair hp
    · rw [hnames]
      exact List.nodup_middle.mp hw.once

/-- A field that is named before is not named again. -/
theorem WellKeyed.not_mem_of_seen {f : Field} (h : WellKeyed d (f.name :: seen) pairs) :
    f ∉ (givenFor (namedValues d pairs)).map Prod.fst := by
  intro hmem
  obtain ⟨m, hm, rfl⟩ := List.mem_map.mp hmem
  have honce := (List.nodup_cons.mp (List.nodup_middle.mp h.once)).1
  exact honce (List.mem_append_left _ (List.mem_map_of_mem hm))

/-- A pair whose key is no text is refused. -/
theorem storePairs_cons_of_not_text {before : Layer} (h : keyText? d key = none) :
    Reading.storePairs d mark seen ((key, value) :: pairs) before =
      Reading.refuse "field identifier" (d.resolve key) := by
  unfold keyText? at h
  rw [Reading.storePairs]
  cases hkey : d.resolve key with
  | scalar _ _ _ s => simp [hkey] at h
  | _ => rfl

/-- A pair whose key names no field is passed over. -/
theorem storePairs_cons_of_none {before : Layer} (h : keyText? d key = some name)
    (hf : Field.ofName? name = none) :
    Reading.storePairs d mark seen ((key, value) :: pairs) before =
      Reading.storePairs d mark seen pairs before := by
  obtain ⟨m, t, style, hkey⟩ := resolve_eq_of_keyText? h
  rw [Reading.storePairs, hkey]
  simp only [Layer.lookup_members_eq_none _ (Field.ofName?_eq_none_iff.mp hf)]

/-- A pair whose key names a field for the second time is refused. -/
theorem storePairs_cons_of_seen {before : Layer} {f : Field} (h : keyText? d key = some f.name)
    (hseen : f.name ∈ seen) :
    Reading.storePairs d mark seen ((key, value) :: pairs) before =
      .error ⟨.duplicate f.name, some ("", mark)⟩ := by
  obtain ⟨m, t, style, hkey⟩ := resolve_eq_of_keyText? h
  obtain ⟨store, hlookup, -⟩ := Layer.lookup_members_name (Reading.kinds d) f
  rw [Reading.storePairs, hkey]
  simp only [hlookup, List.contains_iff_mem.mpr hseen, if_true]

/-- A pair whose key names a field for the first time is stored. -/
theorem storePairs_cons_of_name {before : Layer} {f : Field} (h : keyText? d key = some f.name)
    (hseen : f.name ∉ seen) :
    Reading.storePairs d mark seen ((key, value) :: pairs) before =
      match readNode d f (d.resolve value) with
      | .error fault => .error (fault.within (Reading.keyInPath key) mark)
      | .ok taken => Reading.storePairs d mark (f.name :: seen) pairs (before.put f taken) := by
  obtain ⟨m, t, style, hkey⟩ := resolve_eq_of_keyText? h
  obtain ⟨store, hlookup, hstore⟩ := Layer.lookup_members_name (Reading.kinds d) f
  have hcontains : seen.contains f.name = false := by
    rwa [← Bool.not_eq_true, List.contains_iff_mem]
  have hread : (do Reading.checkNothing (d.resolve value); store before (d.resolve value)) =
      (readNode d f (d.resolve value)).map (before.put f) := by
    unfold readNode
    cases Reading.checkNothing (d.resolve value) with
    | error fault => rfl
    | ok => exact hstore ..
  rw [Reading.storePairs, hkey]
  simp only [hlookup, hcontains, Bool.false_eq_true, if_false, hread]
  cases readNode d f (d.resolve value) <;> rfl

/-- The values of a mapping are stored one after the other. -/
theorem storePairs_eq_ok_iff {before after : Layer} (hseen : seen.Nodup) :
    Reading.storePairs d mark seen pairs before = .ok after ↔
      WellKeyed d seen pairs ∧
        Collects (readNode d) (givenFor (namedValues d pairs)) before after := by
  -- the names that are seen grow with the pairs, so they are part of what is proved
  induction pairs generalizing seen before with
  | nil =>
    have hkeyed : WellKeyed d seen [] := ⟨nofun, hseen⟩
    rw [Reading.storePairs, Except.ok.injEq]
    exact eq_comm.trans (collects_nil_iff.symm.trans (and_iff_right hkeyed).symm)
  | cons pair pairs ih =>
    obtain ⟨key, value⟩ := pair
    cases hkey : keyText? d key with
    | none =>
      rw [storePairs_cons_of_not_text hkey]
      refine iff_of_false nofun fun ⟨hw, _⟩ => ?_
      have htext := hw.texts _ List.mem_cons_self
      rw [hkey] at htext
      cases htext
    | some name =>
      cases hf : Field.ofName? name with
      | none =>
        rw [storePairs_cons_of_none hkey hf, wellKeyed_cons_of_none hkey hf, namedValues_cons hkey,
          givenFor_cons_of_none hf]
        exact ih hseen
      | some f =>
        obtain rfl := Field.ofName?_eq_some_iff.mp hf
        rw [wellKeyed_cons_of_name hkey, namedValues_cons hkey, givenFor_cons_of_name]
        by_cases hfresh : f.name ∈ seen
        · rw [storePairs_cons_of_seen hkey hfresh]
          exact iff_of_false nofun fun h => h.1.1 hfresh
        · rw [storePairs_cons_of_name hkey hfresh]
          cases hread : readNode d f (d.resolve value) with
          | error fault => exact iff_of_false nofun fun h => nomatch hread.symm.trans h.2.read_front
          | ok taken =>
            -- both sides store the field now and go on, with its name among those seen
            refine (ih (List.nodup_cons.mpr ⟨hfresh, hseen⟩)).trans ?_
            rw [and_iff_right hfresh]
            refine and_congr_right fun hw => ?_
            rw [collects_cons_iff hw.not_mem_of_seen]
            exact ⟨fun hc => ⟨taken, hread, hc⟩,
              fun ⟨_, h, hc⟩ => Except.ok.inj (hread.symm.trans h) ▸ hc⟩

end

/-- What stands for nothing is in order. -/
theorem checkNothing_of_standsForNothing {node : Node} (h : Reading.standsForNothing node = true) :
    Reading.checkNothing node = .ok () := by
  unfold Reading.standsForNothing at h
  split at h
  · rfl
  -- a plain scalar that is a word for nothing passes as such, and no other scalar is nothing
  · obtain ⟨-, hword⟩ := Bool.and_eq_true_iff.mp h
    simp [Reading.checkNothing, hword]
  · cases h

/-- In a mapping, nothing is a plain scalar that is left out or is a word for nothing. -/
theorem opensOnNothing_readNode (d : Document) :
    OpensOnNothing (readNode d) (fun node => Reading.standsForNothing node = true)
      (fun node => ∃ mark tag, node = .sequence mark tag []) where
  of_nothing node h f := by
    unfold readNode
    rw [checkNothing_of_standsForNothing h]
    exact f.readGiven_of_isNothing h
  nothing_of_open node f h := by
    unfold readNode at h
    cases hcheck : Reading.checkNothing node with
    | error fault => rw [hcheck] at h; cases h
    | ok => rw [hcheck] at h; exact Field.isNothing_of_readGiven h
  allowList := by rintro _ ⟨mark, tag, rfl⟩; rfl
  select := by rintro _ ⟨mark, tag, rfl⟩; rfl
  lintSelect := by rintro _ ⟨mark, tag, rfl⟩; rfl

/-- A mapping is read as a layer if its keys are texts, no field is given twice, and each value that
is given for a field can be read. -/
theorem ofYaml_mapping_eq_ok_iff {d : Document} {root : Node} {mark : Mark} {tag : Option String}
    {pairs : List (Node × Node)} {l : Layer} (hroot : d.root = some root)
    (hmapping : d.resolve root = .mapping mark tag pairs) :
    Layer.ofYaml d = .ok l ↔
      WellKeyed d [] pairs ∧ Collects (readNode d) (givenFor (namedValues d pairs)) {} l := by
  unfold Layer.ofYaml
  simp only [hroot, hmapping]
  exact storePairs_eq_ok_iff List.nodup_nil

end Fettle.Settings
