import DdlCatalog.NameMap
import Mathlib.Data.List.Dedup

namespace DdlCatalog

namespace NameMap

variable {α : Type}

theorem lookup_cons_eq (name other : String) (value : α) (entries : List (String × α)) :
    ((name, value) :: entries).lookup other =
      if other = name then some value else entries.lookup other := by
  by_cases h : other = name
  · simp [h]
  · simp only [List.lookup_cons, beq_eq_false_iff_ne.mpr h, if_neg h]

theorem lookup_insertInto (name other : String) (value : α) (entries : List (String × α)) :
    (insertInto name value entries).lookup other =
      if other = name then some value else entries.lookup other := by
  induction entries with
  | nil => simp [insertInto, lookup_cons_eq]
  | cons head rest ih =>
    obtain ⟨first, held⟩ := head
    simp only [insertInto]
    split
    next => rw [lookup_cons_eq name]
    next =>
      split
      next heq =>
        subst heq
        rw [lookup_cons_eq, lookup_cons_eq]
        by_cases h : other = name
        · rw [if_pos h, if_pos h]
        · rw [if_neg h, if_neg h, if_neg h]
      next hne =>
        rw [lookup_cons_eq, lookup_cons_eq, ih]
        by_cases h : other = first
        · have hn : other ≠ name := fun he => hne (he.symm.trans h)
          rw [if_pos h, if_neg hn, if_pos h]
        · rw [if_neg h, if_neg h]

@[simp] theorem get?_empty (name : String) : (empty : NameMap α).get? name = none :=
  rfl

@[simp] theorem get?_insert (map : NameMap α) (name other : String) (value : α) :
    (map.insert name value).get? other = if other = name then some value else map.get? other :=
  lookup_insertInto name other value map.entries

theorem length_insertInto {name : String} {entries : List (String × α)} (value : α)
    (h : entries.lookup name = none) :
    (insertInto name value entries).length = entries.length + 1 := by
  induction entries with
  | nil => rfl
  | cons head rest ih =>
    obtain ⟨first, held⟩ := head
    rw [lookup_cons_eq] at h
    have hne : name ≠ first := by
      intro he
      rw [if_pos he] at h
      cases h
    rw [if_neg hne] at h
    simp only [insertInto, if_neg hne]
    split
    next => rfl
    next => rw [List.length_cons, ih h, List.length_cons]

theorem size_insert {map : NameMap α} {name : String} (value : α) (h : map.get? name = none) :
    (map.insert name value).size = map.size + 1 :=
  length_insertInto value h

theorem mem_iff_lookup_eq_some {entries : List (String × α)} (hn : (entries.map (·.1)).Nodup)
    {name : String} {value : α} :
    (name, value) ∈ entries ↔ entries.lookup name = some value := by
  induction entries with
  | nil => simp
  | cons head rest ih =>
    obtain ⟨first, held⟩ := head
    obtain ⟨hfirst, hrest⟩ := List.nodup_cons.mp hn
    have hih := ih hrest
    rw [lookup_cons_eq, List.mem_cons, Prod.mk.injEq]
    by_cases h : name = first
    · have hnotin : (first, value) ∉ rest := fun hm => hfirst (List.mem_map.mpr ⟨_, hm, rfl⟩)
      simp [h, eq_comm, hnotin]
    · simpa [h] using hih

theorem nodup_names (map : NameMap α) : (map.entries.map (·.1)).Nodup :=
  List.Pairwise.map _ (fun _ _ hlt => String.ne_of_lt hlt) map.ordered

theorem mem_entries_iff (map : NameMap α) (name : String) (value : α) :
    (name, value) ∈ map.entries ↔ map.get? name = some value :=
  mem_iff_lookup_eq_some map.nodup_names

/-- Maps with the same values under all names are equal. -/
theorem ext_get? {a b : NameMap α} (h : ∀ name, a.get? name = b.get? name) : a = b := by
  have hmem : ∀ entry : String × α, entry ∈ a.entries ↔ entry ∈ b.entries := by
    rintro ⟨name, value⟩
    rw [mem_entries_iff, mem_entries_iff, h]
  have hperm := (List.perm_ext_iff_of_nodup a.nodup_names.of_map b.nodup_names.of_map).mpr hmem
  have hentries : a.entries = b.entries :=
    hperm.eq_of_pairwise
      (fun x y _ _ hxy hyx => absurd (String.lt_trans hxy hyx) (String.lt_irrefl x.1))
      a.ordered b.ordered
  obtain ⟨entries, ordered⟩ := a
  obtain ⟨others, ordered'⟩ := b
  obtain rfl : entries = others := hentries
  rfl

theorem insert_comm (map : NameMap α) {name other : String} (hne : name ≠ other) (value held : α) :
    (map.insert name value).insert other held = (map.insert other held).insert name value := by
  refine ext_get? fun asked => ?_
  simp only [get?_insert]
  by_cases h : asked = name
  · subst h
    simp [hne]
  · simp [h]

theorem ofList_eq_of_perm {entries others : List (String × α)} (hp : entries.Perm others)
    (hn : (entries.map (·.1)).Nodup) : ofList entries = ofList others := by
  refine hp.foldl_eq' (fun first hfirst second hsecond map => ?_) empty
  by_cases h : first.1 = second.1
  · rw [List.inj_on_of_nodup_map hn hfirst hsecond h]
  · exact insert_comm map h first.2 second.2

theorem size_eq_length_dedup {map : NameMap α} {names : List String}
    (h : ∀ name, map.get? name = none ↔ name ∉ names) : map.size = names.dedup.length := by
  have hmem : ∀ name, name ∈ map.entries.map (·.1) ↔ name ∈ names.dedup := by
    intro name
    rw [List.mem_dedup, ← not_iff_not, ← h, Option.eq_none_iff_forall_ne_some]
    simp [← mem_entries_iff]
  have hperm := (List.perm_ext_iff_of_nodup map.nodup_names (List.nodup_dedup _)).mpr hmem
  simpa [size] using hperm.length_eq

/-- The entries of both maps. Where both have a name, the second map decides. -/
def override (base top : NameMap α) : NameMap α :=
  top.entries.foldl (fun map entry => map.insert entry.1 entry.2) base

theorem get?_override (base top : NameMap α) (name : String) :
    (base.override top).get? name = (top.get? name).or (base.get? name) := by
  obtain ⟨entries, ordered⟩ := top
  unfold override get?
  induction entries generalizing base with
  | nil => simp
  | cons head rest ih =>
    obtain ⟨first, held⟩ := head
    obtain ⟨hfirst, hrest⟩ := List.pairwise_cons.mp ordered
    rw [List.foldl_cons, ih (base.insert first held) hrest, lookup_cons_eq]
    change (rest.lookup name).or ((base.insert first held).get? name) = _
    rw [get?_insert]
    by_cases h : name = first
    · have hn : rest.lookup name = none := by
        refine Option.eq_none_iff_forall_ne_some.mpr fun value hv => ?_
        have hm := (mem_entries_iff ⟨rest, hrest⟩ name value).mpr hv
        exact String.lt_irrefl name (h ▸ hfirst _ hm)
      rw [if_pos h, if_pos h, hn]
      rfl
    · rw [if_neg h, if_neg h]
      rfl

end NameMap

end DdlCatalog
