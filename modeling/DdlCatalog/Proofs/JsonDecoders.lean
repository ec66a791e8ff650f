import DdlCatalog.Proofs.JsonForms
import DdlCatalog.Proofs.NameLookup
import Mathlib.Data.List.Perm.Basic

namespace DdlCatalog.Json

section Lists

variable {α β : Type} {f : α → Option β}

theorem mapM_eq_some_iff {items : List α} {values : List β} :
    items.mapM f = some values ↔
      List.Forall₂ (fun item value => f item = some value) items values := by
  induction items generalizing values with
  | nil => simp [eq_comm]
  | cons item items ih =>
    simp only [List.mapM_cons, Option.bind_eq_bind, Option.bind_eq_some_iff, ih,
      List.forall₂_cons_left_iff]
    simp [eq_comm]

theorem mapM_bind {γ : Type} {g : β → Option γ} (items : List α) :
    ((items.mapM f).bind fun values => values.mapM g) = items.mapM fun item => (f item).bind g := by
  induction items with
  | nil => rfl
  | cons item items ih =>
    rw [List.mapM_cons, List.mapM_cons, ← ih]
    cases f item with
    | none => rfl
    | some value =>
      cases items.mapM f with
      | none => cases hg : g value <;> simp [hg]
      | some values => simp

theorem mapM_perm {items others : List α} {values : List β} (hp : items.Perm others)
    (h : items.mapM f = some values) : ∃ found, others.mapM f = some found ∧ values.Perm found := by
  obtain ⟨found, hfound, hperm⟩ := List.perm_comp_forall₂ hp.symm (mapM_eq_some_iff.mp h)
  exact ⟨found, mapM_eq_some_iff.mpr hfound, hperm.symm⟩

theorem mapM_middle {before after : List α} {item other : α} {values : List β}
    (h : ∀ value, f item = some value → f other = some value)
    (hm : (before ++ item :: after).mapM f = some values) :
    (before ++ other :: after).mapM f = some values := by
  cases hitem : f item with
  | none => simp [List.mapM_append, List.mapM_cons, hitem] at hm
  | some value => simpa [List.mapM_append, List.mapM_cons, hitem, h value hitem] using hm

theorem exists_mapM_iff {items : List α} :
    (∃ values, items.mapM f = some values) ↔ ∀ item ∈ items, ∃ value, f item = some value := by
  induction items with
  | nil => simp
  | cons item items ih =>
    rw [List.forall_mem_cons, ← ih]
    simp [Option.bind_eq_some_iff]

theorem mapM_eq_none {items : List α} {item : α} (hm : item ∈ items) (h : f item = none) :
    items.mapM f = none := by
  refine Option.eq_none_iff_forall_ne_some.mpr fun values hv => ?_
  obtain ⟨value, hvalue⟩ := exists_mapM_iff.mp ⟨values, hv⟩ item hm
  rw [h] at hvalue
  cases hvalue

end Lists

/-- A decoder that keeps to a form: what a tree stands for outlasts every change of how the tree is
presented, and a faulty tree stands for nothing. -/
structure Follows {α : Type} (form : Form) (decode : Decoder α) : Prop where
  steady : ∀ {json shown value}, Restates form json shown → Distinct form json →
    decode json = some value → decode shown = some value
  strict : ∀ {json}, Faulty form json → decode json = none

variable {α : Type} {form : Form} {decode : Decoder α}

theorem Follows.leaf (decode : Decoder α) : Follows .leaf decode where
  steady h := nomatch h
  strict h := nomatch h

theorem Follows.list (h : Follows form decode) : Follows (.list form) (list? decode) where
  steady hs hd hv := by
    cases hs with
    | item hs =>
      cases hd with
      | list hd =>
        have hitem := (forall_mem_middle.mp hd).1
        exact mapM_middle (fun value hv => h.steady hs hitem hv) hv
  strict hf := by
    cases hf with
    | item hm hf => exact mapM_eq_none hm (h.strict hf)

def field? (decode : Decoder α) (field : List Char × Json) : Option (String × α) := do
  let key ← unescape? field.1
  let value ← decode field.2
  return (String.ofList key, value)

theorem field?_eq_some_iff {field : List Char × Json} {entry : String × α} :
    field? decode field = some entry ↔ Named entry.1 field ∧ decode field.2 = some entry.2 := by
  obtain ⟨name, value⟩ := entry
  simp only [field?, Option.bind_eq_bind, Option.bind_eq_some_iff, Named]
  constructor
  · rintro ⟨key, hkey, held, hheld, he⟩
    cases he
    exact ⟨by rw [hkey, String.toList_ofList], hheld⟩
  · rintro ⟨hkey, hvalue⟩
    exact ⟨_, hkey, _, hvalue, by rw [String.ofList_toList]; rfl⟩

theorem fields?_object (fields : List (List Char × Json)) :
    fields? (.object fields) = fields.mapM (field? some) := by
  refine congrArg (fun f => fields.mapM f) (funext fun field => ?_)
  cases hkey : unescape? field.1 <;> simp [field?, hkey]

theorem map?_object (decode : Decoder α) (fields : List (List Char × Json)) :
    map? decode (.object fields) = (fields.mapM (field? decode)).map NameMap.ofList := by
  have hfield : field? decode = fun field =>
      (field? some field).bind fun found => (decode found.2).map fun value => (found.1, value) := by
    funext field
    cases hkey : unescape? field.1 <;> cases hvalue : decode field.2 <;>
      simp [field?, hkey, hvalue]
  rw [map?, fields?_object, hfield, ← mapM_bind, Option.map_bind]
  exact Option.bind_congr fun found _ => Option.map_eq_bind.symm

theorem map_unescape? {fields : List (List Char × Json)} {entries : List (String × α)}
    (h : fields.mapM (field? decode) = some entries) :
    fields.map (fun field => unescape? field.1) =
      (entries.map (·.1)).map fun name => some name.toList := by
  rw [mapM_eq_some_iff] at h
  induction h with
  | nil => rfl
  | cons hentry _ ih =>
    rw [List.map_cons, List.map_cons, List.map_cons, ih, (field?_eq_some_iff.mp hentry).1]

theorem Follows.map (h : Follows form decode) : Follows (.map form) (map? decode) where
  steady hs hd hv := by
    cases hd with
    | map hn hd =>
      rw [map?_object] at hv
      obtain ⟨entries, hentries, rfl⟩ := Option.map_eq_some_iff.mp hv
      cases hs with
      | reordered hp =>
        -- the same entries are set in another order, which only one name twice could tell
        obtain ⟨others, hothers, hperm⟩ := mapM_perm hp hentries
        have hnames : (entries.map (·.1)).Nodup := .of_map _ (map_unescape? hentries ▸ hn)
        rw [map?_object, hothers, Option.map_some, NameMap.ofList_eq_of_perm hperm hnames]
      | @entry _ before after key json shown hs =>
        have hdistinct : Distinct form json := (forall_mem_middle.mp hd).1
        have hentry : ∀ entry, field? decode (key, json) = some entry →
            field? decode (key, shown) = some entry := fun entry he => by
          obtain ⟨hname, hvalue⟩ := field?_eq_some_iff.mp he
          exact field?_eq_some_iff.mpr ⟨hname, h.steady hs hdistinct hvalue⟩
        rw [map?_object, mapM_middle hentry hentries, Option.map_some]
  strict hf := by
    cases hf with
    | entry hm hf =>
      rw [map?_object, mapM_eq_none hm (by simp [field?, h.strict hf]), Option.map_none]

end DdlCatalog.Json
