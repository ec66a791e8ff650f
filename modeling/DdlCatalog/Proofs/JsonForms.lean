import DdlCatalog.Json.Decode
import DdlCatalog.Proofs.JsonText
import Mathlib.Logic.Relation

namespace DdlCatalog.Json

mutual

/-- What is known of a tree: nothing about a leaf, one form for all items of a list or all entries
of a map, and the fields of a record by their names. -/
inductive Form where
  | leaf
  | list (item : Form)
  | map (entry : Form)
  | record (slots : List (String × Slot))

structure Slot where
  form : Form
  absent : Option Json

end

def Slot.required (form : Form) : Slot := ⟨form, none⟩

def Slot.optional (form : Form) (absent : Json) : Slot := ⟨form, some absent⟩

/-- The key of a field stands for a name. -/
def Named (name : String) (field : List Char × Json) : Prop :=
  unescape? field.1 = some name.toList

instance (name : String) (field : List Char × Json) : Decidable (Named name field) :=
  inferInstanceAs (Decidable (_ = _))

/-- One change that keeps what a tree of a form stands for: the fields of an object change places,
an unknown field with any value joins a record, a field that holds its default leaves it. -/
inductive Restates : Form → Json → Json → Prop
  | permuted {slots : List (String × Slot)} {fields shown : List (List Char × Json)} :
      fields.Perm shown → Restates (.record slots) (.object fields) (.object shown)
  | reordered {form : Form} {fields shown : List (List Char × Json)} :
      fields.Perm shown → Restates (.map form) (.object fields) (.object shown)
  | added {slots : List (String × Slot)} {before after : List (List Char × Json)}
      {field : List Char × Json} {name : String} :
      Named name field → slots.lookup name = none → Body field.1 → WellFormed field.2 →
      Restates (.record slots) (.object (before ++ after)) (.object (before ++ field :: after))
  | leftOut {slots : List (String × Slot)} {before after : List (List Char × Json)}
      {field : List Char × Json} {name : String} {slot : Slot} :
      Named name field → slots.lookup name = some slot → slot.absent = some field.2 →
      Restates (.record slots) (.object (before ++ field :: after)) (.object (before ++ after))
  | item {form : Form} {before after : List Json} {json shown : Json} :
      Restates form json shown →
      Restates (.list form) (.array (before ++ json :: after)) (.array (before ++ shown :: after))
  | entry {form : Form} {before after : List (List Char × Json)} {key : List Char}
      {json shown : Json} : Restates form json shown →
      Restates (.map form) (.object (before ++ (key, json) :: after))
        (.object (before ++ (key, shown) :: after))
  | held {slots : List (String × Slot)} {before after : List (List Char × Json)}
      {key : List Char} {json shown : Json} {name : String} {slot : Slot} :
      Named name (key, json) → slots.lookup name = some slot → Restates slot.form json shown →
      Restates (.record slots) (.object (before ++ (key, json) :: after))
        (.object (before ++ (key, shown) :: after))

/-- Trees that stand for nothing: somewhere in them a known field of a record has been repeated, or
one that may not be left out is gone. -/
inductive Faulty : Form → Json → Prop
  | repeated {slots : List (String × Slot)} {fields : List (List Char × Json)}
      {first second : List Char × Json} {name : String} {slot : Slot} :
      slots.lookup name = some slot → [first, second].Sublist fields → Named name first →
      Named name second → Faulty (.record slots) (.object fields)
  | missing {slots : List (String × Slot)} {fields : List (List Char × Json)} {name : String}
      {slot : Slot} : slots.lookup name = some slot → slot.absent = none →
      (∀ field ∈ fields, ¬Named name field) → Faulty (.record slots) (.object fields)
  | item {form : Form} {items : List Json} {json : Json} :
      json ∈ items → Faulty form json → Faulty (.list form) (.array items)
  | entry {form : Form} {fields : List (List Char × Json)} {field : List Char × Json} :
      field ∈ fields → Faulty form field.2 → Faulty (.map form) (.object fields)
  | held {slots : List (String × Slot)} {fields : List (List Char × Json)}
      {field : List Char × Json} {name : String} {slot : Slot} : slots.lookup name = some slot →
      field ∈ fields → Named name field → Faulty slot.form field.2 →
      Faulty (.record slots) (.object fields)

/-- Trees in which no map holds two entries of one name. -/
inductive Distinct : Form → Json → Prop
  | leaf (json : Json) : Distinct .leaf json
  | list {form : Form} {items : List Json} :
      (∀ item ∈ items, Distinct form item) → Distinct (.list form) (.array items)
  | map {form : Form} {fields : List (List Char × Json)} :
      (fields.map fun field => unescape? field.1).Nodup →
      (∀ field ∈ fields, Distinct form field.2) → Distinct (.map form) (.object fields)
  | record {slots : List (String × Slot)} {fields : List (List Char × Json)} :
      (∀ field ∈ fields, ∀ name slot, Named name field → slots.lookup name = some slot →
        Distinct slot.form field.2) → Distinct (.record slots) (.object fields)

theorem Named.unique {name other : String} {field : List Char × Json} (h : Named name field)
    (ho : Named other field) : name = other :=
  String.toList_injective (Option.some.inj (h.symm.trans ho))

theorem forall_mem_middle {α : Type} {p : α → Prop} {before after : List α} {x : α} :
    (∀ y ∈ before ++ x :: after, p y) ↔ p x ∧ ∀ y ∈ before ++ after, p y := by
  rw [List.forall_mem_append, List.forall_mem_cons, List.forall_mem_append, and_left_comm]

theorem wellFormed_array_iff {items : List Json} :
    WellFormed (.array items) ↔ ∀ item ∈ items, WellFormed item :=
  ⟨fun h => by cases h; assumption, .array⟩

theorem wellFormed_object_iff {fields : List (List Char × Json)} :
    WellFormed (.object fields) ↔ ∀ field ∈ fields, Body field.1 ∧ WellFormed field.2 := by
  refine ⟨fun h => ?_, fun h => .object (fun field hf => (h field hf).1) fun field hf =>
    (h field hf).2⟩
  cases h with
  | object hk hv => exact fun field hf => ⟨hk field hf, hv field hf⟩

variable {form : Form} {json shown : Json}

theorem Restates.wellFormed (h : Restates form json shown) (hw : WellFormed json) :
    WellFormed shown := by
  induction h with
  | permuted hp | reordered hp =>
    rw [wellFormed_object_iff] at hw ⊢
    exact fun field hf => hw field (hp.mem_iff.mpr hf)
  | added _ _ hb hv =>
    rw [wellFormed_object_iff] at hw ⊢
    exact forall_mem_middle.mpr ⟨⟨hb, hv⟩, hw⟩
  | leftOut =>
    rw [wellFormed_object_iff] at hw ⊢
    exact (forall_mem_middle.mp hw).2
  | item _ ih =>
    rw [wellFormed_array_iff, forall_mem_middle] at hw ⊢
    exact ⟨ih hw.1, hw.2⟩
  | entry _ ih | held _ _ _ ih =>
    rw [wellFormed_object_iff, forall_mem_middle] at hw ⊢
    exact ⟨⟨hw.1.1, ih hw.1.2⟩, hw.2⟩

theorem Restates.distinct (h : Restates form json shown) (hd : Distinct form json) :
    Distinct form shown := by
  induction h with
  | permuted hp =>
    cases hd with
    | record hd => exact .record fun field hf => hd field (hp.mem_iff.mpr hf)
  | reordered hp =>
    cases hd with
    | map hn hd =>
      exact .map ((hp.map _).nodup_iff.mp hn) fun field hf => hd field (hp.mem_iff.mpr hf)
  | added hname hnone =>
    cases hd with
    | record hd =>
      refine .record (forall_mem_middle.mpr ⟨fun other slot ho hslot => ?_, hd⟩)
      obtain rfl := hname.unique ho
      rw [hnone] at hslot
      cases hslot
  | leftOut =>
    cases hd with
    | record hd => exact .record (forall_mem_middle.mp hd).2
  | item _ ih =>
    cases hd with
    | list hd =>
      obtain ⟨hitem, hothers⟩ := forall_mem_middle.mp hd
      exact .list (forall_mem_middle.mpr ⟨ih hitem, hothers⟩)
  | entry _ ih =>
    cases hd with
    | map hn hd =>
      obtain ⟨hentry, hothers⟩ := forall_mem_middle.mp hd
      exact .map (by simpa using hn) (forall_mem_middle.mpr ⟨ih hentry, hothers⟩)
  | held hname hslot _ ih =>
    cases hd with
    | record hd =>
      obtain ⟨hheld, hothers⟩ := forall_mem_middle.mp hd
      refine .record (forall_mem_middle.mpr ⟨fun other slot ho hs => ?_, hothers⟩)
      obtain rfl := hname.unique ho
      obtain rfl := Option.some.inj (hslot.symm.trans hs)
      exact ih (hheld _ _ hname hslot)

end DdlCatalog.Json
