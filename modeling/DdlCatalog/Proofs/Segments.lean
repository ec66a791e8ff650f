import Mathlib.Data.List.Basic

namespace DdlCatalog

variable {α : Type}

theorem findIdx?_eq_some_iff_split {test : α → Bool} {items : List α} {n : Nat} :
    items.findIdx? test = some n ↔ ∃ front stop back, items = front ++ stop :: back ∧
      front.length = n ∧ (∀ item ∈ front, test item = false) ∧ test stop = true := by
  constructor
  · intro h
    obtain ⟨hn, ht, hf⟩ := List.findIdx?_eq_some_iff_getElem.mp h
    refine ⟨items.take n, items[n], items.drop (n + 1), ?_, ?_, ?_, ht⟩
    · simp
    · rw [List.length_take]; omega
    · intro item hm
      obtain ⟨i, hi, rfl⟩ := List.mem_take_iff_getElem.mp hm
      simpa using hf i (by omega)
  · rintro ⟨front, stop, back, rfl, rfl, hf, hs⟩
    have hnone : front.findIdx? test = none := List.findIdx?_eq_none_iff.mpr hf
    simp [List.findIdx?_append, hnone, List.findIdx?_cons, hs]

/-- `item` is the last one that passes a test, with `front` before it. -/
def LastOf (Test : α → Prop) (items front : List α) (item : α) : Prop :=
  ∃ back, items = front ++ item :: back ∧ Test item ∧ ∀ other ∈ back, ¬Test other

theorem not_lastOf_nil {Test : α → Prop} {front : List α} {item : α} :
    ¬LastOf Test [] front item := by
  rintro ⟨back, hsplit, -⟩
  simp at hsplit

theorem lastOf_append_singleton_iff {Test : α → Prop} {items front : List α} {latest item : α} :
    LastOf Test (items ++ [latest]) front item ↔
      Test latest ∧ front = items ∧ item = latest ∨
        ¬Test latest ∧ LastOf Test items front item := by
  constructor
  · rintro ⟨back, hsplit, hitem, hback⟩
    rcases List.eq_nil_or_concat back with rfl | ⟨others, final, rfl⟩
    · obtain ⟨rfl, hlatest⟩ := List.append_inj' hsplit rfl
      cases hlatest
      exact .inl ⟨hitem, rfl, rfl⟩
    · rw [List.concat_eq_append, ← List.cons_append, ← List.append_assoc] at hsplit
      obtain ⟨rfl, hlatest⟩ := List.append_inj' hsplit rfl
      cases hlatest
      exact .inr ⟨hback _ (by simp), others, rfl, hitem, fun other ho => hback other (by simp [ho])⟩
  · rintro (⟨hitem, rfl, rfl⟩ | ⟨hlatest, back, rfl, hitem, hback⟩)
    · exact ⟨[], rfl, hitem, nofun⟩
    · refine ⟨back ++ [latest], by simp, hitem, fun other ho => ?_⟩
      rcases List.mem_append.mp ho with ho | ho
      · exact hback other ho
      · exact List.mem_singleton.mp ho ▸ hlatest

theorem lastOf_cons_iff {Test : α → Prop} {first item : α} {items front : List α} :
    LastOf Test (first :: items) front item ↔
      front = [] ∧ item = first ∧ Test first ∧ (∀ other ∈ items, ¬Test other) ∨
        ∃ more, front = first :: more ∧ LastOf Test items more item := by
  constructor
  · rintro ⟨back, hsplit, hitem, hback⟩
    cases front with
    | nil =>
      cases hsplit
      exact .inl ⟨rfl, rfl, hitem, hback⟩
    | cons head more =>
      cases hsplit
      exact .inr ⟨more, rfl, back, rfl, hitem, hback⟩
  · rintro (⟨rfl, rfl, hitem, hback⟩ | ⟨more, rfl, back, rfl, hitem, hback⟩)
    · exact ⟨items, rfl, hitem, hback⟩
    · exact ⟨back, rfl, hitem, hback⟩

theorem length_le_of_isPrefix {Test : α → Prop} {front span rest : List α}
    (hp : front <+: span ++ rest) (hf : ∀ item ∈ front, Test item)
    (hr : ∀ item ∈ rest.head?, ¬Test item) : front.length ≤ span.length := by
  obtain ⟨back, hb⟩ := hp
  rcases List.append_eq_append_iff.mp hb with ⟨more, rfl, -⟩ | ⟨more, rfl, rfl⟩
  · simp
  · cases more with
    | nil => simp
    | cons item items => exact absurd (hf item (by simp)) (hr item rfl)

end DdlCatalog
