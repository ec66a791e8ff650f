namespace DdlCatalog.Text

variable {α : Type} [DecidableEq α]

def splitAt (separator : α) : List α → List (List α)
  | [] => [[]]
  | c :: cs =>
    if c = separator then [] :: splitAt separator cs
    else
      match splitAt separator cs with
      | [] => [[c]]
      | part :: parts => (c :: part) :: parts

def partsAt (separator : α) (text : List α) : List (List α) :=
  (splitAt separator text).filter (!·.isEmpty)

theorem splitAt_ne_nil (separator : α) (text : List α) : splitAt separator text ≠ [] := by
  cases text with
  | nil => simp [splitAt]
  | cons c cs =>
    unfold splitAt
    split
    next => simp
    next => split <;> simp

theorem splitAt_append_cons (separator : α) (front back : List α) :
    splitAt separator (front ++ separator :: back) =
      splitAt separator front ++ splitAt separator back := by
  induction front with
  | nil => simp [splitAt]
  | cons c front ih =>
    rw [List.cons_append, splitAt, splitAt, ih]
    by_cases hc : c = separator
    · rw [if_pos hc, if_pos hc, List.cons_append]
    · rw [if_neg hc, if_neg hc]
      cases hs : splitAt separator front with
      | nil => exact absurd hs (splitAt_ne_nil separator front)
      | cons part parts => rfl

theorem splitAt_of_notMem {separator : α} {text : List α} (h : separator ∉ text) :
    splitAt separator text = [text] := by
  induction text with
  | nil => rfl
  | cons c text ih =>
    have hc : c ≠ separator := fun he => h (he ▸ List.mem_cons_self)
    rw [splitAt, if_neg hc, ih fun hm => h (List.mem_cons_of_mem c hm)]

theorem notMem_of_mem_splitAt {separator : α} {text part : List α}
    (h : part ∈ splitAt separator text) : separator ∉ part := by
  induction text generalizing part with
  | nil =>
    rw [splitAt, List.mem_singleton] at h
    simp [h]
  | cons c text ih =>
    unfold splitAt at h
    split at h
    next hc =>
      rcases List.mem_cons.mp h with rfl | h
      · exact List.not_mem_nil
      · exact ih h
    next hc =>
      split at h
      next hnil => exact absurd hnil (splitAt_ne_nil separator text)
      next first parts hparts =>
        rcases List.mem_cons.mp h with rfl | h
        · have hfirst := ih (hparts ▸ List.mem_cons_self)
          rw [List.mem_cons, not_or]
          exact ⟨Ne.symm hc, hfirst⟩
        · exact ih (hparts ▸ List.mem_cons_of_mem first h)

/-- Parts that each have the separator behind them are found again, and nothing after the last. -/
theorem splitAt_flatMap {separator : α} {parts : List (List α)}
    (h : ∀ part ∈ parts, separator ∉ part) :
    splitAt separator (parts.flatMap (· ++ [separator])) = parts ++ [[]] := by
  induction parts with
  | nil => rfl
  | cons part parts ih =>
    have hparts := ih fun other ho => h other (List.mem_cons_of_mem part ho)
    rw [List.flatMap_cons, List.append_assoc, List.singleton_append, splitAt_append_cons,
      splitAt_of_notMem (h part List.mem_cons_self), hparts, List.singleton_append,
      List.cons_append]

theorem intercalate_splitAt (separator : α) (text : List α) :
    [separator].intercalate (splitAt separator text) = text := by
  induction text with
  | nil => rfl
  | cons c text ih =>
    rw [splitAt]
    cases hs : splitAt separator text with
    | nil => exact absurd hs (splitAt_ne_nil separator text)
    | cons part parts =>
      rw [hs] at ih
      split
      next hc => rw [List.intercalate_cons_cons, ih, hc]; rfl
      next hc =>
        cases parts with
        | nil => simpa using ih
        | cons next parts =>
          rw [List.intercalate_cons_cons] at ih ⊢
          rw [← ih]
          rfl

end DdlCatalog.Text
