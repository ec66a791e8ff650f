import DdlCatalog.Script.Tokens

namespace DdlCatalog

theorem Text.find?_singleton_eq_some {quote : Char} {text : List Char} {n : Nat} :
    find? [quote] text = some n ↔
      ∃ inside after, text = inside ++ quote :: after ∧ inside.length = n ∧ quote ∉ inside := by
  induction text generalizing n with
  | nil => simp [find?]
  | cons c cs ih =>
    have hstart : startsWith [quote] (c :: cs) = true ↔ c = quote := by simp [startsWith]
    unfold find?
    by_cases hc : c = quote
    · rw [if_pos (hstart.mpr hc)]
      constructor
      · intro h
        cases h
        exact ⟨[], cs, by simp [hc], rfl, by simp⟩
      · rintro ⟨inside, after, h, rfl, hn⟩
        cases inside with
        | nil => rfl
        | cons d inside =>
          have hd : c = d := (List.cons.inj h).1
          exact absurd (List.mem_cons.mpr (.inl (hc.symm.trans hd))) hn
    · rw [if_neg fun h => hc (hstart.mp h), Option.map_eq_some_iff]
      constructor
      · rintro ⟨m, hm, rfl⟩
        obtain ⟨inside, after, rfl, rfl, hn⟩ := ih.mp hm
        exact ⟨c :: inside, after, rfl, rfl, by simp [hn, Ne.symm hc]⟩
      · rintro ⟨inside, after, h, rfl, hn⟩
        cases inside with
        | nil => exact absurd (List.cons.inj h).1 hc
        | cons d inside =>
          have hcs : cs = inside ++ quote :: after := (List.cons.inj h).2
          have hin : quote ∉ inside := fun hm => hn (List.mem_cons_of_mem d hm)
          exact ⟨inside.length, ih.mpr ⟨inside, after, hcs, rfl, hin⟩, rfl⟩

theorem Text.length_of_find? {word text : List Char} {n : Nat} (h : find? word text = some n) :
    n + word.length ≤ text.length := by
  induction text generalizing n with
  | nil =>
    by_cases hw : word = []
    · subst hw
      cases h
      exact Nat.le_refl _
    · rw [find?, if_neg hw] at h
      cases h
  | cons c cs ih =>
    unfold find? at h
    split at h
    next hs =>
      cases h
      obtain ⟨rest, hr⟩ := startsWith_iff.mp hs
      simp [hr]
    next =>
      obtain ⟨m, hm, rfl⟩ := Option.map_eq_some_iff.mp h
      have hle := ih hm
      simp only [List.length_cons]
      omega

theorem Shape.measure_le (shape : Shape) (text : List Char) :
    shape.measure text ≤ text.length := by
  induction shape with
  | run charset => exact (List.takeWhile_sublist _).length_le
  | decimal =>
    have hall := congrArg List.length
      (List.takeWhile_append_dropWhile (p := Char.isDigit) (l := text))
    simp only [measure]
    split
    next fraction heq =>
      have hplaces := (List.takeWhile_sublist (l := fraction) Char.isDigit).length_le
      simp only [heq, List.length_append, List.length_cons] at hall
      split <;> omega
    next => exact Nat.zero_le _
  | either first second hfirst hsecond =>
    simp only [measure]
    split
    next => exact hsecond
    next => exact hfirst

theorem Extent.content_of_margin {extent : Extent} (h : extent.margin = 0) (text : List Char) :
    extent.content text = extent.span text := by
  unfold content span
  rw [h]
  simp [List.take_take]

namespace Recognizer

/-- Whatever is recognized is content throughout. -/
def Plain (recognize : Recognizer) : Prop :=
  ∀ ⦃text extent⦄, recognize text = .ok extent → extent.margin = 0

theorem plain_anyWord (words : List String) (anyCase : Bool) : Plain (anyWord words anyCase) := by
  intro text extent h
  unfold anyWord at h
  split at h <;> cases h <;> rfl

theorem plain_oneOf (charset : String) : Plain (oneOf charset) := by
  intro text extent h
  unfold oneOf at h
  split at h
  next =>
    split at h <;> cases h <;> rfl
  next => cases h; rfl

theorem plain_shape (s : Shape) : Plain (shape s) := by
  intro text extent h
  cases h
  rfl

theorem plain_openedUntil (opening terminators : String) :
    Plain (openedUntil opening terminators) := by
  intro text extent h
  unfold openedUntil at h
  split at h
  next =>
    split at h
    next => cases h; rfl
    next => cases h
  next => cases h; rfl

def Fits (recognize : Recognizer) : Prop :=
  ∀ ⦃text extent⦄, recognize text = .ok extent → extent.length ≤ text.length

theorem length_le_of_atFront {word : String} {anyCase : Bool} {text : List Char}
    (h : atFront word anyCase text = true) : word.toList.length ≤ text.length := by
  rw [atFront, Bool.and_eq_true] at h
  cases anyCase with
  | true =>
    have hletters := h.2
    rw [if_pos rfl, Text.startsWithLetters, beq_iff_eq] at hletters
    have hlength := congrArg List.length hletters
    rw [List.length_map, List.length_map, List.length_take] at hlength
    omega
  | false =>
    obtain ⟨rest, rfl⟩ := Text.startsWith_iff.mp h.2
    simp

theorem fits_anyWord (words : List String) (anyCase : Bool) : Fits (anyWord words anyCase) := by
  intro text extent h
  unfold anyWord at h
  split at h
  next word hfind =>
    cases h
    have hfront := List.find?_some hfind
    exact length_le_of_atFront hfront
  next =>
    cases h
    exact Nat.zero_le _

theorem fits_oneOf (charset : String) : Fits (oneOf charset) := by
  intro text extent h
  unfold oneOf at h
  split at h
  next =>
    split at h
    next => cases h; simp
    next => cases h; exact Nat.zero_le _
  next => cases h; exact Nat.le_refl _

theorem fits_shape (s : Shape) : Fits (shape s) := by
  intro text extent h
  cases h
  exact s.measure_le text

theorem fits_upTo (terminators : String) : Fits (upTo terminators) := by
  intro text extent h
  unfold upTo at h
  split at h
  next n hn =>
    cases h
    obtain ⟨hlt, -⟩ := List.findIdx?_eq_some_iff_getElem.mp hn
    exact Nat.le_of_lt hlt
  next => cases h

theorem fits_openedUntil (opening terminators : String) :
    Fits (openedUntil opening terminators) := by
  intro text extent h
  unfold openedUntil at h
  split at h
  next hf =>
    have hopening := length_le_of_atFront hf
    split at h
    next n hn =>
      cases h
      obtain ⟨hlt, -⟩ := List.findIdx?_eq_some_iff_getElem.mp hn
      rw [List.length_drop] at hlt
      simp only
      omega
    next => cases h
  next =>
    cases h
    exact Nat.zero_le _

theorem fits_delimited (delimiter : String) (keepDelimiters : Bool) :
    Fits (delimited delimiter keepDelimiters) := by
  intro text extent h
  unfold delimited at h
  split at h
  next hf =>
    have hopening := length_le_of_atFront hf
    simp only at h
    split at h
    next n hn =>
      cases h
      have hle := Text.length_of_find? hn
      rw [List.length_drop] at hle
      simp only
      omega
    next => cases h
  next =>
    cases h
    exact Nat.zero_le _

theorem atFront_singleton {delimiter : String} {quote : Char} (hq : delimiter.toList = [quote])
    (text : List Char) : atFront delimiter false text = true ↔ ∃ after, text = quote :: after := by
  have hne : (delimiter != "") = true := by
    rw [bne_iff_ne]
    rintro rfl
    cases hq
  unfold atFront
  rw [hne, hq, Bool.true_and, if_neg (by simp)]
  exact Text.startsWith_iff

theorem delimited_eq_ok {delimiter : String} {quote : Char} (hq : delimiter.toList = [quote])
    {text : List Char} {extent : Extent} (h : delimited delimiter false text = .ok extent)
    (hs : extent.span text ≠ []) :
    extent.span text = quote :: (extent.content text ++ [quote]) ∧
      quote ∉ extent.content text := by
  unfold delimited at h
  by_cases hf : atFront delimiter false text = true
  · obtain ⟨after, rfl⟩ := (atFront_singleton hq text).mp hf
    rw [if_pos hf, hq] at h
    simp only [List.length_singleton, List.drop_succ_cons, List.drop_zero] at h
    cases hfind : Text.find? [quote] after with
    | none => simp only [hfind] at h; cases h
    | some n =>
      simp only [hfind] at h
      cases h
      obtain ⟨inside, rest, rfl, rfl, hn⟩ := Text.find?_singleton_eq_some.mp hfind
      have hcontent : Extent.content ⟨inside.length + 2 * 1, 1⟩
          (quote :: (inside ++ quote :: rest)) = inside := by
        simp [Extent.span, Extent.content, List.take_append, List.take_of_length_le]
      refine ⟨?_, by simpa [hcontent] using hn⟩
      simp [Extent.span, hcontent, List.take_append, List.take_of_length_le]
  · rw [if_neg hf] at h
    cases h
    simp [Extent.span, Extent.empty] at hs

theorem delimited_of_closed {delimiter : String} {quote : Char} (hq : delimiter.toList = [quote])
    {inside : List Char} (hn : quote ∉ inside) (rest : List Char) :
    delimited delimiter false (quote :: (inside ++ quote :: rest)) =
      .ok ⟨inside.length + 2, 1⟩ := by
  have hfind : Text.find? [quote] (inside ++ quote :: rest) = some inside.length :=
    Text.find?_singleton_eq_some.mpr ⟨inside, rest, rfl, rfl, hn⟩
  unfold delimited
  rw [if_pos ((atFront_singleton hq _).mpr ⟨_, rfl⟩), hq]
  simp [hfind]

end Recognizer

end DdlCatalog
