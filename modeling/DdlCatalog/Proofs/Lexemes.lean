import DdlCatalog.Proofs.Keywords
import DdlCatalog.Proofs.Segments
import Mathlib.Data.List.TakeWhile

namespace DdlCatalog

namespace Text

def Digits (text : List Char) : Prop :=
  text ≠ [] ∧ ∀ c ∈ text, c.isDigit = true

def Fraction (text : List Char) : Prop :=
  ∃ whole places, Digits whole ∧ Digits places ∧ text = whole ++ '.' :: places

theorem utf8Size_toLower (c : Char) : c.toLower.utf8Size = c.utf8Size := by
  unfold Char.toLower
  split
  next h =>
    have hc : c.val.toNat ≤ 90 := h.2
    have hsum : (c.val + ('a'.val - 'A'.val)).toNat = c.val.toNat + 32 := by
      rw [UInt32.toNat_add, show ('a'.val - 'A'.val).toNat = 32 from rfl]
      omega
    have hone : ∀ d : Char, d.val.toNat ≤ 127 → d.utf8Size = 1 := fun d hd =>
      if_pos (UInt32.le_iff_toNat_le.mpr hd)
    rw [hone c (by omega), hone _ (by rw [hsum]; omega)]
  next => rfl

theorem byteSize_map_toLower (text : List Char) :
    byteSize (text.map Char.toLower) = byteSize text := by
  induction text with
  | nil => rfl
  | cons c cs ih => simp only [List.map_cons, byteSize_cons, utf8Size_toLower, ih]

theorem length_le_of_byteSize_le {front other text : List Char} (hf : front <+: text)
    (ho : other <+: text) (h : byteSize front ≤ byteSize other) :
    front.length ≤ other.length := by
  by_contra hlong
  obtain ⟨more, rfl⟩ := List.prefix_of_prefix_length_le ho hf (by omega)
  have hmore : more ≠ [] := by
    rintro rfl
    simp at hlong
  have hpos := byteSize_pos hmore
  rw [byteSize_append] at h
  omega

theorem fraction_whole_eq {whole other fraction rest : List Char}
    (hw : ∀ c ∈ whole, c.isDigit = true) (ho : ∀ c ∈ other, c.isDigit = true)
    (h : whole ++ '.' :: fraction = other ++ '.' :: rest) : whole = other ∧ fraction = rest := by
  have hrun := congrArg (List.takeWhile Char.isDigit) h
  rw [List.takeWhile_append_of_pos hw, List.takeWhile_append_of_pos ho] at hrun
  have hwhole : whole = other := by simpa using hrun
  subst hwhole
  exact ⟨rfl, (List.cons.inj (List.append_cancel_left h)).2⟩

theorem length_le_of_fraction {front span rest : List Char} (hf : Fraction front)
    (hs : Fraction span) (hr : ∀ c ∈ rest.head?, c.isDigit = false)
    (hp : front <+: span ++ rest) : front.length ≤ span.length := by
  obtain ⟨whole, places, hw, hd, rfl⟩ := hf
  obtain ⟨whole', places', hw', -, rfl⟩ := hs
  obtain ⟨back, hb⟩ := hp
  simp only [List.append_assoc, List.cons_append] at hb
  obtain ⟨rfl, hplaces⟩ := fraction_whole_eq hw.2 hw'.2 hb
  have hle := length_le_of_isPrefix ⟨back, hplaces⟩ hd.2 fun c hc => by simp [hr c hc]
  simp only [List.length_append, List.length_cons]
  omega

end Text

theorem Extent.rest_of_span_eq_nil {extent : Extent} {text : List Char}
    (h : extent.span text = []) : extent.rest text = text := by
  have hall := extent.span_append_rest text
  rwa [h, List.nil_append] at hall

namespace Recognizer

variable {text : List Char} {extent : Extent}

theorem run_eq_ok {charset : String} (h : run charset text = .ok extent) :
    (∀ c ∈ extent.span text, c ∈ charset.toList) ∧
      ∀ c ∈ (extent.rest text).head?, c ∉ charset.toList := by
  cases h
  have htext := List.takeWhile_append_dropWhile (p := (charset.toList.contains ·)) (l := text)
  have hspan : Extent.span ⟨(Shape.run charset).measure text, 0⟩ text =
      text.takeWhile (charset.toList.contains ·) := by
    unfold Extent.span Shape.measure
    nth_rewrite 2 [← htext]
    exact List.take_left
  have hrest : Extent.rest ⟨(Shape.run charset).measure text, 0⟩ text =
      text.dropWhile (charset.toList.contains ·) := by
    unfold Extent.rest Shape.measure
    nth_rewrite 2 [← htext]
    exact List.drop_left
  rw [hspan, hrest]
  refine ⟨fun c hc => by simpa using List.mem_takeWhile_imp hc, fun c hc hm => ?_⟩
  have hstop := List.head?_dropWhile_not (charset.toList.contains ·) text
  rw [Option.mem_def] at hc
  rw [hc] at hstop
  simp [hm] at hstop

theorem Passes.run {charset : String} (h : (run charset).Passes text) :
    ∀ c ∈ text.head?, c ∉ charset.toList := by
  obtain ⟨extent, hr, hs⟩ := h
  have hstop := (run_eq_ok hr).2
  rwa [Extent.rest_of_span_eq_nil hs] at hstop

theorem measure_decimal {whole : List Char} (hw : ∀ c ∈ whole, c.isDigit = true)
    (fraction : List Char) :
    Shape.decimal.measure (whole ++ '.' :: fraction) =
      if whole.length = 0 ∨ (fraction.takeWhile Char.isDigit).length = 0 then 0
      else whole.length + 1 + (fraction.takeWhile Char.isDigit).length := by
  unfold Shape.measure
  rw [List.dropWhile_append_of_pos hw, List.takeWhile_append_of_pos hw]
  simp

theorem decimal_eq_ok (h : shape .decimal text = .ok extent) (hs : extent.span text ≠ []) :
    Text.Fraction (extent.span text) ∧
      ∀ c ∈ (extent.rest text).head?, c.isDigit = false := by
  cases h
  have htext := List.takeWhile_append_dropWhile (p := Char.isDigit) (l := text)
  have hwhole : ∀ c ∈ text.takeWhile Char.isDigit, c.isDigit = true := fun c hc =>
    List.mem_takeWhile_imp hc
  generalize text.takeWhile Char.isDigit = whole at htext hwhole
  cases hpoint : text.dropWhile Char.isDigit with
  | nil => simp [Shape.measure, hpoint, Extent.span] at hs
  | cons point fraction =>
    by_cases hp : point = '.'
    · subst hp
      rw [hpoint] at htext
      subst htext
      have hplaces := List.takeWhile_append_dropWhile (p := Char.isDigit) (l := fraction)
      have hdigits : ∀ c ∈ fraction.takeWhile Char.isDigit, c.isDigit = true := fun c hc =>
        List.mem_takeWhile_imp hc
      have hstop := List.head?_dropWhile_not Char.isDigit fraction
      have hmeasure := measure_decimal hwhole fraction
      generalize fraction.takeWhile Char.isDigit = places at hplaces hdigits hmeasure
      generalize fraction.dropWhile Char.isDigit = rest at hplaces hstop
      subst hplaces
      split at hmeasure
      next => simp [hmeasure, Extent.span] at hs
      next hne =>
        rw [not_or] at hne
        have hcut : whole ++ '.' :: (places ++ rest) = (whole ++ '.' :: places) ++ rest := by simp
        have hlength : whole.length + 1 + places.length = (whole ++ '.' :: places).length := by
          simp only [List.length_append, List.length_cons]
          omega
        have hspan : Extent.span ⟨whole.length + 1 + places.length, 0⟩
            (whole ++ '.' :: (places ++ rest)) = whole ++ '.' :: places := by
          rw [Extent.span, hcut, hlength, List.take_left]
        have hrest : Extent.rest ⟨whole.length + 1 + places.length, 0⟩
            (whole ++ '.' :: (places ++ rest)) = rest := by
          rw [Extent.rest, hcut, hlength, List.drop_left]
        rw [hmeasure, hspan, hrest]
        refine ⟨⟨whole, places, ⟨?_, hwhole⟩, ⟨?_, hdigits⟩, rfl⟩, fun c hc => ?_⟩
        · exact fun he => hne.1 (by simp [he])
        · exact fun he => hne.2 (by simp [he])
        · rw [Option.mem_def] at hc
          rw [hc] at hstop
          simpa using hstop
    · have hmeasure : Shape.decimal.measure text = 0 := by
        simp only [Shape.measure, hpoint]
        split
        next heq => exact absurd (List.cons.inj heq).1 hp
        next => rfl
      simp [hmeasure, Extent.span] at hs

theorem Passes.decimal (h : (shape .decimal).Passes text) {front : List Char}
    (hp : front <+: text) : ¬Text.Fraction front := by
  rintro ⟨whole, places, hw, hd, rfl⟩
  obtain ⟨back, rfl⟩ := hp
  obtain ⟨extent, hr, hs⟩ := h
  cases hr
  rw [List.append_assoc, List.cons_append, measure_decimal hw.2,
    List.takeWhile_append_of_pos hd.2] at hs
  have hwhole := List.length_pos_iff.mpr hw.1
  have hplaces := List.length_pos_iff.mpr hd.1
  rw [if_neg (by rw [List.length_append]; omega)] at hs
  have hlength := congrArg List.length hs
  simp only [Extent.span, List.length_take, List.length_append, List.length_cons,
    List.length_nil] at hlength
  omega

theorem oneOf_eq_ok {charset : String} (h : oneOf charset text = .ok extent)
    (hs : extent.span text ≠ []) : ∃ c ∈ charset.toList, extent.span text = [c] := by
  cases text with
  | nil => simp [Extent.span] at hs
  | cons c cs =>
    by_cases hc : charset.toList.contains c = true
    · rw [oneOf, if_pos hc] at h
      cases h
      exact ⟨c, List.contains_iff_mem.mp hc, rfl⟩
    · rw [oneOf, if_neg hc] at h
      cases h
      simp [Extent.span, Extent.empty] at hs

theorem Passes.oneOf {charset : String} (h : (oneOf charset).Passes text) :
    ∀ c ∈ text.head?, c ∉ charset.toList := by
  intro c hc hm
  obtain ⟨extent, hr, hs⟩ := h
  cases text with
  | nil => cases hc
  | cons d ds =>
    obtain rfl : d = c := by simpa using hc
    rw [Recognizer.oneOf, if_pos (List.contains_iff_mem.mpr hm)] at hr
    cases hr
    simp [Extent.span] at hs

theorem atFront_iff {word : String} (hw : word ≠ "") :
    atFront word false text = true ↔ word.toList <+: text := by
  have hne : (word != "") = true := bne_iff_ne.mpr hw
  rw [atFront, hne, Bool.true_and, if_neg (by simp), Text.startsWith_iff]
  exact exists_congr fun rest => eq_comm

theorem atFront_anyCase_iff {word : String} (hw : word ≠ "") :
    atFront word true text = true ↔
      ∃ front, front <+: text ∧ Text.sameLetters (String.ofList front) word = true := by
  have hne : (word != "") = true := bne_iff_ne.mpr hw
  rw [atFront, hne, Bool.true_and, if_pos rfl, Text.startsWithLetters, beq_iff_eq]
  constructor
  · intro h
    refine ⟨text.take word.toList.length, List.take_prefix _ _, ?_⟩
    rwa [Text.sameLetters_iff, String.toList_ofList]
  · rintro ⟨front, ⟨back, rfl⟩, h⟩
    rw [Text.sameLetters_iff, String.toList_ofList] at h
    have hlength : front.length = word.toList.length := by
      simpa using congrArg List.length h
    rw [← hlength, List.take_left, h]

theorem openedUntil_eq_ok {opening terminators : String} (ho : opening ≠ "")
    (h : openedUntil opening terminators text = .ok extent) (hs : extent.span text ≠ []) :
    ∃ inside, extent.span text = opening.toList ++ inside ∧
      (∀ c ∈ inside, c ∉ terminators.toList) ∧
      ∃ c ∈ (extent.rest text).head?, c ∈ terminators.toList := by
  unfold openedUntil at h
  split at h
  next hf =>
    obtain ⟨more, rfl⟩ := (atFront_iff ho).mp hf
    rw [List.drop_left] at h
    cases hn : distanceTo? terminators more with
    | none => rw [hn] at h; cases h
    | some n =>
      rw [hn] at h
      cases h
      obtain ⟨inside, stop, back, rfl, rfl, hnone, hstop⟩ := findIdx?_eq_some_iff_split.mp hn
      have hspan : Extent.span ⟨opening.toList.length + inside.length, 0⟩
          (opening.toList ++ (inside ++ stop :: back)) = opening.toList ++ inside := by
        rw [Extent.span, ← List.append_assoc, ← List.length_append, List.take_left]
      have hrest : Extent.rest ⟨opening.toList.length + inside.length, 0⟩
          (opening.toList ++ (inside ++ stop :: back)) = stop :: back := by
        rw [Extent.rest, ← List.append_assoc, ← List.length_append, List.drop_left]
      refine ⟨inside, hspan, fun c hc => ?_, stop, by simp [hrest], ?_⟩
      · simpa using hnone c hc
      · simpa using hstop
  next =>
    cases h
    simp [Extent.span, Extent.empty] at hs

theorem Passes.openedUntil {opening terminators : String} (ho : opening ≠ "")
    (h : (openedUntil opening terminators).Passes text) : ¬opening.toList <+: text := by
  intro hp
  obtain ⟨extent, hr, hs⟩ := h
  unfold Recognizer.openedUntil at hr
  rw [if_pos ((atFront_iff ho).mpr hp)] at hr
  obtain ⟨back, rfl⟩ := hp
  have hne : opening.toList ≠ [] := fun he => ho (String.toList_eq_nil_iff.mp he)
  split at hr
  next n _ =>
    cases hr
    have hlength := congrArg List.length hs
    have hpos := List.length_pos_iff.mpr hne
    simp only [Extent.span, List.length_take, List.length_append, List.length_nil] at hlength
    omega
  next => cases hr

theorem Passes.delimited {delimiter : String} {quote : Char} (hq : delimiter.toList = [quote])
    (h : (delimited delimiter false).Passes text) : quote ∉ text.head? := by
  intro hm
  obtain ⟨extent, hr, hs⟩ := h
  unfold Recognizer.delimited at hr
  obtain ⟨more, rfl⟩ := List.head?_eq_some_iff.mp hm
  rw [if_pos ((atFront_singleton hq _).mpr ⟨more, rfl⟩), hq] at hr
  cases hn : Text.find? [quote] ((quote :: more).drop [quote].length) with
  | none => simp only [hn] at hr; cases hr
  | some n =>
    simp only [hn] at hr
    cases hr
    simp [Extent.span] at hs

theorem length_le_of_quoted {quote : Char} {inside front rest : List Char}
    (hf : quote ∉ front)
    (hp : quote :: (front ++ [quote]) <+: quote :: (inside ++ [quote]) ++ rest) :
    front.length ≤ inside.length := by
  obtain ⟨back, hb⟩ := hp
  simp only [List.cons_append, List.append_assoc, List.cons.injEq, true_and] at hb
  have hinside : ∀ c ∈ front, c ≠ quote := by
    rintro c hc rfl
    exact hf hc
  exact length_le_of_isPrefix ⟨_, hb⟩ hinside (by simp)

end Recognizer

theorem Vocabulary.wordSize_le_of_find? {words : List String} {test : String → Bool}
    {word other : String} (hf : (ofList words).words.find? test = some word)
    (hm : other ∈ (ofList words).words) (ht : test other = true) :
    wordSize other ≤ wordSize word := by
  obtain ⟨-, front, back, hwords, hnone⟩ := List.find?_eq_some_iff_append.mp hf
  have hsorted := pairwise_words_ofList words
  rw [hwords] at hsorted hm
  rcases List.mem_append.mp hm with hm | hm
  · have hfail := hnone other hm
    simp [ht] at hfail
  · rcases List.mem_cons.mp hm with rfl | hm
    · exact Nat.le_refl _
    · have hafter := List.pairwise_cons.mp (List.pairwise_append.mp hsorted).2.1
      rcases hafter.1 other hm with hprecedes | rfl
      · rcases precedes_iff.mp hprecedes with hlt | ⟨heq, -⟩
        · omega
        · omega
      · exact Nat.le_refl _

theorem Recognizer.anyWord_ofList_eq_ok {words : List String} {text : List Char} {extent : Extent}
    (h : anyWord (Vocabulary.ofList words).words true text = .ok extent)
    (hs : extent.span text ≠ []) :
    (∃ word ∈ words, word ≠ "" ∧
      Text.sameLetters (String.ofList (extent.span text)) word = true) ∧
    ∀ front, front <+: text → ∀ word ∈ words, word ≠ "" →
      Text.sameLetters (String.ofList front) word = true →
      front.length ≤ (extent.span text).length := by
  unfold anyWord at h
  split at h
  next word hfind =>
    cases h
    have hm := Vocabulary.mem_words_ofList.mp (List.mem_of_find?_eq_some hfind)
    have htest := List.find?_some hfind
    obtain ⟨span, hprefix, hsame⟩ := (atFront_anyCase_iff hm.2).mp htest
    have hsize : ∀ {front : List Char} {other : String},
        Text.sameLetters (String.ofList front) other = true →
        front.length = other.toList.length ∧ Text.byteSize front = Vocabulary.wordSize other := by
      intro front other hother
      rw [Text.sameLetters_iff, String.toList_ofList] at hother
      refine ⟨by simpa using congrArg List.length hother, ?_⟩
      rw [Vocabulary.wordSize, ← Text.byteSize_map_toLower, hother, Text.byteSize_map_toLower]
    have hspan : Extent.span ⟨word.toList.length, 0⟩ text = span := by
      rw [Extent.span, ← (hsize hsame).1]
      exact (List.prefix_iff_eq_take.mp hprefix).symm
    rw [hspan]
    refine ⟨⟨word, hm.1, hm.2, hsame⟩, fun front hfront other ho hne hother => ?_⟩
    have hle := Vocabulary.wordSize_le_of_find? hfind
      (Vocabulary.mem_words_ofList.mpr ⟨ho, hne⟩) ((atFront_anyCase_iff hne).mpr
        ⟨front, hfront, hother⟩)
    apply Text.length_le_of_byteSize_le hfront hprefix
    rw [(hsize hother).2, (hsize hsame).2]
    exact hle
  next =>
    cases h
    simp [Extent.span, Extent.empty] at hs

end DdlCatalog
