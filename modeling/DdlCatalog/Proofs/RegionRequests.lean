import DdlCatalog.Proofs.Lexemes
import DdlCatalog.Proofs.ScannerRuns

namespace DdlCatalog

namespace Text

/-- A text is `span`, which has no terminator, and then `back`, which begins with one. -/
def Stopped (terminators : String) (text span back : List Char) : Prop :=
  text = span ++ back ∧ (∀ c ∈ span, c ∉ terminators.toList) ∧
    ∃ stop ∈ back.head?, stop ∈ terminators.toList

/-- The first occurrence of a word in a text stands between `inside` and `back`. -/
def FirstBetween (word text inside back : List Char) : Prop :=
  text = inside ++ (word ++ back) ∧
    ∀ early late, text = early ++ (word ++ late) → inside.length ≤ early.length

theorem find?_eq_some_iff {word text : List Char} {n : Nat} :
    find? word text = some n ↔
      ∃ inside back, FirstBetween word text inside back ∧ inside.length = n := by
  induction text generalizing n with
  | nil =>
    unfold find?
    constructor
    · intro h
      split at h
      next hword =>
        cases h
        exact ⟨[], [], ⟨by rw [hword]; rfl, fun early late _ => Nat.zero_le _⟩, rfl⟩
      next => cases h
    · rintro ⟨inside, back, ⟨hsplit, -⟩, rfl⟩
      obtain ⟨rfl, hword⟩ := List.append_eq_nil_iff.mp hsplit.symm
      rw [if_pos (List.append_eq_nil_iff.mp hword).1]
      rfl
  | cons c cs ih =>
    unfold find?
    by_cases hstart : startsWith word (c :: cs) = true
    · obtain ⟨rest, hrest⟩ := startsWith_iff.mp hstart
      rw [if_pos hstart]
      constructor
      · intro h
        cases h
        exact ⟨[], rest, ⟨hrest, fun early late _ => Nat.zero_le _⟩, rfl⟩
      · rintro ⟨inside, back, ⟨-, hfirst⟩, rfl⟩
        have hzero := hfirst [] rest hrest
        rw [Nat.eq_zero_of_le_zero hzero]
    · -- No occurrence stands at the front, so each one leaves the first character before it.
      have hlater : ∀ early late, c :: cs = early ++ (word ++ late) →
          ∃ more, early = c :: more ∧ cs = more ++ (word ++ late) := by
        intro early late h
        cases early with
        | nil => exact absurd (startsWith_iff.mpr ⟨late, h⟩) hstart
        | cons d more =>
          obtain ⟨rfl, hcs⟩ := List.cons.inj h
          exact ⟨more, rfl, hcs⟩
      rw [if_neg hstart, Option.map_eq_some_iff]
      constructor
      · rintro ⟨m, hm, rfl⟩
        obtain ⟨inside, back, ⟨hsplit, hfirst⟩, rfl⟩ := ih.mp hm
        refine ⟨c :: inside, back, ⟨congrArg (c :: ·) hsplit, fun early late he => ?_⟩, rfl⟩
        obtain ⟨more, rfl, hcs⟩ := hlater early late he
        exact Nat.succ_le_succ (hfirst more late hcs)
      · rintro ⟨inside, back, ⟨hsplit, hfirst⟩, rfl⟩
        obtain ⟨more, rfl, hcs⟩ := hlater inside back hsplit
        refine ⟨more.length, ih.mpr ⟨more, back, ⟨hcs, fun early late he => ?_⟩, rfl⟩, rfl⟩
        exact Nat.le_of_succ_le_succ (hfirst (c :: early) late (congrArg (c :: ·) he))

theorem find?_eq_none_iff {word text : List Char} : find? word text = none ↔ ¬word <:+: text := by
  induction text with
  | nil =>
    rw [List.infix_nil]
    unfold find?
    split <;> simp_all
  | cons c cs ih =>
    have hprefix : startsWith word (c :: cs) = true ↔ word <+: c :: cs := by
      rw [startsWith_iff]
      exact exists_congr fun rest => eq_comm
    rw [List.infix_cons_iff, not_or, ← hprefix, ← ih, find?]
    by_cases hstart : startsWith word (c :: cs) = true
    · simp [hstart]
    · simp [hstart, Option.map_eq_none_iff]

theorem FirstBetween.not_isInfix {word text inside back : List Char}
    (h : FirstBetween word text inside back) (hword : word ≠ []) : ¬word <:+: inside := by
  rintro ⟨early, late, rfl⟩
  have hpos := List.length_pos_iff.mpr hword
  have hle := h.2 early (late ++ (word ++ back)) (by rw [h.1]; simp)
  simp only [List.length_append] at hle
  omega

theorem distanceTo?_eq_some_iff {terminators : String} {text : List Char} {n : Nat} :
    Recognizer.distanceTo? terminators text = some n ↔
      ∃ span back, Stopped terminators text span back ∧ span.length = n := by
  unfold Recognizer.distanceTo?
  rw [findIdx?_eq_some_iff_split]
  constructor
  · rintro ⟨span, stop, back, hsplit, hlength, hspan, hstop⟩
    refine ⟨span, stop :: back, ⟨hsplit, fun c hc => ?_, stop, rfl, ?_⟩, hlength⟩
    · simpa using hspan c hc
    · simpa using hstop
  · rintro ⟨span, back, ⟨hsplit, hspan, stop, hhead, hstop⟩, hlength⟩
    obtain ⟨more, rfl⟩ := List.head?_eq_some_iff.mp hhead
    refine ⟨span, stop, more, hsplit, hlength, fun c hc => ?_, ?_⟩
    · simpa using hspan c hc
    · simpa using hstop

theorem distanceTo?_eq_none_iff {terminators : String} {text : List Char} :
    Recognizer.distanceTo? terminators text = none ↔ ∀ c ∈ text, c ∉ terminators.toList := by
  unfold Recognizer.distanceTo?
  rw [List.findIdx?_eq_none_iff]
  simp

theorem stopped_or_free (terminators : String) (text : List Char) :
    (∃ span back, Stopped terminators text span back) ∨ ∀ c ∈ text, c ∉ terminators.toList := by
  cases hdistance : Recognizer.distanceTo? terminators text with
  | none => exact .inr (distanceTo?_eq_none_iff.mp hdistance)
  | some n =>
    obtain ⟨span, back, hstopped, -⟩ := distanceTo?_eq_some_iff.mp hdistance
    exact .inl ⟨span, back, hstopped⟩

theorem firstBetween_or_not_isInfix (word text : List Char) :
    (∃ inside back, FirstBetween word text inside back) ∨ ¬word <:+: text := by
  cases hfind : find? word text with
  | none => exact .inr (find?_eq_none_iff.mp hfind)
  | some n =>
    obtain ⟨inside, back, hfirst, -⟩ := find?_eq_some_iff.mp hfind
    exact .inl ⟨inside, back, hfirst⟩

end Text

namespace Recognizer

open Text

theorem atFront_exact_iff {word : String} {text : List Char} :
    atFront word false text = true ↔ word ≠ "" ∧ word.toList <+: text := by
  by_cases hword : word = ""
  · simp [atFront, hword]
  · rw [atFront_iff hword]
    exact (and_iff_right hword).symm

def Finds (recognize : Recognizer) (text span content back : List Char) : Prop :=
  ∃ extent, recognize text = .ok extent ∧ extent.span text = span ∧ span ≠ [] ∧
    extent.content text = content ∧ extent.rest text = back

section

variable {recognize : Recognizer} {text span content back : List Char} {reason : Unfinished}

theorem Finds.not_passes (h : recognize.Finds text span content back) :
    ¬recognize.Passes text := by
  obtain ⟨extent, hok, rfl, hne, -⟩ := h
  rintro ⟨other, hother, hempty⟩
  cases hok.symm.trans hother
  exact hne hempty

theorem Finds.not_error (h : recognize.Finds text span content back) :
    recognize text ≠ .error reason := by
  obtain ⟨extent, hok, -⟩ := h
  intro herror
  cases hok.symm.trans herror

theorem Finds.unique (h : recognize.Finds text span content back) {span' content' back' : List Char}
    (h' : recognize.Finds text span' content' back') :
    span = span' ∧ content = content' ∧ back = back' := by
  obtain ⟨extent, hok, rfl, -, rfl, rfl⟩ := h
  obtain ⟨other, hother, rfl, -, rfl, rfl⟩ := h'
  cases hok.symm.trans hother
  exact ⟨rfl, rfl, rfl⟩

theorem finds_of_eq_ok {front rest inside : List Char} {margin : Nat}
    (h : recognize (front ++ rest) = .ok ⟨front.length, margin⟩) (hne : front ≠ [])
    (hcontent : Extent.content ⟨front.length, margin⟩ (front ++ rest) = inside) :
    recognize.Finds (front ++ rest) front inside rest :=
  ⟨_, h, List.take_left, hne, hcontent, List.drop_left⟩

theorem toList_append_ne_nil {word : String} (h : word ≠ "") (rest : List Char) :
    word.toList ++ rest ≠ [] :=
  fun he => h (String.toList_eq_nil_iff.mp (List.append_eq_nil_iff.mp he).1)

theorem finds_of_no_margin {front rest : List Char}
    (h : recognize (front ++ rest) = .ok ⟨front.length, 0⟩) (hne : front ≠ []) :
    recognize.Finds (front ++ rest) front front rest :=
  finds_of_eq_ok h hne ((Extent.content_of_margin rfl _).trans List.take_left)

theorem upTo_eq_error_iff {terminators : String} :
    upTo terminators text = .error reason ↔
      reason = .noTerminator terminators ∧ ∀ c ∈ text, c ∉ terminators.toList := by
  rw [← distanceTo?_eq_none_iff]
  unfold upTo
  cases distanceTo? terminators text <;> simp [eq_comm]

theorem upTo_of_stopped {terminators : String} (h : Stopped terminators text span back) :
    upTo terminators text = .ok ⟨span.length, 0⟩ := by
  unfold upTo
  rw [distanceTo?_eq_some_iff.mpr ⟨span, back, h, rfl⟩]

theorem finds_upTo {terminators : String} (h : Stopped terminators text span back)
    (hne : span ≠ []) : (upTo terminators).Finds text span span back := by
  have hok := upTo_of_stopped h
  obtain rfl := h.1
  exact finds_of_no_margin hok hne

theorem passes_upTo_iff {terminators : String} :
    (upTo terminators).Passes text ↔ ∃ stop ∈ text.head?, stop ∈ terminators.toList := by
  constructor
  · intro h
    have ⟨_, hok, _⟩ := h
    rcases stopped_or_free terminators text with ⟨span, back, hstopped⟩ | hfree
    · by_cases hspan : span = []
      · obtain ⟨rfl, -, hstop⟩ := hstopped
        rwa [hspan]
      · exact absurd h (finds_upTo hstopped hspan).not_passes
    · cases hok.symm.trans (upTo_eq_error_iff.mpr ⟨rfl, hfree⟩)
  · intro hstop
    have hstopped : Stopped terminators text [] text := ⟨rfl, nofun, hstop⟩
    exact ⟨_, upTo_of_stopped hstopped, rfl⟩

theorem finds_upTo_iff {terminators : String} :
    (upTo terminators).Finds text span content back ↔
      span ≠ [] ∧ content = span ∧ Stopped terminators text span back := by
  constructor
  · intro h
    rcases stopped_or_free terminators text with ⟨front, rest, hstopped⟩ | hfree
    · have hfront : front ≠ [] := by
        rintro rfl
        exact h.not_passes ⟨_, upTo_of_stopped hstopped, rfl⟩
      obtain ⟨rfl, rfl, rfl⟩ := h.unique (finds_upTo hstopped hfront)
      exact ⟨hfront, rfl, hstopped⟩
    · exact absurd (upTo_eq_error_iff.mpr ⟨rfl, hfree⟩) h.not_error
  · rintro ⟨hne, rfl, hstopped⟩
    exact finds_upTo hstopped hne

/-- A recognizer that looks only at texts that begin with a word that is not empty. -/
def LooksBehind (recognize : Recognizer) (opening : String) : Prop :=
  ∀ ⦃text⦄, ¬atFront opening false text = true → recognize text = .ok .empty

theorem LooksBehind.eq_error_iff {opening : String} {endless : Unfinished}
    {Endless : List Char → Prop} (h : recognize.LooksBehind opening)
    (hbehind : opening ≠ "" → ∀ behind,
      (recognize (opening.toList ++ behind) = .error reason ↔ reason = endless ∧ Endless behind)) :
    recognize text = .error reason ↔
      reason = endless ∧ opening ≠ "" ∧ ∃ behind, text = opening.toList ++ behind ∧
        Endless behind := by
  constructor
  · intro herror
    by_cases hfront : atFront opening false text = true
    · obtain ⟨hopening, behind, rfl⟩ := atFront_exact_iff.mp hfront
      obtain ⟨hreason, hendless⟩ := (hbehind hopening behind).mp herror
      exact ⟨hreason, hopening, behind, rfl, hendless⟩
    · cases herror.symm.trans (h hfront)
  · rintro ⟨hreason, hopening, behind, rfl, hendless⟩
    exact (hbehind hopening behind).mpr ⟨hreason, hendless⟩

theorem LooksBehind.passes_iff {opening : String} (h : recognize.LooksBehind opening)
    (hbehind : opening ≠ "" → ∀ behind, ¬recognize.Passes (opening.toList ++ behind)) :
    recognize.Passes text ↔ opening = "" ∨ ¬opening.toList <+: text := by
  constructor
  · intro hpasses
    by_cases hopening : opening = ""
    · exact .inl hopening
    · refine .inr ?_
      rintro ⟨behind, rfl⟩
      exact hbehind hopening behind hpasses
  · intro hmissed
    have hfront : ¬atFront opening false text = true := by
      rw [atFront_exact_iff, not_and_or, not_not]
      exact hmissed
    exact ⟨.empty, h hfront, rfl⟩

theorem looksBehind_openedUntil (opening terminators : String) :
    (openedUntil opening terminators).LooksBehind opening :=
  fun _ hfront => if_neg hfront

theorem openedUntil_append {opening terminators : String} (hopening : opening ≠ "") :
    openedUntil opening terminators (opening.toList ++ text) =
      match distanceTo? terminators text with
      | some n => .ok ⟨opening.toList.length + n, 0⟩
      | none => .error (.openRegion opening terminators) := by
  have hfront : atFront opening false (opening.toList ++ text) = true :=
    atFront_exact_iff.mpr ⟨hopening, text, rfl⟩
  calc openedUntil opening terminators (opening.toList ++ text)
    _ = match distanceTo? terminators
            ((opening.toList ++ text).drop opening.toList.length) with
        | some n => .ok ⟨opening.toList.length + n, 0⟩
        | none => .error (.openRegion opening terminators) := if_pos hfront
    _ = _ := by rw [List.drop_left]

theorem finds_openedUntil {opening terminators : String} (hopening : opening ≠ "")
    (h : Stopped terminators text span back) :
    (openedUntil opening terminators).Finds (opening.toList ++ text) (opening.toList ++ span)
      (opening.toList ++ span) back := by
  have hok : openedUntil opening terminators (opening.toList ++ text) =
      .ok ⟨(opening.toList ++ span).length, 0⟩ := by
    rw [openedUntil_append hopening, distanceTo?_eq_some_iff.mpr ⟨span, back, h, rfl⟩,
      List.length_append]
  obtain rfl := h.1
  rw [← List.append_assoc] at hok ⊢
  exact finds_of_no_margin hok (toList_append_ne_nil hopening span)

theorem openedUntil_eq_error_iff {opening terminators : String} :
    openedUntil opening terminators text = .error reason ↔
      reason = .openRegion opening terminators ∧ opening ≠ "" ∧
        ∃ behind, text = opening.toList ++ behind ∧ ∀ c ∈ behind, c ∉ terminators.toList := by
  apply (looksBehind_openedUntil opening terminators).eq_error_iff
  intro hopening behind
  rw [openedUntil_append hopening, ← distanceTo?_eq_none_iff]
  cases distanceTo? terminators behind <;> simp [eq_comm]

theorem passes_openedUntil_iff {opening terminators : String} :
    (openedUntil opening terminators).Passes text ↔
      opening = "" ∨ ¬opening.toList <+: text :=
  (looksBehind_openedUntil opening terminators).passes_iff fun hopening behind hpasses =>
    hpasses.openedUntil hopening ⟨behind, rfl⟩

theorem finds_openedUntil_iff {opening terminators : String} :
    (openedUntil opening terminators).Finds text span content back ↔
      opening ≠ "" ∧ content = span ∧ ∃ between behind, text = opening.toList ++ behind ∧
        span = opening.toList ++ between ∧ Stopped terminators behind between back := by
  constructor
  · intro h
    have happlies := h.not_passes
    rw [passes_openedUntil_iff, not_or, not_not] at happlies
    obtain ⟨hopening, behind, rfl⟩ := happlies
    rcases stopped_or_free terminators behind with ⟨between, rest, hstopped⟩ | hfree
    · obtain ⟨rfl, rfl, rfl⟩ := h.unique (finds_openedUntil hopening hstopped)
      exact ⟨hopening, rfl, between, behind, rfl, rfl, hstopped⟩
    · exact absurd (openedUntil_eq_error_iff.mpr ⟨rfl, hopening, behind, rfl, hfree⟩) h.not_error
  · rintro ⟨hopening, rfl, between, behind, rfl, rfl, hstopped⟩
    exact finds_openedUntil hopening hstopped

theorem looksBehind_delimited (delimiter : String) (keepDelimiters : Bool) :
    (delimited delimiter keepDelimiters).LooksBehind delimiter :=
  fun _ hfront => if_neg hfront

theorem delimited_append {delimiter : String} {keepDelimiters : Bool}
    (hdelimiter : delimiter ≠ "") :
    delimited delimiter keepDelimiters (delimiter.toList ++ text) =
      match find? delimiter.toList text with
      | some n => .ok ⟨n + 2 * delimiter.toList.length,
          if keepDelimiters then 0 else delimiter.toList.length⟩
      | none => .error (.delimited delimiter) := by
  have hfront : atFront delimiter false (delimiter.toList ++ text) = true :=
    atFront_exact_iff.mpr ⟨hdelimiter, text, rfl⟩
  calc delimited delimiter keepDelimiters (delimiter.toList ++ text)
    _ = match find? delimiter.toList ((delimiter.toList ++ text).drop delimiter.toList.length) with
        | some n => .ok ⟨n + 2 * delimiter.toList.length,
            if keepDelimiters then 0 else delimiter.toList.length⟩
        | none => .error (.delimited delimiter) := if_pos hfront
    _ = _ := by rw [List.drop_left]

theorem content_between (delimiter inside rest : List Char) (keepDelimiters : Bool) :
    Extent.content
        ⟨(delimiter ++ (inside ++ delimiter)).length,
          if keepDelimiters then 0 else delimiter.length⟩
        (delimiter ++ (inside ++ delimiter) ++ rest) =
      if keepDelimiters then delimiter ++ (inside ++ delimiter) else inside := by
  cases keepDelimiters with
  | true => exact (Extent.content_of_margin rfl _).trans List.take_left
  | false =>
    have hlength : (delimiter ++ (inside ++ delimiter)).length - 2 * delimiter.length =
        inside.length := by
      simp only [List.length_append]
      omega
    simp only [Bool.false_eq_true, if_false]
    unfold Extent.content Extent.span
    rw [hlength, List.take_left, List.drop_left, List.take_left]

theorem finds_delimited {delimiter : String} (keepDelimiters : Bool) {inside : List Char}
    (hdelimiter : delimiter ≠ "") (h : FirstBetween delimiter.toList text inside back) :
    (delimited delimiter keepDelimiters).Finds (delimiter.toList ++ text)
      (delimiter.toList ++ (inside ++ delimiter.toList))
      (if keepDelimiters then delimiter.toList ++ (inside ++ delimiter.toList) else inside)
      back := by
  have hlength : (delimiter.toList ++ (inside ++ delimiter.toList)).length =
      inside.length + 2 * delimiter.toList.length := by
    simp only [List.length_append]
    omega
  have hok : delimited delimiter keepDelimiters (delimiter.toList ++ text) =
      .ok ⟨(delimiter.toList ++ (inside ++ delimiter.toList)).length,
        if keepDelimiters then 0 else delimiter.toList.length⟩ := by
    rw [delimited_append hdelimiter, find?_eq_some_iff.mpr ⟨inside, back, h, rfl⟩, hlength]
  have hcut : delimiter.toList ++ text =
      delimiter.toList ++ (inside ++ delimiter.toList) ++ back := by
    rw [h.1]
    simp only [List.append_assoc]
  rw [hcut] at hok ⊢
  exact finds_of_eq_ok hok (toList_append_ne_nil hdelimiter _) (content_between _ _ _ _)

theorem delimited_eq_error_iff {delimiter : String} {keepDelimiters : Bool} :
    delimited delimiter keepDelimiters text = .error reason ↔
      reason = .delimited delimiter ∧ delimiter ≠ "" ∧
        ∃ behind, text = delimiter.toList ++ behind ∧ ¬delimiter.toList <:+: behind := by
  apply (looksBehind_delimited delimiter keepDelimiters).eq_error_iff
  intro hdelimiter behind
  rw [delimited_append hdelimiter, ← find?_eq_none_iff]
  cases find? delimiter.toList behind <;> simp [eq_comm]

theorem passes_delimited_iff {delimiter : String} {keepDelimiters : Bool} :
    (delimited delimiter keepDelimiters).Passes text ↔
      delimiter = "" ∨ ¬delimiter.toList <+: text := by
  apply (looksBehind_delimited delimiter keepDelimiters).passes_iff
  intro hdelimiter behind hpasses
  rcases firstBetween_or_not_isInfix delimiter.toList behind with ⟨inside, rest, hfirst⟩ | hnone
  · exact (finds_delimited keepDelimiters hdelimiter hfirst).not_passes hpasses
  · obtain ⟨extent, hok, -⟩ := hpasses
    cases hok.symm.trans (delimited_eq_error_iff.mpr ⟨rfl, hdelimiter, behind, rfl, hnone⟩)

theorem finds_delimited_iff {delimiter : String} {keepDelimiters : Bool} :
    (delimited delimiter keepDelimiters).Finds text span content back ↔
      delimiter ≠ "" ∧ ∃ inside behind, text = delimiter.toList ++ behind ∧
        FirstBetween delimiter.toList behind inside back ∧
        span = delimiter.toList ++ (inside ++ delimiter.toList) ∧
        content = if keepDelimiters then span else inside := by
  constructor
  · intro h
    have happlies := h.not_passes
    rw [passes_delimited_iff, not_or, not_not] at happlies
    obtain ⟨hdelimiter, behind, rfl⟩ := happlies
    rcases firstBetween_or_not_isInfix delimiter.toList behind with ⟨inside, rest, hfirst⟩ | hnone
    · obtain ⟨rfl, rfl, rfl⟩ := h.unique (finds_delimited keepDelimiters hdelimiter hfirst)
      exact ⟨hdelimiter, inside, behind, rfl, hfirst, rfl, rfl⟩
    · exact absurd (delimited_eq_error_iff.mpr ⟨rfl, hdelimiter, behind, rfl, hnone⟩) h.not_error
  · rintro ⟨hdelimiter, inside, behind, rfl, hfirst, rfl, rfl⟩
    exact finds_delimited keepDelimiters hdelimiter hfirst

end

end Recognizer

namespace Scanner

/-- Asked for a lexeme, the scanner moves over `span`, which becomes one more token with that
content, and stands before `back`. -/
def Emits (scanner : Scanner) (kind : Token.Kind) (request : Request)
    (span content back : List Char) : Prop :=
  ∃ token next, scanner.ask kind request = (.found, next) ∧
    next.tokens = scanner.tokens ++ [token] ∧ token.kind = kind ∧
    token.content = String.ofList content ∧ token.start = scanner.position ∧
    token.stop = scanner.position + Text.byteSize span ∧ next.position = token.stop ∧
    scanner.rest = span ++ back ∧ next.rest = back

theorem ask_eq_failed_iff {scanner : Scanner} {kind : Token.Kind} {request : Request}
    {reason : Unfinished} :
    (scanner.ask kind request).1 = .failed reason ↔
      request.recognizer scanner.rest = .error reason := by
  unfold ask scan
  cases request.recognizer scanner.rest with
  | error other => simp
  | ok extent => by_cases hspan : extent.span scanner.rest = [] <;> simp [hspan]

theorem ask_eq_missed_iff {scanner : Scanner} {kind : Token.Kind} {request : Request} :
    (scanner.ask kind request).1 = .missed ↔ request.recognizer.Passes scanner.rest := by
  unfold ask scan Recognizer.Passes
  cases request.recognizer scanner.rest with
  | error other => simp
  | ok extent => by_cases hspan : extent.span scanner.rest = [] <;> simp [hspan]

theorem emits_iff_finds {scanner : Scanner} {kind : Token.Kind} {request : Request}
    {span content back : List Char} :
    scanner.Emits kind request span content back ↔
      request.recognizer.Finds scanner.rest span content back := by
  constructor
  · rintro ⟨token, next, hask, htokens, -, hcontent, -, -, -, hsplit, hrest⟩
    rcases scanner.ask_cases kind request with ⟨extent, hok, -, hne, hfound⟩ | ⟨hnot, -⟩
    · obtain rfl : scanner.advance kind extent = next :=
        (Prod.mk.inj (hfound.symm.trans hask)).2
      rw [tokens_advance, List.append_cancel_left_eq] at htokens
      obtain rfl := List.singleton_inj.mp htokens
      have hwhole : extent.span scanner.rest ++ back = span ++ back := by
        rw [← hsplit, ← hrest]
        exact extent.span_append_rest scanner.rest
      have hspan : extent.span scanner.rest = span := List.append_cancel_right hwhole
      refine ⟨extent, hok, hspan, hspan ▸ hne, ?_, hrest⟩
      exact String.ofList_injective hcontent
    · exact absurd (congrArg Prod.fst hask) hnot
  · rintro ⟨extent, hok, rfl, hne, rfl, rfl⟩
    have hscan : scanner.scan kind request.recognizer =
        .ok (some (scanner.advance kind extent)) := by
      simp only [scan, hok, if_neg hne]
    refine ⟨scanner.token kind extent, scanner.advance kind extent, ?_, tokens_advance _ _ _, rfl,
      rfl, rfl, rfl, rfl, (extent.span_append_rest scanner.rest).symm, rfl⟩
    simp only [ask, hscan]

/-- The outcomes of the requests for regions: each of the three by what the text ahead is, and no
change but where a token is found. -/
structure RegionOutcomes (scanner : Scanner) (kind : Token.Kind) : Prop where
  unchanged : ∀ request, (scanner.ask kind request).1 ≠ .found →
    (scanner.ask kind request).2 = scanner
  upTo_fails : ∀ terminators reason,
    (scanner.ask kind (.upTo terminators)).1 = .failed reason ↔
      reason = .noTerminator terminators ∧ ∀ c ∈ scanner.rest, c ∉ terminators.toList
  upTo_misses : ∀ terminators,
    (scanner.ask kind (.upTo terminators)).1 = .missed ↔
      ∃ stop ∈ scanner.rest.head?, stop ∈ terminators.toList
  upTo_emits : ∀ terminators span content back,
    scanner.Emits kind (.upTo terminators) span content back ↔
      span ≠ [] ∧ content = span ∧ Text.Stopped terminators scanner.rest span back
  openedUntil_fails : ∀ opening terminators reason,
    (scanner.ask kind (.openedUntil opening terminators)).1 = .failed reason ↔
      reason = .openRegion opening terminators ∧ opening ≠ "" ∧
        ∃ behind, scanner.rest = opening.toList ++ behind ∧ ∀ c ∈ behind, c ∉ terminators.toList
  openedUntil_misses : ∀ opening terminators,
    (scanner.ask kind (.openedUntil opening terminators)).1 = .missed ↔
      opening = "" ∨ ¬opening.toList <+: scanner.rest
  openedUntil_emits : ∀ opening terminators span content back,
    scanner.Emits kind (.openedUntil opening terminators) span content back ↔
      opening ≠ "" ∧ content = span ∧ ∃ between behind, scanner.rest = opening.toList ++ behind ∧
        span = opening.toList ++ between ∧ Text.Stopped terminators behind between back
  delimited_fails : ∀ delimiter keepDelimiters reason,
    (scanner.ask kind (.delimited delimiter keepDelimiters)).1 = .failed reason ↔
      reason = .delimited delimiter ∧ delimiter ≠ "" ∧
        ∃ behind, scanner.rest = delimiter.toList ++ behind ∧ ¬delimiter.toList <:+: behind
  delimited_misses : ∀ delimiter keepDelimiters,
    (scanner.ask kind (.delimited delimiter keepDelimiters)).1 = .missed ↔
      delimiter = "" ∨ ¬delimiter.toList <+: scanner.rest
  delimited_emits : ∀ delimiter keepDelimiters span content back,
    scanner.Emits kind (.delimited delimiter keepDelimiters) span content back ↔
      delimiter ≠ "" ∧ ∃ inside behind, scanner.rest = delimiter.toList ++ behind ∧
        Text.FirstBetween delimiter.toList behind inside back ∧
        span = delimiter.toList ++ (inside ++ delimiter.toList) ∧
        content = if keepDelimiters then span else inside
  delimited_stripped : ∀ delimiter span content back,
    scanner.Emits kind (.delimited delimiter false) span content back →
      ¬delimiter.toList <:+: content

theorem regionOutcomes (scanner : Scanner) (kind : Token.Kind) : scanner.RegionOutcomes kind where
  unchanged := by
    intro request hnot
    rcases scanner.ask_cases kind request with ⟨extent, -, -, -, hfound⟩ | ⟨-, hsame⟩
    · exact absurd (congrArg Prod.fst hfound) hnot
    · exact hsame
  upTo_fails := fun _ _ => ask_eq_failed_iff.trans Recognizer.upTo_eq_error_iff
  upTo_misses := fun _ => ask_eq_missed_iff.trans Recognizer.passes_upTo_iff
  upTo_emits := fun _ _ _ _ => emits_iff_finds.trans Recognizer.finds_upTo_iff
  openedUntil_fails := fun _ _ _ => ask_eq_failed_iff.trans Recognizer.openedUntil_eq_error_iff
  openedUntil_misses := fun _ _ => ask_eq_missed_iff.trans Recognizer.passes_openedUntil_iff
  openedUntil_emits := fun _ _ _ _ _ => emits_iff_finds.trans Recognizer.finds_openedUntil_iff
  delimited_fails := fun _ _ _ => ask_eq_failed_iff.trans Recognizer.delimited_eq_error_iff
  delimited_misses := fun _ _ => ask_eq_missed_iff.trans Recognizer.passes_delimited_iff
  delimited_emits := fun _ _ _ _ _ => emits_iff_finds.trans Recognizer.finds_delimited_iff
  delimited_stripped := by
    intro delimiter span content back hemits
    obtain ⟨hdelimiter, inside, behind, -, hfirst, -, rfl⟩ :=
      Recognizer.finds_delimited_iff.mp (emits_iff_finds.mp hemits)
    exact hfirst.not_isInfix fun he => hdelimiter (String.toList_eq_nil_iff.mp he)

/-- Whatever was asked for before, a request for a region is found, missed or without an end as the
script behind the scanner says, and what is found ends at the first place where it can. -/
theorem regionOutcomes_askAll (source : String) (requests : List (Token.Kind × Request))
    (kind : Token.Kind) :
    ∃ (reached : Scanner) (before after : String),
      (ofSource source).askAll requests = reached ∧ source = before ++ after ∧
      reached.position = before.utf8ByteSize ∧ reached.rest = after.toList ∧
      reached.RegionOutcomes kind := by
  obtain ⟨before, hsource, hpartitions⟩ := (partitions_ofSource source).askAll requests
  generalize (ofSource source).askAll requests = reached at hsource hpartitions
  have hwhole : source = String.ofList before ++ String.ofList reached.rest := by
    rw [← String.ofList_append, ← hsource]
    exact String.ofList_toList.symm
  refine ⟨reached, .ofList before, .ofList reached.rest, rfl, hwhole, ?_, ?_,
    reached.regionOutcomes kind⟩
  · rw [hpartitions.place.position, List.nil_append, Text.byteSize_eq_utf8ByteSize]
  · rw [String.toList_ofList]

end Scanner

end DdlCatalog
