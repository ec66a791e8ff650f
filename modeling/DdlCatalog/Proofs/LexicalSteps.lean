import DdlCatalog.Proofs.Recognition
import Mathlib.Data.List.Forall2
import Mathlib.Tactic.IntervalCases

namespace DdlCatalog

namespace Recognizer

/-- The recognizer does not apply to a text. -/
def Passes (recognize : Recognizer) (text : List Char) : Prop :=
  ∃ extent, recognize text = .ok extent ∧ extent.span text = []

def OpensWith (recognize : Recognizer) (openers : List Char) : Prop :=
  ∀ ⦃c cs⦄, c ∉ openers → recognize.Passes (c :: cs)

theorem opensWith_run (charset : String) : OpensWith (run charset) charset.toList := by
  intro c cs hc
  refine ⟨⟨0, 0⟩, ?_, rfl⟩
  have hmeasure : (Shape.run charset).measure (c :: cs) = 0 := by
    simp [Shape.measure, hc]
  rw [run, shape, hmeasure]

theorem opensWith_oneOf (charset : String) : OpensWith (oneOf charset) charset.toList := by
  intro c cs hc
  refine ⟨.empty, ?_, rfl⟩
  simp [oneOf, hc]

theorem opensWith_openedUntil {opening : String} {first : Char} {more : List Char}
    (ho : opening.toList = first :: more) (terminators : String) :
    OpensWith (openedUntil opening terminators) [first] := by
  intro c cs hc
  refine ⟨.empty, ?_, rfl⟩
  have hfront : atFront opening false (c :: cs) = false := by
    unfold atFront
    rw [ho, Bool.and_eq_false_iff]
    refine .inr (Bool.eq_false_iff.mpr fun hs => ?_)
    obtain ⟨rest, hr⟩ := Text.startsWith_iff.mp hs
    exact hc (by simp [(List.cons.inj hr).1])
  unfold openedUntil
  rw [if_neg (by simp [hfront])]

theorem opensWith_delimited {delimiter : String} {quote : Char}
    (hq : delimiter.toList = [quote]) (keep : Bool) :
    OpensWith (delimited delimiter keep) [quote] := by
  intro c cs hc
  refine ⟨.empty, ?_, rfl⟩
  unfold delimited
  rw [if_neg]
  intro hf
  obtain ⟨after, h⟩ := (atFront_singleton hq _).mp hf
  exact hc (by simp [(List.cons.inj h).1])

theorem mem_digits_of_isDigit {c : Char} (h : c.isDigit = true) : c ∈ "0123456789".toList := by
  obtain ⟨hl, hu⟩ := Char.isDigit_iff_toNat.mp h
  have hl' : 48 ≤ c.toNat := hl
  have hu' : c.toNat ≤ 57 := hu
  have hc : c = Char.ofNat c.toNat := (Char.ofNat_toNat c).symm
  rw [hc]
  generalize c.toNat = n at hl' hu'
  interval_cases n <;> decide

theorem opensWith_decimal : OpensWith (shape .decimal) "0123456789".toList := by
  intro c cs hc
  refine ⟨⟨0, 0⟩, ?_, rfl⟩
  have hdigit : c.isDigit = false := Bool.eq_false_iff.mpr fun h => hc (mem_digits_of_isDigit h)
  have hmeasure : Shape.decimal.measure (c :: cs) = 0 := by
    simp only [Shape.measure, List.dropWhile_cons, List.takeWhile_cons, hdigit, Bool.false_eq_true,
      if_false]
    split <;> simp
  rw [shape, hmeasure]

theorem run_append {charset : String} {span rest : List Char}
    (hs : ∀ c ∈ span, c ∈ charset.toList) (hr : ∀ c ∈ rest.head?, c ∉ charset.toList) :
    run charset (span ++ rest) = .ok ⟨span.length, 0⟩ := by
  have hmeasure : (Shape.run charset).measure (span ++ rest) = span.length := by
    unfold Shape.measure
    rw [List.takeWhile_append_of_pos (by simpa using hs)]
    cases rest with
    | nil => simp
    | cons c cs => simp [hr c rfl]
  rw [run, shape, hmeasure]

theorem passes_decimal {span rest : List Char} (hs : ∀ c ∈ span, c.isDigit = true)
    (hr : ∀ c ∈ rest.head?, c.isDigit = false ∧ c ≠ '.') :
    Passes (shape .decimal) (span ++ rest) := by
  refine ⟨⟨0, 0⟩, ?_, rfl⟩
  have hmeasure : Shape.decimal.measure (span ++ rest) = 0 := by
    simp only [Shape.measure, List.dropWhile_append_of_pos hs]
    cases rest with
    | nil => rfl
    | cons c cs =>
      obtain ⟨hdigit, hdot⟩ := hr c rfl
      simp only [List.dropWhile_cons, hdigit, Bool.false_eq_true, if_false]
      split
      next h => exact absurd (List.cons.inj h).1 hdot
      next => rfl
  rw [shape, hmeasure]

end Recognizer

namespace LexicalRule

open Recognizer

def openers : List (List Char) :=
  ["\t ".toList, "\n\r".toList, ['-'], ['"'], ['\''], "0123456789".toList, "0123456789".toList,
    ".,();*".toList, ['@']]

theorem not_mem_openers {chars : List Char} (n : Nat)
    (h : chars.all (fun c => (openers.take n).all (!·.contains c)) = true) {c : Char}
    (hc : c ∈ chars) : ∀ opening ∈ openers.take n, c ∉ opening := by
  intro opening ho hm
  have hnone := List.all_eq_true.mp (List.all_eq_true.mp h c hc) opening ho
  rw [List.contains_iff_mem.mpr hm] at hnone
  cases hnone

theorem opensWith_openers (vocabulary : Vocabulary) :
    List.Forall₂ (fun rule chars => OpensWith rule.recognize chars) ((all vocabulary).take 9)
      openers := by
  refine .cons (opensWith_run _) <| .cons (opensWith_run _) <|
    .cons (opensWith_openedUntil rfl _) <| .cons (opensWith_delimited rfl _) <|
    .cons (opensWith_delimited rfl _) <| .cons opensWith_decimal <| .cons (opensWith_run _) <|
    .cons (opensWith_oneOf _) <| .cons (opensWith_openedUntil rfl _) .nil

end LexicalRule

namespace Scanner

open Recognizer

theorem step_cons_of_passes {scanner : Scanner} {rule : LexicalRule}
    (h : rule.recognize.Passes scanner.rest) (rules : List LexicalRule) :
    scanner.step (rule :: rules) = scanner.step rules := by
  obtain ⟨extent, hr, hs⟩ := h
  rw [step, scan, hr]
  simp only [hs, if_true]

theorem step_append_of_opensWith {scanner : Scanner} {c : Char} {cs : List Char}
    (hr : scanner.rest = c :: cs) {front : List LexicalRule} {openers : List (List Char)}
    (h : List.Forall₂ (fun rule chars => OpensWith rule.recognize chars) front openers)
    (hc : ∀ chars ∈ openers, c ∉ chars) (back : List LexicalRule) :
    scanner.step (front ++ back) = scanner.step back := by
  induction h with
  | nil => rfl
  | cons hrule _ ih =>
    have hpasses := @hrule c cs (hc _ List.mem_cons_self)
    rw [List.cons_append, step_cons_of_passes (hr ▸ hpasses)]
    exact ih fun chars hm => hc chars (List.mem_cons_of_mem _ hm)

theorem step_drop {vocabulary : Vocabulary} {scanner : Scanner} {c : Char} {cs : List Char}
    (hr : scanner.rest = c :: cs) (n : Nat)
    (hc : ∀ chars ∈ LexicalRule.openers.take n, c ∉ chars) (hn : n ≤ 9) :
    scanner.step (LexicalRule.all vocabulary) =
      scanner.step ((LexicalRule.all vocabulary).drop n) := by
  have hopens := List.forall₂_take n (LexicalRule.opensWith_openers vocabulary)
  rw [List.take_take, Nat.min_eq_left hn] at hopens
  have hstep := step_append_of_opensWith hr hopens hc ((LexicalRule.all vocabulary).drop n)
  rwa [List.take_append_drop] at hstep

theorem step_cons_of_finds {scanner : Scanner} {rule : LexicalRule} {extent : Extent}
    (hr : rule.recognize scanner.rest = .ok extent) (hs : extent.span scanner.rest ≠ [])
    (rules : List LexicalRule) :
    scanner.step (rule :: rules) = .ok (some (scanner.advance rule.kind extent)) := by
  rw [step, scan, hr]
  simp only [hs, if_false]

end Scanner

/-- Before `rest`, the next token is cut out of the text with that span, kind and content. -/
def Cuts (vocabulary : Vocabulary) (kind : Token.Kind) (span content rest : List Char) : Prop :=
  ∀ scanner : Scanner, scanner.rest = span ++ rest → ∃ next token,
    scanner.step (LexicalRule.all vocabulary) = .ok (some next) ∧ next.rest = rest ∧
      next.behind = token :: scanner.behind ∧ next.position = token.stop ∧
      token.start = scanner.position ∧ token.kind = kind ∧ token.content = String.ofList content

namespace Cuts

open Recognizer

variable {vocabulary : Vocabulary} {rest : List Char}

theorem of_step {span content : List Char} {extent : Extent} {rule : LexicalRule}
    {rules : List LexicalRule} (hs : span ≠ [])
    (hstep : ∀ scanner : Scanner, scanner.rest = span ++ rest →
      scanner.step (LexicalRule.all vocabulary) = scanner.step (rule :: rules))
    (h : rule.recognize (span ++ rest) = .ok extent) (hlength : extent.length = span.length)
    (hcontent : extent.content (span ++ rest) = content) :
    Cuts vocabulary rule.kind span content rest := by
  intro scanner hr
  have hspan : extent.span scanner.rest = span := by
    rw [hr, Extent.span, hlength]
    exact List.take_left
  have hnext : scanner.step (LexicalRule.all vocabulary) =
      .ok (some (scanner.advance rule.kind extent)) := by
    rw [hstep scanner hr]
    exact Scanner.step_cons_of_finds (hr ▸ h) (hspan ▸ hs) rules
  refine ⟨_, scanner.token rule.kind extent, hnext, ?_, rfl, rfl, rfl, rfl, ?_⟩
  · simp only [Scanner.advance, Extent.rest, hr, hlength]
    exact List.drop_left
  · simp only [Scanner.token, Token.ofSpan, hr, hcontent]

theorem of_rule {c : Char} {cs content : List Char} {extent : Extent} (n : Nat)
    {rule : LexicalRule} {rules : List LexicalRule}
    (hdrop : (LexicalRule.all vocabulary).drop n = rule :: rules)
    (hc : ∀ chars ∈ LexicalRule.openers.take n, c ∉ chars) (hn : n ≤ 9)
    (h : rule.recognize (c :: cs ++ rest) = .ok extent) (hlength : extent.length = (c :: cs).length)
    (hcontent : extent.content (c :: cs ++ rest) = content) :
    Cuts vocabulary rule.kind (c :: cs) content rest := by
  have hstep : ∀ scanner : Scanner, scanner.rest = c :: cs ++ rest →
      scanner.step (LexicalRule.all vocabulary) = scanner.step (rule :: rules) := by
    intro scanner hr
    rw [Scanner.step_drop hr n hc hn, hdrop]
  exact of_step (List.cons_ne_nil c cs) hstep h hlength hcontent

theorem content_plain (span rest : List Char) :
    Extent.content ⟨span.length, 0⟩ (span ++ rest) = span := by
  rw [Extent.content_of_margin rfl]
  exact List.take_left

theorem whitespace {c : Char} {cs : List Char} (hs : ∀ d ∈ c :: cs, d ∈ "\t ".toList)
    (hr : ∀ d ∈ rest.head?, d ∉ "\t ".toList) :
    Cuts vocabulary .whitespace (c :: cs) (c :: cs) rest :=
  of_rule 0 rfl (by simp) (by omega) (run_append hs hr) rfl (content_plain _ _)

theorem blank {c : Char} (hc : c ∉ "\t ".toList) (cs : List Char) :
    Cuts vocabulary .whitespace [' '] [' '] (c :: cs) := by
  refine whitespace (by simp) ?_
  rintro _ ⟨rfl⟩
  exact hc

theorem newline {c : Char} {cs : List Char} (hs : ∀ d ∈ c :: cs, d ∈ "\n\r".toList)
    (hr : ∀ d ∈ rest.head?, d ∉ "\n\r".toList) :
    Cuts vocabulary .newline (c :: cs) (c :: cs) rest := by
  have hc := LexicalRule.not_mem_openers 1 (by decide) (hs c List.mem_cons_self)
  exact of_rule 1 rfl hc (by omega) (run_append hs hr) rfl (content_plain _ _)

theorem quoted {delimiter : String} {quote : Char} {rules : List LexicalRule} (n : Nat)
    (hdrop : (LexicalRule.all vocabulary).drop n = ⟨.string, .delimited delimiter false⟩ :: rules)
    (hq : delimiter.toList = [quote])
    (hc : ∀ chars ∈ LexicalRule.openers.take n, quote ∉ chars) (hn : n ≤ 9) {inside : List Char}
    (hi : quote ∉ inside) :
    Cuts vocabulary .string (quote :: (inside ++ [quote])) inside rest := by
  have htext : quote :: (inside ++ [quote]) ++ rest = quote :: (inside ++ quote :: rest) := by
    simp
  refine of_rule n hdrop hc hn (htext ▸ delimited_of_closed hq hi rest) (by simp) ?_
  simp [Extent.content, Extent.span, List.take_take]

theorem name {inside : List Char} (hi : '"' ∉ inside) :
    Cuts vocabulary .string ('"' :: (inside ++ ['"'])) inside rest :=
  quoted 3 rfl rfl (by decide) (by omega) hi

theorem literal {inside : List Char} (hi : '\'' ∉ inside) :
    Cuts vocabulary .string ('\'' :: (inside ++ ['\''])) inside rest :=
  quoted 4 rfl rfl (by decide) (by omega) hi

theorem symbol {c : Char} (hc : c ∈ ".,();*".toList) : Cuts vocabulary .symbol [c] [c] rest := by
  have hfirst := LexicalRule.not_mem_openers 7 (by decide) hc
  have hone : oneOf ".,();*" (c :: rest) = .ok ⟨1, 0⟩ := if_pos (List.contains_iff_mem.mpr hc)
  exact of_rule 7 rfl hfirst (by omega) hone rfl (content_plain [c] rest)

theorem number {c : Char} {cs : List Char} (hs : ∀ d ∈ c :: cs, d.isDigit = true)
    (hr : ∀ d ∈ rest.head?, d.isDigit = false ∧ d ≠ '.') :
    Cuts vocabulary .int (c :: cs) (c :: cs) rest := by
  have hdigits : ∀ d ∈ c :: cs, d ∈ "0123456789".toList := fun d hd =>
    mem_digits_of_isDigit (hs d hd)
  have hend : ∀ d ∈ rest.head?, d ∉ "0123456789".toList := by
    intro d hd hm
    have hall : "0123456789".toList.all Char.isDigit = true := by decide
    have hno := (hr d hd).1
    rw [List.all_eq_true.mp hall d hm] at hno
    cases hno
  have hc := LexicalRule.not_mem_openers 5 (by decide) (hdigits c List.mem_cons_self)
  have hstep : ∀ scanner : Scanner, scanner.rest = c :: cs ++ rest →
      scanner.step (LexicalRule.all vocabulary) =
        scanner.step ((LexicalRule.all vocabulary).drop 6) := by
    intro scanner hscanner
    rw [Scanner.step_drop hscanner 5 hc (by omega)]
    exact Scanner.step_cons_of_passes (hscanner ▸ passes_decimal hs hr) _
  exact of_step (List.cons_ne_nil c cs) hstep (run_append hdigits hend) rfl (content_plain _ _)

end Cuts

end DdlCatalog
