import DdlCatalog.Proofs.MaximalMunch
import Mathlib.Data.List.DropRight
import Mathlib.Data.List.Find

namespace DdlCatalog

namespace Text

/-- The text ends with a character that no lexeme goes beyond. -/
def Closed (text : List Char) : Prop :=
  ∃ front last, text = front ++ [last] ∧ last ∈ "\"',();*".toList

theorem Closed.of_append {front back : List Char} (h : Closed (front ++ back)) (hb : back ≠ []) :
    Closed back := by
  obtain ⟨all, last, heq, hl⟩ := h
  have hlast := congrArg List.getLast? heq
  rw [List.getLast?_append_of_ne_nil _ hb, List.getLast?_concat] at hlast
  obtain ⟨before, hbefore⟩ := List.getLast?_eq_some_iff.mp hlast
  exact ⟨before, last, hbefore, hl⟩

theorem takeWhile_append_of_last {test : Char → Bool} {front : List Char} {last : Char}
    (hl : test last = false) (more : List Char) :
    (front ++ [last] ++ more).takeWhile test = (front ++ [last]).takeWhile test := by
  rw [List.takeWhile_append, if_neg]
  intro hall
  have hmem : last ∈ (front ++ [last]).takeWhile test := by
    rw [(List.takeWhile_prefix test).eq_of_length hall]
    simp
  rw [List.mem_takeWhile_imp hmem] at hl
  cases hl

theorem dropWhile_append_of_last {test : Char → Bool} {last : Char} (hl : test last = false)
    (front more : List Char) :
    ∃ back, (front ++ [last]).dropWhile test = back ++ [last] ∧
      (front ++ [last] ++ more).dropWhile test = back ++ [last] ++ more := by
  induction front with
  | nil => exact ⟨[], by simp [hl], by simp [hl]⟩
  | cons c cs ih =>
    by_cases hc : test c = true
    · simpa [hc] using ih
    · exact ⟨c :: cs, by simp [hc], by simp [hc]⟩

theorem find?_append {word text : List Char} {n : Nat} (h : find? word text = some n)
    (hw : word ≠ []) (more : List Char) : find? word (text ++ more) = some n := by
  induction text generalizing n with
  | nil =>
    rw [find?, if_neg hw] at h
    cases h
  | cons c cs ih =>
    by_cases hs : startsWith word (c :: cs) = true
    · obtain ⟨rest, hr⟩ := startsWith_iff.mp hs
      have hmore : startsWith word (c :: (cs ++ more)) = true :=
        startsWith_iff.mpr ⟨rest ++ more, by rw [← List.cons_append, hr, List.append_assoc]⟩
      rw [find?, if_pos hs] at h
      rw [List.cons_append, find?, if_pos hmore, h]
    · rw [find?, if_neg hs] at h
      obtain ⟨m, hm, rfl⟩ := Option.map_eq_some_iff.mp h
      have hmore : ¬startsWith word (c :: (cs ++ more)) = true := by
        intro hstart
        have hlength := length_of_find? hm
        refine hs ?_
        rw [startsWith, beq_iff_eq] at hstart ⊢
        rw [← List.cons_append, List.take_append_of_le_length] at hstart
        · exact hstart
        · simp only [List.length_cons]
          omega
      rw [List.cons_append, find?, if_neg hmore, ih hm, Option.map_some]

end Text

namespace Extent

variable {extent : Extent} {text : List Char}

theorem span_append (h : extent.length ≤ text.length) (more : List Char) :
    extent.span (text ++ more) = extent.span text :=
  List.take_append_of_le_length h

theorem rest_append (h : extent.length ≤ text.length) (more : List Char) :
    extent.rest (text ++ more) = extent.rest text ++ more :=
  List.drop_append_of_le_length h

theorem content_append (h : extent.length ≤ text.length) (more : List Char) :
    extent.content (text ++ more) = extent.content text := by
  rw [content, content, span_append h]

end Extent

namespace Recognizer

/-- What follows a text does not change what is recognized in it. -/
def SettledAt (recognize : Recognizer) (text : List Char) : Prop :=
  ∀ ⦃extent⦄, recognize text = .ok extent → ∀ more, recognize (text ++ more) = .ok extent

variable {text front : List Char} {last : Char}

theorem settled_run {charset : String} (hl : last ∉ charset.toList) :
    (run charset).SettledAt (front ++ [last]) := by
  rintro extent h more
  have hmeasure : (Shape.run charset).measure (front ++ [last] ++ more) =
      (Shape.run charset).measure (front ++ [last]) := by
    unfold Shape.measure
    rw [Text.takeWhile_append_of_last (by simpa using hl)]
  rw [run, shape, hmeasure]
  exact h

theorem settled_decimal (hl : last.isDigit = false) (hp : last ≠ '.') :
    (shape .decimal).SettledAt (front ++ [last]) := by
  rintro extent h more
  obtain ⟨back, hshort, hlong⟩ := Text.dropWhile_append_of_last hl front more
  have hmeasure : Shape.decimal.measure (front ++ [last] ++ more) =
      Shape.decimal.measure (front ++ [last]) := by
    simp only [Shape.measure, hshort, hlong, Text.takeWhile_append_of_last hl]
    cases back with
    | nil =>
      have hnone : ∀ rest fraction : List Char, [last] ++ rest ≠ '.' :: fraction := by
        rintro rest fraction heq
        exact hp (List.cons.inj heq).1
      split
      next fraction heq => exact absurd heq (hnone more fraction)
      next =>
        split
        next fraction heq => exact absurd heq (hnone [] fraction)
        next => rfl
    | cons point fraction =>
      by_cases hpoint : point = '.'
      · subst hpoint
        simp only [List.cons_append, Text.takeWhile_append_of_last hl]
      · simp [hpoint]
  rw [shape, hmeasure]
  exact h

theorem settled_oneOf (charset : String) : (oneOf charset).SettledAt (front ++ [last]) := by
  rintro extent h more
  cases front with
  | nil => exact h
  | cons c cs => exact h

theorem atFront_append {word : String} (hl : last ∉ word.toList) (more : List Char) :
    atFront word false (front ++ [last] ++ more) = atFront word false (front ++ [last]) := by
  by_cases hw : word = ""
  · subst hw
    rfl
  · rw [Bool.eq_iff_iff, atFront_iff hw, atFront_iff hw]
    refine ⟨fun ⟨back, hb⟩ => ?_, fun h => h.trans (List.prefix_append _ _)⟩
    rcases List.append_eq_append_iff.mp hb with ⟨rest, hr, -⟩ | ⟨rest, hr, -⟩
    · exact ⟨rest, hr.symm⟩
    · exact absurd (by simp [hr]) hl

theorem atFront_anyCase_append {word : String} (hl : ∀ c ∈ word.toList, c.toLower ≠ last.toLower)
    (more : List Char) :
    atFront word true (front ++ [last] ++ more) = atFront word true (front ++ [last]) := by
  by_cases hw : word = ""
  · subst hw
    rfl
  · rw [Bool.eq_iff_iff, atFront_anyCase_iff hw, atFront_anyCase_iff hw]
    constructor
    · rintro ⟨found, ⟨back, hb⟩, hsame⟩
      rcases List.append_eq_append_iff.mp hb with ⟨rest, hr, -⟩ | ⟨rest, hr, -⟩
      · exact ⟨found, ⟨rest, hr.symm⟩, hsame⟩
      · rw [Text.sameLetters_iff, String.toList_ofList, hr] at hsame
        have hlower : last.toLower ∈ word.toList.map Char.toLower := by
          rw [← hsame]
          simp
        obtain ⟨c, hc, hcl⟩ := List.mem_map.mp hlower
        exact absurd hcl (hl c hc)
    · rintro ⟨found, hp, hsame⟩
      exact ⟨found, hp.trans (List.prefix_append _ _), hsame⟩

theorem settled_openedUntil {opening terminators : String} (hl : last ∉ opening.toList) :
    (openedUntil opening terminators).SettledAt (front ++ [last]) := by
  rintro extent h more
  unfold openedUntil at h ⊢
  rw [atFront_append hl]
  by_cases hf : atFront opening false (front ++ [last]) = true
  · have hle := length_le_of_atFront hf
    rw [if_pos hf] at h ⊢
    rw [List.drop_append_of_le_length hle]
    cases hn : distanceTo? terminators ((front ++ [last]).drop opening.toList.length) with
    | none => rw [hn] at h; cases h
    | some n =>
      have hmore : distanceTo? terminators
          ((front ++ [last]).drop opening.toList.length ++ more) = some n := by
        unfold distanceTo? at hn ⊢
        rw [List.findIdx?_append, hn, Option.some_or]
      rw [hn] at h
      rw [hmore]
      exact h
  · rw [if_neg hf] at h ⊢
    exact h

theorem settled_delimited {delimiter : String} (hl : ∃ quote, delimiter.toList = [quote])
    (keep : Bool) : (delimited delimiter keep).SettledAt (front ++ [last]) := by
  obtain ⟨quote, hq⟩ := hl
  rintro extent h more
  obtain ⟨c, cs, htext⟩ : ∃ c cs, front ++ [last] = c :: cs :=
    List.exists_cons_of_ne_nil (by simp)
  rw [htext] at h ⊢
  by_cases hc : c = quote
  · subst hc
    unfold delimited at h ⊢
    rw [if_pos ((atFront_singleton hq _).mpr ⟨cs, rfl⟩)] at h
    rw [List.cons_append, if_pos ((atFront_singleton hq _).mpr ⟨cs ++ more, rfl⟩)]
    simp only [hq, List.length_singleton, List.drop_succ_cons, List.drop_zero] at h ⊢
    cases hn : Text.find? [c] cs with
    | none => rw [hn] at h; cases h
    | some n =>
      rw [hn] at h
      rw [Text.find?_append hn (by simp)]
      exact h
  · have hpass : ∀ rest : List Char, delimited delimiter keep (c :: rest) = .ok .empty := by
      intro rest
      rw [delimited, if_neg]
      intro hf
      obtain ⟨after, heq⟩ := (atFront_singleton hq _).mp hf
      exact hc (List.cons.inj heq).1
    rw [hpass] at h
    rw [List.cons_append, hpass]
    exact h

theorem settled_anyWord {words : List String}
    (hl : ∀ word ∈ words, ∀ c ∈ word.toList, c.toLower ≠ last.toLower) :
    (anyWord words true).SettledAt (front ++ [last]) := by
  rintro extent h more
  have hfind : words.find? (atFront · true (front ++ [last] ++ more)) =
      words.find? (atFront · true (front ++ [last])) :=
    List.find?_congr fun word hw => atFront_anyCase_append (hl word hw) more
  rw [anyWord, hfind]
  exact h

end Recognizer

namespace LexicalRule

open Recognizer

theorem closing_chars {last : Char} (hl : last ∈ "\"',();*".toList) :
    (∀ charset ∈ ["\t ", "\n\r", "0123456789", "--", "@"], last ∉ charset.toList) ∧
      (last.isDigit = false ∧ last ≠ '.') ∧ last.toLower ∉ Vocabulary.wordChars := by
  have hcases : last = '"' ∨ last = '\'' ∨ last = ',' ∨ last = '(' ∨ last = ')' ∨ last = ';' ∨
      last = '*' := by simpa using hl
  rcases hcases with rfl | rfl | rfl | rfl | rfl | rfl | rfl <;> decide

/-- Where a text is closed, nothing behind it matters to the rules of the dialect. -/
theorem settledAt_of_closed {text : List Char} (ht : Text.Closed text) :
    ∀ rule ∈ all .oracle, rule.recognize.SettledAt text := by
  obtain ⟨front, last, rfl, hl⟩ := ht
  obtain ⟨hsets, ⟨hdigit, hpoint⟩, hletter⟩ := closing_chars hl
  have hword : ∀ word ∈ Vocabulary.oracle.words, ∀ c ∈ word.toList,
      c.toLower ≠ last.toLower := by
    intro word hw c hc hsame
    exact hletter (hsame ▸ ((Vocabulary.capital_of_mem hw).chars c hc).2)
  intro rule hm
  simp only [all, List.mem_cons, List.not_mem_nil, or_false] at hm
  rcases hm with rfl | rfl | rfl | rfl | rfl | rfl | rfl | rfl | rfl | rfl
  · exact settled_run (hsets _ (by simp))
  · exact settled_run (hsets _ (by simp))
  · exact settled_openedUntil (hsets _ (by simp))
  · exact settled_delimited ⟨_, rfl⟩ false
  · exact settled_delimited ⟨_, rfl⟩ false
  · exact settled_decimal hdigit hpoint
  · exact settled_run (hsets _ (by simp))
  · exact settled_oneOf _
  · exact settled_openedUntil (hsets _ (by simp))
  · exact settled_anyWord hword

theorem fits_of_mem {vocabulary : Vocabulary} {rule : LexicalRule} (hm : rule ∈ all vocabulary) :
    rule.recognize.Fits := by
  simp only [all, List.mem_cons, List.not_mem_nil, or_false] at hm
  rcases hm with rfl | rfl | rfl | rfl | rfl | rfl | rfl | rfl | rfl | rfl
  · exact fits_shape _
  · exact fits_shape _
  · exact fits_openedUntil _ _
  · exact fits_delimited _ _
  · exact fits_delimited _ _
  · exact fits_shape _
  · exact fits_shape _
  · exact fits_oneOf _
  · exact fits_openedUntil _ _
  · exact fits_anyWord _ _

end LexicalRule

namespace Scanner

def followedBy (scanner : Scanner) (more : List Char) : Scanner :=
  { scanner with rest := scanner.rest ++ more }

theorem scan_followedBy {scanner : Scanner} {kind : Token.Kind} {recognize : Recognizer}
    {result : Option Scanner} (hf : recognize.Fits)
    (hs : recognize.SettledAt scanner.rest) (h : scanner.scan kind recognize = .ok result)
    (more : List Char) :
    (scanner.followedBy more).scan kind recognize =
      .ok (result.map (·.followedBy more)) := by
  unfold scan at h
  split at h
  next => cases h
  next extent hr =>
    have hspan := Extent.span_append (hf hr) more
    have hrest := Extent.rest_append (hf hr) more
    have hcontent := Extent.content_append (hf hr) more
    have hmore : recognize (scanner.followedBy more).rest = .ok extent := hs hr more
    rw [scan, hmore]
    simp only [followedBy, hspan]
    split at h
    next hempty =>
      cases h
      rw [if_pos hempty]
      rfl
    next hfound =>
      cases h
      rw [if_neg hfound]
      simp [advance, token, hspan, hrest, hcontent]

theorem step_followedBy {scanner next : Scanner} {rules : List LexicalRule}
    (hrules : ∀ rule ∈ rules, rule.recognize.Fits ∧ rule.recognize.SettledAt scanner.rest)
    (h : scanner.step rules = .ok (some next)) (more : List Char) :
    (scanner.followedBy more).step rules = .ok (some (next.followedBy more)) := by
  induction rules with
  | nil => cases h
  | cons rule rules ih =>
    obtain ⟨hf, hs⟩ := hrules rule List.mem_cons_self
    cases hscan : scanner.scan rule.kind rule.recognize with
    | error e => rw [step, hscan] at h; cases h
    | ok result =>
      have hmore := scan_followedBy hf hs hscan more
      rw [step, hscan] at h
      rw [step, hmore]
      cases result with
      | none => exact ih (fun rule hm => hrules rule (List.mem_cons_of_mem _ hm)) h
      | some found =>
        cases h
        rfl

theorem finish_followedBy {scanner : Scanner} {before : List Char} {tokens : List Token}
    (hat : scanner.At before) (hc : scanner.rest = [] ∨ Text.Closed scanner.rest)
    (h : scanner.finish (LexicalRule.all .oracle) = .ok tokens) (more : List Char) :
    ∃ reached : Scanner, reached.At (before ++ scanner.rest) ∧ reached.rest = more ∧
      reached.tokens = tokens ∧
      (scanner.followedBy more).finish (LexicalRule.all .oracle) =
        reached.finish (LexicalRule.all .oracle) := by
  fun_induction finish (LexicalRule.all .oracle) scanner generalizing before tokens with
  | case1 scanner hr =>
    cases h
    exact ⟨scanner.followedBy more, by simpa [hr] using ⟨hat.position, hat.line⟩,
      by simp [followedBy, hr], rfl, rfl⟩
  | case2 => cases h
  | case3 => cases h
  | case4 scanner hr next hstep ih =>
    have hclosed := hc.resolve_left hr
    obtain ⟨token, span, hbehind, hlies, hrest, hnext⟩ := step_tiles hat hstep
    have hahead : next.rest = [] ∨ Text.Closed next.rest := by
      by_cases hempty : next.rest = []
      · exact .inl hempty
      · exact .inr ((hrest ▸ hclosed).of_append hempty)
    obtain ⟨reached, hreached, hmore, htokens, hfinish⟩ := ih hnext hahead h
    refine ⟨reached, by rwa [hrest, ← List.append_assoc], hmore, htokens, ?_⟩
    have hstep' := step_followedBy (fun rule hm =>
      ⟨LexicalRule.fits_of_mem hm, LexicalRule.settledAt_of_closed hclosed rule hm⟩) hstep more
    rw [← hfinish]
    exact finish_of_step (by simp [followedBy, hr]) hstep'

end Scanner

def Token.moved (bytes : Nat) (lines : UInt32) (token : Token) : Token :=
  { token with
    start := token.start + bytes
    stop := token.stop + bytes
    firstLine := token.firstLine + lines
    lastLine := token.lastLine + lines }

namespace Scanner

variable (bytes : Nat) (lines : UInt32) (earlier : List Token)

def moved (scanner : Scanner) : Scanner where
  position := scanner.position + bytes
  line := scanner.line + lines
  rest := scanner.rest
  behind := scanner.behind.map (Token.moved bytes lines) ++ earlier

end Scanner

namespace LexicalError

variable (bytes : Nat) (lines : UInt32) (earlier : List Token)

def moved : LexicalError → LexicalError
  | unhandled place => unhandled (place.moved bytes lines earlier)
  | unfinished kind reason place => unfinished kind reason (place.moved bytes lines earlier)

end LexicalError

namespace Scanner

variable (bytes : Nat) (lines : UInt32) (earlier : List Token)

theorem token_moved (scanner : Scanner) (kind : Token.Kind) (extent : Extent) :
    (scanner.moved bytes lines earlier).token kind extent =
      (scanner.token kind extent).moved bytes lines := by
  simp only [token, moved, Token.ofSpan, Token.moved, Token.mk.injEq, true_and]
  refine ⟨by omega, ?_⟩
  rw [UInt32.add_assoc, UInt32.add_comm lines, UInt32.add_assoc]

theorem scan_moved (scanner : Scanner) (kind : Token.Kind) (recognize : Recognizer) :
    (scanner.moved bytes lines earlier).scan kind recognize =
      (scanner.scan kind recognize).map (Option.map (moved bytes lines earlier)) := by
  unfold scan
  rw [show (scanner.moved bytes lines earlier).rest = scanner.rest from rfl]
  split
  next => rfl
  next extent hr =>
    split
    next => rfl
    next =>
      refine congrArg (fun next => Except.ok (some next)) ?_
      simp only [advance, token_moved]
      rfl

theorem step_moved (scanner : Scanner) (rules : List LexicalRule) :
    (scanner.moved bytes lines earlier).step rules =
      ((scanner.step rules).map (Option.map (moved bytes lines earlier))).mapError
        (LexicalError.moved bytes lines earlier) := by
  induction rules with
  | nil => rfl
  | cons rule rules ih =>
    rw [step, scan_moved, step]
    cases scanner.scan rule.kind rule.recognize with
    | error reason => rfl
    | ok result =>
      cases result with
      | none => exact ih
      | some next => rfl

theorem finish_moved (scanner : Scanner) (rules : List LexicalRule) :
    (scanner.moved bytes lines earlier).finish rules =
      ((scanner.finish rules).map fun tokens =>
        earlier.reverse ++ tokens.map (Token.moved bytes lines)).mapError
          (LexicalError.moved bytes lines earlier) := by
  have hrest : (scanner.moved bytes lines earlier).rest = scanner.rest := rfl
  have hstep := step_moved bytes lines earlier scanner rules
  fun_induction finish rules scanner with
  | case1 scanner hr =>
    rw [finish, if_pos (hrest.trans hr)]
    simp [tokens, moved, Except.map, Except.mapError]
  | case2 scanner hr e he =>
    rw [he] at hstep
    exact finish_of_step_error hr hstep
  | case3 scanner hr he =>
    rw [he] at hstep
    exact finish_of_step_none hr hstep
  | case4 scanner hr next he ih =>
    rw [he] at hstep
    have hnext : (scanner.moved bytes lines earlier).step rules =
        .ok (some (next.moved bytes lines earlier)) := hstep
    have hmore : (scanner.moved bytes lines earlier).rest ≠ [] := hr
    rw [finish_of_step hmore hnext]
    exact ih rfl (step_moved bytes lines earlier next rules)

end Scanner

/-- A cause as it is reported where the tokens `front` on `lines` more lines stand before. -/
def Cause.behind (lines : UInt32) (front : List Token) : Cause → Cause
  | unhandledInput line preview tokensRead recent =>
    unhandledInput (line + lines) preview (tokensRead + front.length)
      ((front.map Token.content ++ recent).rtake LexicalError.recentTokens)
  | cause => cause

theorem LexicalError.rootCause_moved (bytes : Nat) (lines : UInt32) (front : List Token)
    (e : LexicalError) :
    (e.moved bytes lines front.reverse).fault.rootCause =
      e.fault.rootCause.behind lines front := by
  cases e with
  | unfinished kind reason place => rfl
  | unhandled place =>
    have hcontents : (place.behind.map (Token.moved bytes lines)).map Token.content =
        place.behind.map Token.content := by
      rw [List.map_map]
      rfl
    have hrecent : ∀ xs ys : List String, (xs.take recentTokens ++ ys).take recentTokens =
        (xs ++ ys).take recentTokens := by
      intro xs ys
      rw [List.take_append, List.take_append, List.take_take, List.length_take, Nat.min_self]
      congr 2
      omega
    simp only [moved, fault, Fault.rootCause, Cause.behind, Scanner.moved, Scanner.preview,
      Scanner.peek, Cause.unhandledInput.injEq, true_and]
    refine ⟨by simp, ?_⟩
    rw [List.rtake_eq_reverse_take_reverse, List.map_reverse, List.map_reverse, List.map_take,
      List.map_take, List.map_append, hcontents, List.reverse_append, List.reverse_reverse,
      List.map_reverse, hrecent]

theorem closed_of_last {source : String} {tokens : List Token} {last : Token}
    (h : tokenize source = .ok tokens) (hl : last ∈ tokens.getLast?)
    (hend : last.kind = .string ∨ last.kind = .symbol ∧ last.content ≠ ".") :
    Text.Closed source.toList := by
  obtain ⟨front, span, htext, hmunched⟩ := (munching_tokenizeWith h).munched_of_getLast hl
  have hlexeme := hmunched.cut.lexeme
  rw [htext]
  rcases hend with hk | ⟨hk, hpoint⟩
  · rw [hk] at hlexeme
    obtain ⟨quote, inside, hquote, -, rfl⟩ := hlexeme
    refine ⟨front ++ quote :: inside, quote, by simp, ?_⟩
    rcases hquote with rfl | rfl <;> decide
  · have hcontent := hmunched.lies.plain (by rw [hk]; simp)
    rw [hk] at hlexeme
    obtain ⟨c, hc, rfl⟩ := hlexeme
    refine ⟨front, c, rfl, ?_⟩
    have hne : c ≠ '.' := by
      rintro rfl
      exact hpoint (String.toList_inj.mp hcontent)
    simp only [List.mem_cons, List.not_mem_nil, or_false] at hc
    rcases hc with rfl | rfl | rfl | rfl | rfl | rfl
    · exact absurd rfl hne
    all_goals decide

/-- Behind an accepted script that ends with a string or a closing symbol, another script is cut
into the tokens that it has alone, moved by the bytes and lines of the first. It fails where it
fails alone, with the first script counted in what is reported. -/
theorem tokenize_append {source : String} {front : List Token}
    (h : tokenize source = .ok front)
    (hend : ∀ last ∈ front.getLast?,
      last.kind = .string ∨ last.kind = .symbol ∧ last.content ≠ ".") (more : String) :
    (∀ back, tokenize more = .ok back →
      tokenize (source ++ more) = .ok (front ++ back.map
        (Token.moved source.utf8ByteSize (.ofNat (source.toList.count '\n'))))) ∧
    ∀ e, tokenize more = .error e → ∃ e', tokenize (source ++ more) = .error e' ∧
      e'.fault.rootCause =
        e.fault.rootCause.behind (.ofNat (source.toList.count '\n')) front := by
  have hclosed : source.toList = [] ∨ Text.Closed source.toList := by
    cases hl : front.getLast? with
    | none =>
      rw [List.getLast?_eq_none_iff] at hl
      exact .inl ((munching_tokenizeWith h).eq_nil hl)
    | some last => exact .inr (closed_of_last h hl (hend last hl))
  have hwhole : tokenize (source ++ more) =
      ((tokenize more).map fun back => front ++ back.map
        (Token.moved source.utf8ByteSize (.ofNat (source.toList.count '\n')))).mapError
        (LexicalError.moved source.utf8ByteSize (.ofNat (source.toList.count '\n'))
          front.reverse) := by
    obtain ⟨reached, hat, hrest, htokens, hfinish⟩ :=
      Scanner.finish_followedBy (Scanner.at_ofSource source) hclosed h more.toList
    have hstart : (Scanner.ofSource source).followedBy more.toList =
        .ofSource (source ++ more) := by
      simp [Scanner.followedBy, Scanner.ofSource]
    have hreached : reached = (Scanner.ofSource more).moved source.utf8ByteSize
        (.ofNat (source.toList.count '\n')) front.reverse := by
      obtain ⟨position, line, rest, behind⟩ := reached
      obtain ⟨hposition, hline⟩ := hat
      simp only [List.nil_append, Scanner.ofSource, Scanner.tokens] at *
      rw [hposition, hline, hrest, ← htokens, Text.byteSize_eq_utf8ByteSize, String.ofList_toList]
      simp [Scanner.moved, Text.newlines]
    unfold tokenize tokenizeWith
    rw [← hstart, hfinish, hreached, Scanner.finish_moved, List.reverse_reverse]
  constructor
  · intro back hb
    rw [hwhole, hb]
    rfl
  · intro e he
    rw [hwhole, he]
    exact ⟨_, rfl, e.rootCause_moved _ _ _⟩

theorem tokenize_append_literal :
    ∃ front, tokenize "\"A\"\n;" = .ok front ∧
      tokenize ("\"A\"\n;" ++ " 'x'") =
        .ok (front ++ [⟨" ", .whitespace, 5, 6, 2, 2⟩, ⟨"x", .string, 6, 9, 2, 2⟩]) ∧
      ∃ e, tokenize ("\"A\"\n;" ++ "'x") = .error e ∧
        e.fault.rootCause = .unexpectedEnd "unterminated ' region" := by
  have hfront : (tokenize "\"A\"\n;").toOption = some [⟨"A", .string, 0, 3, 1, 1⟩,
      ⟨"\n", .newline, 3, 4, 1, 2⟩, ⟨";", .symbol, 4, 5, 2, 2⟩] := by
    decide +kernel
  have hback : (tokenize " 'x'").toOption =
      some [⟨" ", .whitespace, 0, 1, 1, 1⟩, ⟨"x", .string, 1, 4, 1, 1⟩] := by
    decide +kernel
  have hfault : (match tokenize "'x" with
      | .ok _ => none
      | .error e => some e.fault.rootCause) =
      some (.unexpectedEnd "unterminated ' region") := by
    decide +kernel
  cases h : tokenize "\"A\"\n;" with
  | error e => rw [h] at hfront; cases hfront
  | ok front =>
    rw [h] at hfront
    cases hfront
    refine ⟨_, rfl, ?_, ?_⟩
    · cases hb : tokenize " 'x'" with
      | error e => rw [hb] at hback; cases hback
      | ok back =>
        rw [hb] at hback
        cases hback
        exact (tokenize_append h (by simp) " 'x'").1 _ hb
    · cases he : tokenize "'x" with
      | ok back => rw [he] at hfault; cases hfault
      | error e =>
        rw [he] at hfault
        obtain ⟨e', he', hcause⟩ := (tokenize_append h (by simp) "'x").2 e he
        refine ⟨e', he', ?_⟩
        rw [hcause, Option.some.inj hfault]
        rfl

end DdlCatalog
