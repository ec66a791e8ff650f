import DdlCatalog.Proofs.Lexemes
import DdlCatalog.Proofs.TokenTiling

namespace DdlCatalog

def Text.BreaksLine (c : Char) : Prop :=
  c = '\n' ∨ c = '\r'

namespace Token.Kind

/-- The place of a kind in the order in which the lexical rules are tried. -/
def rank : Kind → Nat
  | whitespace => 0
  | newline => 1
  | comment => 2
  | string => 3
  | float => 4
  | int => 5
  | symbol => 6
  | directive => 7
  | keyword => 8

/-- The texts that are lexemes of a kind. The keywords are those of a list, in any letter case. -/
def Lexeme (words : List String) : Kind → List Char → Prop
  | whitespace, text => text ≠ [] ∧ ∀ c ∈ text, c = ' ' ∨ c = '\t'
  | newline, text => text ≠ [] ∧ ∀ c ∈ text, Text.BreaksLine c
  | comment, text => ['-', '-'] <+: text ∧ ∀ c ∈ text, ¬Text.BreaksLine c
  | string, text => ∃ quote inside, (quote = '"' ∨ quote = '\'') ∧ quote ∉ inside ∧
      text = quote :: (inside ++ [quote])
  | float, text => Text.Fraction text
  | int, text => Text.Digits text
  | symbol, text => ∃ c ∈ ['.', ',', '(', ')', ';', '*'], text = [c]
  | directive, text => ['@'] <+: text ∧ ∀ c ∈ text, ¬Text.BreaksLine c
  | keyword, text => ∃ word ∈ words, word ≠ "" ∧
      Text.sameLetters (String.ofList text) word = true

/-- The rule of a kind applies to a text. Where a comment, a string or a directive opens, its rule
applies whether or not the lexeme has an end. -/
def AppliesTo (words : List String) : Kind → List Char → Prop
  | comment, text => ['-', '-'] <+: text
  | string, text => '"' ∈ text.head? ∨ '\'' ∈ text.head?
  | directive, text => ['@'] <+: text
  | kind, text => ∃ front, front <+: text ∧ kind.Lexeme words front

/-- The longest lexeme of a kind in front of `rest`. Comments and directives go up to the end of
their line. -/
structure LongestBefore (words : List String) (kind : Kind) (span rest : List Char) : Prop where
  lexeme : kind.Lexeme words span
  longest : ∀ front, front <+: span ++ rest → kind.Lexeme words front →
    front.length ≤ span.length
  lineEnd : kind = .comment ∨ kind = .directive → ∃ c ∈ rest.head?, Text.BreaksLine c

end Token.Kind

/-- What maximal munch asks of a token over `span`, which stands between `before` and `rest`. -/
structure Token.Munched (words : List String) (token : Token) (before span rest : List Char) :
    Prop where
  lies : token.LiesOn before span
  first : ∀ other : Kind, other.rank < token.kind.rank → ¬other.AppliesTo words (span ++ rest)
  cut : token.kind.LongestBefore words span rest
  noPlaces : token.kind = .int → ∀ c more, rest = '.' :: c :: more → c.isDigit = false

namespace Token.Kind.LongestBefore

variable {words : List String} {span rest : List Char}

theorem of_run {charset : String} {kind : Kind} {extent : Extent} {text : List Char}
    (hk : ∀ text, kind.Lexeme words text ↔ text ≠ [] ∧ ∀ c ∈ text, c ∈ charset.toList)
    (hl : ¬(kind = .comment ∨ kind = .directive))
    (h : Recognizer.run charset text = .ok extent) (hs : extent.span text ≠ []) :
    kind.LongestBefore words (extent.span text) (extent.rest text) where
  lexeme := (hk _).mpr ⟨hs, (Recognizer.run_eq_ok h).1⟩
  longest := fun _ hp hf => length_le_of_isPrefix hp ((hk _).mp hf).2 (Recognizer.run_eq_ok h).2
  lineEnd := fun hkind => absurd hkind hl

theorem of_openedUntil {opening : String} {kind : Kind} {extent : Extent} {text : List Char}
    (ho : opening ≠ "") (hb : ∀ c ∈ opening.toList, c ∉ "\n\r".toList)
    (hk : ∀ text, kind.Lexeme words text ↔
      opening.toList <+: text ∧ ∀ c ∈ text, c ∉ "\n\r".toList)
    (h : Recognizer.openedUntil opening "\n\r" text = .ok extent) (hs : extent.span text ≠ []) :
    kind.LongestBefore words (extent.span text) (extent.rest text) := by
  obtain ⟨inside, hspan, hinside, c, hc, hbreak⟩ := Recognizer.openedUntil_eq_ok ho h hs
  constructor
  · rw [hk, hspan]
    refine ⟨List.prefix_append _ _, fun d hd => ?_⟩
    rcases List.mem_append.mp hd with hd | hd
    · exact hb d hd
    · exact hinside d hd
  · intro front hp hf
    refine length_le_of_isPrefix hp ((hk front).mp hf).2 fun d hd => ?_
    have hsame : c = d := Option.mem_unique hc hd
    exact not_not.mpr (hsame ▸ hbreak)
  · intro _
    exact ⟨c, hc, by simpa [Text.BreaksLine] using hbreak⟩

theorem of_string (h : Kind.string.Lexeme words span) (rest : List Char) :
    Kind.string.LongestBefore words span rest := by
  refine ⟨h, ?_, by simp⟩
  obtain ⟨quote, inside, -, -, rfl⟩ := h
  rintro front hp ⟨other, found, -, hother, rfl⟩
  obtain ⟨back, hb⟩ := hp
  have hsame : other = quote := (List.cons.inj hb).1
  subst hsame
  have hle := Recognizer.length_le_of_quoted hother ⟨back, hb⟩
  simp only [List.length_cons, List.length_append, List.length_nil]
  omega

theorem of_delimited {delimiter : String} {quote : Char} {extent : Extent} {text : List Char}
    (hq : delimiter.toList = [quote]) (hquote : quote = '"' ∨ quote = '\'')
    (h : Recognizer.delimited delimiter false text = .ok extent) (hs : extent.span text ≠ []) :
    Kind.string.LongestBefore words (extent.span text) (extent.rest text) := by
  obtain ⟨hspan, hinside⟩ := Recognizer.delimited_eq_ok hq h hs
  exact of_string ⟨quote, _, hquote, hinside, hspan⟩ _

theorem of_oneOf {extent : Extent} {text : List Char}
    (h : Recognizer.oneOf ".,();*" text = .ok extent) (hs : extent.span text ≠ []) :
    Kind.symbol.LongestBefore words (extent.span text) (extent.rest text) := by
  obtain ⟨c, hc, hspan⟩ := Recognizer.oneOf_eq_ok h hs
  rw [hspan]
  refine ⟨⟨c, hc, rfl⟩, ?_, by simp⟩
  rintro front - ⟨d, -, rfl⟩
  exact Nat.le_refl _

theorem of_decimal {extent : Extent} {text : List Char}
    (h : Recognizer.shape .decimal text = .ok extent) (hs : extent.span text ≠ []) :
    Kind.float.LongestBefore words (extent.span text) (extent.rest text) := by
  obtain ⟨hspan, hrest⟩ := Recognizer.decimal_eq_ok h hs
  exact ⟨hspan, fun _ hp hf => Text.length_le_of_fraction hf hspan hrest hp, by simp⟩

theorem of_anyWord {extent : Extent} {text : List Char}
    (h : Recognizer.anyWord (Vocabulary.ofList words).words true text = .ok extent)
    (hs : extent.span text ≠ []) :
    Kind.keyword.LongestBefore words (extent.span text) (extent.rest text) := by
  obtain ⟨hword, hlongest⟩ := Recognizer.anyWord_ofList_eq_ok h hs
  refine ⟨hword, ?_, by simp⟩
  rintro front hp ⟨word, hm, hne, hsame⟩
  rw [extent.span_append_rest] at hp
  exact hlongest front hp word hm hne hsame

end Token.Kind.LongestBefore

namespace LexicalRule

open Recognizer Token.Kind

variable {words : List String} {text : List Char}

theorem whitespace_lexeme_iff (text : List Char) : whitespace.Lexeme words text ↔
    text ≠ [] ∧ ∀ c ∈ text, c ∈ "\t ".toList := by
  simp [Lexeme, or_comm]

theorem newline_lexeme_iff (text : List Char) : newline.Lexeme words text ↔
    text ≠ [] ∧ ∀ c ∈ text, c ∈ "\n\r".toList := by
  simp [Lexeme, Text.BreaksLine]

theorem int_lexeme_iff (text : List Char) : int.Lexeme words text ↔
    text ≠ [] ∧ ∀ c ∈ text, c ∈ "0123456789".toList := by
  have hall : ∀ c ∈ "0123456789".toList, c.isDigit = true := List.all_eq_true.mp (by decide)
  exact and_congr_right fun _ => forall₂_congr fun c _ =>
    ⟨fun h => mem_digits_of_isDigit h, hall c⟩

theorem longestBefore_of_finds {rule : LexicalRule} {extent : Extent}
    (hm : rule ∈ all (.ofList words)) (h : rule.recognize text = .ok extent)
    (hs : extent.span text ≠ []) :
    rule.kind.LongestBefore words (extent.span text) (extent.rest text) := by
  simp only [all, List.mem_cons, List.not_mem_nil, or_false] at hm
  rcases hm with rfl | rfl | rfl | rfl | rfl | rfl | rfl | rfl | rfl | rfl
  · exact .of_run whitespace_lexeme_iff (by simp) h hs
  · exact .of_run newline_lexeme_iff (by simp) h hs
  · exact .of_openedUntil (by decide) (by simp) (fun _ => by simp [Lexeme, Text.BreaksLine]) h hs
  · exact .of_delimited rfl (.inl rfl) h hs
  · exact .of_delimited rfl (.inr rfl) h hs
  · exact .of_decimal h hs
  · exact .of_run int_lexeme_iff (by simp) h hs
  · exact .of_oneOf h hs
  · exact .of_openedUntil (by decide) (by simp) (fun _ => by simp [Lexeme, Text.BreaksLine]) h hs
  · exact .of_anyWord h hs

theorem not_lexeme_of_passes_run {kind : Token.Kind} {charset : String}
    (hk : ∀ text, kind.Lexeme words text ↔ text ≠ [] ∧ ∀ c ∈ text, c ∈ charset.toList)
    (h : (run charset).Passes text) : ¬∃ front, front <+: text ∧ kind.Lexeme words front := by
  rintro ⟨front, ⟨back, rfl⟩, hf⟩
  obtain ⟨hne, hall⟩ := (hk front).mp hf
  cases front with
  | nil => exact hne rfl
  | cons c cs => exact h.run c rfl (hall c List.mem_cons_self)

theorem not_appliesTo_of_passes {kind : Token.Kind} (hk : kind ≠ .keyword)
    (h : ∀ rule ∈ all (.ofList words), rule.kind = kind → rule.recognize.Passes text) :
    ¬kind.AppliesTo words text := by
  have hpasses : ∀ {recognize : Recognizer}, ⟨kind, recognize⟩ ∈ all (.ofList words) →
      recognize.Passes text := fun hm => h _ hm rfl
  cases kind with
  | whitespace => exact not_lexeme_of_passes_run whitespace_lexeme_iff (hpasses (by simp [all]))
  | newline => exact not_lexeme_of_passes_run newline_lexeme_iff (hpasses (by simp [all]))
  | comment =>
    have hregion : (openedUntil "--" "\n\r").Passes text := hpasses (by simp [all])
    exact hregion.openedUntil (by decide)
  | string =>
    have hname : (delimited "\"" false).Passes text := hpasses (by simp [all])
    have hliteral : (delimited "'" false).Passes text := hpasses (by simp [all])
    exact not_or.mpr ⟨hname.delimited rfl, hliteral.delimited rfl⟩
  | float =>
    have hdecimal : (shape .decimal).Passes text := hpasses (by simp [all])
    rintro ⟨front, hp, hf⟩
    exact hdecimal.decimal hp hf
  | int => exact not_lexeme_of_passes_run int_lexeme_iff (hpasses (by simp [all]))
  | symbol =>
    have hone : (oneOf ".,();*").Passes text := hpasses (by simp [all])
    rintro ⟨front, ⟨back, rfl⟩, c, hc, rfl⟩
    exact hone.oneOf c rfl hc
  | directive =>
    have hregion : (openedUntil "@" "\n\r").Passes text := hpasses (by simp [all])
    exact hregion.openedUntil (by decide)
  | keyword => exact absurd rfl hk

theorem pairwise_rank (vocabulary : Vocabulary) :
    (all vocabulary).Pairwise fun a b => a.kind.rank ≤ b.kind.rank := by
  simp [all, rank]

theorem not_appliesTo_of_earlier {front back : List LexicalRule} {rule : LexicalRule}
    (hrules : all (.ofList words) = front ++ rule :: back)
    (hpasses : ∀ earlier ∈ front, earlier.recognize.Passes text) {other : Token.Kind}
    (hlt : other.rank < rule.kind.rank) : ¬other.AppliesTo words text := by
  refine not_appliesTo_of_passes ?_ fun earlier he hk => ?_
  · rintro rfl
    cases hkind : rule.kind <;> simp [hkind, rank] at hlt
  · have horder := pairwise_rank (.ofList words)
    rw [hrules] at he horder
    rcases List.mem_append.mp he with he | he
    · exact hpasses earlier he
    · have hlater := List.pairwise_cons.mp (List.pairwise_append.mp horder).2.1
      rcases List.mem_cons.mp he with rfl | he
      · rw [hk] at hlt
        omega
      · have hle := hlater.1 earlier he
        rw [hk] at hle
        omega

end LexicalRule

namespace Scanner

theorem passes_of_scan_eq_none {scanner : Scanner} {kind : Token.Kind} {recognize : Recognizer}
    (h : scanner.scan kind recognize = .ok none) : recognize.Passes scanner.rest := by
  unfold scan at h
  split at h
  next => cases h
  next extent hr =>
    split at h
    next hs => exact ⟨extent, hr, hs⟩
    next => cases h

theorem step_eq_some_append {scanner next : Scanner} {rules : List LexicalRule}
    (h : scanner.step rules = .ok (some next)) :
    ∃ front rule back, rules = front ++ rule :: back ∧
      (∀ earlier ∈ front, earlier.recognize.Passes scanner.rest) ∧
      scanner.scan rule.kind rule.recognize = .ok (some next) := by
  induction rules with
  | nil => simp [step] at h
  | cons rule rules ih =>
    unfold step at h
    split at h
    next => simp at h
    next other hs =>
      obtain rfl : other = next := by simpa using h
      exact ⟨[], rule, rules, rfl, by simp, hs⟩
    next hpass =>
      obtain ⟨front, found, back, rfl, hfront, hs⟩ := ih h
      refine ⟨rule :: front, found, back, rfl, fun earlier he => ?_, hs⟩
      rcases List.mem_cons.mp he with rfl | he
      · exact passes_of_scan_eq_none hpass
      · exact hfront earlier he

theorem step_munches {words : List String} {scanner next : Scanner} {before : List Char}
    (hat : scanner.At before)
    (h : scanner.step (LexicalRule.all (.ofList words)) = .ok (some next)) :
    ∃ token span, next.behind = token :: scanner.behind ∧ scanner.rest = span ++ next.rest ∧
      next.At (before ++ span) ∧ token.Munched words before span next.rest := by
  obtain ⟨token, span, hbehind, hlies, hrest, hnext⟩ := step_tiles hat h
  refine ⟨token, span, hbehind, hrest, hnext, ?_⟩
  obtain ⟨front, rule, back, hrules, hpasses, hscan⟩ := step_eq_some_append h
  obtain ⟨extent, hr, hs, rfl⟩ := scan_eq_some hscan
  obtain rfl : scanner.token rule.kind extent = token := (List.cons.inj hbehind).1
  have hspan : extent.span scanner.rest = span :=
    List.append_cancel_right ((extent.span_append_rest scanner.rest).trans hrest)
  have hm : rule ∈ LexicalRule.all (.ofList words) := by simp [hrules]
  have hfirst : ∀ other : Token.Kind, other.rank < rule.kind.rank →
      ¬other.AppliesTo words scanner.rest := fun other hlt =>
    LexicalRule.not_appliesTo_of_earlier hrules hpasses hlt
  refine ⟨hlies, by rwa [← hrest], ?_, ?_⟩
  · rw [← hspan]
    exact LexicalRule.longestBefore_of_finds hm hr hs
  · intro hk c more hpoint
    rw [Bool.eq_false_iff]
    intro hc
    have hint : Text.Digits span := by
      have hlexeme := (LexicalRule.longestBefore_of_finds hm hr hs).lexeme
      rw [hspan, show rule.kind = .int from hk] at hlexeme
      exact hlexeme
    refine hfirst .float (by rw [show rule.kind = .int from hk]; decide) ⟨span ++ ['.', c], ?_, ?_⟩
    · rw [hrest, hpoint]
      exact ⟨more, by simp⟩
    · exact ⟨span, [c], hint, ⟨by simp, by simpa using hc⟩, rfl⟩

end Scanner

/-- Munched tokens one behind the other over a whole text, before which `before` stands. -/
inductive Munching (words : List String) : (before text : List Char) → List Token → Prop
  | nil {before} : Munching words before [] []
  | cons {before span rest token tokens} : token.Munched words before span rest →
      Munching words (before ++ span) rest tokens →
      Munching words before (span ++ rest) (token :: tokens)

namespace Munching

variable {words : List String} {before text : List Char} {tokens : List Token}

theorem munched_of_mem (h : Munching words before text tokens) {token : Token}
    (hm : token ∈ tokens) :
    ∃ front span rest, text = front ++ (span ++ rest) ∧
      token.Munched words (before ++ front) span rest := by
  induction h with
  | nil => cases hm
  | @cons before span rest first tokens hmunched hmunching ih =>
    rcases List.mem_cons.mp hm with rfl | hm
    · exact ⟨[], span, rest, rfl, by rwa [List.append_nil]⟩
    · obtain ⟨front, piece, back, rfl, hpiece⟩ := ih hm
      refine ⟨span ++ front, piece, back, by simp, ?_⟩
      rwa [← List.append_assoc]

/-- The last token is munched out of the end of the text. -/
theorem munched_of_getLast (h : Munching words before text tokens) {last : Token}
    (hl : last ∈ tokens.getLast?) :
    ∃ front span, text = front ++ span ∧ last.Munched words (before ++ front) span [] := by
  induction h with
  | nil => cases hl
  | @cons before span rest token tokens hmunched hmunching ih =>
    cases hmunching with
    | nil =>
      obtain rfl : token = last := by simpa using hl
      exact ⟨[], span, by simp, by rwa [List.append_nil]⟩
    | cons =>
      obtain ⟨front, piece, htext, hpiece⟩ := ih (by simpa using hl)
      refine ⟨span ++ front, piece, by rw [htext]; simp, ?_⟩
      rwa [← List.append_assoc]

theorem eq_nil (h : Munching words before text tokens) (ht : tokens = []) : text = [] := by
  cases h with
  | nil => rfl
  | cons => cases ht

/-- Two runs of one kind would be one longer run. -/
theorem not_both_runs {kind : Token.Kind} {span next rest : List Char}
    (hk : kind = .whitespace ∨ kind = .newline)
    (hspan : kind.LongestBefore words span (next ++ rest)) (hnext : kind.Lexeme words next) :
    False := by
  have hjoin : kind.Lexeme words (span ++ next) ∧ next ≠ [] := by
    rcases hk with rfl | rfl
    · refine ⟨⟨by simp [hspan.lexeme.1], fun c hc => ?_⟩, hnext.1⟩
      rcases List.mem_append.mp hc with hc | hc
      · exact hspan.lexeme.2 c hc
      · exact hnext.2 c hc
    · refine ⟨⟨by simp [hspan.lexeme.1], fun c hc => ?_⟩, hnext.1⟩
      rcases List.mem_append.mp hc with hc | hc
      · exact hspan.lexeme.2 c hc
      · exact hnext.2 c hc
  have hle := hspan.longest (span ++ next) ⟨rest, by simp⟩ hjoin.1
  have hpos := List.length_pos_iff.mpr hjoin.2
  rw [List.length_append] at hle
  omega

theorem isChain (h : Munching words before text tokens) :
    tokens.IsChain fun a b =>
      a.kind = b.kind → a.kind ≠ .whitespace ∧ a.kind ≠ .newline := by
  induction h with
  | nil => exact .nil
  | @cons before span rest token tokens hmunched hmunching ih =>
    refine List.isChain_cons.mpr ⟨fun next hnext hsame => ?_, ih⟩
    cases hmunching with
    | nil => cases hnext
    | cons hmunched' _ =>
      cases hnext
      rw [← not_or]
      exact fun hk => not_both_runs hk hmunched.cut (hsame ▸ hmunched'.cut.lexeme)

end Munching

theorem Scanner.finish_munches {words : List String} {scanner : Scanner} {before : List Char}
    {tokens : List Token} (hat : scanner.At before)
    (h : scanner.finish (LexicalRule.all (.ofList words)) = .ok tokens) :
    ∃ ahead, tokens = scanner.tokens ++ ahead ∧ Munching words before scanner.rest ahead := by
  fun_induction finish (LexicalRule.all (.ofList words)) scanner generalizing before tokens with
  | case1 scanner hr =>
    cases h
    exact ⟨[], by simp, hr ▸ .nil⟩
  | case2 => cases h
  | case3 => cases h
  | case4 scanner hr next hstep ih =>
    obtain ⟨token, span, hbehind, hrest, hnext, hmunched⟩ := step_munches hat hstep
    obtain ⟨ahead, rfl, hmunching⟩ := ih hnext h
    refine ⟨token :: ahead, ?_, hrest ▸ .cons hmunched hmunching⟩
    simp [Scanner.tokens, hbehind]

theorem munching_tokenizeWith {words : List String} {source : String} {tokens : List Token}
    (h : tokenizeWith (.ofList words) source = .ok tokens) :
    Munching words [] source.toList tokens := by
  obtain ⟨ahead, rfl, hmunching⟩ := Scanner.finish_munches (Scanner.at_ofSource source) h
  exact hmunching

/-- Each token of an accepted script is the longest lexeme of its kind where it starts, and no rule
that is tried before applies there. So two runs of white space or of line breaks never touch. -/
theorem tokenizeWith_maximal_munch {words : List String} {source : String} {tokens : List Token}
    (h : tokenizeWith (.ofList words) source = .ok tokens) :
    (∀ token ∈ tokens, ∃ before span rest, source.toList = before ++ (span ++ rest) ∧
      token.Munched words before span rest) ∧
    tokens.IsChain fun a b =>
      a.kind = b.kind → a.kind ≠ .whitespace ∧ a.kind ≠ .newline := by
  have hmunching := munching_tokenizeWith h
  exact ⟨fun token hm => hmunching.munched_of_mem hm, hmunching.isChain⟩

theorem tokenizeWith_maximal_munch_integer :
    ∃ tokens, tokenizeWith (.ofList ["INT", "INTEGER"]) "Integer 1.5" = .ok tokens ∧
      tokens.map (·.kind) = [.keyword, .whitespace, .float] ∧
      ∀ token ∈ tokens, ∃ before span rest, "Integer 1.5".toList = before ++ (span ++ rest) ∧
        token.Munched ["INT", "INTEGER"] before span rest := by
  have horder : Vocabulary.precedes "INT" "INTEGER" = false := by decide +kernel
  have hdistinct : ["INT", "INTEGER"].eraseDups = ["INT", "INTEGER"] := by decide
  have hwords : Vocabulary.ofList ["INT", "INTEGER"] = ⟨["INTEGER", "INT"]⟩ := by
    simp [Vocabulary.ofList, hdistinct, List.mergeSort, horder]
  have hkinds : (tokenizeWith (.ofList ["INT", "INTEGER"]) "Integer 1.5").toOption.map
      (List.map Token.kind) = some [.keyword, .whitespace, .float] := by
    rw [hwords]
    decide +kernel
  cases h : tokenizeWith (.ofList ["INT", "INTEGER"]) "Integer 1.5" with
  | error e => rw [h] at hkinds; cases hkinds
  | ok tokens =>
    rw [h] at hkinds
    exact ⟨tokens, rfl, Option.some.inj hkinds, (tokenizeWith_maximal_munch h).1⟩

end DdlCatalog
