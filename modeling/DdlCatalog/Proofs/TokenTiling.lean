import DdlCatalog.Proofs.Recognition
import Mathlib.Algebra.Group.Nat.Defs
import Mathlib.Data.List.Chain

namespace DdlCatalog

theorem Text.byteSize_eq_utf8ByteSize (cs : List Char) :
    byteSize cs = (String.ofList cs).utf8ByteSize := by
  induction cs with
  | nil => rfl
  | cons c cs ih =>
    rw [byteSize_cons, ih, String.ofList_cons, String.utf8ByteSize_append,
      String.utf8ByteSize_singleton]

/-- A token knows its piece of a source, `before` which that much text stands. The content of a
string leaves its two quotes out. -/
structure Token.LiesOn (token : Token) (before span : List Char) : Prop where
  nonempty : span ≠ []
  start : token.start = Text.byteSize before
  stop : token.stop = token.start + Text.byteSize span
  firstLine : token.firstLine = 1 + UInt32.ofNat (Text.newlines before)
  lastLine : token.lastLine = token.firstLine + UInt32.ofNat (Text.newlines span)
  plain : token.kind ≠ .string → token.content.toList = span
  quoted : token.kind = .string →
    ∃ quote, (quote = '"' ∨ quote = '\'') ∧ span = quote :: (token.content.toList ++ [quote])

/-- Tokens one behind the other over a whole text, before which `before` stands. -/
inductive Tiling : (before text : List Char) → List Token → Prop
  | nil {before} : Tiling before [] []
  | cons {before span rest token tokens} : token.LiesOn before span →
      Tiling (before ++ span) rest tokens → Tiling before (span ++ rest) (token :: tokens)

namespace Tiling

variable {before text : List Char} {tokens : List Token}

theorem start_of_head (h : Tiling before text tokens) {first : Token}
    (hf : first ∈ tokens.head?) : first.start = Text.byteSize before := by
  cases h with
  | nil => cases hf
  | cons hlies _ =>
    cases hf
    exact hlies.start

theorem isChain (h : Tiling before text tokens) :
    tokens.IsChain fun a b => a.stop = b.start := by
  induction h with
  | nil => exact .nil
  | @cons before span rest token tokens hlies htiling ih =>
    refine List.isChain_cons.mpr ⟨fun next hnext => ?_, ih⟩
    have hstart := htiling.start_of_head hnext
    have hstop := hlies.stop
    have hfirst := hlies.start
    rw [Text.byteSize_append] at hstart
    omega

theorem stop_of_getLast (h : Tiling before text tokens) {last : Token}
    (hl : last ∈ tokens.getLast?) : last.stop = Text.byteSize (before ++ text) := by
  induction h with
  | nil => cases hl
  | @cons before span rest token tokens hlies htiling ih =>
    cases htiling with
    | nil =>
      obtain rfl : token = last := by simpa using hl
      have hstop := hlies.stop
      have hstart := hlies.start
      rw [List.append_nil, Text.byteSize_append]
      omega
    | cons =>
      rw [← List.append_assoc]
      exact ih (by simpa using hl)

theorem lies_of_mem (h : Tiling before text tokens) {token : Token} (hm : token ∈ tokens) :
    ∃ front span back, text = front ++ (span ++ back) ∧ token.LiesOn (before ++ front) span := by
  induction h with
  | nil => cases hm
  | @cons before span rest first tokens hlies htiling ih =>
    rcases List.mem_cons.mp hm with rfl | hm
    · exact ⟨[], span, rest, rfl, by rwa [List.append_nil]⟩
    · obtain ⟨front, piece, back, rfl, hpiece⟩ := ih hm
      refine ⟨span ++ front, piece, back, by simp, ?_⟩
      rwa [← List.append_assoc]

end Tiling

theorem Token.LiesOn.toNat_lines {token : Token} {before span : List Char}
    (h : token.LiesOn before span) (hn : Text.newlines (before ++ span) < 2 ^ 32 - 1) :
    token.firstLine.toNat = 1 + Text.newlines before ∧
      token.lastLine.toNat = token.firstLine.toNat + Text.newlines span := by
  rw [Text.newlines_append] at hn
  have hfirst : token.firstLine.toNat = 1 + Text.newlines before := by
    rw [h.firstLine, UInt32.toNat_add, UInt32.toNat_ofNat']
    simp only [UInt32.toNat_one]
    omega
  refine ⟨hfirst, ?_⟩
  rw [h.lastLine, UInt32.toNat_add, UInt32.toNat_ofNat', hfirst]
  omega

namespace LexicalRule

open Recognizer

theorem content_of_recognize {vocabulary : Vocabulary} {rule : LexicalRule}
    (hm : rule ∈ all vocabulary) {text : List Char} {extent : Extent}
    (h : rule.recognize text = .ok extent) (hs : extent.span text ≠ []) :
    (rule.kind ≠ .string ∧ extent.content text = extent.span text) ∨
      rule.kind = .string ∧ ∃ quote, (quote = '"' ∨ quote = '\'') ∧
        extent.span text = quote :: (extent.content text ++ [quote]) := by
  have plain : ∀ {recognize : Recognizer}, Plain recognize → recognize text = .ok extent →
      extent.content text = extent.span text :=
    fun hp hr => Extent.content_of_margin (hp hr) text
  simp only [all, List.mem_cons, List.not_mem_nil, or_false] at hm
  rcases hm with rfl | rfl | rfl | rfl | rfl | rfl | rfl | rfl | rfl | rfl
  · exact .inl ⟨by simp, plain (plain_shape _) h⟩
  · exact .inl ⟨by simp, plain (plain_shape _) h⟩
  · exact .inl ⟨by simp, plain (plain_openedUntil _ _) h⟩
  · exact .inr ⟨rfl, '"', .inl rfl, (delimited_eq_ok rfl h hs).1⟩
  · exact .inr ⟨rfl, '\'', .inr rfl, (delimited_eq_ok rfl h hs).1⟩
  · exact .inl ⟨by simp, plain (plain_shape _) h⟩
  · exact .inl ⟨by simp, plain (plain_shape _) h⟩
  · exact .inl ⟨by simp, plain (plain_oneOf _) h⟩
  · exact .inl ⟨by simp, plain (plain_openedUntil _ _) h⟩
  · exact .inl ⟨by simp, plain (plain_anyWord _ _) h⟩

end LexicalRule

namespace Scanner

structure At (scanner : Scanner) (before : List Char) : Prop where
  position : scanner.position = Text.byteSize before
  line : scanner.line = 1 + UInt32.ofNat (Text.newlines before)

theorem At.advance {scanner : Scanner} {before : List Char} (h : scanner.At before)
    (kind : Token.Kind) (extent : Extent) :
    (scanner.advance kind extent).At (before ++ extent.span scanner.rest) := by
  obtain ⟨hposition, hline⟩ := h
  constructor
  · simp [Scanner.advance, token, Token.ofSpan, hposition]
  · simp [Scanner.advance, token, Token.ofSpan, hline, UInt32.ofNat_add, UInt32.add_assoc]

theorem step_tiles {vocabulary : Vocabulary} {scanner next : Scanner} {before : List Char}
    (hat : scanner.At before) (h : scanner.step (LexicalRule.all vocabulary) = .ok (some next)) :
    ∃ token span, next.behind = token :: scanner.behind ∧ token.LiesOn before span ∧
      scanner.rest = span ++ next.rest ∧ next.At (before ++ span) := by
  obtain ⟨rule, hm, hscan⟩ := step_eq_some h
  obtain ⟨extent, hr, hs, rfl⟩ := scan_eq_some hscan
  refine ⟨scanner.token rule.kind extent, extent.span scanner.rest, rfl, ?_,
    (extent.span_append_rest scanner.rest).symm, ?_⟩
  · refine ⟨hs, hat.position, rfl, hat.line, rfl, fun hk => ?_, fun hk => ?_⟩
    · rcases LexicalRule.content_of_recognize hm hr hs with ⟨_, hc⟩ | ⟨hk', _⟩
      · simpa [token, Token.ofSpan] using hc
      · exact absurd hk' hk
    · rcases LexicalRule.content_of_recognize hm hr hs with ⟨hk', _⟩ | ⟨_, hq⟩
      · exact absurd hk hk'
      · simpa [token, Token.ofSpan] using hq
  · exact hat.advance rule.kind extent

theorem finish_tiles {vocabulary : Vocabulary} {scanner : Scanner} {before : List Char}
    {tokens : List Token} (hat : scanner.At before)
    (h : scanner.finish (LexicalRule.all vocabulary) = .ok tokens) :
    ∃ ahead, tokens = scanner.tokens ++ ahead ∧ Tiling before scanner.rest ahead := by
  fun_induction finish (LexicalRule.all vocabulary) scanner generalizing before tokens with
  | case1 scanner hr =>
    cases h
    exact ⟨[], by simp, hr ▸ .nil⟩
  | case2 => cases h
  | case3 => cases h
  | case4 scanner hr next hstep ih =>
    obtain ⟨token, span, hbehind, hlies, hrest, hnext⟩ := step_tiles hat hstep
    obtain ⟨ahead, rfl, htiling⟩ := ih hnext h
    refine ⟨token :: ahead, ?_, hrest ▸ .cons hlies htiling⟩
    simp [Scanner.tokens, hbehind]

theorem at_ofSource (source : String) : (ofSource source).At [] :=
  ⟨rfl, rfl⟩

end Scanner

theorem tiling_tokenizeWith {vocabulary : Vocabulary} {source : String} {tokens : List Token}
    (h : tokenizeWith vocabulary source = .ok tokens) : Tiling [] source.toList tokens := by
  obtain ⟨ahead, rfl, htiling⟩ := Scanner.finish_tiles (Scanner.at_ofSource source) h
  exact htiling

/-- The tokens of an accepted script lie one behind the other from its first byte to its last.
Each covers a piece of whole characters, which is its content but for the quotes of a string, and
its lines are those of the piece as long as 32 bits can count them. -/
theorem tokenizeWith_partitions {vocabulary : Vocabulary} {source : String} {tokens : List Token}
    (h : tokenizeWith vocabulary source = .ok tokens) :
    (tokens = [] → source = "") ∧ (∀ first ∈ tokens.head?, first.start = 0) ∧
      tokens.IsChain (fun a b => a.stop = b.start) ∧
      (∀ last ∈ tokens.getLast?, last.stop = source.utf8ByteSize) ∧
      ∀ token ∈ tokens, token.start < token.stop ∧
        ∃ before span after : String, source = before ++ (span ++ after) ∧
          token.start = before.utf8ByteSize ∧ token.stop = (before ++ span).utf8ByteSize ∧
          (token.kind ≠ .string → span = token.content) ∧
          (token.kind = .string →
            ∃ quote, (quote = "\"" ∨ quote = "'") ∧ span = quote ++ token.content ++ quote) ∧
          (source.toList.count '\n' < 2 ^ 32 - 1 →
            token.firstLine.toNat = 1 + before.toList.count '\n' ∧
            token.lastLine.toNat = token.firstLine.toNat + span.toList.count '\n') := by
  have htiling := tiling_tokenizeWith h
  refine ⟨?_, fun first hf => htiling.start_of_head hf, htiling.isChain, ?_, ?_⟩
  · rintro rfl
    generalize hs : source.toList = text at htiling
    cases htiling
    exact String.toList_eq_nil_iff.mp hs
  · intro last hl
    rw [htiling.stop_of_getLast hl, List.nil_append, Text.byteSize_eq_utf8ByteSize,
      String.ofList_toList]
  · intro token hm
    obtain ⟨before, span, after, hs, hlies⟩ := htiling.lies_of_mem hm
    rw [List.nil_append] at hlies
    have hstart := hlies.start
    have hstop := hlies.stop
    have hpos := Text.byteSize_pos hlies.nonempty
    refine ⟨by omega, .ofList before, .ofList span, .ofList after, ?_, ?_, ?_, ?_, ?_, ?_⟩
    · rw [← String.ofList_append, ← String.ofList_append, ← hs, String.ofList_toList]
    · rw [hstart, Text.byteSize_eq_utf8ByteSize]
    · rw [hstop, hstart, String.utf8ByteSize_append, Text.byteSize_eq_utf8ByteSize,
        Text.byteSize_eq_utf8ByteSize]
    · intro hk
      rw [← hlies.plain hk, String.ofList_toList]
    · intro hk
      obtain ⟨quote, hq, hspan⟩ := hlies.quoted hk
      refine ⟨String.singleton quote, ?_, ?_⟩
      · rcases hq with rfl | rfl
        · exact .inl rfl
        · exact .inr rfl
      · rw [hspan, String.ofList_cons, String.ofList_append, String.ofList_toList,
          String.singleton_eq_ofList, String.append_assoc]
    · intro hn
      rw [String.toList_ofList, String.toList_ofList]
      apply hlies.toNat_lines
      rw [hs, ← List.append_assoc, List.count_append] at hn
      exact Nat.lt_of_le_of_lt (Nat.le_add_right _ _) hn

theorem tokenizeWith_partitions_three_tokens :
    ∃ tokens, tokenizeWith ⟨["T"]⟩ "T '\n'" = .ok tokens ∧ tokens.length = 3 ∧
      tokens.IsChain (fun a b => a.stop = b.start) ∧
      ∀ last ∈ tokens.getLast?, last.stop = "T '\n'".utf8ByteSize := by
  have hlength : (tokenizeWith ⟨["T"]⟩ "T '\n'").toOption.map List.length = some 3 := by
    decide +kernel
  cases h : tokenizeWith ⟨["T"]⟩ "T '\n'" with
  | error e => rw [h] at hlength; cases hlength
  | ok tokens =>
    rw [h] at hlength
    obtain ⟨_, _, hchain, hlast, _⟩ := tokenizeWith_partitions h
    exact ⟨tokens, rfl, Option.some.inj hlength, hchain, hlast⟩

end DdlCatalog
