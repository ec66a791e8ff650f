import DdlCatalog.Proofs.Layout
import DdlCatalog.Proofs.MunchedPlaces

namespace DdlCatalog

namespace Text

def Recased (text other : List Char) : Prop :=
  text.map Char.toLower = other.map Char.toLower

theorem not_isAlpha_of_isDigit {c : Char} (h : c.isDigit = true) : c.isAlpha = false := by
  have hall : "0123456789".toList.all (!·.isAlpha) = true := by decide
  simpa using List.all_eq_true.mp hall c (Recognizer.mem_digits_of_isDigit h)

theorem not_isAlpha_of_breaksLine {c : Char} (h : BreaksLine c) : c.isAlpha = false := by
  rcases h with rfl | rfl <;> decide

namespace Recased

variable {text other more others : List Char}

theorem symm (h : Recased text other) : Recased other text :=
  Eq.symm h

theorem length_eq (h : Recased text other) : text.length = other.length := by
  simpa using congrArg List.length h

theorem byteSize_eq (h : Recased text other) : byteSize text = byteSize other := by
  rw [← byteSize_map_toLower, h, byteSize_map_toLower]

theorem append (h : Recased text other) (h' : Recased more others) :
    Recased (text ++ more) (other ++ others) := by
  rw [Recased, List.map_append, List.map_append, h, h']

theorem of_append (h : Recased (text ++ more) other) :
    ∃ front back, other = front ++ back ∧ Recased text front ∧ Recased more back := by
  rw [Recased, List.map_append] at h
  obtain ⟨front, back, hother, hfront, hback⟩ := List.map_eq_append_iff.mp h.symm
  exact ⟨front, back, hother, hfront.symm, hback.symm⟩

theorem of_cons {c : Char} (h : Recased (c :: text) other) :
    ∃ d back, other = d :: back ∧ c.toLower = d.toLower ∧ Recased text back := by
  cases other with
  | nil => cases h
  | cons d back =>
    obtain ⟨hc, hback⟩ := List.cons.inj h
    exact ⟨d, back, rfl, hc, hback⟩

theorem of_cons_eq {c : Char} (h : Recased (c :: text) other) (hc : c.isAlpha = false) :
    ∃ back, other = c :: back ∧ Recased text back := by
  obtain ⟨d, back, rfl, hd, hback⟩ := h.of_cons
  obtain rfl := (toLower_eq_iff hc).mp hd.symm
  exact ⟨back, rfl, hback⟩

theorem eq_of_no_letter (h : Recased text other) (ht : ∀ c ∈ text, c.isAlpha = false) :
    text = other := by
  induction text generalizing other with
  | nil => exact (List.map_eq_nil_iff.mp h.symm).symm
  | cons c text ih =>
    obtain ⟨back, rfl, hback⟩ := h.of_cons_eq (ht c List.mem_cons_self)
    rw [ih hback fun d hd => ht d (List.mem_cons_of_mem c hd)]

theorem mem_iff (h : Recased text other) {c : Char} (hc : c.isAlpha = false) :
    c ∈ text ↔ c ∈ other := by
  have hlower : ∀ chars : List Char, c ∈ chars ↔ c.toLower ∈ chars.map Char.toLower := by
    intro chars
    refine ⟨List.mem_map_of_mem, fun hm => ?_⟩
    obtain ⟨d, hd, hsame⟩ := List.mem_map.mp hm
    rwa [← (toLower_eq_iff hc).mp hsame]
  rw [hlower, h, ← hlower]

theorem newlines_eq (h : Recased text other) : newlines text = newlines other := by
  induction text generalizing other with
  | nil => rw [(List.map_eq_nil_iff.mp h.symm : other = [])]
  | cons c text ih =>
    obtain ⟨d, back, rfl, hd, hback⟩ := h.of_cons
    have hbreak : c = '\n' ↔ d = '\n' := by
      rw [← toLower_eq_iff (by decide), hd, toLower_eq_iff (by decide)]
    have hrest : text.count '\n' = back.count '\n' := ih hback
    simp only [newlines, List.count_cons, hrest, beq_iff_eq, hbreak]

theorem prefix_of_prefix {front : List Char} (h : Recased text other) (hp : front <+: text) :
    ∃ recased, recased <+: other ∧ Recased front recased := by
  obtain ⟨back, rfl⟩ := hp
  obtain ⟨recased, rest, rfl, hfront, -⟩ := h.of_append
  exact ⟨recased, List.prefix_append _ _, hfront⟩

theorem prefix_iff {front : List Char} (h : Recased text other)
    (ha : front.all (!·.isAlpha) = true) : front <+: text ↔ front <+: other := by
  have hf : ∀ c ∈ front, c.isAlpha = false := fun c hc => by
    simpa using List.all_eq_true.mp ha c hc
  constructor
  · intro hp
    obtain ⟨recased, hrecased, hsame⟩ := h.prefix_of_prefix hp
    rwa [hsame.eq_of_no_letter hf]
  · intro hp
    obtain ⟨recased, hrecased, hsame⟩ := h.symm.prefix_of_prefix hp
    rwa [hsame.eq_of_no_letter hf]

theorem mem_head?_iff (h : Recased text other) {c : Char} (hc : c.isAlpha = false) :
    c ∈ text.head? ↔ c ∈ other.head? := by
  cases text with
  | nil => rw [(List.map_eq_nil_iff.mp h.symm : other = [])]
  | cons d text =>
    obtain ⟨e, back, rfl, he, -⟩ := h.of_cons
    have hsame : d = c ↔ e = c := by
      rw [← toLower_eq_iff hc, he, toLower_eq_iff hc]
    simpa using hsame

end Recased

end Text

namespace Token

open Text

namespace Kind

variable {words : List String} {kind : Kind}

theorem Lexeme.recased {text other : List Char} (h : kind.Lexeme words text)
    (hr : Recased text other) : kind.Lexeme words other := by
  have hregion : ∀ {opening : List Char}, opening.all (!·.isAlpha) = true →
      (opening <+: text ∧ ∀ c ∈ text, ¬BreaksLine c) →
      opening <+: other ∧ ∀ c ∈ other, ¬BreaksLine c := by
    intro opening ho hopen
    refine ⟨(hr.prefix_iff ho).mp hopen.1, fun c hc hb => hopen.2 c ?_ hb⟩
    exact (hr.mem_iff (not_isAlpha_of_breaksLine hb)).mpr hc
  cases kind with
  | whitespace =>
    have hblank : ∀ c ∈ text, c.isAlpha = false := by
      intro c hc
      rcases h.2 c hc with rfl | rfl <;> decide
    rwa [← hr.eq_of_no_letter hblank]
  | newline => rwa [← hr.eq_of_no_letter fun c hc => not_isAlpha_of_breaksLine (h.2 c hc)]
  | comment => exact hregion (by decide) h
  | string =>
    obtain ⟨quote, inside, hquote, hinside, rfl⟩ := h
    have halpha : quote.isAlpha = false := by
      rcases hquote with rfl | rfl <;> decide
    obtain ⟨back, rfl, hback⟩ := hr.of_cons_eq halpha
    obtain ⟨front, last, rfl, hfront, hlast⟩ := hback.of_append
    obtain rfl := hlast.eq_of_no_letter (by simpa using halpha)
    exact ⟨quote, front, hquote, fun hm => hinside ((hfront.mem_iff halpha).mpr hm), rfl⟩
  | float =>
    obtain ⟨whole, places, hwhole, hplaces, rfl⟩ := h
    have hnumber : ∀ c ∈ whole ++ '.' :: places, c.isAlpha = false := by
      intro c hc
      rcases List.mem_append.mp hc with hc | hc
      · exact not_isAlpha_of_isDigit (hwhole.2 c hc)
      · rcases List.mem_cons.mp hc with rfl | hc
        · decide
        · exact not_isAlpha_of_isDigit (hplaces.2 c hc)
    rw [← hr.eq_of_no_letter hnumber]
    exact ⟨whole, places, hwhole, hplaces, rfl⟩
  | int => rwa [← hr.eq_of_no_letter fun c hc => not_isAlpha_of_isDigit (h.2 c hc)]
  | symbol =>
    obtain ⟨c, hc, rfl⟩ := h
    have hsigns : ['.', ',', '(', ')', ';', '*'].all (!·.isAlpha) = true := by decide
    have hsign : c.isAlpha = false := by simpa using List.all_eq_true.mp hsigns c hc
    rw [← hr.eq_of_no_letter (by simpa using hsign)]
    exact ⟨c, hc, rfl⟩
  | directive => exact hregion (by decide) h
  | keyword =>
    obtain ⟨word, hm, hne, hsame⟩ := h
    refine ⟨word, hm, hne, ?_⟩
    rw [sameLetters_iff, String.toList_ofList] at hsame ⊢
    rw [← hsame, hr]

theorem AppliesTo.recased {text other : List Char} (h : kind.AppliesTo words text)
    (hr : Recased text other) : kind.AppliesTo words other := by
  have hfront : (∃ front, front <+: text ∧ kind.Lexeme words front) →
      ∃ front, front <+: other ∧ kind.Lexeme words front := by
    rintro ⟨front, hp, hf⟩
    obtain ⟨recased, hrecased, hsame⟩ := hr.prefix_of_prefix hp
    exact ⟨recased, hrecased, hf.recased hsame⟩
  cases kind with
  | comment => exact (hr.prefix_iff (by decide)).mp h
  | directive => exact (hr.prefix_iff (by decide)).mp h
  | string => exact h.imp (hr.mem_head?_iff (by decide)).mp (hr.mem_head?_iff (by decide)).mp
  | whitespace | newline | float | int | symbol | keyword => exact hfront h

theorem LongestBefore.recased {span rest span' rest' : List Char}
    (h : kind.LongestBefore words span rest) (hs : Recased span span')
    (hr : Recased rest rest') : kind.LongestBefore words span' rest' where
  lexeme := h.lexeme.recased hs
  longest := by
    intro front hp hf
    obtain ⟨recased, hrecased, hsame⟩ := (hs.append hr).symm.prefix_of_prefix hp
    rw [hsame.length_eq, ← hs.length_eq]
    exact h.longest recased hrecased (hf.recased hsame)
  lineEnd := by
    intro hk
    obtain ⟨c, hc, hb⟩ := h.lineEnd hk
    exact ⟨c, (hr.mem_head?_iff (not_isAlpha_of_breaksLine hb)).mp hc, hb⟩

end Kind

structure Respelled (token other : Token) : Prop where
  kind : token.kind = other.kind
  start : token.start = other.start
  stop : token.stop = other.stop
  firstLine : token.firstLine = other.firstLine
  lastLine : token.lastLine = other.lastLine
  letters : sameLetters token.content other.content = true
  kept : token.kind ≠ .keyword → token.content = other.content

theorem Munched.recased {words : List String} {token : Token}
    {before span rest before' span' rest' : List Char}
    (h : token.Munched words before span rest) (hb : Recased before before')
    (hs : Recased span span') (hr : Recased rest rest')
    (hkept : token.kind ≠ .keyword → span = span') :
    ∃ other : Token, other.Munched words before' span' rest' ∧ token.Respelled other := by
  have hfirst : ∀ kind : Kind, kind.rank < token.kind.rank →
      ¬kind.AppliesTo words (span' ++ rest') := fun kind hlt happlies =>
    h.first kind hlt (happlies.recased (hs.append hr).symm)
  have hplaces : token.kind = .int → ∀ c more, rest' = '.' :: c :: more → c.isDigit = false := by
    rintro hk c more rfl
    obtain ⟨back, rfl, hback⟩ := hr.symm.of_cons_eq (by decide)
    obtain ⟨d, back, rfl, hd, -⟩ := hback.of_cons
    have hdigit := h.noPlaces hk d back rfl
    rw [Bool.eq_false_iff] at hdigit ⊢
    intro hc
    exact hdigit ((toLower_eq_iff (not_isAlpha_of_isDigit hc)).mp hd.symm ▸ hc)
  have hlies := h.lies
  have hnonempty : span' ≠ [] := by
    rintro rfl
    exact hlies.nonempty (List.map_eq_nil_iff.mp hs)
  have hstart : token.start = byteSize before' := by rw [hlies.start, hb.byteSize_eq]
  have hstop : token.stop = token.start + byteSize span' := by rw [hlies.stop, hs.byteSize_eq]
  have hline : token.firstLine = 1 + .ofNat (newlines before') := by
    rw [hlies.firstLine, hb.newlines_eq]
  have hlast : token.lastLine = token.firstLine + .ofNat (newlines span') := by
    rw [hlies.lastLine, hs.newlines_eq]
  by_cases hk : token.kind = .keyword
  · have hcontent : token.content.toList = span := hlies.plain (by simp [hk])
    refine ⟨{ token with content := .ofList span' }, ⟨?_, hfirst, h.cut.recased hs hr, hplaces⟩,
      ⟨rfl, rfl, rfl, rfl, rfl, ?_, fun hne => absurd hk hne⟩⟩
    · refine ⟨hnonempty, hstart, hstop, hline, hlast, fun _ => String.toList_ofList, ?_⟩
      intro hstring
      rw [show token.kind = .string from hstring] at hk
      cases hk
    · rw [sameLetters_iff, String.toList_ofList, hcontent, hs]
  · obtain rfl := hkept hk
    exact ⟨token, ⟨⟨hnonempty, hstart, hstop, hline, hlast, hlies.plain, hlies.quoted⟩, hfirst,
      h.cut.recased hs hr, hplaces⟩, ⟨rfl, rfl, rfl, rfl, rfl, sameLetters_self _, fun _ => rfl⟩⟩

theorem Respelled.text_eq {token other : Token} (h : token.Respelled other) :
    token.text = other.text := by
  rw [text, text, ← h.kind]
  split
  next => exact upper_eq_upper_iff.mpr h.letters
  next hk => exact h.kept hk

theorem readAlike_of_respelled {tokens others : List Token}
    (h : List.Forall₂ Respelled tokens others) : ReadAlike tokens others := by
  induction h with
  | nil => exact .nil
  | @cons a b as bs hab hrest ih =>
    refine .cons hab.kind hab.text_eq ?_ ih
    cases hrest with
    | nil => rfl
    | cons hnext _ =>
      simp only [List.head?_cons, Option.any_some, touches, hab.kind, hab.stop, hnext.kind,
        hnext.start]

theorem significant_respelled {tokens others : List Token}
    (h : List.Forall₂ Respelled tokens others) :
    List.Forall₂ Respelled (significant tokens) (significant others) := by
  refine List.rel_filter (fun {a b} hab => ?_) h
  simp only [isTrivia, hab.kind]

end Token

/-- Behind `before`, two texts have the same letters, and where the case of a letter differs a
keyword lies over it. -/
structure KeywordsRecased (tokens : List Token) (before text other : List Char) : Prop where
  letters : text.map Char.toLower = other.map Char.toLower
  inside : ∀ n : Nat, text[n]? ≠ other[n]? → ∃ token ∈ tokens, token.kind = .keyword ∧
    token.start ≤ Text.byteSize (before ++ text.take n) ∧
    Text.byteSize (before ++ text.take n) < token.stop

namespace KeywordsRecased

variable {token : Token} {tokens : List Token} {before span rest span' rest' : List Char}

theorem span_eq (h : KeywordsRecased (token :: tokens) before (span ++ rest) (span' ++ rest'))
    (hs : Text.Recased span span')
    (hahead : ∀ later ∈ tokens, Text.byteSize (before ++ span) ≤ later.start)
    (hk : token.kind ≠ .keyword) : span = span' := by
  apply List.ext_getElem?
  intro n
  by_contra hdiffer
  have hn : n < span.length := by
    by_contra hlong
    have hlength := hs.length_eq
    apply hdiffer
    rw [List.getElem?_eq_none (by omega), List.getElem?_eq_none (by omega)]
  have hn' : n < span'.length := hs.length_eq ▸ hn
  have hwhole : (span ++ rest)[n]? ≠ (span' ++ rest')[n]? := by
    rwa [List.getElem?_append_left hn, List.getElem?_append_left hn']
  obtain ⟨covering, hm, hkeyword, hstart, -⟩ := h.inside n hwhole
  rw [List.take_append_of_le_length (Nat.le_of_lt hn)] at hstart
  rcases List.mem_cons.mp hm with rfl | hm
  · exact hk hkeyword
  · have hlater := hahead covering hm
    have hpos := Text.byteSize_pos (List.drop_eq_nil_iff.not.mpr (by omega : ¬span.length ≤ n))
    have hspan := congrArg Text.byteSize (List.take_append_drop n span)
    simp only [Text.byteSize_append] at hlater hstart hspan
    omega

theorem tail (h : KeywordsRecased (token :: tokens) before (span ++ rest) (span' ++ rest'))
    (hs : Text.Recased span span') (hlies : token.LiesOn before span) :
    KeywordsRecased tokens (before ++ span) rest rest' where
  letters := by
    have hletters := h.letters
    rw [List.map_append, List.map_append] at hletters
    exact List.append_inj_right hletters (by simpa using hs.length_eq)
  inside := by
    intro n hdiffer
    have hwhole : (span ++ rest)[span.length + n]? ≠ (span' ++ rest')[span.length + n]? := by
      rw [List.getElem?_append_right (by omega), hs.length_eq,
        List.getElem?_append_right (by omega)]
      simpa using hdiffer
    obtain ⟨covering, hm, hkeyword, hstart, hstop⟩ := h.inside _ hwhole
    rw [List.take_length_add_append, ← List.append_assoc] at hstart hstop
    refine ⟨covering, ?_, hkeyword, hstart, hstop⟩
    rcases List.mem_cons.mp hm with rfl | hm
    · rw [hlies.stop, hlies.start] at hstop
      simp only [Text.byteSize_append] at hstop
      omega
    · exact hm

end KeywordsRecased

theorem Munching.recased {words : List String} {before text before' text' : List Char}
    {tokens : List Token} (h : Munching words before text tokens)
    (hb : Text.Recased before before') (hr : KeywordsRecased tokens before text text') :
    ∃ others, Munching words before' text' others ∧
      List.Forall₂ Token.Respelled tokens others := by
  induction h generalizing before' text' with
  | nil =>
    obtain rfl : text' = [] := List.map_eq_nil_iff.mp hr.letters.symm
    exact ⟨[], .nil, .nil⟩
  | @cons before span rest token tokens hmunched hmunching ih =>
    obtain ⟨span', rest', rfl, hs, hrest⟩ := Text.Recased.of_append hr.letters
    have hahead : ∀ later ∈ tokens, Text.byteSize (before ++ span) ≤ later.start := by
      intro later hm
      obtain ⟨front, piece, back, -, hlater⟩ := hmunching.munched_of_mem hm
      rw [hlater.lies.start, Text.byteSize_append _ front]
      exact Nat.le_add_right _ _
    obtain ⟨other, hother, hrespelled⟩ :=
      hmunched.recased hb hs hrest (hr.span_eq hs hahead)
    obtain ⟨others, hothers, hall⟩ := ih (hb.append hs) (hr.tail hs hmunched.lies)
    exact ⟨other :: others, .cons hother hothers, .cons hrespelled hall⟩

/-- The case of keywords does not matter. A script in which only letters of keywords have another
case is cut into the same tokens, but for the case of these letters, and it describes the same
catalogue or fails for the same reason. -/
theorem Schema.ofSource_keyword_case {source other : String} {tokens : List Token}
    (h : tokenize source = .ok tokens)
    (hr : KeywordsRecased tokens [] source.toList other.toList) (origin : Origin) :
    (∃ others, tokenize other = .ok others ∧ List.Forall₂ Token.Respelled tokens others) ∧
      ((∃ schema, ofSource source origin = .ok schema ∧ ofSource other origin = .ok schema) ∨
        ∃ e e', ofSource source origin = .error e ∧ ofSource other origin = .error e' ∧
          e.rootCause.SameButPlace e'.rootCause) := by
  obtain ⟨others, hothers, hall⟩ := (tokenizeWith_eq_ok_iff.mp h).recased rfl hr
  have ho : tokenize other = .ok others := tokenizeWith_eq_ok_iff.mpr hothers
  refine ⟨⟨others, ho, hall⟩, ?_⟩
  have hread := Token.readAlike_of_respelled (Token.significant_respelled hall)
  rw [ofSource_of_tokenize h, ofSource_of_tokenize ho]
  rcases ofTokens_readAlike hread origin origin with
    ⟨e, e', he, he', hobstacle, -⟩ | ⟨schema, hs, horigin, hs'⟩
  · right
    rw [he, he']
    refine ⟨_, _, rfl, rfl, ?_⟩
    have hcause : (e.obstacle.cause e.place).SameButPlace (e'.obstacle.cause e'.place) := by
      rw [hobstacle]
      exact Obstacle.sameButPlace_cause _ _ _
    rwa [← ParseError.rootCause_fault, ← ParseError.rootCause_fault] at hcause
  · left
    have hsame : ofTokens others origin = .ok schema := by rw [hs', ← horigin]
    rw [hs, hsame]
    exact ⟨schema, rfl, rfl⟩

def grantAllTokens : List Token :=
  [⟨"GRANT", .keyword, 0, 5, 1, 1⟩, ⟨" ", .whitespace, 5, 6, 1, 1⟩,
   ⟨"ALL", .keyword, 6, 9, 1, 1⟩, ⟨" ", .whitespace, 9, 10, 1, 1⟩,
   ⟨"TO", .keyword, 10, 12, 1, 1⟩, ⟨" ", .whitespace, 12, 13, 1, 1⟩,
   ⟨"U", .string, 13, 16, 1, 1⟩, ⟨";", .symbol, 16, 17, 1, 1⟩]

theorem tokenize_grantAll : tokenize "GRANT ALL TO \"U\";" = .ok grantAllTokens := by
  have hlisted : ∀ word ∈ ["GRANT", "ALL", "TO"],
      word ∈ Vocabulary.statementWords ++ Vocabulary.privilegeWords ∧ word ≠ "" := by decide
  have hword : ∀ word ∈ ["GRANT", "ALL", "TO"], ∀ rest,
      Cuts .oracle .keyword word.toList word.toList (' ' :: rest) := by
    intro word hm rest
    obtain ⟨hin, hne⟩ := hlisted word hm
    refine Cuts.word_blank (Vocabulary.mem_words_ofList.mpr ⟨?_, hne⟩) rest
    simp only [List.append_assoc, List.mem_append] at hin ⊢
    exact hin.imp id .inl
  have hname : ∀ rest, Cuts .oracle .string ['"', 'U', '"'] ['U'] rest := fun rest =>
    Cuts.name (show '"' ∉ ['U'] by decide)
  have hstop : Cuts .oracle .symbol [';'] [';'] [] := Cuts.symbol (by decide)
  have hstart : Scanner.ofSource "GRANT ALL TO \"U\";" = .reached []
      ['G', 'R', 'A', 'N', 'T', ' ', 'A', 'L', 'L', ' ', 'T', 'O', ' ', '"', 'U', '"', ';'] [] :=
    (Scanner.at_ofSource _).eq_reached
  rw [tokenize, tokenizeWith, hstart]
  refine ((hword "GRANT" (by decide) _).finish_reached (by decide) _ _).trans ?_
  refine ((Cuts.blank (show 'A' ∉ "\t ".toList by decide) _).finish_reached
    (by decide) _ _).trans ?_
  refine ((hword "ALL" (by decide) _).finish_reached (by decide) _ _).trans ?_
  refine ((Cuts.blank (show 'T' ∉ "\t ".toList by decide) _).finish_reached
    (by decide) _ _).trans ?_
  refine ((hword "TO" (by decide) _).finish_reached (by decide) _ _).trans ?_
  refine ((Cuts.blank (show '"' ∉ "\t ".toList by decide) _).finish_reached
    (by decide) _ _).trans ?_
  refine ((hname _).finish_reached (by decide) _ _).trans ?_
  refine (hstop.finish_reached (by decide) _ _).trans ?_
  rw [Scanner.finish_reached_nil]
  exact congrArg Except.ok (by decide)

theorem Schema.ofTokens_grantAll :
    ofTokens grantAllTokens .oracle = .ok ⟨.oracle, .empty, [⟨"ALL", "", "U"⟩], [], []⟩ := by
  let grant : Token := ⟨"GRANT", .keyword, 0, 5, 1, 1⟩
  let body : List Token :=
    [⟨"ALL", .keyword, 6, 9, 1, 1⟩, ⟨"TO", .keyword, 10, 12, 1, 1⟩, ⟨"U", .string, 13, 16, 1, 1⟩]
  let stop : Token := ⟨";", .symbol, 16, 17, 1, 1⟩
  have hkept : grantAllTokens.filter (!·.isTrivia) = grant :: (body ++ [stop]) := rfl
  have hbody : Syntax.Body (body ++ [stop]) body := .mk (by decide) (by decide) rfl
  have hsentence : Syntax.Sentence (grant :: (body ++ [stop])) (.grant body) :=
    .grant (by decide) hbody
  have hscript : Syntax.Script (grant :: (body ++ [stop])) [.grant body] :=
    Syntax.Many.cons hsentence .nil
  rw [ofTokens, ofSignificant, hkept, Grammar.script_eq_ok_iff.mpr hscript]
  rfl

theorem Schema.ofSource_keyword_case_grant :
    let source := "GRANT ALL TO \"U\";"
    let other := "Grant all tO \"U\";"
    ∃ tokens, tokenize source = .ok tokens ∧
      KeywordsRecased tokens [] source.toList other.toList ∧
      ∃ schema, ofSource source .oracle = .ok schema ∧ schema.grants = [⟨"ALL", "", "U"⟩] ∧
        ofSource other .oracle = .ok schema := by
  intro source other
  have hrecased : KeywordsRecased grantAllTokens [] source.toList other.toList := by
    refine ⟨by decide, fun n hdiffer => ?_⟩
    have hall : ∀ n < 17, source.toList[n]? ≠ other.toList[n]? → ∃ token ∈ grantAllTokens,
        token.kind = .keyword ∧ token.start ≤ Text.byteSize ([] ++ source.toList.take n) ∧
          Text.byteSize ([] ++ source.toList.take n) < token.stop := by decide
    refine hall n ?_ hdiffer
    by_contra hlong
    have hlength : source.toList.length = 17 ∧ other.toList.length = 17 := by decide
    apply hdiffer
    rw [List.getElem?_eq_none (by omega), List.getElem?_eq_none (by omega)]
  have hsource : ofSource source .oracle = .ok ⟨.oracle, .empty, [⟨"ALL", "", "U"⟩], [], []⟩ := by
    rw [ofSource_of_tokenize tokenize_grantAll, ofTokens_grantAll]
    rfl
  refine ⟨grantAllTokens, tokenize_grantAll, hrecased, _, hsource, rfl, ?_⟩
  rcases (ofSource_keyword_case tokenize_grantAll hrecased .oracle).2 with
    ⟨schema, hs, hs'⟩ | ⟨e, -, he, -⟩
  · rw [hs', ← hs, hsource]
  · rw [hsource] at he
    cases he

end DdlCatalog
