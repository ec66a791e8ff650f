import DdlCatalog.Proofs.ColumnMarks
import DdlCatalog.Proofs.MunchedPlaces

namespace DdlCatalog

namespace Text

theorem eq_of_byteSize_eq {front other text : List Char} (hf : front <+: text)
    (ho : other <+: text) (h : byteSize front = byteSize other) : front = other := by
  have hlength := Nat.le_antisymm (length_le_of_byteSize_le hf ho h.le)
    (length_le_of_byteSize_le ho hf h.ge)
  exact (List.prefix_of_prefix_length_le hf ho hlength.le).eq_of_length hlength

end Text

namespace Token

open Syntax

/-- The token covers its content between two characters `quote` of the source. -/
def InQuotes (token : Token) (quote : Char) (source : String) : Prop :=
  Text.between token.start token.stop source.toList = quote :: (token.content.toList ++ [quote])

/-- The tokens cover one literal of the source, whose text is `text`: they stand in the same
quotes, and so does the text, with each quote of its own doubled. -/
def OneLiteral (tokens : List Token) (text : String) (source : String) : Prop :=
  ∃ quote, (∀ token ∈ tokens, token.InQuotes quote source) ∧
    ∀ first ∈ tokens.head?, ∀ last ∈ tokens.getLast?,
      Text.between first.start last.stop source.toList = Text.enclosed quote text.toList

variable {source : String} {tokens strings : List Token} {quote : Char}

theorem exists_quote_of_mem (h : tokenize source = .ok tokens) {token : Token}
    (hm : token ∈ tokens) (hk : token.kind = .string) :
    ∃ quote before after, quote ∉ token.content.toList ∧
      source.toList = before ++ (quote :: (token.content.toList ++ [quote]) ++ after) ∧
      token.start = Text.byteSize before ∧
      token.stop = Text.byteSize (before ++ quote :: (token.content.toList ++ [quote])) := by
  obtain ⟨before, span, after, hsource, hmunched⟩ := (munching_tokenizeWith h).munched_of_mem hm
  rw [List.nil_append] at hmunched
  -- the lexeme has no quote inside, and the place of the token says that the inside is its content
  obtain ⟨quote, inside, hinside, hspan⟩ : ∃ quote inside,
      quote ∉ inside ∧ span = quote :: (inside ++ [quote]) := by
    have hlexeme := hmunched.cut.lexeme
    rw [hk] at hlexeme
    obtain ⟨quote, inside, -, hinside, hspan⟩ := hlexeme
    exact ⟨quote, inside, hinside, hspan⟩
  obtain ⟨other, -, hcontent⟩ := hmunched.lies.quoted hk
  obtain rfl : token.content.toList = inside := by
    rw [hcontent] at hspan
    obtain ⟨-, hrest⟩ := List.cons.inj hspan
    exact (List.append_inj' hrest rfl).1
  refine ⟨quote, before, after, hinside, ?_, hmunched.lies.start, ?_⟩
  · rw [hsource, hspan]
  · rw [hmunched.lies.stop, hmunched.lies.start, ← hspan, Text.byteSize_append]

theorem InQuotes.covers (h : tokenize source = .ok tokens) {token : Token} (hm : token ∈ tokens)
    (hk : token.kind = .string) (hq : token.InQuotes quote source) :
    ∃ before after,
      source.toList = before ++ (Text.enclosed quote token.content.toList ++ after) ∧
      token.start = Text.byteSize before ∧
      token.stop = Text.byteSize (before ++ Text.enclosed quote token.content.toList) := by
  obtain ⟨own, before, after, hown, hsource, hstart, hstop⟩ := exists_quote_of_mem h hm hk
  rw [InQuotes, hstart, hstop, hsource, Text.between_append] at hq
  obtain rfl : own = quote := (List.cons.inj hq).1
  rw [← Text.enclosed_of_not_mem hown] at hsource hstop
  exact ⟨before, after, hsource, hstart, hstop⟩

theorem covers_literal (h : tokenize source = .ok tokens) (hne : strings ≠ [])
    (hm : ∀ token ∈ strings, token ∈ tokens) (ht : Touching strings)
    (hq : ∀ token ∈ strings, token.InQuotes quote source) :
    ∃ before after literal,
      literal = Text.enclosed quote (joined strings (.singleton quote)).toList ∧
      source.toList = before ++ (literal ++ after) ∧
      (∀ first ∈ strings.head?, first.start = Text.byteSize before) ∧
      ∀ last ∈ strings.getLast?, last.stop = Text.byteSize (before ++ literal) := by
  induction strings with
  | nil => exact absurd rfl hne
  | cons first others ih =>
    obtain ⟨hmfirst, hmothers⟩ := List.forall_mem_cons.mp hm
    obtain ⟨hqfirst, hqothers⟩ := List.forall_mem_cons.mp hq
    obtain ⟨before, after, hsource, hstart, hstop⟩ :=
      hqfirst.covers h hmfirst (ht.1 first List.mem_cons_self)
    have hhead : ∀ token ∈ (first :: others).head?, token.start = Text.byteSize before := by
      rintro _ ⟨rfl⟩
      exact hstart
    cases others with
    | nil =>
      refine ⟨before, after, _, by simp [joined], hsource, hhead, ?_⟩
      rintro _ ⟨rfl⟩
      exact hstop
    | cons second rest =>
      obtain ⟨-, htouch, htothers⟩ := touching_cons_cons.mp ht
      obtain ⟨before', after', literal, hliteral, hsource', hstart', hstop'⟩ :=
        ih (List.cons_ne_nil _ _) hmothers htothers hqothers
      -- the other strings begin where the first one ends
      obtain rfl : before' = before ++ Text.enclosed quote first.content.toList := by
        refine Text.eq_of_byteSize_eq ⟨_, hsource'.symm⟩ ⟨after, ?_⟩ ?_
        · rw [hsource, List.append_assoc]
        · rw [← hstop, htouch, hstart' second rfl]
      rw [List.append_assoc] at hsource' hstop'
      rw [← List.append_assoc (Text.enclosed _ _)] at hsource'
      refine ⟨before, after', _, ?_, hsource', hhead, fun last hlast => ?_⟩
      · rw [joined_cons_cons, String.toList_append, String.toList_append, hliteral,
          ← Text.enclosed_append_quote]
        simp
      · rw [List.getLast?_cons_cons] at hlast
        exact hstop' last hlast

theorem joined_ne_of_ne {a b : Char} (hab : a ≠ b) (hlen : 2 ≤ strings.length) :
    joined strings (.singleton a) ≠ joined strings (.singleton b) := by
  match strings, hlen with
  | first :: second :: rest, _ =>
    intro h
    rw [joined_cons_cons, joined_cons_cons, ← String.toList_inj] at h
    simp only [String.toList_append, List.append_assoc] at h
    have htail := List.append_cancel_left h
    simp [hab] at htail

/-- Two or more joined strings cover one literal of the joined text exactly when all of them stand
in single quotes. -/
theorem oneLiteral_joined_iff (h : tokenize source = .ok tokens) (hlen : 2 ≤ strings.length)
    (hm : ∀ token ∈ strings, token ∈ tokens) (ht : Touching strings) :
    OneLiteral strings (joined strings "'") source ↔
      ∀ token ∈ strings, token.InQuotes '\'' source := by
  have hne : strings ≠ [] := by
    rintro rfl
    simp at hlen
  have hbetween : ∀ quote, (∀ token ∈ strings, token.InQuotes quote source) →
      ∀ first ∈ strings.head?, ∀ last ∈ strings.getLast?,
        Text.between first.start last.stop source.toList =
          Text.enclosed quote (joined strings (.singleton quote)).toList := by
    intro quote hq first hfirst last hlast
    obtain ⟨before, after, literal, rfl, hsource, hstart, hstop⟩ := covers_literal h hne hm ht hq
    rw [hstart first hfirst, hstop last hlast, hsource, Text.between_append]
  constructor
  · rintro ⟨quote, hq, hspan⟩
    have hfirst := List.head?_eq_some_head hne
    have hlast := List.getLast?_eq_some_getLast hne
    have henclosed := (hspan _ hfirst _ hlast).symm.trans (hbetween quote hq _ hfirst _ hlast)
    have hjoined := String.toList_inj.mp (Text.enclosed_injective quote henclosed)
    by_cases hquote : quote = '\''
    · exact hquote ▸ hq
    · exact absurd hjoined (joined_ne_of_ne (Ne.symm hquote) hlen)
  · exact fun hq => ⟨'\'', hq, hbetween '\'' hq⟩

end Token

namespace Syntax

/-- Among the tokens, `strings` are the value of a default clause or the text of a comment, and
`text` is recorded for them. -/
inductive Joins (tokens strings : List Token) (text : String) : Prop
  | default {before word after} : tokens = before ++ (word :: strings ++ after) →
      Default (word :: strings) (some text) → Joins tokens strings text
  | comment {before front is after comment} :
      tokens = before ++ (front ++ is :: strings ++ after) → is.isKeyword "IS" →
      Comment.ofBody? (front ++ is :: strings) = some comment → comment.text = text →
      Token.literal? strings = some text → Joins tokens strings text

variable {tokens strings : List Token} {text : String}

theorem Joins.mem (h : Joins tokens strings text) : ∀ token ∈ strings, token ∈ tokens := by
  intro token hm
  cases h with
  | default htokens _ => simp [htokens, hm]
  | comment htokens _ _ _ _ => simp [htokens, hm]

theorem Joins.touching (h : Joins tokens strings text) (hlen : 2 ≤ strings.length) :
    Touching strings ∧ Token.joined strings "'" = text := by
  cases h with
  | default _ hdefault =>
    cases hdefault with
    | literal _ _ _ htouching => exact ⟨htouching, rfl⟩
    | number _ _ => simp at hlen
    | keyword _ _ => simp at hlen
  | comment _ _ _ _ hliteral => exact (Token.literal?_eq_some_iff.mp hliteral).2

theorem exists_joins_of_ofBody? {before body after : List Token} {comment : Comment}
    (htokens : tokens = before ++ (body ++ after)) (h : Comment.ofBody? body = some comment) :
    ∃ strings, Joins tokens strings comment.text := by
  have hbody := h
  cases body with
  | nil => cases h
  | cons opening rest =>
    simp only [Comment.ofBody?] at h
    split at h
    next => cases h
    next hon =>
      split at h
      next => cases h
      next length hfind =>
        obtain ⟨target, is, strings, hrest, rfl, -, his⟩ := findIdx?_eq_some_iff_split.mp hfind
        split at h
        next => cases h
        next =>
          obtain ⟨text, hliteral, rfl⟩ := Option.map_eq_some_iff.mp h
          have hstrings : (rest.dropWhile Comment.inKind).drop (target.length + 1) = strings := by
            rw [hrest, ← List.drop_drop, List.drop_left, List.drop_one, List.tail_cons]
          have hsplit : opening :: rest =
              (opening :: (rest.takeWhile Comment.inKind ++ target)) ++ is :: strings := by
            rw [List.cons_append, List.append_assoc, ← hrest, List.takeWhile_append_dropWhile]
          rw [hsplit] at htokens hbody
          rw [hstrings] at hliteral
          exact ⟨strings, .comment htokens his hbody rfl hliteral⟩

theorem Default.exists_cons {value : List Token} (h : Default value (some text)) :
    ∃ word strings, value = word :: strings := by
  cases h with
  | literal => exact ⟨_, _, rfl⟩
  | number => exact ⟨_, _, rfl⟩
  | keyword => exact ⟨_, _, rfl⟩

theorem Script.exists_body {statements : List Statement} (h : Script tokens statements)
    {body : List Token} (hm : .comment body ∈ statements) :
    ∃ before after, tokens = before ++ (body ++ after) := by
  obtain ⟨front, piece, back, rfl, hsentence⟩ := Many.of_mem h hm
  cases hsentence with
  | @comment word rest _ hword hbody =>
    cases hbody with
    | @mk _ stop hlen hno hstop => exact ⟨front ++ [word], stop :: back, by simp⟩

end Syntax

namespace Schema

theorem mem_comments_ofStatements {origin : Origin} {statements : List Statement}
    {comment : Comment} (h : comment ∈ (ofStatements origin statements).comments) :
    ∃ body, Statement.comment body ∈ statements ∧ Comment.ofBody? body = some comment := by
  induction statements using List.reverseRecOn with
  | nil => simp [ofStatements, empty] at h
  | append_singleton statements latest ih =>
    rw [ofStatements_concat] at h
    have hearlier : comment ∈ (ofStatements origin statements).comments →
        ∃ body, Statement.comment body ∈ statements ++ [latest] ∧
          Comment.ofBody? body = some comment := by
      intro hm
      obtain ⟨body, hbody, hcomment⟩ := ih hm
      exact ⟨body, List.mem_append_left _ hbody, hcomment⟩
    cases latest with
    | comment body =>
      rcases List.mem_append.mp h with hm | hm
      · exact hearlier hm
      · exact ⟨body, by simp, Option.mem_toList.mp hm⟩
    | _ => exact hearlier h

/-- What an accepted script records as default values and as texts of comments stands in it. Where
two or more strings are joined for that, they are one literal of the script exactly when all of
them stand in single quotes. -/
theorem joins_ofSource {source : String} {origin : Origin} {schema : Schema}
    (h : ofSource source origin = .ok schema) :
    ∃ tokens, tokenize source = .ok tokens ∧
      (∀ comment ∈ schema.comments,
        ∃ strings, Syntax.Joins (tokens.filter (!·.isTrivia)) strings comment.text) ∧
      (∀ full name table column text, schema.table? full = some table →
        table.column? name = some column → column.defaultValue = some text →
        ∃ strings, Syntax.Joins (tokens.filter (!·.isTrivia)) strings text) ∧
      ∀ strings text, Syntax.Joins (tokens.filter (!·.isTrivia)) strings text →
        2 ≤ strings.length → (Token.OneLiteral strings text source ↔
          ∀ token ∈ strings, token.InQuotes '\'' source) := by
  obtain ⟨tokens, ht, hs⟩ := ofSource_eq_ok_iff.mp h
  refine ⟨tokens, ht, ?_, ?_, ?_⟩
  · intro comment hm
    obtain ⟨statements, hscript, rfl⟩ := exists_script_of_ofTokens hs
    obtain ⟨body, hbody, hcomment⟩ := mem_comments_ofStatements hm
    obtain ⟨before, after, hsplit⟩ := (Grammar.script_eq_ok_iff.mp hscript).exists_body hbody
    exact Syntax.exists_joins_of_ofBody? hsplit hcomment
  · intro full name table column text htable hcolumn hvalue
    obtain ⟨list, columns, front, last, before, piece, after, hlist, -, rfl, hpiece, rfl⟩ :=
      exists_definition_of_column? hs htable hcolumn
    obtain ⟨first, rest, hsplit⟩ := hlist.exists_piece
    cases hpiece with
    | @mk title type value marks spelled default said hk htype hdefault hmarks =>
      obtain ⟨-, -, hframe, -⟩ := Column.foldl_mark_frame
        { Column.plain title.content spelled with defaultValue := default } said
      obtain rfl : default = some text := hframe.symm.trans hvalue
      obtain ⟨word, strings, rfl⟩ := hdefault.exists_cons
      have hpiece : tokens.filter (!·.isTrivia) = (first ++ before ++ title :: type) ++
          (word :: strings ++ (marks ++ (after ++ rest))) := by
        rw [hsplit]
        simp
      exact ⟨strings, .default hpiece hdefault⟩
  · intro strings text hjoins hlen
    obtain ⟨htouching, rfl⟩ := hjoins.touching hlen
    exact Token.oneLiteral_joined_iff ht hlen
      (fun token hm => List.mem_of_mem_filter (hjoins.mem token hm)) htouching

end Schema

def doubleQuotedTokens : List Token :=
  [⟨"COMMENT", .keyword, 0, 7, 1, 1⟩, ⟨" ", .whitespace, 7, 8, 1, 1⟩,
   ⟨"ON", .keyword, 8, 10, 1, 1⟩, ⟨" ", .whitespace, 10, 11, 1, 1⟩,
   ⟨"TABLE", .keyword, 11, 16, 1, 1⟩, ⟨" ", .whitespace, 16, 17, 1, 1⟩,
   ⟨"T", .string, 17, 20, 1, 1⟩, ⟨" ", .whitespace, 20, 21, 1, 1⟩,
   ⟨"IS", .keyword, 21, 23, 1, 1⟩, ⟨" ", .whitespace, 23, 24, 1, 1⟩,
   ⟨"a", .string, 24, 27, 1, 1⟩, ⟨"b", .string, 27, 30, 1, 1⟩, ⟨";", .symbol, 30, 31, 1, 1⟩]

theorem tokenize_doubleQuoted :
    tokenize "COMMENT ON TABLE \"T\" IS \"a\"\"b\";" = .ok doubleQuotedTokens := by
  have hlisted : ∀ word ∈ ["COMMENT", "ON", "TABLE", "IS"], word ∈ Vocabulary.oracle.words := by
    have hall : ∀ word ∈ ["COMMENT", "ON", "TABLE", "IS"], word ∈ Vocabulary.statementWords ++
        Vocabulary.privilegeWords ++ Vocabulary.typeWords ++ Vocabulary.columnWords ++
        Vocabulary.storageWords ∧ word ≠ "" := by decide
    exact fun word hw => Vocabulary.mem_words_ofList.mpr (hall word hw)
  have hname : ∀ c, c ≠ '"' → ∀ rest, Cuts .oracle .string ['"', c, '"'] [c] rest :=
    fun c hc rest => Cuts.name (show '"' ∉ [c] by simpa using Ne.symm hc)
  have hstop : Cuts .oracle .symbol [';'] [';'] [] := Cuts.symbol (by decide)
  have hstart : Scanner.ofSource "COMMENT ON TABLE \"T\" IS \"a\"\"b\";" = .reached []
      ['C', 'O', 'M', 'M', 'E', 'N', 'T', ' ', 'O', 'N', ' ', 'T', 'A', 'B', 'L', 'E', ' ',
       '"', 'T', '"', ' ', 'I', 'S', ' ', '"', 'a', '"', '"', 'b', '"', ';'] [] :=
    (Scanner.at_ofSource _).eq_reached
  rw [tokenize, tokenizeWith, hstart]
  refine ((Cuts.word_blank (hlisted "COMMENT" (by decide)) _).finish_reached
    (by decide) _ _).trans ?_
  refine ((Cuts.blank (show 'O' ∉ "\t ".toList by decide) _).finish_reached
    (by decide) _ _).trans ?_
  refine ((Cuts.word_blank (hlisted "ON" (by decide)) _).finish_reached (by decide) _ _).trans ?_
  refine ((Cuts.blank (show 'T' ∉ "\t ".toList by decide) _).finish_reached
    (by decide) _ _).trans ?_
  refine ((Cuts.word_blank (hlisted "TABLE" (by decide)) _).finish_reached (by decide) _ _).trans ?_
  refine ((Cuts.blank (show '"' ∉ "\t ".toList by decide) _).finish_reached
    (by decide) _ _).trans ?_
  refine ((hname 'T' (by decide) _).finish_reached (by decide) _ _).trans ?_
  refine ((Cuts.blank (show 'I' ∉ "\t ".toList by decide) _).finish_reached
    (by decide) _ _).trans ?_
  refine ((Cuts.word_blank (hlisted "IS" (by decide)) _).finish_reached (by decide) _ _).trans ?_
  refine ((Cuts.blank (show '"' ∉ "\t ".toList by decide) _).finish_reached
    (by decide) _ _).trans ?_
  refine ((hname 'a' (by decide) _).finish_reached (by decide) _ _).trans ?_
  refine ((hname 'b' (by decide) _).finish_reached (by decide) _ _).trans ?_
  refine (hstop.finish_reached (by decide) _ _).trans ?_
  rw [Scanner.finish_reached_nil]
  exact congrArg Except.ok (by decide)

namespace Schema

theorem ofSource_doubleQuoted : ofSource "COMMENT ON TABLE \"T\" IS \"a\"\"b\";" .oracle =
    .ok ⟨.oracle, .empty, [], [⟨"TABLE", "T", "a'b"⟩], []⟩ := by
  let body : List Token :=
    [⟨"ON", .keyword, 8, 10, 1, 1⟩, ⟨"TABLE", .keyword, 11, 16, 1, 1⟩,
     ⟨"T", .string, 17, 20, 1, 1⟩, ⟨"IS", .keyword, 21, 23, 1, 1⟩,
     ⟨"a", .string, 24, 27, 1, 1⟩, ⟨"b", .string, 27, 30, 1, 1⟩]
  have hbody : Syntax.Body (body ++ [⟨";", .symbol, 30, 31, 1, 1⟩]) body :=
    .mk (by decide) (by decide) rfl
  have hsentence : Syntax.Sentence (doubleQuotedTokens.filter (!·.isTrivia)) (.comment body) :=
    .comment rfl hbody
  have hscript : Syntax.Script (doubleQuotedTokens.filter (!·.isTrivia)) [.comment body] :=
    Syntax.Many.cons hsentence .nil
  rw [ofSource_of_tokenize tokenize_doubleQuoted, ofTokens_of_script hscript]
  rfl

theorem joins_ofSource_doubleQuoted :
    let source := "COMMENT ON TABLE \"T\" IS \"a\"\"b\";"
    ∃ schema tokens, ofSource source .oracle = .ok schema ∧ tokenize source = .ok tokens ∧
      (∀ comment ∈ schema.comments,
        ∃ strings, Syntax.Joins (tokens.filter (!·.isTrivia)) strings comment.text) ∧
      ∀ strings text, Syntax.Joins (tokens.filter (!·.isTrivia)) strings text →
        2 ≤ strings.length → (Token.OneLiteral strings text source ↔
          ∀ token ∈ strings, token.InQuotes '\'' source) := by
  intro source
  obtain ⟨tokens, ht, hcomments, -, hjoins⟩ := joins_ofSource ofSource_doubleQuoted
  exact ⟨_, tokens, ofSource_doubleQuoted, ht, hcomments, hjoins⟩

/-- A doubled double quote is recorded as a single quote. -/
theorem exists_joins_not_oneLiteral :
    let source := "COMMENT ON TABLE \"T\" IS \"a\"\"b\";"
    ∃ schema tokens strings, ofSource source .oracle = .ok schema ∧
      tokenize source = .ok tokens ∧ schema.comments = [⟨"TABLE", "T", "a'b"⟩] ∧
      Syntax.Joins (tokens.filter (!·.isTrivia)) strings "a'b" ∧ 2 ≤ strings.length ∧
      ¬Token.OneLiteral strings "a'b" source := by
  intro source
  let strings : List Token := [⟨"a", .string, 24, 27, 1, 1⟩, ⟨"b", .string, 27, 30, 1, 1⟩]
  let front : List Token :=
    [⟨"ON", .keyword, 8, 10, 1, 1⟩, ⟨"TABLE", .keyword, 11, 16, 1, 1⟩, ⟨"T", .string, 17, 20, 1, 1⟩]
  let is : Token := ⟨"IS", .keyword, 21, 23, 1, 1⟩
  have hsplit : doubleQuotedTokens.filter (!·.isTrivia) = [⟨"COMMENT", .keyword, 0, 7, 1, 1⟩] ++
      (front ++ is :: strings ++ [⟨";", .symbol, 30, 31, 1, 1⟩]) := rfl
  have hbody : Comment.ofBody? (front ++ is :: strings) = some ⟨"TABLE", "T", "a'b"⟩ := by decide
  have hjoins : Syntax.Joins (doubleQuotedTokens.filter (!·.isTrivia)) strings "a'b" :=
    .comment hsplit (by decide) hbody rfl (by decide)
  refine ⟨_, _, strings, ofSource_doubleQuoted, tokenize_doubleQuoted, rfl, hjoins, by decide, ?_⟩
  intro hone
  obtain ⟨htouching, -⟩ := hjoins.touching (by decide)
  have hquotes := (Token.oneLiteral_joined_iff tokenize_doubleQuoted (by decide)
    (fun token hm => List.mem_of_mem_filter (hjoins.mem token hm)) htouching).mp hone
  exact absurd (hquotes _ List.mem_cons_self) (by unfold Token.InQuotes; decide)

end Schema

end DdlCatalog
