import DdlCatalog.Proofs.RoundTrip

namespace DdlCatalog

/-- The text as a literal: between two single quotes, with each of its own written twice. -/
def Text.literal (text : String) : String :=
  String.ofList ('\'' :: (doubled '\'' text.toList ++ ['\'']))

namespace Grammar

open TokenReader Syntax

/-- A column whose default value has too many strings leaves one of them ahead. -/
theorem reads_column_of_overlong {name word : Token} {type front back : List Token}
    {spelled : DataType} (hn : name.kind = .string) (htype : ColumnType type spelled)
    (hw : word.isKeyword "DEFAULT" = true) (hlen : front.length = statementLimit)
    (ht : Touching front) (hb : back.head?.any (·.kind == .string) = true) :
    Reads column (name :: (type ++ (word :: (front ++ back))))
      { Column.plain name.content spelled with defaultValue := some (Token.joined front "'") }
      back := by
  have hword : HeadIn [",", ")"] ("DEFAULT" :: markWords) (word :: (front ++ back)) :=
    ⟨_, _, rfl, .inr ⟨"DEFAULT", by simp, hw⟩⟩
  have hmarks : back.head?.any opensColumnMark = false := by
    cases back with
    | nil => rfl
    | cons token rest =>
      have hk : token.kind = .string := by simpa using hb
      rw [List.head?_cons, Option.any_some, Bool.eq_false_iff]
      intro ho
      rw [kind_of_opensColumnMark ho] at hk
      cases hk
  have hnone : Reads columnMarks back [] back := fun index =>
    ⟨index, manyWhile_of_not_sees (show Cursor.sees ⟨index, back⟩ _ = false from hmarks)⟩
  have hdefault : Reads columnDefault (word :: (front ++ back))
      (some (Token.joined front "'")) back := by
    have hne : front ≠ [] := by
      rintro rfl
      cases hlen
    have hvalue := reads_literal hne ht (touchingStrings_full_window hlen ht back)
    exact (reads_ignoreIf hw _).bind ((hvalue.during _).map some)
  refine (reads_take _ hn _).bind (((reads_dataType htype hword).during _).bind ?_)
  exact hdefault.bind ((hnone.during _).bind (reads_pure _ back))

theorem fails_columnList_of_overlong {opening name word : Token} {type front back : List Token}
    {spelled : DataType} (ho : opening.isSymbol "(" = true) (hn : name.kind = .string)
    (htype : ColumnType type spelled) (hw : word.isKeyword "DEFAULT" = true)
    (hlen : front.length = statementLimit) (ht : Touching front)
    (hb : back.head?.any (·.kind == .string) = true) :
    Fails columnList (opening :: name :: (type ++ (word :: (front ++ back)))) := by
  have hconstraint : opensTableConstraint name = false := by
    rw [Bool.eq_false_iff]
    intro h
    obtain ⟨other, -, hother⟩ := opensTableConstraint_iff.mp h
    simp [Token.kind_of_isKeyword hother] at hn
  cases back with
  | nil => cases hb
  | cons token rest =>
    have hk : token.kind = .string := by simpa using hb
    have hcomma : token.is .symbol "," = false := by simp [Token.is, hk]
    have hclosing : token.is .symbol ")" = false := by simp [Token.is, hk]
    refine (reads_expect ((Token.is_symbol_iff (by decide)).mpr ho) _).bind_fails ?_
    have helement : Reads element (name :: (type ++ (word :: (front ++ token :: rest))))
        (some { Column.plain name.content spelled with
          defaultValue := some (Token.joined front "'") }) (token :: rest) := by
      refine (reads_sees _ _).bind ?_
      rw [List.head?_cons, Option.any_some, hconstraint, if_neg (by simp)]
      exact ((reads_column_of_overlong hn htype hw hlen ht hb).during _).map some
    have hnone : ∀ index, (manyWhile (·.is .symbol ",") nextElement consumes_nextElement)
        ⟨index, token :: rest⟩ = .ok [] ⟨index, token :: rest⟩ := fun index =>
      manyWhile_of_not_sees (by simp [Cursor.sees, hcomma])
    refine helement.bind_fails (Reads.bind_fails (fun index => ⟨index, hnone index⟩) ?_)
    exact (fails_expect hclosing rest).bind _

theorem not_script_of_fails {token : Token} {rest : List Token}
    (h : Fails statement (token :: rest)) (found : List Statement) :
    ¬Script (token :: rest) found := by
  intro hs
  cases hfirst : statement (.start (token :: rest)) with
  | ok sentence after => exact h 0 sentence after hfirst
  | error e after =>
    have hfailed := script_of_error (manyWhile_of_error rfl hfirst)
    cases hfailed.symm.trans (script_eq_ok_iff.mpr hs)

end Grammar

namespace Syntax

open Grammar TokenReader

inductive LiteralDefault (strings : List Token) : List Token → Prop
  | mk {create word table opening column default closing stop type} :
      create.isKeyword "CREATE" → word.isKeyword "TABLE" → table.kind = .string →
      table.content = "T" → opening.isSymbol "(" → column.kind = .string → column.content = "A" →
      ColumnType type ⟨"VARCHAR2", none, none, some 9⟩ → default.isKeyword "DEFAULT" →
      closing.isSymbol ")" → stop.isSymbol ";" →
      LiteralDefault strings (create :: word :: table :: opening :: column ::
        (type ++ default :: (strings ++ [closing, stop])))

inductive LiteralComment (strings : List Token) : (tokens body : List Token) → Prop
  | mk {comment on kind table is stop} :
      comment.isKeyword "COMMENT" → on.isKeyword "ON" → kind.isKeyword "TABLE" →
      table.kind = .string → table.content = "T" → is.isKeyword "IS" → stop.isSymbol ";" →
      LiteralComment strings (comment :: ([on, kind, table, is] ++ strings ++ [stop]))
        ([on, kind, table, is] ++ strings)

variable {strings tokens body : List Token} {text : String}

theorem LiteralDefault.script (h : LiteralDefault strings tokens) (hlen : strings.length ≤ 256)
    (hne : strings ≠ []) (ht : Touching strings) (hj : Token.joined strings "'" = text) :
    Script tokens [.table ((Table.named "T").pushAll
      [⟨"A", ⟨"VARCHAR2", none, none, some 9⟩, some text, 0, true, false⟩])] := by
  cases h with
  | @mk create word table opening column default closing stop type hcreate hword htable hname
      hopening hcolumn hcontent htype hdefault hclosing hstop =>
    have hvalue : Default (default :: strings) (some text) :=
      hj ▸ .literal hdefault hne hlen ht
    have hdefinition := ColumnDefinition.mk hcolumn htype hvalue .nil
    rw [hcontent] at hdefinition
    have hlist := ColumnList.mk hopening (.column hdefinition) .nil hclosing
    have hsentence :=
      Sentence.table hcreate hword (hname ▸ TableName.plain htable) hlist (.bare hstop)
    have hscript : Script (_ ++ []) [_] := .cons hsentence .nil
    simpa [Column.plain] using hscript

theorem LiteralDefault.not_script (h : LiteralDefault strings tokens)
    (hlen : 256 < strings.length) (ht : Touching strings) (statements : List Statement) :
    ¬Script tokens statements := by
  cases h with
  | @mk create word table opening column default closing stop type hcreate hword htable _ hopening
      hcolumn _ htype hdefault hclosing hstop =>
    have hfront : (strings.take statementLimit).length = statementLimit :=
      List.length_take_of_le (Nat.le_of_lt hlen)
    rw [← List.take_append_drop statementLimit strings] at ht
    have hback : (strings.drop statementLimit ++ [closing, stop]).head?.any
        (·.kind == .string) = true := by
      have hpos : 0 < (strings.drop statementLimit).length := by
        rw [List.length_drop]
        exact Nat.sub_pos_of_lt hlen
      cases hd : strings.drop statementLimit with
      | nil => simp [hd] at hpos
      | cons first others =>
        have hk := ht.1 first (by simp [hd])
        simp [hk]
    have hlist := fails_columnList_of_overlong hopening hcolumn htype hdefault hfront
      (Token.touching_of_append ht).1 hback
    rw [← List.append_assoc, List.take_append_drop] at hlist
    have hbracket : ∀ rest, HeadIn ["("] [] (opening :: rest) := fun _ =>
      ⟨_, _, rfl, .inl ⟨"(", by simp, hopening⟩⟩
    refine not_script_of_fails ((reads_peek create _).bind_fails ?_) statements
    rw [if_pos hcreate]
    refine Fails.map (Fails.during ?_ _) _
    refine (reads_skip_one create _).bind_fails ((reads_hasText _ _ word _).bind_fails ?_)
    rw [show word.is .keyword "TABLE" = true from hword, if_pos rfl]
    refine Fails.during ((reads_skip_one word _).bind_fails ?_) _
    refine Reads.bind_fails ((reads_qualifiedName (.plain htable) ?_).during _) ?_
    · exact (hbracket _).no_symbol (by decide) (by decide)
    exact (hlist.during _).bind _

theorem LiteralComment.no_symbol (h : LiteralComment strings tokens body) (ht : Touching strings) :
    ∀ token ∈ body, token.kind ≠ .symbol := by
  cases h with
  | @mk comment on kind table is stop _ hon hkind htable _ his _ =>
    intro token hm
    rcases List.mem_append.mp hm with hm | hm
    · simp only [List.mem_cons, List.not_mem_nil, or_false] at hm
      rcases hm with rfl | rfl | rfl | rfl
      · simp [Token.kind_of_isKeyword hon]
      · simp [Token.kind_of_isKeyword hkind]
      · simp [htable]
      · simp [Token.kind_of_isKeyword his]
    · simp [ht.1 token hm]

theorem LiteralComment.script (h : LiteralComment strings tokens body)
    (hlen : strings.length ≤ 251) (ht : Touching strings) : Script tokens [.comment body] := by
  have hno := h.no_symbol ht
  cases h with
  | @mk comment on kind table is stop hcomment _ _ _ _ _ hstop =>
    have hbody : Body ([on, kind, table, is] ++ strings ++ [stop])
        ([on, kind, table, is] ++ strings) := by
      refine .mk ?_ (fun token hm => ?_) hstop
      · simp only [List.length_append, List.length_cons, List.length_nil]
        omega
      · rw [Token.not_isSymbol (hno token hm)]
        exact Bool.false_ne_true
    have hscript : Script (_ ++ []) [_] := .cons (.comment hcomment hbody) .nil
    simpa using hscript

theorem LiteralComment.not_script (h : LiteralComment strings tokens body)
    (hlen : 251 < strings.length) (ht : Touching strings) (statements : List Statement) :
    ¬Script tokens statements := by
  have hno := h.no_symbol ht
  cases h with
  | @mk comment on kind table is stop hcomment _ _ _ _ _ _ =>
    have hwindow : statementLimit ≤ ([on, kind, table, is] ++ strings).length := by
      simp only [statementLimit, List.length_append, List.length_cons, List.length_nil]
      omega
    have hend : ∀ token ∈ [on, kind, table, is] ++ strings, token.is .symbol ";" = false :=
      fun token hm => by simp [Token.is, hno token hm]
    have hbody : Fails Grammar.body ([on, kind, table, is] ++ strings ++ [stop]) :=
      (fails_tokensBefore hwindow hend [stop]).bind _
    have hcreate : comment.isKeyword "CREATE" = false := Token.isKeyword_unique hcomment (by decide)
    have hgrant : comment.isKeyword "GRANT" = false := Token.isKeyword_unique hcomment (by decide)
    refine not_script_of_fails ((reads_peek comment _).bind_fails ?_) statements
    rw [if_neg (by simp [hcreate]), if_neg (by simp [hgrant]), if_pos hcomment]
    exact (((reads_skip_one comment _).bind_fails hbody).during _).map _

theorem LiteralComment.ofBody? (h : LiteralComment strings tokens body) (hne : strings ≠ [])
    (ht : Touching strings) (hj : Token.joined strings "'" = text) :
    Comment.ofBody? body = some ⟨"TABLE", "T", text⟩ := by
  cases h with
  | @mk comment on kind table is stop _ hon hkind htable hname his _ =>
    have hliteral := Token.literal?_eq_some_iff.mpr ⟨hne, ht, hj⟩
    obtain ⟨hkeyword, hupper⟩ := Token.isKeyword_iff.mp hkind
    have hother : kind.isKeyword "IS" = false := Token.isKeyword_unique hkind (by decide)
    have hquoted : table.isKeyword "IS" = false := Token.not_isKeyword (by simp [htable])
    have hcapitals : Text.upper "TABLE" = "TABLE" := by decide
    simp [Comment.ofBody?, Comment.inKind, hon, hkeyword, hother, htable, hquoted, his, hliteral,
      List.findIdx?_cons, Token.render, Token.text, hupper, hname, hcapitals]

end Syntax

namespace Spells

open Declaration Syntax

variable {rest : List Char}

theorem blankName (name : Name) : Spells (' ' :: name.print) (Single .string name.text) rest := by
  have hquote : ∀ c ∈ (name.print ++ rest).head?, c ∉ "\t ".toList := by
    rintro c ⟨rfl⟩
    decide
  refine ((blank hquote).append (spells_name name)).mono ?_
  rintro _ ⟨_, back, rfl, rfl, hback⟩
  exact hback

theorem blankLiteral (text : List Char) :
    Spells (' ' :: '\'' :: (Text.doubled '\'' text ++ ['\'']))
      (fun strings => strings.length = text.count '\'' + 1 ∧ Touching strings ∧
        Token.joined strings "'" = String.ofList text) rest := by
  have hquote : ∀ c ∈ ('\'' :: (Text.doubled '\'' text ++ ['\'']) ++ rest).head?,
      c ∉ "\t ".toList := by
    rintro c ⟨rfl⟩
    decide
  refine ((blank hquote).append (Spells.literal text rest)).mono ?_
  rintro _ ⟨_, back, rfl, rfl, hback⟩
  exact hback

def varchar : TypeName where
  keyword := "VARCHAR2"
  numbers := .one 9
  listed := Vocabulary.mem_words_ofList.mpr (by decide)
  single := fun _ _ _ => nofun

theorem literalDefault (text : List Char) :
    Spells ("CREATE TABLE \"T\" (\"A\" VARCHAR2(9) DEFAULT ".toList ++
        ('\'' :: (Text.doubled '\'' text ++ ['\'']) ++ ");".toList))
      (fun tokens => ∃ strings, strings.length = text.count '\'' + 1 ∧ Touching strings ∧
        Token.joined strings "'" = String.ofList text ∧ LiteralDefault strings tokens) rest := by
  have hend : Spells [')', ';'] (Then (Sign ")") (Sign ";")) rest :=
    (sign (by decide)).append (sign (by decide))
  have hvalue := (blankLiteral text).append hend
  have hdefault := (blankWord (listed "DEFAULT" (by decide)) (separated_cons (by decide) _)).append
    hvalue
  have htype := (spells_blankType varchar (separated_cons (by decide) _)).append hdefault
  have hcolumn := (spells_name ⟨"A", by decide⟩).append htype
  have hlist := (sign (by decide) : Spells ['('] (Sign "(") _).append hcolumn
  have hbracket := (blank (by rintro c ⟨rfl⟩; decide)).append hlist
  have hname := (blankName ⟨"T", by decide⟩).append hbracket
  have htable := (blankWord (listed "TABLE" (by decide)) (separated_cons (by decide) _)).append
    hname
  have hcreate := (Spells.word (listed "CREATE" (by decide)) (separated_cons (by decide) _)).append
    htable
  refine (hcreate : Spells _ _ rest).mono ?_
  rintro _ ⟨_, _, rfl, ⟨create, rfl, hc⟩, _, _, rfl, ⟨word, rfl, hw⟩, _, _, rfl,
    ⟨table, rfl, hkt, hct⟩, _, _, rfl, rfl, _, _, rfl, ⟨opening, rfl, ho⟩, _, _, rfl,
    ⟨column, rfl, hkc, hcc⟩, type, _, rfl, htype, _, _, rfl, ⟨default, rfl, hd⟩,
    strings, _, rfl, ⟨hlength, htouching, hjoined⟩, _, _, rfl, ⟨closing, rfl, hclosing⟩,
    stop, rfl, hstop⟩
  refine ⟨strings, hlength, htouching, hjoined, ?_⟩
  exact .mk hc hw hkt hct ho hkc hcc htype hd hclosing hstop

theorem literalComment (text : List Char) :
    Spells ("COMMENT ON TABLE \"T\" IS ".toList ++
        ('\'' :: (Text.doubled '\'' text ++ ['\'']) ++ ";".toList))
      (fun tokens => ∃ strings, strings.length = text.count '\'' + 1 ∧ Touching strings ∧
        Token.joined strings "'" = String.ofList text ∧ ∃ body, LiteralComment strings tokens body)
      rest := by
  have spelled : ∀ word ∈ ["COMMENT", "ON", "IS"], word ∈ Vocabulary.oracle.words := by
    have hall : ∀ word ∈ ["COMMENT", "ON", "IS"], word ∈ Vocabulary.statementWords ++
        Vocabulary.privilegeWords ++ Vocabulary.typeWords ++ Vocabulary.columnWords ++
        Vocabulary.storageWords ∧ word ≠ "" := by decide
    exact fun word hw => Vocabulary.mem_words_ofList.mpr (hall word hw)
  have hend : Spells [';'] (Sign ";") rest := sign (by decide)
  have htext := (blankLiteral text).append hend
  have his := (blankWord (spelled "IS" (by decide)) (separated_cons (by decide) _)).append htext
  have hname := (blankName ⟨"T", by decide⟩).append his
  have hkind := (blankWord (listed "TABLE" (by decide)) (separated_cons (by decide) _)).append
    hname
  have hon := (blankWord (spelled "ON" (by decide)) (separated_cons (by decide) _)).append hkind
  have hcomment := (Spells.word (spelled "COMMENT" (by decide))
    (separated_cons (by decide) _)).append hon
  refine (hcomment : Spells _ _ rest).mono ?_
  rintro _ ⟨_, _, rfl, ⟨comment, rfl, hc⟩, _, _, rfl, ⟨on, rfl, hon⟩, _, _, rfl,
    ⟨kind, rfl, hk⟩, _, _, rfl, ⟨table, rfl, hkt, hct⟩, _, _, rfl, ⟨is, rfl, hi⟩,
    strings, _, rfl, ⟨hlength, htouching, hjoined⟩, stop, rfl, hstop⟩
  exact ⟨strings, hlength, htouching, hjoined, _, .mk hc hon hk hkt hct hi hstop⟩

end Spells

namespace Schema

open Syntax

theorem ofSource_eq_ok_iff_of_sentence {source : String} {tokens : List Token}
    {statement : Statement} {Condition : Prop} (ht : tokenize source = .ok tokens)
    (hscript : Condition → Script (tokens.filter (!·.isTrivia)) [statement])
    (hnot : ¬Condition → ∀ statements, ¬Script (tokens.filter (!·.isTrivia)) statements)
    {origin : Origin} {schema : Schema} :
    ofSource source origin = .ok schema ↔
      Condition ∧ schema = statement.addTo (.empty origin) := by
  have hsource : ofSource source origin = .ok schema ↔ ofTokens tokens origin = .ok schema := by
    simp [ofSource_eq_ok_iff, ht]
  rw [hsource]
  constructor
  · intro h
    obtain ⟨statements, hs, -⟩ := exists_script_of_ofTokens h
    have hcondition : Condition := by
      by_contra hn
      exact hnot hn statements (Grammar.script_eq_ok_iff.mp hs)
    rw [ofTokens_of_script (hscript hcondition)] at h
    exact ⟨hcondition, (Except.ok.inj h).symm⟩
  · rintro ⟨hcondition, rfl⟩
    exact ofTokens_of_script (hscript hcondition) origin

/-- A literal is read back as the text that it was made of. As a default value it may hold up to
255 quotes, as the text of a comment up to 250; with more of them the script is not accepted. -/
theorem ofSource_literal (text : String) (origin : Origin) (schema : Schema) :
    (ofSource ("CREATE TABLE \"T\" (\"A\" VARCHAR2(9) DEFAULT " ++ Text.literal text ++ ");")
        origin = .ok schema ↔
      text.toList.count '\'' ≤ 255 ∧
        schema = { empty origin with
          tables := .ofList [("T", ⟨"T", .ofList [("A",
            ⟨"A", ⟨"VARCHAR2", none, none, some 9⟩, some text, 0, true, false⟩)], none⟩)] }) ∧
    (ofSource ("COMMENT ON TABLE \"T\" IS " ++ Text.literal text ++ ";") origin = .ok schema ↔
      text.toList.count '\'' ≤ 250 ∧
        schema = { empty origin with comments := [⟨"TABLE", "T", text⟩] }) := by
  have hliteral : (Text.literal text).toList =
      '\'' :: (Text.doubled '\'' text.toList ++ ['\'']) := String.toList_ofList
  have hne : ∀ {strings : List Token}, strings.length = text.toList.count '\'' + 1 →
      strings ≠ [] := by
    rintro _ hlength rfl
    simp at hlength
  constructor
  · obtain ⟨tokens, ht, strings, hlength, htouching, hjoined, hdefault⟩ :=
      tokenize_of_spells (Spells.literalDefault text.toList)
    simp only [← hliteral, String.ofList_append, String.ofList_toList, ← String.append_assoc]
      at ht hjoined
    have hscript := fun hfew : text.toList.count '\'' ≤ 255 =>
      hdefault.script (by omega) (hne hlength) htouching hjoined
    have hnot := fun hmany : ¬text.toList.count '\'' ≤ 255 =>
      hdefault.not_script (by omega) htouching
    rw [ofSource_eq_ok_iff_of_sentence ht hscript hnot]
    rfl
  · obtain ⟨tokens, ht, strings, hlength, htouching, hjoined, body, hcomment⟩ :=
      tokenize_of_spells (Spells.literalComment text.toList)
    simp only [← hliteral, String.ofList_append, String.ofList_toList, ← String.append_assoc]
      at ht hjoined
    have hscript := fun hfew : text.toList.count '\'' ≤ 250 =>
      hcomment.script (by omega) htouching
    have hnot := fun hmany : ¬text.toList.count '\'' ≤ 250 =>
      hcomment.not_script (by omega) htouching
    rw [ofSource_eq_ok_iff_of_sentence ht hscript hnot, Statement.addTo,
      hcomment.ofBody? (hne hlength) htouching hjoined]
    rfl

end Schema

end DdlCatalog
