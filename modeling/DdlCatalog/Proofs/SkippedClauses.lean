import DdlCatalog.Proofs.Concatenation
import DdlCatalog.Proofs.LastDefinitions

namespace DdlCatalog

namespace Syntax

/-- One more clause in a column list that yields no column: in front of the first element, or behind
any element. A comma parts it from the next one. -/
inductive ClauseAdded : List Token → List Token → Prop
  | front {comma clause opening first others closing item items} : comma.isSymbol "," →
      Element clause none → opening.isSymbol "(" → Element first item →
      Many NextElement others items → closing.isSymbol ")" →
      ClauseAdded (opening :: (first ++ (others ++ [closing])))
        (opening :: (clause ++ ((comma :: first ++ others) ++ [closing])))
  | behind {comma clause opening first before after closing item earlier later} :
      comma.isSymbol "," → Element clause none → opening.isSymbol "(" → Element first item →
      Many NextElement before earlier → Many NextElement after later → closing.isSymbol ")" →
      ClauseAdded (opening :: (first ++ ((before ++ after) ++ [closing])))
        (opening :: (first ++ ((before ++ (comma :: clause ++ after)) ++ [closing])))

theorem ClauseAdded.columnList {list list' : List Token} (h : ClauseAdded list list') :
    ∃ columns, ColumnList list columns ∧ ColumnList list' columns := by
  cases h with
  | @front comma clause _ _ _ _ item items hcomma hclause ho hfirst hothers hc =>
    have hmore : Many NextElement (comma :: _ ++ _) (item :: items) :=
      .cons (.mk hcomma hfirst) hothers
    have hlonger := ColumnList.mk ho hclause hmore hc
    exact ⟨_, .mk ho hfirst hothers hc, by simpa using hlonger⟩
  | @behind comma clause _ _ _ _ _ item earlier later hcomma hclause ho hfirst hbefore hafter hc =>
    have hmore : Many NextElement (comma :: clause ++ _) (none :: later) :=
      .cons (.mk hcomma hclause) hafter
    have hcolumns : (item :: (earlier ++ none :: later)).filterMap id =
        (item :: (earlier ++ later)).filterMap id := by
      cases item <;> simp [List.filterMap_append]
    have hlonger := ColumnList.mk ho hfirst (hbefore.append hmore) hc
    exact ⟨_, .mk ho hfirst (hbefore.append hafter) hc, hcolumns ▸ hlonger⟩

/-- Statements that create the same table and differ in one clause of the list, or in the options
between the list and the semicolon. -/
inductive SameTable : List Token → List Token → Prop
  | clause {create word name full list list' tail options} : create.isKeyword "CREATE" →
      word.isKeyword "TABLE" → TableName name full → ClauseAdded list list' → Body tail options →
      SameTable (create :: word :: (name ++ (list ++ tail)))
        (create :: word :: (name ++ (list' ++ tail)))
  | options {create word name full list columns tail options tail' options'} :
      create.isKeyword "CREATE" → word.isKeyword "TABLE" → TableName name full →
      ColumnList list columns → Body tail options → Body tail' options' →
      SameTable (create :: word :: (name ++ (list ++ tail)))
        (create :: word :: (name ++ (list ++ tail')))

theorem SameTable.sentence {tokens tokens' : List Token} (h : SameTable tokens tokens') :
    ∃ definition, Sentence tokens (.table definition) ∧ Sentence tokens' (.table definition) := by
  cases h with
  | clause hc hw hn hadded ht =>
    obtain ⟨columns, hl, hl'⟩ := hadded.columnList
    exact ⟨_, .table hc hw hn hl ht, .table hc hw hn hl' ht⟩
  | options hc hw hn hl ht ht' => exact ⟨_, .table hc hw hn hl ht, .table hc hw hn hl ht'⟩

/-- Scripts that differ in what one statement says about its table without an effect. -/
inductive SkipsOtherwise : List Token → List Token → Prop
  | mk {before statements piece piece' after} : Script before statements → SameTable piece piece' →
      SkipsOtherwise (before ++ (piece ++ after)) (before ++ (piece' ++ after))

theorem SkipsOtherwise.script {tokens tokens' : List Token} (h : SkipsOtherwise tokens tokens')
    {statements : List Statement} (hs : Script tokens statements) : Script tokens' statements := by
  cases h with
  | @mk before earlier piece piece' after hbefore hsame =>
    obtain ⟨definition, hpiece, hpiece'⟩ := hsame.sentence
    rw [← List.append_assoc] at hs
    have hfront : Script (before ++ piece) (earlier ++ [.table definition]) :=
      hbefore.append (by simpa using Many.cons hpiece .nil)
    obtain ⟨later, hlater, rfl⟩ := hs.of_append hfront
    rw [List.append_assoc]
    exact hbefore.append (.cons hpiece' hlater)

end Syntax

namespace Schema

/-- Any number of clauses and options that are passed over may be added or changed, one after the
other: the tables and the positions of their columns remain. -/
theorem ofTokens_eq_ok_of_skipsOtherwise {tokens edited : List Token} {origin : Origin}
    {schema : Schema} (h : ofTokens tokens origin = .ok schema)
    (hedits : Relation.ReflTransGen Syntax.SkipsOtherwise (tokens.filter (!·.isTrivia))
      (edited.filter (!·.isTrivia))) : ofTokens edited origin = .ok schema := by
  obtain ⟨statements, hscript, rfl⟩ := exists_script_of_ofTokens h
  -- the statements are what stays the same from each edit to the next
  have hkept : Syntax.Script (edited.filter (!·.isTrivia)) statements := by
    generalize edited.filter (!·.isTrivia) = kept at hedits ⊢
    induction hedits with
    | refl => exact Grammar.script_eq_ok_iff.mp hscript
    | tail _ hedit ih => exact hedit.script ih
  exact ofTokens_of_script hkept origin

def checkClause : List Token :=
  [⟨",", .symbol, 25, 26, 1, 1⟩, ⟨"CHECK", .keyword, 27, 32, 1, 1⟩, ⟨"(", .symbol, 33, 34, 1, 1⟩,
   ⟨"(", .symbol, 34, 35, 1, 1⟩, ⟨"CREATE", .keyword, 35, 41, 1, 1⟩, ⟨",", .symbol, 41, 42, 1, 1⟩,
   ⟨"X", .string, 43, 46, 1, 1⟩, ⟨")", .symbol, 46, 47, 1, 1⟩, ⟨")", .symbol, 47, 48, 1, 1⟩]

def checkedList : List Token :=
  ⟨"(", .symbol, 17, 18, 1, 1⟩ ::
    (plainColumn 18 ++ (([] ++ (checkClause ++ [])) ++ [⟨")", .symbol, 48, 49, 1, 1⟩]))

def strayOptions : List Token :=
  [⟨"NOVALIDATE", .keyword, 50, 60, 1, 1⟩, ⟨"(", .symbol, 61, 62, 1, 1⟩,
   ⟨"X", .string, 62, 65, 1, 1⟩]

theorem clauseAdded_checkedList : Syntax.ClauseAdded (plainList 17 48) checkedList := by
  have hinside : Syntax.Balanced 2 [⟨"CREATE", .keyword, 35, 41, 1, 1⟩,
      ⟨",", .symbol, 41, 42, 1, 1⟩, ⟨"X", .string, 43, 46, 1, 1⟩, ⟨")", .symbol, 46, 47, 1, 1⟩,
      ⟨")", .symbol, 47, 48, 1, 1⟩] :=
    .other (by decide) (by decide) (by decide) <| .other (by decide) (by decide) (by decide) <|
      .other (by decide) (by decide) (by decide) <| .closing rfl <| .closing rfl .nil
  have hbalanced : Syntax.Balanced 0 checkClause.tail :=
    .other (by decide) (by decide) (by decide) <| .opening rfl <| .opening rfl hinside
  have hword : "CHECK" ∈ Grammar.tableConstraintWords := by decide
  have hclause : Syntax.Element checkClause.tail none :=
    .constraint hword rfl (by decide) hbalanced
  have hcomma : Token.isSymbol ⟨",", .symbol, 25, 26, 1, 1⟩ "," = true := rfl
  have hopening : Token.isSymbol ⟨"(", .symbol, 17, 18, 1, 1⟩ "(" = true := rfl
  have hclosing : Token.isSymbol ⟨")", .symbol, 48, 49, 1, 1⟩ ")" = true := rfl
  exact .behind hcomma hclause hopening (element_plainColumn 18) .nil .nil hclosing

theorem skips_checkedList : Relation.ReflTransGen Syntax.SkipsOtherwise
    ((creating (plainList 17 48) 65).filter (!·.isTrivia))
    ((creating (checkedList ++ strayOptions) 65).filter (!·.isTrivia)) := by
  have hcreate : Token.isKeyword ⟨"CREATE", .keyword, 0, 6, 1, 1⟩ "CREATE" = true := rfl
  have hword : Token.isKeyword ⟨"TABLE", .keyword, 7, 12, 1, 1⟩ "TABLE" = true := rfl
  have hname : Syntax.TableName [⟨"T", .string, 13, 16, 1, 1⟩] "T" := .plain rfl
  have hend : Syntax.Body ([] ++ [⟨";", .symbol, 65, 66, 1, 1⟩]) [] := .bare rfl
  have hstray : Syntax.Body (strayOptions ++ [⟨";", .symbol, 65, 66, 1, 1⟩]) strayOptions :=
    .mk (by decide) (by decide) rfl
  obtain ⟨columns, -, hlist⟩ := clauseAdded_checkedList.columnList
  have hclause : Syntax.SkipsOtherwise (creating (plainList 17 48) 65) (creating checkedList 65) :=
    .mk .nil (.clause hcreate hword hname clauseAdded_checkedList hend)
  have hoptions : Syntax.SkipsOtherwise (creating checkedList 65)
      (creating (checkedList ++ strayOptions) 65) :=
    .mk .nil (.options hcreate hword hname hlist hend hstray)
  exact .tail (.single hclause) hoptions

theorem ofTokens_eq_ok_checkedList :
    ∃ schema, ofTokens (creating (plainList 17 48) 65) .oracle = .ok schema ∧
      ofTokens (creating (checkedList ++ strayOptions) 65) .oracle = .ok schema := by
  obtain ⟨schema, hs, -⟩ := exists_ofTokens_creating (columnList_plainList 17 48) (by decide) 65
  exact ⟨schema, hs, ofTokens_eq_ok_of_skipsOtherwise hs skips_checkedList⟩

end Schema

end DdlCatalog
