import DdlCatalog.Proofs.Diagnosis
import DdlCatalog.Proofs.LikeGrammar
import DdlCatalog.Proofs.NameLookup
import DdlCatalog.Proofs.ScriptSyntax

namespace DdlCatalog

theorem likeness_eq : Likeness Eq Eq Eq where
  length := fun _ _ h => congrArg List.length h
  head := fun _ _ _ _ h => by cases h; exact ⟨rfl, fun _ => rfl, fun _ => rfl⟩
  tail := fun _ _ _ _ h => by cases h; rfl
  take := fun _ _ n h => congrArg (List.take n) h
  run := fun _ _ h => congrArg Token.touchingStrings h
  literal := by
    rintro as _ rfl
    cases Token.literal? as with
    | none => exact .none
    | some text => exact .some rfl
  same := fun _ => rfl
  valued := fun _ _ h => h
  qualified := by
    rintro a _ c _ rfl rfl
    rfl

namespace Grammar

open TokenReader

theorem script_append_ok {front back : List Token} {statements others : List Statement}
    (hf : script front = .ok statements) (hb : script back = .ok others) :
    script (front ++ back) = .ok (statements ++ others) :=
  script_eq_ok_iff.mpr ((script_eq_ok_iff.mp hf).append (script_eq_ok_iff.mp hb))

/-- Where a script fails behind an accepted one, only its place is another. -/
theorem script_append_error {front back : List Token} {earlier : List Statement}
    {e : ParseError} (hf : script front = .ok earlier) (hb : script back = .error e) :
    ∃ e', script (front ++ back) = .error e' ∧ e'.obstacle = e.obstacle ∧ e'.rules = e.rules := by
  obtain ⟨reached, hm⟩ : ∃ reached, statements ⟨0, front ++ back⟩ =
      ((earlier ++ ·) <$> statements : TokenReader (List Statement)) ⟨reached, back⟩ :=
    manyWhile_append findsPieces_statement (script_eq_ok_iff.mp hf) trivial 0
  have hagree : Agree Eq (List.Forall₂ (Statement.Like Eq Eq Eq)) statements statements :=
    agree_manyWhile likeness_eq (fun _ _ _ => rfl) (agree_statement likeness_eq)
  have hend := @hagree ⟨0, back⟩ ⟨reached, back⟩ rfl
  obtain ⟨after, halone⟩ := exists_of_script_eq_error hb
  rw [Cursor.start] at halone
  rw [halone] at hend
  generalize hbehind : statements ⟨reached, back⟩ = behind at hend
  cases hend with
  | error ho hr =>
    rw [map_of_error hbehind] at hm
    exact ⟨_, script_of_error hm, ho.symm, hr.symm⟩

end Grammar

theorem Syntax.Script.of_append {front back : List Token} {earlier statements : List Statement}
    (h : Script (front ++ back) statements) (hf : Script front earlier) :
    ∃ later, Script back later ∧ statements = earlier ++ later := by
  cases hb : Grammar.script back with
  | error e =>
    obtain ⟨e', he, -⟩ := Grammar.script_append_error (Grammar.script_eq_ok_iff.mpr hf) hb
    cases he.symm.trans (Grammar.script_eq_ok_iff.mpr h)
  | ok later =>
    have hwhole := Grammar.script_append_ok (Grammar.script_eq_ok_iff.mpr hf) hb
    exact ⟨later, Grammar.script_eq_ok_iff.mp hb,
      Except.ok.inj ((Grammar.script_eq_ok_iff.mpr h).symm.trans hwhole)⟩

namespace Schema

/-- The catalogue of two scripts one behind the other. A table that both define is that of the
second. -/
def followedBy (first second : Schema) : Schema where
  origin := first.origin
  tables := first.tables.override second.tables
  grants := first.grants ++ second.grants
  comments := first.comments ++ second.comments
  includes := first.includes ++ second.includes

theorem table?_followedBy (first second : Schema) (name : String) :
    (first.followedBy second).table? name = (second.table? name).or (first.table? name) :=
  NameMap.get?_override first.tables second.tables name

theorem followedBy_empty (schema : Schema) (origin : Origin) :
    schema.followedBy (.empty origin) = schema := by
  obtain ⟨origin', tables, grants, comments, includes⟩ := schema
  simp [followedBy, empty, NameMap.override, NameMap.empty]

theorem addTo_followedBy (first second : Schema) (statement : Statement) :
    statement.addTo (first.followedBy second) = first.followedBy (statement.addTo second) := by
  cases statement with
  | directive content => simp [Statement.addTo, followedBy]
  | grant body => simp [Statement.addTo, followedBy]
  | comment body => simp [Statement.addTo, followedBy]
  | table definition =>
    have htables : (first.tables.override second.tables).insert definition.name definition =
        first.tables.override (second.tables.insert definition.name definition) := by
      apply NameMap.ext_get?
      intro name
      simp only [NameMap.get?_insert, NameMap.get?_override]
      split <;> rfl
    simp [Statement.addTo, followedBy, insertTable, htables]

theorem foldl_addTo_followedBy (first second : Schema) (statements : List Statement) :
    statements.foldl Statement.addTo (first.followedBy second) =
      first.followedBy (statements.foldl Statement.addTo second) := by
  induction statements generalizing second with
  | nil => rfl
  | cons statement statements ih =>
    rw [List.foldl_cons, List.foldl_cons, addTo_followedBy]
    exact ih _

theorem ofStatements_append (origin : Origin) (statements others : List Statement) :
    ofStatements origin (statements ++ others) =
      (ofStatements origin statements).followedBy (ofStatements origin others) := by
  have h := foldl_addTo_followedBy (ofStatements origin statements) (.empty origin) others
  rw [followedBy_empty] at h
  unfold ofStatements at h ⊢
  rw [List.foldl_append, h]

theorem origin_ofStatements (origin : Origin) (statements : List Statement) :
    (ofStatements origin statements).origin = origin := by
  have hkeep : ∀ schema : Schema, schema.origin = origin →
      (statements.foldl Statement.addTo schema).origin = origin := by
    induction statements with
    | nil => exact fun _ h => h
    | cons statement statements ih =>
      intro schema h
      apply ih
      cases statement <;> exact h
  exact hkeep _ rfl

/-- An accepted script neither changes what follows it nor is changed by it. -/
theorem ofTokens_append {front : List Token} {origin : Origin} {first : Schema}
    (hf : ofTokens front origin = .ok first) (back : List Token) :
    (∀ second, ofTokens back origin = .ok second →
      ofTokens (front ++ back) origin = .ok (first.followedBy second) ∧
        first.origin = origin ∧ second.origin = origin) ∧
    ∀ e, ofTokens back origin = .error e →
      ∃ e', ofTokens (front ++ back) origin = .error e' ∧
        e'.fault.rootCause.SameVariant e.fault.rootCause ∧
        e'.fault.contexts.length = e.fault.contexts.length := by
  unfold ofTokens ofSignificant at hf ⊢
  rw [List.filter_append]
  generalize front.filter (!·.isTrivia) = front at hf ⊢
  generalize back.filter (!·.isTrivia) = back
  cases hs : Grammar.script front with
  | error e => rw [hs] at hf; cases hf
  | ok statements =>
    rw [hs] at hf
    cases hf
    constructor
    · intro second hb
      cases ho : Grammar.script back with
      | error e => rw [ho] at hb; cases hb
      | ok others =>
        rw [ho] at hb
        cases hb
        have horigin := origin_ofStatements origin
        rw [Grammar.script_append_ok hs ho]
        refine ⟨?_, horigin statements, horigin others⟩
        exact congrArg Except.ok (ofStatements_append origin statements others)
    · intro e hb
      cases ho : Grammar.script back with
      | ok others => rw [ho] at hb; cases hb
      | error e =>
        rw [ho] at hb
        cases hb
        obtain ⟨e', he, hobstacle, hrules⟩ := Grammar.script_append_error hs ho
        refine ⟨e', by rw [he]; rfl, ?_, ?_⟩
        · rw [ParseError.rootCause_fault, ParseError.rootCause_fault, hobstacle]
          exact Obstacle.sameVariant_cause _ _ _
        · rw [ParseError.length_contexts_fault, ParseError.length_contexts_fault, hrules]

/-- The tokens of `CREATE TABLE "T" ("A" INT);`, where the column has the given name. -/
def creatingColumn (name : String) : List Token :=
  [⟨"CREATE", .keyword, 0, 6, 1, 1⟩, ⟨"TABLE", .keyword, 7, 12, 1, 1⟩,
   ⟨"T", .string, 13, 16, 1, 1⟩, ⟨"(", .symbol, 17, 18, 1, 1⟩, ⟨name, .string, 18, 21, 1, 1⟩,
   ⟨"INT", .keyword, 22, 25, 1, 1⟩, ⟨")", .symbol, 25, 26, 1, 1⟩, ⟨";", .symbol, 26, 27, 1, 1⟩]

def granting : List Token :=
  [⟨"GRANT", .keyword, 28, 33, 2, 2⟩, ⟨"SELECT", .keyword, 34, 40, 2, 2⟩,
   ⟨"ON", .keyword, 41, 43, 2, 2⟩, ⟨"T", .string, 44, 47, 2, 2⟩, ⟨"TO", .keyword, 48, 50, 2, 2⟩,
   ⟨"U", .string, 51, 54, 2, 2⟩, ⟨";", .symbol, 54, 55, 2, 2⟩]

def commenting : List Token :=
  [⟨"COMMENT", .keyword, 56, 63, 3, 3⟩, ⟨"ON", .keyword, 64, 66, 3, 3⟩,
   ⟨"TABLE", .keyword, 67, 72, 3, 3⟩, ⟨"T", .string, 73, 76, 3, 3⟩, ⟨"IS", .keyword, 77, 79, 3, 3⟩,
   ⟨"x", .string, 80, 83, 3, 3⟩, ⟨";", .symbol, 83, 84, 3, 3⟩]

def describedColumn (name : String) : Schema where
  origin := .oracle
  tables := NameMap.empty.insert "T" ((Table.named "T").push (.plain name (.plain "INT")))
  grants := [⟨"SELECT", "T", "U"⟩]
  comments := [⟨"TABLE", "T", "x"⟩]
  includes := []

theorem ofTokens_creatingColumn (name : String) :
    ofTokens (creatingColumn name ++ (granting ++ commenting)) .oracle =
      .ok (describedColumn name) := by
  have htype : Syntax.TypeName [⟨"INT", .keyword, 22, 25, 1, 1⟩] (Text.upper "INT") := .word rfl
  rw [show Text.upper "INT" = "INT" by decide] at htype
  have hcolumn : Syntax.ColumnDefinition
      (⟨name, .string, 18, 21, 1, 1⟩ :: ([⟨"INT", .keyword, 22, 25, 1, 1⟩] ++ ([] ++ [])))
      (.plain name (.plain "INT")) := .mk rfl (.mk htype .absent .absent) .absent .nil
  have hlist : Syntax.ColumnList
      (⟨"(", .symbol, 17, 18, 1, 1⟩ :: ((⟨name, .string, 18, 21, 1, 1⟩ ::
        ([⟨"INT", .keyword, 22, 25, 1, 1⟩] ++ ([] ++ []))) ++
          ([] ++ [⟨")", .symbol, 25, 26, 1, 1⟩])))
      [.plain name (.plain "INT")] := .mk rfl (.column hcolumn) .nil rfl
  have htable : Syntax.Sentence (creatingColumn name)
      (.table ((Table.named "T").pushAll [.plain name (.plain "INT")])) :=
    .table rfl rfl (.plain rfl) hlist (.bare rfl)
  have hgrant : Syntax.Sentence
      (⟨"GRANT", .keyword, 28, 33, 2, 2⟩ :: ((granting.drop 1).take 5 ++
        [⟨";", .symbol, 54, 55, 2, 2⟩])) (.grant ((granting.drop 1).take 5)) :=
    .grant rfl (.mk (by decide) (by decide) rfl)
  have hcomment : Syntax.Sentence
      (⟨"COMMENT", .keyword, 56, 63, 3, 3⟩ :: ((commenting.drop 1).take 5 ++
        [⟨";", .symbol, 83, 84, 3, 3⟩])) (.comment ((commenting.drop 1).take 5)) :=
    .comment rfl (.mk (by decide) (by decide) rfl)
  have hscript : Syntax.Script
      ((creatingColumn name ++ (granting ++ commenting)).filter (!·.isTrivia)) _ :=
    Syntax.Many.cons htable (.cons hgrant (.cons hcomment .nil))
  exact ofTokens_of_script hscript .oracle

theorem ofTokens_unfinished (name : String) :
    ofTokens ((creatingColumn name).take 5) .oracle = .error ⟨.endOfTokens 1,
      [(.createStatement, ⟨5, []⟩), (.createTable, ⟨5, []⟩), (.columnList, ⟨5, []⟩),
       (.columnDefinition, ⟨5, []⟩), (.columnType, ⟨5, []⟩)], ⟨5, []⟩⟩ := by
  have hstatement : Grammar.statement (.start ((creatingColumn name).take 5)) =
      .error ⟨.endOfTokens 1,
        [(.createStatement, ⟨5, []⟩), (.createTable, ⟨5, []⟩), (.columnList, ⟨5, []⟩),
         (.columnDefinition, ⟨5, []⟩), (.columnType, ⟨5, []⟩)], ⟨5, []⟩⟩ ⟨5, []⟩ := rfl
  have hscript := Grammar.script_of_error (TokenReader.manyWhile_of_error rfl hstatement)
  exact congrArg (Except.map _) hscript

/-- A table that is created once more is that of the second script, next to the grants and comments
of both. A failure within its columns stays one. -/
theorem ofTokens_append_redefinition :
    let first := creatingColumn "A" ++ (granting ++ commenting)
    ofTokens (first ++ (creatingColumn "B" ++ (granting ++ commenting))) .oracle =
        .ok ⟨.oracle, (describedColumn "B").tables, [⟨"SELECT", "T", "U"⟩, ⟨"SELECT", "T", "U"⟩],
          [⟨"TABLE", "T", "x"⟩, ⟨"TABLE", "T", "x"⟩], []⟩ ∧
      ∃ e', ofTokens (first ++ (creatingColumn "B").take 5) .oracle = .error e' ∧
        e'.fault.rootCause.SameVariant (.unexpectedEnd "") ∧ e'.fault.contexts.length = 5 := by
  intro first
  have hfirst := ofTokens_creatingColumn "A"
  have hsecond := ofTokens_creatingColumn "B"
  exact ⟨((ofTokens_append hfirst _).1 _ hsecond).1,
    (ofTokens_append hfirst _).2 _ (ofTokens_unfinished "B")⟩

end Schema

end DdlCatalog
