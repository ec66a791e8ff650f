import DdlCatalog.Proofs.Diagnosis
import DdlCatalog.Proofs.ReaderOutcome
import DdlCatalog.Proofs.StoppedReaders
import DdlCatalog.Script.Schema

namespace DdlCatalog

namespace Grammar

open TokenReader GrammarRule

theorem within_number (token : Token) : Within columnType (number token) := by
  unfold number
  split
  · exact within_pure _
  · exact within_fail (.number _ rfl)

theorem within_lead (token : Token) : Within columnType (lead token) :=
  .ite ((within_number token).map _) (within_pure _)

theorem within_scale (parameters : List Token) : Within columnType (scale parameters) := by
  unfold scale
  split
  · exact .ite ((within_number _).map _) (within_pure _)
  · exact within_pure _

theorem within_withParameters (type : DataType) (parameters : List Token) :
    Within columnType (withParameters type parameters) := by
  unfold withParameters
  split
  · exact within_pure _
  · refine .ite ((within_lead _).bind fun lead => .ite (within_pure _) ?_) (within_pure _)
    exact (within_scale _).bind fun _ => within_pure _

theorem within_typeName : Within columnType typeName := by
  refine (within_take _ (by decide)).bind fun token => ?_
  dsimp only
  split
  · exact within_pure _
  · exact (within_ignoreIf _).bind fun _ => .ite (within_pure _) (within_pure _)

theorem within_typeParameters (type : DataType) : Within columnType (typeParameters type) := by
  refine (within_ignoreIf _).bind fun _ => .ite ?_ (within_pure _)
  refine (within_tokensBefore _ (by decide)).bind fun parameters => ?_
  refine (within_withParameters _ _).bind fun type => (within_skip _).bind fun _ => ?_
  exact (within_expect (by decide)).bind fun _ => within_pure _

theorem within_timeZone (type : DataType) : Within columnType (timeZone type) := by
  refine .ite ((within_ignoreIf _).bind fun _ => .ite ?_ (within_pure _)) (within_pure _)
  refine (within_ignoreIf _).bind fun isLocal => ?_
  refine (within_expect (by decide)).bind fun _ => ?_
  exact (within_expect (by decide)).bind fun _ => within_pure _

theorem within_dataType : Within columnType dataType :=
  within_typeName.bind fun _ => (within_typeParameters _).bind fun type => within_timeZone type

theorem within_defaultValue : Within GrammarRule.columnDefault defaultValue := by
  refine (within_hasKind _).bind fun _ => .ite ?_ ?_
  · refine (within_lookahead _).bind fun window => (within_peekMany _).bind fun tokens => ?_
    split
    · exact (within_skip _).bind fun _ => within_pure _
    · exact within_fail (.unexpected (by decide))
  · refine (within_hasKindIn _).bind fun _ => .ite (within_next.bind fun _ => within_pure _) ?_
    exact within_fail (.unexpected (by decide))

theorem within_columnDefault : Within columnDefinition columnDefault :=
  (within_ignoreIf _).bind fun _ =>
    .ite ((within_defaultValue.during (by decide)).map _) (within_pure _)

theorem within_columnMark : Within columnConstraints columnMark := by
  refine within_next.bind fun token => ?_
  refine .ite ((within_expect (by decide)).bind fun _ => within_pure _) ?_
  refine .ite (within_pure _) ?_
  refine .ite ((within_expect (by decide)).bind fun _ => within_pure _) ?_
  exact .ite ((within_take _ (by decide)).bind fun _ => within_pure _) (within_pure _)

theorem within_column : Within columnDefinition column := by
  refine (within_take _ (by decide)).bind fun name => ?_
  refine (within_dataType.during (by decide)).bind fun type => ?_
  refine within_columnDefault.bind fun value => ?_
  have hmarks : Within columnConstraints columnMarks := within_columnMark.manyWhile _
  exact (hmarks.during (by decide)).bind fun marks => within_pure _

theorem within_tableConstraint : Within GrammarRule.tableConstraint tableConstraint := by
  refine (within_lookahead _).bind fun window => ?_
  split
  · exact within_skip _
  · exact within_fail (.unclosed (by decide))

theorem within_element : Within GrammarRule.columnList element := by
  refine (within_sees _).bind fun _ => .ite ?_ ?_
  · exact (within_tableConstraint.during (by decide)).bind fun _ => within_pure _
  · exact (within_column.during (by decide)).map _

theorem within_columnList : Within GrammarRule.columnList columnList := by
  refine (within_expect (by decide)).bind fun _ => within_element.bind fun first => ?_
  have hnext : Within GrammarRule.columnList nextElement :=
    (within_skip 1).bind fun _ => within_element
  refine (hnext.manyWhile _).bind fun others => ?_
  exact (within_expect (by decide)).bind fun _ => within_pure _

theorem within_body {rule : GrammarRule} (h : (";", statementLimit) ∈ rule.limits) :
    Within rule body :=
  (within_tokensBefore _ h).bind fun _ => (within_skip _).bind fun _ => within_pure _

theorem within_qualifiedName : Within tableName qualifiedName := by
  refine (within_take _ (by decide)).bind fun first => (within_ignoreIf _).bind fun _ => ?_
  exact .ite ((within_take _ (by decide)).bind fun _ => within_pure _) (within_pure _)

theorem within_tableDefinition : Within createTable tableDefinition := by
  refine (within_skip _).bind fun _ => ?_
  refine (within_qualifiedName.during (by decide)).bind fun name => ?_
  refine (within_columnList.during (by decide)).bind fun columns => ?_
  have hoptions : Within tableOptions body := within_body (by decide)
  exact (hoptions.during (by decide)).bind fun _ => within_pure _

theorem within_creation : Within createStatement creation := by
  refine (within_skip _).bind fun _ => (within_hasText _ _ _).bind fun _ => ?_
  exact .ite (within_tableDefinition.during (by decide)) (within_fail (.unexpected (by decide)))

theorem ends_peek_bind {α : Type} {Allowed : List GrammarRule → Obstacle → Prop}
    {follow : Token → TokenReader α} {index : Nat} {token : Token} {rest : List Token}
    (h : Ends Allowed ⟨index, token :: rest⟩ (follow token ⟨index, token :: rest⟩)) :
    Ends Allowed ⟨index, token :: rest⟩ ((peek >>= follow) ⟨index, token :: rest⟩) :=
  h

theorem ends_statement {cursor : Cursor} (h : cursor.sees (fun _ => true) = true) :
    Ends StopsScript cursor (statement cursor) := by
  obtain ⟨index, rest⟩ := cursor
  cases rest with
  | nil => cases h
  | cons token rest =>
    have hgrant : Within grantStatement (skip 1 >>= fun _ => body) :=
      (within_skip 1).bind fun _ => within_body (by decide)
    have hcomment : Within commentStatement (skip 1 >>= fun _ => body) :=
      (within_skip 1).bind fun _ => within_body (by decide)
    -- a token is ahead, so that neither looking at it nor passing a directive can fail
    refine ends_peek_bind ?_
    split
    next => exact ((within_creation _).during fun _ _ => .inside (by decide)).map _
    next =>
      split
      next => exact ((hgrant _).during fun _ _ => .inside (by decide)).map _
      next =>
        split
        next => exact ((hcomment _).during fun _ _ => .inside (by decide)).map _
        next =>
          split
          next => exact .ok ⟨1, by simp [Cursor.available], rfl⟩
          next => exact ends_error_self _ .between

/-- Wherever the reading of a script stops, that is a place of the script, the cursor is still there
when the last rule is given up, and the rules at work are those that the obstacle stops. -/
theorem stops_of_script_eq_error {tokens : List Token} {e : ParseError}
    (h : script tokens = .error e) :
    (Cursor.start tokens).Reaches e.place ∧ e.IsAt e.place ∧ StopsScript e.rules e.obstacle := by
  obtain ⟨after, hstatements⟩ := exists_of_script_eq_error h
  have hends : Ends StopsScript (.start tokens) (statements (.start tokens)) :=
    ends_manyWhile (fun _ hs => ends_statement hs) _
  rw [hstatements] at hends
  cases hends with
  | error hafter hat hstops =>
    obtain rfl : e.place = after := hat.met
    exact ⟨hafter, hat, hstops⟩

end Grammar

namespace GrammarRule

def firstSteps : List String :=
  ["failed to parse CREATE statement", "failed to parse GRANT statement",
   "failed to parse COMMENT statement"]

/-- The tree of rules in the words of a report: each rule with one that is read as part of it. -/
def steps : List (String × String) :=
  [("failed to parse CREATE statement", "failed to parse CREATE TABLE"),
   ("failed to parse CREATE TABLE", "failed to parse table name"),
   ("failed to parse CREATE TABLE", "failed to skip table options"),
   ("failed to parse CREATE TABLE", "failed to parse column list"),
   ("failed to parse column list", "failed to skip table constraint"),
   ("failed to parse column list", "failed to parse column definition"),
   ("failed to parse column definition", "failed to parse column type"),
   ("failed to parse column definition", "failed to parse DEFAULT value"),
   ("failed to parse column definition", "failed to parse column constraints")]

/-- A way down the tree of rules from its root. -/
def IsPath (path : List String) : Prop :=
  (∀ first ∈ path.head?, first ∈ firstSteps) ∧
    path.IsChain fun outer inner => (outer, inner) ∈ steps

/-- What a report says to be expected, with the innermost rule around it, if there is one. -/
def expected : List (Option String × String) :=
  [(none, "CREATE, GRANT or COMMENT"),
   (some "failed to parse CREATE statement", "TABLE (unsupported CREATE substep)"),
   (some "failed to parse table name", "table name string"),
   (some "failed to parse table name", "table name string after '.'"),
   (some "failed to parse column list", "symbol \"(\""),
   (some "failed to parse column list", "symbol \")\""),
   (some "failed to parse column definition", "column name string"),
   (some "failed to parse column type", "column type keyword"),
   (some "failed to parse column type", "symbol \")\""),
   (some "failed to parse column type", "keyword \"TIME\""),
   (some "failed to parse column type", "keyword \"ZONE\""),
   (some "failed to parse DEFAULT value", "string default value"),
   (some "failed to parse DEFAULT value", "default value (string, int, float or keyword)"),
   (some "failed to parse column constraints", "keyword \"NULL\""),
   (some "failed to parse column constraints", "keyword \"KEY\""),
   (some "failed to parse column constraints", "constraint name string")]

/-- The ends that are looked out for and how far, with the innermost rule. -/
def sought : List (String × String × Nat) :=
  [("failed to parse GRANT statement", ";", 256), ("failed to parse COMMENT statement", ";", 256),
   ("failed to skip table options", ";", 256), ("failed to skip table constraint", ", or )", 256),
   ("failed to parse column type", ")", 12)]

theorem activity_mem_firstSteps {rule : GrammarRule} (h : rule ∈ roots) :
    rule.activity ∈ firstSteps := by
  revert rule
  decide

theorem activity_mem_steps {rule part : GrammarRule} (h : part ∈ rule.parts) :
    (rule.activity, part.activity) ∈ steps := by
  have hall : ∀ part ∈ rule.parts, (rule.activity, part.activity) ∈ steps := by
    cases rule <;> decide
  exact hall part h

theorem message_mem_expected {rule : GrammarRule} {expectation : Expectation}
    (h : expectation ∈ rule.expectations) :
    (some rule.activity, expectation.message) ∈ expected := by
  have hall : ∀ expectation ∈ rule.expectations,
      (some rule.activity, expectation.message) ∈ expected := by
    cases rule <;> decide
  exact hall expectation h

theorem limits_mem_sought {rule : GrammarRule} {limit : String × Nat} (h : limit ∈ rule.limits) :
    (rule.activity, limit) ∈ sought := by
  have hall : ∀ limit ∈ rule.limits, (rule.activity, limit) ∈ sought := by
    cases rule <;> decide
  exact hall limit h

theorem StopsScript.isPath {rules : List GrammarRule} {obstacle : Obstacle}
    (h : StopsScript rules obstacle) : IsPath (rules.map activity) := by
  cases h with
  | between => exact ⟨nofun, .nil⟩
  | inside hroot hstops =>
    refine ⟨fun first hm => Option.some.inj hm ▸ activity_mem_firstSteps hroot, ?_⟩
    exact List.isChain_map_of_isChain activity (fun _ _ => activity_mem_steps) hstops.isChain

end GrammarRule

/-- The causes of a script that is not accepted, met at a place and within a rule. -/
inductive Cause.MetAt (place : Cursor) : Option String → Cause → Prop
  | unexpectedEnd (rule : String) (needed : Nat) :
      MetAt place (some rule) (.unexpectedEnd
        ("needed " ++ toString needed ++ " tokens at token " ++
          toString place.index ++ ", " ++ toString place.available ++ " available"))
  | unexpectedToken {rule expected} : (rule, expected) ∈ GrammarRule.expected →
      MetAt place rule (.unexpectedToken expected place.location)
  | lookaheadExceeded {rule terminator limit} : (rule, terminator, limit) ∈ GrammarRule.sought →
      MetAt place (some rule) (.lookaheadExceeded terminator limit place.location)
  | invalidNumber (text : String) : MetAt place (some "failed to parse column type")
      (.invalidNumber text place.location)

theorem GrammarRule.Meets.metAt {rule : GrammarRule} {obstacle : Obstacle}
    (h : rule.Meets obstacle) (place : Cursor) :
    (obstacle.cause place).MetAt place (some rule.activity) := by
  cases h with
  | shortage needed => exact .unexpectedEnd _ needed
  | unexpected hexpected => exact .unexpectedToken (message_mem_expected hexpected)
  | unclosed hlimit => exact .lookaheadExceeded (limits_mem_sought hlimit)
  | number text hrule =>
    subst hrule
    exact .invalidNumber text

theorem GrammarRule.StopsScript.metAt {rules : List GrammarRule} {obstacle : Obstacle}
    (h : StopsScript rules obstacle) (place : Cursor) :
    (obstacle.cause place).MetAt place (rules.map activity).getLast? := by
  cases h with
  | between => exact .unexpectedToken (by decide)
  | inside _ hstops =>
    obtain ⟨last, hlast, hmeets⟩ := hstops.exists_meets
    rw [List.getLast?_map, hlast]
    exact hmeets.metAt place

namespace Cause.MetAt

variable {place : Cursor} {rule : Option String} {cause : Cause}

theorem exitCode (h : cause.MetAt place rule) : cause.exitCode = 65 := by
  cases h <;> rfl

theorem eq_none_iff (h : cause.MetAt place rule) :
    rule = none ↔ cause = .unexpectedToken "CREATE, GRANT or COMMENT" place.location := by
  have hnone : ∀ pair ∈ GrammarRule.expected,
      pair.1 = none ↔ pair.2 = "CREATE, GRANT or COMMENT" := by decide
  cases h with
  | unexpectedToken hexpected =>
    rw [hnone _ hexpected, Cause.unexpectedToken.injEq]
    exact (and_iff_left rfl).symm
  | _ => simp

end Cause.MetAt

/-- The contexts of a fault lead down the tree of rules to the one that met the cause, and all of
them and the cause tell of one place. Without contexts, a statement was asked for. -/
structure Fault.LeadsTo (fault : Fault) (path : List String) (place : Cursor) : Prop where
  isPath : GrammarRule.IsPath path
  contexts : fault.contexts = path.map (· ++ " at " ++ place.location)
  rootCause : fault.rootCause.MetAt place path.getLast?
  exitCode : fault.exitCode = 65
  outside : path = [] ↔
    fault.rootCause = .unexpectedToken "CREATE, GRANT or COMMENT" place.location

theorem ParseError.contexts_fault_of_isAt {error : ParseError} {place : Cursor}
    (h : error.IsAt place) : error.fault.contexts =
      (error.rules.map GrammarRule.activity).map (· ++ " at " ++ place.location) := by
  rw [contexts_fault, rules, List.map_map, List.map_map]
  refine List.map_congr_left fun entry hm => ?_
  rw [context, h.left entry hm]
  rfl

namespace Schema

/-- Whatever is wrong with a script, the report leads to it down the tree of rules, and names one
place of the script throughout. -/
theorem exists_leadsTo_of_ofTokens {tokens : List Token} {origin : Origin} {e : ParseError}
    (h : ofTokens tokens origin = .error e) :
    ∃ place path, (Cursor.start (tokens.filter (!·.isTrivia))).Reaches place ∧
      e.fault.LeadsTo path place := by
  unfold ofTokens ofSignificant at h
  cases hscript : Grammar.script (tokens.filter (!·.isTrivia)) with
  | ok statements =>
    rw [hscript] at h
    cases h
  | error found =>
    rw [hscript] at h
    obtain rfl : found = e := by simpa [Except.map] using h
    obtain ⟨hplace, hat, hstops⟩ := Grammar.stops_of_script_eq_error hscript
    have hmet := hstops.metAt found.place
    refine ⟨found.place, found.rules.map GrammarRule.activity, hplace, hstops.isPath,
      found.contexts_fault_of_isAt hat, ?_, ?_, ?_⟩
    · rwa [found.rootCause_fault]
    · rw [Fault.exitCode, found.rootCause_fault]
      exact hmet.exitCode
    · rw [found.rootCause_fault, ← hmet.eq_none_iff, List.getLast?_eq_none_iff]

/-- The tokens of `CREATE TABLE "T" ("A";`. -/
def untyped : List Token :=
  [⟨"CREATE", .keyword, 0, 6, 1, 1⟩, ⟨"TABLE", .keyword, 7, 12, 1, 1⟩,
   ⟨"T", .string, 13, 16, 1, 1⟩, ⟨"(", .symbol, 17, 18, 1, 1⟩, ⟨"A", .string, 18, 21, 1, 1⟩,
   ⟨";", .symbol, 21, 22, 1, 1⟩]

theorem ofTokens_untyped :
    let place : Cursor := ⟨5, [⟨";", .symbol, 21, 22, 1, 1⟩]⟩
    ofTokens untyped .oracle = .error ⟨.unexpected .columnType,
      [(.createStatement, place), (.createTable, place), (.columnList, place),
       (.columnDefinition, place), (.columnType, place)], place⟩ := by
  intro place
  have hstatement : Grammar.statement (.start untyped) = .error ⟨.unexpected .columnType,
      [(.createStatement, place), (.createTable, place), (.columnList, place),
       (.columnDefinition, place), (.columnType, place)], place⟩ place := rfl
  have hscript := Grammar.script_of_error (TokenReader.manyWhile_of_error rfl hstatement)
  rw [ofTokens, ofSignificant, show untyped.filter (!·.isTrivia) = untyped from rfl, hscript]
  rfl

theorem exists_leadsTo_untyped :
    ∃ e, ofTokens untyped .oracle = .error e ∧ e.fault.contexts.length = 5 ∧
      ∃ place path, (Cursor.start (untyped.filter (!·.isTrivia))).Reaches place ∧
        e.fault.LeadsTo path place :=
  ⟨_, ofTokens_untyped, rfl, exists_leadsTo_of_ofTokens ofTokens_untyped⟩

end Schema

end DdlCatalog
