import DdlCatalog.Proofs.Diagnosis
import DdlCatalog.Proofs.ListSyntax
import DdlCatalog.Proofs.SteadyReaders
import DdlCatalog.Script.Schema

namespace DdlCatalog

namespace Token

/-- A token without a place in a script. -/
def bare (kind : Kind) (content : String) : Token := ⟨content, kind, 0, 0, 1, 1⟩

end Token

namespace Grammar

open TokenReader

theorem lasting_number (token : Token) : Lasting (number token) := by
  unfold number
  split
  · exact (steady_pure _).lasting
  · exact lasting_fail _

theorem looks_number (token : Token) : Looks (number token) := by
  unfold number
  split
  · exact looks_pure _
  · exact looks_fail _

theorem lasting_lead (token : Token) : Lasting (lead token) :=
  .ite ((lasting_number token).map _) (steady_pure _).lasting

theorem looks_lead (token : Token) : Looks (lead token) :=
  .ite ((looks_number token).map _) (looks_pure _)

theorem lasting_scale (parameters : List Token) : Lasting (scale parameters) := by
  unfold scale
  split
  · exact .ite ((lasting_number _).map _) (steady_pure _).lasting
  · exact (steady_pure _).lasting

theorem lasting_withParameters (type : DataType) (parameters : List Token) :
    Lasting (withParameters type parameters) := by
  unfold withParameters
  split
  next => exact (steady_pure _).lasting
  next first rest =>
    refine .ite ?_ (steady_pure _).lasting
    refine (lasting_lead first).bind_looks (looks_lead first) fun lead => ?_
    refine .ite (steady_pure _).lasting ?_
    exact (lasting_scale _).bind_steady fun _ => steady_pure _

theorem steady_typeName : Steady typeName := by
  refine (steady_take _ _).bind fun token => ?_
  dsimp only
  split
  · exact steady_pure _
  · exact (steady_ignoreIf _).bind fun _ => .ite (steady_pure _) (steady_pure _)

theorem steady_typeParameters (type : DataType) : Steady (typeParameters type) := by
  refine (steady_ignoreIf _).bind fun _ => .ite ?_ (steady_pure _)
  -- the closing parenthesis is in sight before the numbers are read
  refine steady_tokensBefore_bind fun parameters => ?_
  refine (lasting_withParameters type parameters).bind_steady fun type => ?_
  exact (steady_skip _).bind fun _ => (steady_expect _ _).bind fun _ => steady_pure _

theorem steady_timeZone (type : DataType) : Steady (timeZone type) := by
  refine .ite ((steady_ignoreIf _).bind fun _ => .ite ?_ (steady_pure _)) (steady_pure _)
  refine (steady_ignoreIf _).bind fun isLocal => ?_
  exact (steady_expect _ _).bind fun _ => (steady_expect _ _).bind fun _ => steady_pure _

theorem steady_dataType : Steady dataType :=
  steady_typeName.bind fun _ => (steady_typeParameters _).bind fun type => steady_timeZone type

theorem quotedDefault_eq {cursor : Cursor} {run : Nat}
    (hrun : Token.touchingStrings (cursor.upTo statementLimit) = run) :
    quotedDefault cursor = match Token.literal? (cursor.upTo run) with
      | some text => .ok text (cursor.moved run)
      | none => .error ⟨.unexpected .stringDefault, [], cursor⟩ cursor := by
  have hle : run ≤ (cursor.upTo statementLimit).length := hrun ▸ Token.touchingStrings_le _
  have hlen : (cursor.upTo statementLimit).length ≤ cursor.available := List.length_take_le' _ _
  have hhas : cursor.has run = true := Cursor.has_iff.mpr (Nat.le_trans hle hlen)
  have hwindow : lookahead statementLimit cursor = .ok (cursor.upTo statementLimit) cursor := rfl
  have hpeek : peekMany run cursor = .ok (cursor.upTo run) cursor := if_pos hhas
  have hskip : skip run cursor = .ok () (cursor.moved run) := if_pos hhas
  rw [quotedDefault, bind_of_ok hwindow, hrun, bind_of_ok hpeek]
  cases Token.literal? (cursor.upTo run) with
  | none => rfl
  | some text => exact bind_of_ok hskip _

theorem touchingStrings_followedBy {cursor : Cursor} {run n : Nat}
    (hrun : Token.touchingStrings (cursor.upTo n) = run) (hlt : run < cursor.rest.length)
    (more : List Token) : Token.touchingStrings ((cursor.followedBy more).upTo n) = run := by
  rw [Cursor.upTo, Cursor.followedBy]
  by_cases hn : n ≤ cursor.rest.length
  · rw [List.take_append_of_le_length hn]
    exact hrun
  · have hall : cursor.upTo n = cursor.rest := List.take_of_length_le (by omega)
    rw [hall] at hrun
    rw [List.take_append, List.take_of_length_le (by omega),
      Token.touchingStrings_append_of_lt (by omega), hrun]

theorem lasting_quotedDefault : Lasting quotedDefault := by
  intro cursor hc more
  obtain ⟨run, hrun⟩ : ∃ run, Token.touchingStrings (cursor.upTo statementLimit) = run := ⟨_, rfl⟩
  rw [quotedDefault_eq hrun]
  by_cases hlt : run < cursor.rest.length
  · have hsame : (cursor.followedBy more).upTo run = cursor.upTo run :=
      List.take_append_of_le_length (Nat.le_of_lt hlt)
    rw [quotedDefault_eq (touchingStrings_followedBy hrun hlt more), hsame,
      Cursor.moved_followedBy (Nat.le_of_lt hlt)]
    cases Token.literal? (cursor.upTo run) with
    | none => exact .error rfl rfl
    | some text => exact .ok text _
  · have hle : run ≤ (cursor.upTo statementLimit).length := hrun ▸ Token.touchingStrings_le _
    have hwindow : cursor.upTo statementLimit = cursor.rest := by
      refine List.take_of_length_le ?_
      rw [Cursor.upTo, List.length_take] at hle
      omega
    have hall : cursor.upTo run = cursor.rest := List.take_of_length_le (by omega)
    have htouching := (Token.touching_take_iff (Token.touchingStrings_le cursor.rest)).mpr le_rfl
    rw [hwindow] at hrun
    rw [hrun, List.take_of_length_le (by omega)] at htouching
    rw [hall, Token.literal?_eq_some_iff.mpr ⟨hc, htouching, rfl⟩]
    exact .spent _ (List.drop_of_length_le (by omega))

theorem steady_defaultValue : Steady defaultValue := by
  refine steady_question fun _ => .ite lasting_quotedDefault (Steady.lasting ?_)
  exact steady_question fun _ =>
    .ite (steady_next.bind fun _ => steady_pure _).lasting (lasting_fail _)

theorem steady_columnDefault : Steady columnDefault :=
  (steady_ignoreIf _).bind fun _ =>
    .ite ((steady_defaultValue.during _).map _) (steady_pure _)

theorem steady_columnMark : Steady columnMark := by
  refine steady_next.bind fun token => ?_
  refine .ite ((steady_expect _ _).bind fun _ => steady_pure _) ?_
  refine .ite (steady_pure _) ?_
  refine .ite ((steady_expect _ _).bind fun _ => steady_pure _) ?_
  exact .ite ((steady_take _ _).bind fun _ => steady_pure _) (steady_pure _)

theorem steady_column : Steady column := by
  refine (steady_take _ _).bind fun name => ?_
  refine (steady_dataType.during _).bind fun type => ?_
  refine steady_columnDefault.bind fun value => ?_
  exact ((steady_manyWhile steady_columnMark.lasting).during _).bind fun marks => steady_pure _

theorem steady_tableConstraint : Steady tableConstraint := by
  constructor
  · intro cursor hc more
    obtain ⟨back, hback⟩ := cursor.upTo_followedBy statementLimit more
    rw [tableConstraint_eq, tableConstraint_eq, hback]
    cases hlen : elementLength? 0 (cursor.upTo statementLimit) with
    | none => exact .short _ rfl
    | some n =>
      rw [elementLength?_append hlen]
      exact (steady_skip n).lasting hc more
  · intro cursor hc
    refine .inr ⟨⟨.unclosed ", or )" statementLimit, [], cursor⟩, cursor, ?_, rfl⟩
    simp [tableConstraint_eq, Cursor.upTo, hc, elementLength?]

theorem steady_element : Steady element := by
  refine (steady_sees _).bind fun _ => .ite ?_ ?_
  · exact (steady_tableConstraint.during _).bind fun _ => steady_pure _
  · exact (steady_column.during _).map _

theorem steady_nextElement : Steady nextElement :=
  (steady_skip 1).bind fun _ => steady_element

theorem steady_columnList : Steady columnList := by
  refine (steady_expect _ _).bind fun _ => steady_element.bind fun first => ?_
  refine (steady_manyWhile steady_nextElement.lasting).bind fun others => ?_
  exact (steady_expect _ _).bind fun _ => steady_pure _

theorem steady_body : Steady body :=
  steady_tokensBefore_bind fun _ => ((steady_skip _).bind fun _ => steady_pure _).lasting

theorem steady_qualifiedName : Steady qualifiedName := by
  refine (steady_take _ _).bind fun first => (steady_ignoreIf _).bind fun _ => ?_
  exact .ite ((steady_take _ _).bind fun _ => steady_pure _) (steady_pure _)

theorem steady_tableDefinition : Steady tableDefinition := by
  refine (steady_skip _).bind fun _ => (steady_qualifiedName.during _).bind fun name => ?_
  refine (steady_columnList.during _).bind fun columns => ?_
  exact (steady_body.during _).bind fun _ => steady_pure _

theorem steady_creation : Steady creation := by
  refine (steady_skip _).bind fun _ => steady_question fun _ => ?_
  exact .ite (steady_tableDefinition.during _).lasting (lasting_fail _)

theorem steady_statement : Steady statement := by
  have hbody : Steady (skip 1 >>= fun _ => body) := (steady_skip 1).bind fun _ => steady_body
  refine steady_peek_bind fun token => ?_
  refine .ite ((steady_creation.during _).map _).lasting ?_
  refine .ite ((hbody.during _).map _).lasting (.ite ((hbody.during _).map _).lasting ?_)
  exact .ite (steady_next.bind fun _ => steady_pure _).lasting (lasting_fail _)

theorem script_of_first_error {token : Token} {rest : List Token} {e : ParseError}
    {after : Cursor} (h : statement (.start (token :: rest)) = .error e after) :
    script (token :: rest) = .error e :=
  script_of_error (manyWhile_of_error rfl h)

theorem script_of_read {token : Token} {rest : List Token} {sentence : Statement} {reached : Nat}
    (h : statement (.start (token :: rest)) = .ok sentence ⟨reached, []⟩) :
    script (token :: rest) = .ok [sentence] := by
  have hend : statements ⟨reached, []⟩ = .ok [] ⟨reached, []⟩ := manyWhile_of_rest_eq_nil rfl
  exact script_of_ok ((manyWhile_of_read rfl h).trans (map_of_ok hend (sentence :: ·)))

theorem script_append_of_error {front : List Token} {e : ParseError} (h : script front = .error e)
    (he : e.obstacle.isShortage = false) (more : List Token) :
    ∃ e', script (front ++ more) = .error e' ∧ e'.obstacle = e.obstacle ∧ e'.rules = e.rules := by
  obtain ⟨after, hread⟩ := exists_of_script_eq_error h
  have hfront : (Cursor.start front).rest ≠ [] := by
    intro hempty
    cases (manyWhile_of_rest_eq_nil hempty).symm.trans hread
  have hsteady : Steady statements := steady_manyWhile steady_statement.lasting
  have hend := hsteady.lasting hfront more
  rw [hread] at hend
  generalize hread' : statements ((Cursor.start front).followedBy more) = found' at hend
  cases hend with
  | short _ hshort => cases he.symm.trans hshort
  | error ho hr => exact ⟨_, script_of_error hread', ho, hr⟩

end Grammar

namespace ParseError

theorem isShortage_iff (e : ParseError) :
    e.obstacle.isShortage = true ↔
      e.fault.isUnexpectedEnd = true ∨ e.fault.isLookaheadExceeded = true := by
  rw [Fault.isUnexpectedEnd, Fault.isLookaheadExceeded, rootCause_fault]
  cases e.obstacle <;> simp [Obstacle.isShortage, Obstacle.cause]

end ParseError

namespace Schema

theorem ofTokens_append_of_error {front : List Token} {origin : Origin} {e : ParseError}
    (h : ofTokens front origin = .error e) (he : e.obstacle.isShortage = false)
    (more : List Token) :
    ∃ e', ofTokens (front ++ more) origin = .error e' ∧
      e'.fault.rootCause = e.obstacle.cause e'.place ∧ e'.rules = e.rules := by
  unfold ofTokens ofSignificant at h ⊢
  rw [List.filter_append]
  cases hs : Grammar.script (front.filter (!·.isTrivia)) with
  | ok statements => rw [hs] at h; cases h
  | error e =>
    rw [hs] at h
    cases h
    obtain ⟨e', he', ho, hr⟩ := Grammar.script_append_of_error hs he (more.filter (!·.isTrivia))
    exact ⟨e', by rw [he']; rfl, by rw [ParseError.rootCause_fault, ho], hr⟩

/-- A token that is not expected, or a number that is none, is found whatever follows it, and in the
same rules. So the beginnings of accepted scripts are accepted or too short. -/
theorem ofTokens_faults_stand (origin : Origin) :
    (∀ front e, ofTokens front origin = .error e →
      (∀ expected place, e.fault.rootCause = .unexpectedToken expected place →
        ∀ more, ∃ e' place', ofTokens (front ++ more) origin = .error e' ∧
          e'.fault.rootCause = .unexpectedToken expected place' ∧ e'.rules = e.rules) ∧
      ∀ text place, e.fault.rootCause = .invalidNumber text place →
        ∀ more, ∃ e' place', ofTokens (front ++ more) origin = .error e' ∧
          e'.fault.rootCause = .invalidNumber text place' ∧ e'.rules = e.rules) ∧
    ∀ tokens schema, ofTokens tokens origin = .ok schema → ∀ front, front <+: tokens →
      (∃ part, ofTokens front origin = .ok part) ∨
        ∃ e, ofTokens front origin = .error e ∧
          (e.fault.isUnexpectedEnd = true ∨ e.fault.isLookaheadExceeded = true) := by
  refine ⟨fun front e h => ⟨fun expected place hroot more => ?_, fun text place hroot more => ?_⟩,
    fun tokens schema h front hp => ?_⟩
  · rw [ParseError.rootCause_fault] at hroot
    cases ho : e.obstacle with
    | unexpected asked =>
      obtain ⟨e', he', hroot', hr⟩ := ofTokens_append_of_error h (by rw [ho]; rfl) more
      rw [ho] at hroot hroot'
      cases hroot
      exact ⟨e', _, he', hroot', hr⟩
    | _ => rw [ho] at hroot; cases hroot
  · rw [ParseError.rootCause_fault] at hroot
    cases ho : e.obstacle with
    | number written =>
      obtain ⟨e', he', hroot', hr⟩ := ofTokens_append_of_error h (by rw [ho]; rfl) more
      rw [ho] at hroot hroot'
      cases hroot
      exact ⟨e', _, he', hroot', hr⟩
    | _ => rw [ho] at hroot; cases hroot
  · obtain ⟨back, rfl⟩ := hp
    cases hfront : ofTokens front origin with
    | ok part => exact .inl ⟨part, rfl⟩
    | error e =>
      refine .inr ⟨e, rfl, e.isShortage_iff.mp ?_⟩
      by_contra hshort
      obtain ⟨e', he', -⟩ := ofTokens_append_of_error hfront (Bool.eq_false_iff.mpr hshort) back
      rw [h] at he'
      cases he'

theorem ofTokens_faults_stand_creation :
    let view := [.bare .keyword "CREATE", .bare .string "V"]
    let table := [.bare .keyword "CREATE", .bare .keyword "TABLE", .bare .string "T",
      .bare .symbol "(", .bare .string "A", .bare .keyword "NUMBER", .bare .symbol "(",
      .bare .int "4294967296", .bare .symbol ")"]
    let grant := [.bare .keyword "GRANT", .bare .keyword "SELECT", .bare .keyword "TO"]
    let closing := [.bare .string "U", .bare .symbol ";"]
    (∃ e' place', ofTokens (view ++ closing) .oracle = .error e' ∧
      e'.fault.rootCause = .unexpectedToken "TABLE (unsupported CREATE substep)" place' ∧
      e'.rules = [.createStatement]) ∧
    (∃ e' place', ofTokens (table ++ closing) .oracle = .error e' ∧
      e'.fault.rootCause = .invalidNumber "4294967296" place' ∧
      e'.rules = [.createStatement, .createTable, .columnList, .columnDefinition, .columnType]) ∧
    ((∃ part, ofTokens grant .oracle = .ok part) ∨
      ∃ e, ofTokens grant .oracle = .error e ∧
        (e.fault.isUnexpectedEnd = true ∨ e.fault.isLookaheadExceeded = true)) := by
  intro view table grant closing
  have hview : Grammar.script view = .error ⟨.unexpected .tableKeyword,
      [(.createStatement, ⟨1, view.drop 1⟩)], ⟨1, view.drop 1⟩⟩ :=
    Grammar.script_of_first_error rfl
  let place : Cursor := ⟨7, table.drop 7⟩
  have htable : Grammar.script table = .error ⟨.number "4294967296",
      [(.createStatement, place), (.createTable, place), (.columnList, place),
       (.columnDefinition, place), (.columnType, place)], place⟩ :=
    Grammar.script_of_first_error rfl
  have hgrant : Grammar.script (grant ++ closing) =
      .ok [.grant (grant.drop 1 ++ closing.take 1)] :=
    Grammar.script_of_read rfl
  have hstand := ofTokens_faults_stand .oracle
  exact ⟨(hstand.1 view _ (congrArg (Except.map _) hview)).1 _ _ rfl closing,
    (hstand.1 table _ (congrArg (Except.map _) htable)).2 _ _ rfl closing,
    hstand.2 (grant ++ closing) _ (congrArg (Except.map _) hgrant) grant ⟨closing, rfl⟩⟩

end Schema

end DdlCatalog
