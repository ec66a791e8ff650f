import DdlCatalog.Grammar.DataType
import DdlCatalog.Token.Render

namespace DdlCatalog

inductive ColumnMark where
  | notNull
  | null
  | primaryKey
  | other
  deriving DecidableEq

namespace Column

def mark (column : Column) : ColumnMark → Column
  | .notNull => { column with nullable := false }
  | .null => { column with nullable := true }
  | .primaryKey => { column with primaryKey := true, nullable := false }
  | .other => column

end Column

namespace Grammar

open TokenReader

def statementLimit : Nat := 256

def quotedDefault : TokenReader String := do
  let run := Token.touchingStrings (← lookahead statementLimit)
  match Token.literal? (← peekMany run) with
  | some text =>
    skip run
    return text
  | none => fail (.unexpected .stringDefault)

def defaultValue : TokenReader String := do
  if ← hasKind .string then quotedDefault
  else if ← hasKindIn [.string, .int, .float, .keyword] then return (← next).text
  else fail (.unexpected .defaultValue)

def columnDefault : TokenReader (Option String) := do
  if ← ignoreText .keyword "DEFAULT" then some <$> during .columnDefault defaultValue
  else return none

/-- Inline constraints of one keyword that say nothing about the column. -/
def silentWords : List String :=
  ["UNIQUE", "ENABLE", "DISABLE", "VALIDATE", "NOVALIDATE"]

def opensColumnMark (token : Token) : Bool :=
  token.isKeyword "NOT" || token.isKeyword "NULL" || token.isKeyword "PRIMARY" ||
    token.isKeyword "CONSTRAINT" || silentWords.any token.isKeyword

def columnMark : TokenReader ColumnMark := do
  let token ← next
  if token.isKeyword "NOT" then
    expect .keyword "NULL"
    return .notNull
  else if token.isKeyword "NULL" then return .null
  else if token.isKeyword "PRIMARY" then
    expect .keyword "KEY"
    return .primaryKey
  else if token.isKeyword "CONSTRAINT" then
    let _ ← take .string .constraintName
    return .other
  else return .other

theorem consumes_columnMark : Consumes columnMark := by
  refine consumes_next.bind fun token => ?_
  refine .ite ((consumes_expect _ _).forward.bind fun _ => forward_pure _) ?_
  refine .ite (forward_pure _) ?_
  refine .ite ((consumes_expect _ _).forward.bind fun _ => forward_pure _) ?_
  exact .ite ((consumes_take _ _).forward.bind fun _ => forward_pure _) (forward_pure _)

def columnMarks : TokenReader (List ColumnMark) :=
  manyWhile opensColumnMark columnMark consumes_columnMark

def column : TokenReader Column := do
  let name ← take .string .columnName
  let type ← during .columnType dataType
  let defaultValue ← columnDefault
  let marks ← during .columnConstraints columnMarks
  return marks.foldl Column.mark { Column.plain name.content type with defaultValue }

def tableConstraintWords : List String :=
  ["CONSTRAINT", "PRIMARY", "UNIQUE", "CHECK", "FOREIGN"]

def opensTableConstraint (token : Token) : Bool :=
  tableConstraintWords.any token.isKeyword

/-- How many tokens stand before the comma or closing parenthesis that ends an element, when
`depth` parentheses are open. -/
def elementLength? : (depth : Nat) → List Token → Option Nat
  | _, [] => none
  | depth, token :: rest =>
    if token.isSymbol "(" then (elementLength? (depth + 1) rest).map (· + 1)
    else if token.isSymbol ")" then
      match depth with
      | 0 => some 0
      | depth + 1 => (elementLength? depth rest).map (· + 1)
    else if token.isSymbol "," ∧ depth = 0 then some 0
    else (elementLength? depth rest).map (· + 1)

def tableConstraint : TokenReader Unit := do
  match elementLength? 0 (← lookahead statementLimit) with
  | some n => skip n
  | none => fail (.unclosed ", or )" statementLimit)

/-- An element of a column list; a constraint of the table yields no column. -/
def element : TokenReader (Option Column) := do
  if ← sees opensTableConstraint then
    during .tableConstraint tableConstraint
    return none
  else some <$> during .columnDefinition column

theorem forward_quotedDefault : Forward quotedDefault := by
  refine (forward_lookahead _).bind fun window => (forward_peekMany _).bind fun tokens => ?_
  split
  · exact (forward_skip _).bind fun _ => forward_pure _
  · exact forward_fail _

theorem forward_defaultValue : Forward defaultValue := by
  refine (forward_hasKind _).bind fun _ => .ite forward_quotedDefault ?_
  exact (forward_hasKindIn _).bind fun _ =>
    .ite (consumes_next.forward.bind fun _ => forward_pure _) (forward_fail _)

theorem forward_columnDefault : Forward columnDefault :=
  (forward_ignoreIf _).bind fun _ =>
    .ite ((forward_defaultValue.during _).map _) (forward_pure _)

theorem consumes_column : Consumes column := by
  refine (consumes_take _ _).bind fun name => ?_
  refine (forward_dataType.during _).bind fun type => ?_
  refine forward_columnDefault.bind fun value => ?_
  exact ((forward_manyWhile _ consumes_columnMark).during _).bind fun marks => forward_pure _

theorem forward_tableConstraint : Forward tableConstraint := by
  refine (forward_lookahead _).bind fun window => ?_
  split
  · exact forward_skip _
  · exact forward_fail _

theorem forward_element : Forward element := by
  refine (forward_sees _).bind fun _ => .ite ?_ ?_
  · exact (forward_tableConstraint.during _).bind fun _ => forward_pure _
  · exact (consumes_column.forward.during _).map _

def nextElement : TokenReader (Option Column) := do
  skip 1
  element

theorem consumes_nextElement : Consumes nextElement :=
  (consumes_skip_succ 0).bind fun _ => forward_element

def columnList : TokenReader (List Column) := do
  expect .symbol "("
  let first ← element
  let others ← manyWhile (·.is .symbol ",") nextElement consumes_nextElement
  expect .symbol ")"
  return (first :: others).filterMap id

theorem forward_columnList : Forward columnList := by
  refine (consumes_expect _ _).forward.bind fun _ => forward_element.bind fun first => ?_
  refine (forward_manyWhile _ consumes_nextElement).bind fun others => ?_
  exact (consumes_expect _ _).forward.bind fun _ => forward_pure _

end Grammar

end DdlCatalog
