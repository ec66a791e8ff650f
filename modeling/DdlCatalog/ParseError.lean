import DdlCatalog.Cursor
import DdlCatalog.Fault

namespace DdlCatalog

inductive GrammarRule where
  | createStatement
  | grantStatement
  | commentStatement
  | createTable
  | tableName
  | columnList
  | tableConstraint
  | columnDefinition
  | columnType
  | columnDefault
  | columnConstraints
  | tableOptions
  deriving DecidableEq

namespace GrammarRule

def activity : GrammarRule → String
  | createStatement => "failed to parse CREATE statement"
  | grantStatement => "failed to parse GRANT statement"
  | commentStatement => "failed to parse COMMENT statement"
  | createTable => "failed to parse CREATE TABLE"
  | tableName => "failed to parse table name"
  | columnList => "failed to parse column list"
  | tableConstraint => "failed to skip table constraint"
  | columnDefinition => "failed to parse column definition"
  | columnType => "failed to parse column type"
  | columnDefault => "failed to parse DEFAULT value"
  | columnConstraints => "failed to parse column constraints"
  | tableOptions => "failed to skip table options"

end GrammarRule

inductive Expectation where
  | statement
  | tableKeyword
  | tableName
  | qualifiedName
  | columnName
  | columnType
  | constraintName
  | stringDefault
  | defaultValue
  | token (kind : Token.Kind) (text : String)
  deriving DecidableEq

namespace Expectation

def message : Expectation → String
  | statement => "CREATE, GRANT or COMMENT"
  | tableKeyword => "TABLE (unsupported CREATE substep)"
  | tableName => "table name string"
  | qualifiedName => "table name string after '.'"
  | columnName => "column name string"
  | columnType => "column type keyword"
  | constraintName => "constraint name string"
  | stringDefault => "string default value"
  | defaultValue => "default value (string, int, float or keyword)"
  | token kind text => kind.name ++ " " ++ Text.quoted text

end Expectation

inductive Obstacle where
  | endOfTokens (needed : Nat)
  | unexpected (expected : Expectation)
  | unclosed (terminator : String) (limit : Nat)
  | number (text : String)
  deriving DecidableEq

namespace Obstacle

def cause (obstacle : Obstacle) (place : Cursor) : Cause :=
  match obstacle with
  | endOfTokens needed =>
    .unexpectedEnd ("needed " ++ toString needed ++ " tokens at token " ++ toString place.index ++
      ", " ++ toString place.available ++ " available")
  | unexpected expected => .unexpectedToken expected.message place.location
  | unclosed terminator limit => .lookaheadExceeded terminator limit place.location
  | number text => .invalidNumber text place.location

end Obstacle

/-- An obstacle with the place where it was met, and the rules at work from the outermost inwards,
each with the place where the reading stood when that rule was given up. -/
structure ParseError where
  obstacle : Obstacle
  contexts : List (GrammarRule × Cursor)
  place : Cursor
  deriving DecidableEq

namespace ParseError

def rules (error : ParseError) : List GrammarRule :=
  error.contexts.map (·.1)

def context (rule : GrammarRule) (place : Cursor) : String :=
  rule.activity ++ " at " ++ place.location

def fault (error : ParseError) : Fault :=
  error.contexts.foldr (fun entry inner => .within (context entry.1 entry.2) inner)
    (.root (error.obstacle.cause error.place))

end ParseError

end DdlCatalog
