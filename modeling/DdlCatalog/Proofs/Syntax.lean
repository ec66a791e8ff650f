import DdlCatalog.Grammar.Statement
import Mathlib.Data.List.Chain

namespace DdlCatalog

namespace Syntax

/-- Tokens that fall into pieces, each of which says one of the items. -/
inductive Many {α : Type} (Piece : List Token → α → Prop) : List Token → List α → Prop
  | nil : Many Piece [] []
  | cons {tokens more item items} : Piece tokens item → Many Piece more items →
      Many Piece (tokens ++ more) (item :: items)

inductive TypeName : List Token → String → Prop
  | word {token} : token.kind = .keyword → TypeName [token] (Text.upper token.content)
  | doublePrecision {a b} : a.isKeyword "DOUBLE" → b.isKeyword "PRECISION" →
      TypeName [a, b] "DOUBLE PRECISION"
  | longRaw {a b} : a.isKeyword "LONG" → b.isKeyword "RAW" → TypeName [a, b] "LONG RAW"

/-- The first parameter of a type: a number of 32 bits, or a star in place of one. -/
inductive Lead : Token → Option UInt32 → Prop
  | number {token n} : token.kind = .int → DataType.number? token = some n → Lead token (some n)
  | star {token} : token.isSymbol "*" → Lead token none

/-- The parameters behind the first one. Only a comma with a number behind it is a scale. -/
inductive Scale : List Token → Option UInt32 → Prop
  | number {comma token more n} : comma.isSymbol "," → token.kind = .int →
      DataType.number? token = some n → Scale (comma :: token :: more) (some n)
  | absent {others} :
      (∀ comma token more, others = comma :: token :: more →
        ¬(comma.isSymbol "," ∧ token.kind = .int)) → Scale others none

inductive Numbers (type : DataType) : List Token → DataType → Prop
  | none : Numbers type [] type
  | obscure {first others} : first.kind ≠ .int → ¬first.isSymbol "*" →
      Numbers type (first :: others) type
  | length {first others n} : Lead first n → type.name ∈ DataType.characterTypes →
      Numbers type (first :: others) { type with length := n }
  | precision {first others n s} : Lead first n → type.name ∉ DataType.characterTypes →
      Scale others s → Numbers type (first :: others) { type with precision := n, scale := s }

/-- At most eleven parameters in parentheses may follow the name of a type. -/
inductive Parameters (type : DataType) : List Token → DataType → Prop
  | absent : Parameters type [] type
  | listed {opening parameters closing numbered} : opening.isSymbol "(" → parameters.length ≤ 11 →
      (∀ token ∈ parameters, ¬token.isSymbol ")") → Numbers type parameters numbered →
      closing.isSymbol ")" → Parameters type (opening :: (parameters ++ [closing])) numbered

inductive TimeZone (type : DataType) : List Token → DataType → Prop
  | absent : TimeZone type [] type
  | zone {a b c} : type.name = "TIMESTAMP" → a.isKeyword "WITH" → b.isKeyword "TIME" →
      c.isKeyword "ZONE" → TimeZone type [a, b, c] { type with name := "TIMESTAMP WITH TIME ZONE" }
  | localZone {a b c d} : type.name = "TIMESTAMP" → a.isKeyword "WITH" → b.isKeyword "LOCAL" →
      c.isKeyword "TIME" → d.isKeyword "ZONE" →
      TimeZone type [a, b, c, d] { type with name := "TIMESTAMP WITH LOCAL TIME ZONE" }

inductive ColumnType : List Token → DataType → Prop
  | mk {name parameters zone spelled numbered type} : TypeName name spelled →
      Parameters (.plain spelled) parameters numbered → TimeZone numbered zone type →
      ColumnType (name ++ (parameters ++ zone)) type

/-- Strings each of which starts where the one before it ends. -/
def Touching (tokens : List Token) : Prop :=
  (∀ token ∈ tokens, token.kind = .string) ∧ tokens.IsChain fun a b => a.stop = b.start

/-- A default value: strings that touch are one literal, whose parts a quote joins. -/
inductive Default : List Token → Option String → Prop
  | absent : Default [] none
  | literal {word strings} : word.isKeyword "DEFAULT" → strings ≠ [] → strings.length ≤ 256 →
      Touching strings → Default (word :: strings) (some (Token.joined strings "'"))
  | number {word token} : word.isKeyword "DEFAULT" → token.kind = .int ∨ token.kind = .float →
      Default [word, token] (some token.content)
  | keyword {word token} : word.isKeyword "DEFAULT" → token.kind = .keyword →
      Default [word, token] (some (Text.upper token.content))

inductive Mark : List Token → ColumnMark → Prop
  | notNull {a b} : a.isKeyword "NOT" → b.isKeyword "NULL" → Mark [a, b] .notNull
  | null {a} : a.isKeyword "NULL" → Mark [a] .null
  | primaryKey {a b} : a.isKeyword "PRIMARY" → b.isKeyword "KEY" → Mark [a, b] .primaryKey
  | named {a b} : a.isKeyword "CONSTRAINT" → b.kind = .string → Mark [a, b] .other
  | silent {a word} : word ∈ Grammar.silentWords → a.isKeyword word → Mark [a] .other

inductive ColumnDefinition : List Token → Column → Prop
  | mk {name type value marks spelled default said} : name.kind = .string →
      ColumnType type spelled → Default value default → Many Mark marks said →
      ColumnDefinition (name :: (type ++ (value ++ marks)))
        (said.foldl Column.mark
          { Column.plain name.content spelled with defaultValue := default })

/-- With `depth` parentheses open at the front, all are closed at the end and none before it was
opened. No comma stands outside of parentheses. -/
inductive Balanced : (depth : Nat) → List Token → Prop
  | nil : Balanced 0 []
  | opening {depth token rest} : token.isSymbol "(" → Balanced (depth + 1) rest →
      Balanced depth (token :: rest)
  | closing {depth token rest} : token.isSymbol ")" → Balanced depth rest →
      Balanced (depth + 1) (token :: rest)
  | other {depth token rest} : ¬token.isSymbol "(" → ¬token.isSymbol ")" →
      (token.isSymbol "," → 0 < depth) → Balanced depth rest → Balanced depth (token :: rest)

/-- An element of a column list. A constraint of the table yields no column. -/
inductive Element : List Token → Option Column → Prop
  | constraint {first rest word} : word ∈ Grammar.tableConstraintWords → first.isKeyword word →
      (first :: rest).length ≤ 255 → Balanced 0 (first :: rest) → Element (first :: rest) none
  | column {tokens definition} : ColumnDefinition tokens definition →
      Element tokens (some definition)

inductive NextElement : List Token → Option Column → Prop
  | mk {comma tokens item} : comma.isSymbol "," → Element tokens item →
      NextElement (comma :: tokens) item

inductive ColumnList : List Token → List Column → Prop
  | mk {opening first others closing item items} : opening.isSymbol "(" → Element first item →
      Many NextElement others items → closing.isSymbol ")" →
      ColumnList (opening :: (first ++ (others ++ [closing]))) ((item :: items).filterMap id)

inductive TableName : List Token → String → Prop
  | plain {name} : name.kind = .string → TableName [name] name.content
  | qualified {parent dot name} : parent.kind = .string → dot.isSymbol "." → name.kind = .string →
      TableName [parent, dot, name] (parent.content ++ "." ++ name.content)

/-- At most 255 tokens and the semicolon that ends the statement. -/
inductive Body : List Token → List Token → Prop
  | mk {tokens stop} : tokens.length ≤ 255 → (∀ token ∈ tokens, ¬token.isSymbol ";") →
      stop.isSymbol ";" → Body (tokens ++ [stop]) tokens

inductive Sentence : List Token → Statement → Prop
  | directive {token} : token.kind = .directive → Sentence [token] (.directive token.content)
  | grant {word rest tokens} : word.isKeyword "GRANT" → Body rest tokens →
      Sentence (word :: rest) (.grant tokens)
  | comment {word rest tokens} : word.isKeyword "COMMENT" → Body rest tokens →
      Sentence (word :: rest) (.comment tokens)
  | table {create word name list tail full columns options} : create.isKeyword "CREATE" →
      word.isKeyword "TABLE" → TableName name full → ColumnList list columns →
      Body tail options →
      Sentence (create :: word :: (name ++ (list ++ tail)))
        (.table ((Table.named full).pushAll columns))

def Script : List Token → List Statement → Prop :=
  Many Sentence

end Syntax

end DdlCatalog
