import DdlCatalog.Schema
import DdlCatalog.Text.Blank
import DdlCatalog.Token.Render

namespace DdlCatalog

namespace Grant

/-- Reads `privileges [ON object] TO grantees [WITH ...]`. -/
def ofBody? (body : List Token) : Option Grant := do
  let length ← body.findIdx? (·.isKeyword "TO")
  let head := body.take length
  let grantees := (body.drop (length + 1)).takeWhile fun t => !t.isKeyword "WITH"
  let (privileges, object) := match head.findIdx? (·.isKeyword "ON") with
    | some length => (head.take length, head.drop (length + 1))
    | none => (head, [])
  return ⟨Token.render privileges, Token.render object, Token.render grantees⟩

end Grant

namespace Comment

def inKind (token : Token) : Bool :=
  token.kind == .keyword && !token.isKeyword "IS"

/-- Reads `ON kind... target IS 'text'`. -/
def ofBody? : List Token → Option Comment
  | [] => none
  | opening :: rest =>
    if !opening.isKeyword "ON" then none
    else
      let kind := rest.takeWhile inKind
      let rest := rest.dropWhile inKind
      match rest.findIdx? (·.isKeyword "IS") with
      | none => none
      | some length =>
        let target := rest.take length
        if kind.isEmpty || target.isEmpty then none
        else (Token.literal? (rest.drop (length + 1))).map fun text =>
          ⟨Token.render kind, Token.render target, text⟩

end Comment

inductive Statement where
  | directive (content : String)
  | grant (body : List Token)
  | comment (body : List Token)
  | table (definition : Table)

namespace Statement

/-- The script that a directive names: its content without leading `@` and white space around. -/
def includedPath (content : String) : String :=
  String.ofList (Text.trim (content.toList.dropWhile (· == '@')))

/-- What a statement adds to the catalogue. A body that cannot be taken apart adds nothing. -/
def addTo (schema : Schema) : Statement → Schema
  | directive content => { schema with includes := schema.includes ++ [includedPath content] }
  | grant body => { schema with grants := schema.grants ++ (Grant.ofBody? body).toList }
  | comment body => { schema with comments := schema.comments ++ (Comment.ofBody? body).toList }
  | table definition => (schema.insertTable definition).2

end Statement

namespace Schema

def ofStatements (origin : Origin) (statements : List Statement) : Schema :=
  statements.foldl Statement.addTo (.empty origin)

end Schema

end DdlCatalog
