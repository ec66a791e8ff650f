import DdlCatalog.Grammar.Statement
import DdlCatalog.Script.Tokens

namespace DdlCatalog

namespace Schema

def ofSignificant (tokens : List Token) (origin : Origin) : Except ParseError Schema :=
  (Grammar.script tokens).map (ofStatements origin)

/-- The catalogue that tokens describe. Layout and comments between them mean nothing. -/
def ofTokens (tokens : List Token) (origin : Origin) : Except ParseError Schema :=
  ofSignificant (tokens.filter (!·.isTrivia)) origin

def ofSource (source : String) (origin : Origin) : Except Fault Schema :=
  match tokenize source with
  | .error e => .error (.within "failed to tokenize source" e.fault)
  | .ok tokens =>
    match ofTokens tokens origin with
    | .error e => .error (.within "failed to parse source" e.fault)
    | .ok schema => .ok schema

end Schema

end DdlCatalog
