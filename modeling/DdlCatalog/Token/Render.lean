import DdlCatalog.Token

namespace DdlCatalog

namespace Token

def text (token : Token) : String :=
  if token.kind = .keyword then Text.upper token.content else token.content

/-- What stands between two neighbours: nothing around a dot or before a comma, else a space. -/
def gap (before after : Token) : String :=
  if before.isSymbol "." || after.isSymbol "." || after.isSymbol "," then "" else " "

def render : List Token → String
  | [] => ""
  | [token] => token.text
  | first :: second :: rest => first.text ++ gap first second ++ render (second :: rest)

/-- How many tokens at the front are strings that each start at byte `stop`, the end of the one
before. -/
def touchingFrom (stop : Nat) : List Token → Nat
  | [] => 0
  | token :: rest =>
    if token.kind = .string ∧ token.start = stop then touchingFrom token.stop rest + 1 else 0

def touchingStrings : List Token → Nat
  | [] => 0
  | first :: rest => if first.kind = .string then touchingFrom first.stop rest + 1 else 0

/-- What strings from byte `stop` on add to a literal: a quote and the content of each. -/
def continued? (stop : Nat) : List Token → Option String
  | [] => some ""
  | token :: rest =>
    if token.kind = .string ∧ token.start = stop then
      (continued? token.stop rest).map fun tail => "'" ++ token.content ++ tail
    else none

/-- The value of a quoted literal. A quote doubled inside it splits it into strings that touch. -/
def literal? : List Token → Option String
  | [] => none
  | first :: rest =>
    if first.kind = .string then (continued? first.stop rest).map (first.content ++ ·) else none

end Token

end DdlCatalog
