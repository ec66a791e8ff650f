import DdlCatalog.Schema
import DdlCatalog.Text.Decimal
import DdlCatalog.TokenReader

namespace DdlCatalog

namespace DataType

/-- The types whose number is a length and not a precision. -/
def characterTypes : List String :=
  ["CHAR", "CHARACTER", "NCHAR", "VARCHAR", "VARCHAR2", "NVARCHAR2", "RAW"]

def secondWord? : String → Option String
  | "DOUBLE" => some "PRECISION"
  | "LONG" => some "RAW"
  | _ => none

/-- The number that a token writes: a plus sign may stand before its digits, 32 bits hold it. -/
def number? (token : Token) : Option UInt32 :=
  Text.word? (Text.withoutPlus token.content.toList)

end DataType

namespace Grammar

open TokenReader

def typeParameterLimit : Nat := 12

def number (token : Token) : TokenReader UInt32 :=
  match DataType.number? token with
  | some n => return n
  | none => fail (.number token.content)

def lead (token : Token) : TokenReader (Option UInt32) :=
  if token.kind = .int then some <$> number token else return none

/-- The scale, which stands behind a comma. Anything else there says nothing. -/
def scale : List Token → TokenReader (Option UInt32)
  | _ :: comma :: token :: _ =>
    if comma.isSymbol "," ∧ token.kind = .int then some <$> number token else return none
  | _ => return none

/-- The numbers that parameters give to a type: a length, or a precision and a scale. Parameters
that begin neither with a number nor with a star say nothing. -/
def withParameters (type : DataType) : List Token → TokenReader DataType
  | [] => return type
  | first :: rest =>
    if first.kind = .int ∨ first.isSymbol "*" then do
      let lead ← lead first
      if DataType.characterTypes.contains type.name then return { type with length := lead }
      else
        let scale ← scale (first :: rest)
        return { type with precision := lead, scale }
    else return type

def typeName : TokenReader String := do
  let token ← take .keyword .columnType
  let name := Text.upper token.content
  match DataType.secondWord? name with
  | none => return name
  | some second =>
    if ← ignoreText .keyword second then return name ++ " " ++ second else return name

def typeParameters (type : DataType) : TokenReader DataType := do
  if ← ignoreText .symbol "(" then
    let parameters ← tokensBefore .symbol ")" typeParameterLimit
    let type ← withParameters type parameters
    skip parameters.length
    expect .symbol ")"
    return type
  else return type

def timeZone (type : DataType) : TokenReader DataType := do
  if type.name = "TIMESTAMP" then
    if ← ignoreText .keyword "WITH" then
      let isLocal ← ignoreText .keyword "LOCAL"
      expect .keyword "TIME"
      expect .keyword "ZONE"
      let name :=
        if isLocal then "TIMESTAMP WITH LOCAL TIME ZONE" else "TIMESTAMP WITH TIME ZONE"
      return { type with name }
    else return type
  else return type

def dataType : TokenReader DataType := do
  let name ← typeName
  let type ← typeParameters (.plain name)
  timeZone type

theorem forward_number (token : Token) : Forward (number token) := by
  unfold number
  split
  · exact forward_pure _
  · exact forward_fail _

theorem forward_lead (token : Token) : Forward (lead token) :=
  .ite ((forward_number token).map _) (forward_pure _)

theorem forward_scale (parameters : List Token) : Forward (scale parameters) := by
  unfold scale
  split
  · exact .ite ((forward_number _).map _) (forward_pure _)
  · exact forward_pure _

theorem forward_withParameters (type : DataType) (parameters : List Token) :
    Forward (withParameters type parameters) := by
  unfold withParameters
  split
  · exact forward_pure _
  · refine .ite ((forward_lead _).bind fun lead => .ite (forward_pure _) ?_) (forward_pure _)
    exact (forward_scale _).bind fun _ => forward_pure _

theorem forward_typeName : Forward typeName := by
  refine (consumes_take _ _).forward.bind fun token => ?_
  dsimp only
  split
  · exact forward_pure _
  · exact (forward_ignoreIf _).bind fun _ => .ite (forward_pure _) (forward_pure _)

theorem forward_typeParameters (type : DataType) : Forward (typeParameters type) := by
  refine (forward_ignoreIf _).bind fun _ => .ite ?_ (forward_pure _)
  refine (forward_tokensBefore _ _ _).bind fun parameters => ?_
  refine (forward_withParameters _ _).bind fun type => (forward_skip _).bind fun _ => ?_
  exact (consumes_expect _ _).forward.bind fun _ => forward_pure _

theorem forward_timeZone (type : DataType) : Forward (timeZone type) := by
  refine .ite ((forward_ignoreIf _).bind fun _ => .ite ?_ (forward_pure _)) (forward_pure _)
  refine (forward_ignoreIf _).bind fun isLocal => ?_
  refine (consumes_expect _ _).forward.bind fun _ => ?_
  exact (consumes_expect _ _).forward.bind fun _ => forward_pure _

theorem forward_dataType : Forward dataType :=
  forward_typeName.bind fun _ => (forward_typeParameters _).bind fun type => forward_timeZone type

end Grammar

end DdlCatalog
