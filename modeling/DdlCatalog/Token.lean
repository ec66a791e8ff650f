import DdlCatalog.Text.Ascii
import DdlCatalog.Text.Bytes
import DdlCatalog.Text.Quoted

namespace DdlCatalog

namespace Token

/-- The classes of tokens. Every piece of a script belongs to exactly one. -/
inductive Kind where
  | whitespace
  | newline
  | comment
  | string
  | float
  | int
  | symbol
  | directive
  | keyword
  deriving DecidableEq

namespace Kind

def name : Kind → String
  | whitespace => "whitespace"
  | newline => "newline"
  | comment => "comment"
  | string => "string"
  | float => "float"
  | int => "int"
  | symbol => "symbol"
  | directive => "include"
  | keyword => "keyword"

def all : List Kind :=
  [whitespace, newline, comment, string, float, int, symbol, directive, keyword]

def ofName? (name : String) : Option Kind :=
  all.find? (·.name == name)

/-- Layout and comments, which mean nothing to a statement. -/
def isTrivia : Kind → Bool
  | whitespace | newline | comment => true
  | _ => false

end Kind

end Token

/-- A classified piece of a script: bytes `start` to `stop`, lines `firstLine` to `lastLine`. -/
structure Token where
  content : String
  kind : Token.Kind
  start : Nat
  stop : Nat
  firstLine : UInt32
  lastLine : UInt32
  deriving DecidableEq

namespace Token

def ofSpan (kind : Kind) (span content : List Char) (start : Nat) (line : UInt32) : Token where
  content := String.ofList content
  kind := kind
  start := start
  stop := start + Text.byteSize span
  firstLine := line
  lastLine := line + UInt32.ofNat (Text.newlines span)

/-- The token over `size` bytes of a source from byte `start` on. -/
def ofSource (source : String) (start size : Nat) (kind : Kind) (line : UInt32) : Token :=
  let span := Text.takeBytes size (Text.dropBytes start source.toList)
  ofSpan kind span span start line

def size (token : Token) : Nat :=
  token.stop - token.start

def isEmpty (token : Token) : Bool :=
  token.start == token.stop

def is (token : Token) (kind : Kind) (text : String) : Bool :=
  token.kind == kind && Text.sameLetters token.content text

def isSymbol (token : Token) (text : String) : Bool :=
  token.kind == .symbol && token.content == text

def isKeyword (token : Token) (text : String) : Bool :=
  token.is .keyword text

def isTrivia (token : Token) : Bool :=
  token.kind.isTrivia

def display (token : Token) : String :=
  "\x7b " ++ token.kind.name ++ " " ++ Text.quoted token.content ++ " \x7d"

def joined (tokens : List Token) (separator : String) : String :=
  separator.intercalate (tokens.map content)

end Token

end DdlCatalog
