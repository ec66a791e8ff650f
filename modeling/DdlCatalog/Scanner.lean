import DdlCatalog.Lexeme
import DdlCatalog.Token

namespace DdlCatalog

/-- A place in a script: its byte offset, its line, the text from there on, and the tokens before,
latest first. -/
structure Scanner where
  position : Nat
  line : UInt32
  rest : List Char
  behind : List Token

namespace Scanner

def ofSource (source : String) : Scanner where
  position := 0
  line := 1
  rest := source.toList
  behind := []

def tokens (scanner : Scanner) : List Token :=
  scanner.behind.reverse

def available (scanner : Scanner) : Nat :=
  Text.byteSize scanner.rest

def atEnd (scanner : Scanner) : Bool :=
  scanner.rest.isEmpty

def peek (scanner : Scanner) (n : Nat) : String :=
  String.ofList (Text.takeBytes n scanner.rest)

def previewSize : Nat := 64

def preview (scanner : Scanner) : String :=
  scanner.peek previewSize

/-- The place as messages name it: its line and the text ahead. -/
def location (scanner : Scanner) : String :=
  "line " ++ toString scanner.line.toNat ++ " " ++ Text.quoted scanner.preview ++ " [..]"

def token (scanner : Scanner) (kind : Token.Kind) (extent : Extent) : Token :=
  .ofSpan kind (extent.span scanner.rest) (extent.content scanner.rest) scanner.position
    scanner.line

def advance (scanner : Scanner) (kind : Token.Kind) (extent : Extent) : Scanner where
  position := (scanner.token kind extent).stop
  line := (scanner.token kind extent).lastLine
  rest := extent.rest scanner.rest
  behind := scanner.token kind extent :: scanner.behind

/-- Moves over the lexeme that a recognizer finds, if it finds one that is not empty. -/
def scan (scanner : Scanner) (kind : Token.Kind) (recognize : Recognizer) :
    Except Unfinished (Option Scanner) :=
  match recognize scanner.rest with
  | .error unfinished => .error unfinished
  | .ok extent =>
    if extent.span scanner.rest = [] then .ok none else .ok (some (scanner.advance kind extent))

@[simp] theorem tokens_advance (scanner : Scanner) (kind : Token.Kind) (extent : Extent) :
    (scanner.advance kind extent).tokens = scanner.tokens ++ [scanner.token kind extent] := by
  simp [tokens, advance]

theorem scan_eq_some {scanner next : Scanner} {kind : Token.Kind} {recognize : Recognizer}
    (h : scanner.scan kind recognize = .ok (some next)) :
    ∃ extent, recognize scanner.rest = .ok extent ∧ extent.span scanner.rest ≠ [] ∧
      next = scanner.advance kind extent := by
  unfold scan at h
  split at h
  next => simp at h
  next extent he =>
    split at h
    next => simp at h
    next hs => exact ⟨extent, he, hs, by simpa using h.symm⟩

theorem scan_rest_length {scanner next : Scanner} {kind : Token.Kind} {recognize : Recognizer}
    (h : scanner.scan kind recognize = .ok (some next)) :
    next.rest.length < scanner.rest.length := by
  obtain ⟨extent, _, hs, rfl⟩ := scan_eq_some h
  exact extent.rest_length_lt hs

end Scanner

end DdlCatalog
