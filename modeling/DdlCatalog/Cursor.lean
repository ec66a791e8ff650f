import DdlCatalog.Token

namespace DdlCatalog

/-- A place in a token list: how many tokens lie behind it, and those ahead. -/
structure Cursor where
  index : Nat
  rest : List Token
  deriving DecidableEq

namespace Cursor

def start (tokens : List Token) : Cursor := ⟨0, tokens⟩

def available (cursor : Cursor) : Nat :=
  cursor.rest.length

def atEnd (cursor : Cursor) : Bool :=
  cursor.rest.isEmpty

def upTo (cursor : Cursor) (n : Nat) : List Token :=
  cursor.rest.take n

def has (cursor : Cursor) (n : Nat) : Bool :=
  (cursor.upTo n).length == n

def sees (cursor : Cursor) (test : Token → Bool) : Bool :=
  cursor.rest.head?.any test

def moved (cursor : Cursor) (n : Nat) : Cursor :=
  ⟨cursor.index + n, cursor.rest.drop n⟩

theorem has_iff {cursor : Cursor} {n : Nat} : cursor.has n = true ↔ n ≤ cursor.available := by
  simp only [has, upTo, available, List.length_take, beq_iff_eq]
  omega

def shownTokens : Nat := 8

/-- The place as messages name it: its number, and the line and text of the tokens ahead. -/
def location (cursor : Cursor) : String :=
  "tokens at " ++ toString cursor.index ++ " aka " ++
    match cursor.upTo shownTokens with
    | [] => "end of input"
    | first :: rest =>
      "line " ++ toString first.firstLine.toNat ++ " " ++
        Text.quoted (Token.joined (first :: rest) " ") ++ " [..]"

end Cursor

end DdlCatalog
