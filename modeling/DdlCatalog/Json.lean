import DdlCatalog.Json.Escape
import DdlCatalog.Text.Decimal

namespace DdlCatalog

/-- A tree whose leaves are written forms: a number's literal, a string's text between quotes. -/
inductive Json where
  | null
  | bool (value : Bool)
  | number (literal : List Char)
  | string (body : List Char)
  | array (items : List Json)
  | object (fields : List (List Char × Json))

namespace Json

def ofString (text : String) : Json :=
  .string (escape text.toList)

def ofNat (n : Nat) : Json :=
  .number (Text.decimal n)

def ofOption {α : Type} (encode : α → Json) : Option α → Json
  | some a => encode a
  | none => .null

def ofList {α : Type} (encode : α → Json) (items : List α) : Json :=
  .array (items.map encode)

def record (fields : List (String × Json)) : Json :=
  .object (fields.map fun field => (escape field.1.toList, field.2))

/-- Where white space goes: before each item at a depth, and between a key and its value. -/
structure Layout where
  line : Nat → List Char
  gap : List Char

def Layout.dense : Layout := ⟨fun _ => [], []⟩

def Layout.indented : Layout := ⟨fun depth => '\n' :: List.replicate (2 * depth) ' ', [' ']⟩

def writeString (body : List Char) : List Char :=
  '"' :: body ++ ['"']

mutual

def write (layout : Layout) (depth : Nat) : Json → List Char
  | null => "null".toList
  | bool true => "true".toList
  | bool false => "false".toList
  | number literal => literal
  | string body => writeString body
  | array [] => ['[', ']']
  | array (item :: items) =>
    '[' :: layout.line (depth + 1) ++ write layout (depth + 1) item ++
      writeItems layout (depth + 1) items ++ layout.line depth ++ [']']
  | object [] => ['{', '}']
  | object ((key, value) :: fields) =>
    '{' :: layout.line (depth + 1) ++ writeString key ++ ':' :: layout.gap ++
      write layout (depth + 1) value ++ writeFields layout (depth + 1) fields ++
      layout.line depth ++ ['}']

def writeItems (layout : Layout) (depth : Nat) : List Json → List Char
  | [] => []
  | item :: items =>
    ',' :: layout.line depth ++ write layout depth item ++ writeItems layout depth items

def writeFields (layout : Layout) (depth : Nat) : List (List Char × Json) → List Char
  | [] => []
  | (key, value) :: fields =>
    ',' :: layout.line depth ++ writeString key ++ ':' :: layout.gap ++
      write layout depth value ++ writeFields layout depth fields

end

def compact (json : Json) : String :=
  String.ofList (write .dense 0 json)

def pretty (json : Json) : String :=
  String.ofList (write .indented 0 json)

end Json

end DdlCatalog
