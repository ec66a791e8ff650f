import DdlCatalog.Json.Piece

namespace DdlCatalog.Json

/-- An open bracket with what was read inside it, latest first. -/
inductive Frame where
  | array (items : List Json)
  | object (fields : List (List Char × Json)) (key : List Char)

inductive Reading where
  | value (stack : List Frame)
  | itemOrClose (stack : List Frame)
  | keyOrClose (stack : List Frame)
  | key (fields : List (List Char × Json)) (stack : List Frame)
  | colon (fields : List (List Char × Json)) (key : List Char) (stack : List Frame)
  | complete (value : Json) (stack : List Frame)

namespace Reading

def begin (stack : List Frame) : Piece → Option Reading
  | .null => some (complete .null stack)
  | .bool b => some (complete (.bool b) stack)
  | .number literal => some (complete (.number literal) stack)
  | .string body => some (complete (.string body) stack)
  | .openArray => some (itemOrClose stack)
  | .openObject => some (keyOrClose stack)
  | _ => none

def step : Reading → Piece → Option Reading
  | value stack, piece => begin stack piece
  | itemOrClose stack, .closeArray => some (complete (.array []) stack)
  | itemOrClose stack, piece => begin (.array [] :: stack) piece
  | keyOrClose stack, .closeObject => some (complete (.object []) stack)
  | keyOrClose stack, .string k => some (colon [] k stack)
  | key fields stack, .string k => some (colon fields k stack)
  | colon fields k stack, .colon => some (value (.object fields k :: stack))
  | complete v (.array items :: stack), .comma => some (value (.array (v :: items) :: stack))
  | complete v (.array items :: stack), .closeArray =>
    some (complete (.array (v :: items).reverse) stack)
  | complete v (.object fields k :: stack), .comma => some (key ((k, v) :: fields) stack)
  | complete v (.object fields k :: stack), .closeObject =>
    some (complete (.object ((k, v) :: fields).reverse) stack)
  | _, _ => none

end Reading

def assemble? (pieces : List Piece) : Option Json :=
  match pieces.foldlM Reading.step (.value []) with
  | some (.complete value []) => some value
  | _ => none

def read? (text : String) : Option Json :=
  (Piece.all? text.toList).bind assemble?

end DdlCatalog.Json
