import DdlCatalog.Json.Reader
import DdlCatalog.NameMap

namespace DdlCatalog.Json

/-- Makes a value of a tree, if it has the right form. -/
abbrev Decoder (α : Type) := Json → Option α

def string? : Decoder String
  | .string body => (unescape? body).map String.ofList
  | _ => none

/-- A whole number below a bound, written with digits alone. -/
def below? (bound : Nat) : Decoder Nat
  | .number literal =>
    match Text.decimal? literal with
    | some n => if n < bound then some n else none
    | none => none
  | _ => none

def word? : Decoder UInt32 := fun json =>
  (below? UInt32.size json).map UInt32.ofNat

def bool? : Decoder Bool
  | .bool value => some value
  | _ => none

def option? {α : Type} (decode : Decoder α) : Decoder (Option α)
  | .null => some none
  | json => (decode json).map some

def list? {α : Type} (decode : Decoder α) : Decoder (List α)
  | .array items => items.mapM decode
  | _ => none

abbrev Fields := List (String × Json)

def fields? : Decoder Fields
  | .object fields =>
    fields.mapM fun field => (unescape? field.1).map fun key => (String.ofList key, field.2)
  | _ => none

/-- The fields of a record: those of an object, or the items of an array, which stand for the fields
of the given names in their order. The last of them may be missing. -/
def record? (names : List String) : Decoder Fields
  | .array items => if items.length ≤ names.length then some (names.zip items) else none
  | json => fields? json

/-- An object as a map. The last of several fields with one key counts. -/
def map? {α : Type} (decode : Decoder α) : Decoder (NameMap α) := fun json => do
  let fields ← fields? json
  let entries ← fields.mapM fun field => (decode field.2).map fun value => (field.1, value)
  return NameMap.ofList entries

namespace Fields

def named (fields : Fields) (key : String) : List Json :=
  (fields.filter (·.1 == key)).map (·.2)

def required? {α : Type} (fields : Fields) (key : String) (decode : Decoder α) : Option α :=
  match fields.named key with
  | [json] => decode json
  | _ => none

def optional? {α : Type} (fields : Fields) (key : String) (decode : Decoder α) (absent : α) :
    Option α :=
  match fields.named key with
  | [] => some absent
  | [json] => decode json
  | _ => none

end Fields

end DdlCatalog.Json
