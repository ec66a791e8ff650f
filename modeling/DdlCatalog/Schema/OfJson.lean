import DdlCatalog.Json.Decode
import DdlCatalog.Schema

namespace DdlCatalog

namespace Vendor

def ofJson? : Json.Decoder Vendor := fun json => do
  let fields ← Json.record? ["name"] json
  return ⟨← fields.required? "name" Json.string?⟩

end Vendor

namespace Engine

def ofJson? : Json.Decoder Engine := fun json => do
  let fields ← Json.record? ["name", "version"] json
  let name ← fields.required? "name" Json.string?
  let version ← fields.required? "version" Json.string?
  return { name, version }

end Engine

namespace Origin

def ofJson? : Json.Decoder Origin := fun json => do
  let fields ← Json.record? ["vendor", "engine", "engine_version", "dialect", "description"] json
  let vendor ← fields.required? "vendor" Vendor.ofJson?
  let engine ← fields.required? "engine" Engine.ofJson?
  let engineVersion ← fields.required? "engine_version" Json.string?
  let dialect ← fields.required? "dialect" Json.string?
  let description ← fields.required? "description" Json.string?
  return { vendor, engine, engineVersion, dialect, description }

end Origin

namespace Column

def positionBound : Nat := UInt64.size

def ofJson? : Json.Decoder Column := fun json => do
  let fields ← Json.record?
    ["name", "type", "default", "precision", "scale", "var_char_size", "position", "nullable",
      "primary_key"] json
  let name ← fields.required? "name" Json.string?
  let typeName ← fields.required? "type" Json.string?
  let defaultValue ← fields.optional? "default" (Json.option? Json.string?) none
  let precision ← fields.optional? "precision" (Json.option? Json.word?) none
  let scale ← fields.optional? "scale" (Json.option? Json.word?) none
  let length ← fields.optional? "var_char_size" (Json.option? Json.word?) none
  let position ← fields.optional? "position" (Json.below? positionBound) 0
  let nullable ← fields.optional? "nullable" Json.bool? true
  let primaryKey ← fields.optional? "primary_key" Json.bool? false
  return ⟨name, ⟨typeName, precision, scale, length⟩, defaultValue, position, nullable, primaryKey⟩

end Column

namespace Table

def ofJson? : Json.Decoder Table := fun json => do
  let fields ← Json.record? ["name", "columns", "select_statement"] json
  let name ← fields.required? "name" Json.string?
  let columns ← fields.required? "columns" (Json.map? Column.ofJson?)
  let selectStatement ← fields.optional? "select_statement" (Json.option? Json.string?) none
  return { name, columns, selectStatement }

end Table

namespace Grant

def ofJson? : Json.Decoder Grant := fun json => do
  let fields ← Json.record? ["type", "where", "who"] json
  let privilege ← fields.required? "type" Json.string?
  let object ← fields.required? "where" Json.string?
  let grantee ← fields.required? "who" Json.string?
  return { privilege, object, grantee }

end Grant

namespace Comment

def ofJson? : Json.Decoder Comment := fun json => do
  let fields ← Json.record? ["kind", "for", "text"] json
  let kind ← fields.required? "kind" Json.string?
  let target ← fields.required? "for" Json.string?
  let text ← fields.required? "text" Json.string?
  return { kind, target, text }

end Comment

namespace Schema

def ofJson? : Json.Decoder Schema := fun json => do
  let fields ← Json.record? ["origin", "tables", "grants", "comments", "includes"] json
  let origin ← fields.required? "origin" Origin.ofJson?
  let tables ← fields.required? "tables" (Json.map? Table.ofJson?)
  let grants ← fields.optional? "grants" (Json.list? Grant.ofJson?) []
  let comments ← fields.optional? "comments" (Json.list? Comment.ofJson?) []
  let includes ← fields.optional? "includes" (Json.list? Json.string?) []
  return { origin, tables, grants, comments, includes }

end Schema

end DdlCatalog
