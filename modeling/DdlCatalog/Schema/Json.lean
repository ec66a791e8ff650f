import DdlCatalog.Json
import DdlCatalog.Schema

namespace DdlCatalog

namespace Json

def ofWord (w : UInt32) : Json :=
  ofNat w.toNat

def ofMap {α : Type} (encode : α → Json) (map : NameMap α) : Json :=
  record (map.toList.map fun entry => (entry.1, encode entry.2))

end Json

namespace Vendor

def toJson (vendor : Vendor) : Json :=
  .record [("name", .ofString vendor.name)]

end Vendor

namespace Engine

def toJson (engine : Engine) : Json :=
  .record [("name", .ofString engine.name), ("version", .ofString engine.version)]

end Engine

namespace Origin

def toJson (origin : Origin) : Json :=
  .record
    [("vendor", origin.vendor.toJson),
     ("engine", origin.engine.toJson),
     ("engine_version", .ofString origin.engineVersion),
     ("dialect", .ofString origin.dialect),
     ("description", .ofString origin.description)]

end Origin

namespace Column

def toJson (column : Column) : Json :=
  .record
    [("name", .ofString column.name),
     ("type", .ofString column.type.name),
     ("default", .ofOption .ofString column.defaultValue),
     ("precision", .ofOption .ofWord column.type.precision),
     ("scale", .ofOption .ofWord column.type.scale),
     ("var_char_size", .ofOption .ofWord column.type.length),
     ("position", .ofNat column.position),
     ("nullable", .bool column.nullable),
     ("primary_key", .bool column.primaryKey)]

end Column

namespace Table

def toJson (table : Table) : Json :=
  .record <|
    [("name", .ofString table.name), ("columns", .ofMap Column.toJson table.columns)] ++
      match table.selectStatement with
      | some statement => [("select_statement", .ofString statement)]
      | none => []

end Table

namespace Grant

def toJson (grant : Grant) : Json :=
  .record
    [("type", .ofString grant.privilege),
     ("where", .ofString grant.object),
     ("who", .ofString grant.grantee)]

end Grant

namespace Comment

def toJson (comment : Comment) : Json :=
  .record
    [("kind", .ofString comment.kind),
     ("for", .ofString comment.target),
     ("text", .ofString comment.text)]

end Comment

namespace Schema

def toJson (schema : Schema) : Json :=
  .record
    [("origin", schema.origin.toJson),
     ("tables", .ofMap Table.toJson schema.tables),
     ("grants", .ofList Grant.toJson schema.grants),
     ("comments", .ofList Comment.toJson schema.comments),
     ("includes", .ofList .ofString schema.includes)]

end Schema

end DdlCatalog
