import DdlCatalog.Schema.OfJson
import DdlCatalog.Proofs.JsonValues

namespace DdlCatalog

open Json

namespace Vendor

theorem recovers (vendor : Vendor) : Recovers toJson ofJson? vendor where
  regular := regular_record (by simp)
  decoded := by simp [toJson, ofJson?, Fields.required?, Fields.named]

end Vendor

namespace Engine

theorem recovers (engine : Engine) : Recovers toJson ofJson? engine where
  regular := regular_record (by simp)
  decoded := by simp [toJson, ofJson?, Fields.required?, Fields.named]

end Engine

namespace Origin

theorem recovers (origin : Origin) : Recovers toJson ofJson? origin where
  regular := regular_record (by
    simp [origin.vendor.recovers.regular, origin.engine.recovers.regular])
  decoded := by
    simp [toJson, ofJson?, Fields.required?, Fields.named, origin.vendor.recovers.decoded,
      origin.engine.recovers.decoded]

end Origin

namespace Grant

theorem recovers (grant : Grant) : Recovers toJson ofJson? grant where
  regular := regular_record (by simp)
  decoded := by simp [toJson, ofJson?, Fields.required?, Fields.named]

end Grant

namespace Comment

theorem recovers (comment : Comment) : Recovers toJson ofJson? comment where
  regular := regular_record (by simp)
  decoded := by simp [toJson, ofJson?, Fields.required?, Fields.named]

end Comment

namespace Column

theorem regular_toJson (column : Column) : Regular column.toJson := by
  have htext := Recovers.option recovers_string (fun _ => nofun) column.defaultValue
  have hword := Recovers.option recovers_word (fun _ => nofun)
  have hposition : Regular (.ofNat column.position) := .number column.position
  exact regular_record (by simp [htext.regular, (hword _).regular, hposition])

theorem recovers {column : Column} (hp : column.position < positionBound) :
    Recovers toJson ofJson? column where
  regular := column.regular_toJson
  decoded := by
    have htext := Recovers.option recovers_string (fun _ => nofun) column.defaultValue
    have hword := Recovers.option recovers_word (fun _ => nofun)
    have hposition := recovers_below hp
    simp [toJson, ofJson?, Fields.required?, Fields.optional?, Fields.named, htext.decoded,
      (hword _).decoded, hposition.decoded]

end Column

namespace Table

/-- Whether the positions of all columns fit into 64 bits. -/
def PositionsFit (table : Table) : Prop :=
  ∀ entry ∈ table.columns.entries, entry.2.position < Column.positionBound

instance (table : Table) : Decidable table.PositionsFit :=
  inferInstanceAs (Decidable (∀ entry ∈ table.columns.entries, _))

theorem regular_toJson (table : Table) : Regular table.toJson := by
  have hcolumns : Regular (ofMap Column.toJson table.columns) :=
    regular_ofMap fun entry _ => entry.2.regular_toJson
  obtain ⟨name, columns, selectStatement⟩ := table
  refine regular_record ?_
  cases selectStatement <;> simp [hcolumns]

theorem recovers {table : Table} (hp : table.PositionsFit) : Recovers toJson ofJson? table where
  regular := table.regular_toJson
  decoded := by
    have hcolumns : Recovers (ofMap Column.toJson) (map? Column.ofJson?) table.columns :=
      .map fun entry he => Column.recovers (hp entry he)
    obtain ⟨name, columns, selectStatement⟩ := table
    cases selectStatement with
    | none =>
      simp [toJson, ofJson?, Fields.required?, Fields.optional?, Fields.named, hcolumns.decoded]
    | some statement =>
      have hstatement : option? string? (ofString statement) = some (some statement) :=
        (Recovers.option recovers_string (fun _ => nofun) (some statement)).decoded
      simp [toJson, ofJson?, Fields.required?, Fields.optional?, Fields.named, hcolumns.decoded,
        hstatement]

end Table

namespace Schema

def PositionsFit (schema : Schema) : Prop :=
  ∀ entry ∈ schema.tables.entries, entry.2.PositionsFit

instance (schema : Schema) : Decidable schema.PositionsFit :=
  inferInstanceAs (Decidable (∀ entry ∈ schema.tables.entries, _))

theorem recovers_grants (schema : Schema) :
    Recovers (ofList Grant.toJson) (list? Grant.ofJson?) schema.grants :=
  .list fun grant _ => grant.recovers

theorem recovers_comments (schema : Schema) :
    Recovers (ofList Comment.toJson) (list? Comment.ofJson?) schema.comments :=
  .list fun comment _ => comment.recovers

theorem recovers_includes (schema : Schema) :
    Recovers (ofList ofString) (list? string?) schema.includes :=
  .list fun path _ => recovers_string path

theorem regular_toJson (schema : Schema) : Regular schema.toJson := by
  have htables : Regular (ofMap Table.toJson schema.tables) :=
    regular_ofMap fun entry _ => entry.2.regular_toJson
  exact regular_record (by
    simp [schema.origin.recovers.regular, htables, schema.recovers_grants.regular,
      schema.recovers_comments.regular, schema.recovers_includes.regular])

theorem recovers {schema : Schema} (hp : schema.PositionsFit) :
    Recovers toJson ofJson? schema where
  regular := schema.regular_toJson
  decoded := by
    have htables : Recovers (ofMap Table.toJson) (map? Table.ofJson?) schema.tables :=
      .map fun entry he => Table.recovers (hp entry he)
    simp [toJson, ofJson?, Fields.required?, Fields.optional?, Fields.named,
      schema.origin.recovers.decoded, htables.decoded, schema.recovers_grants.decoded,
      schema.recovers_comments.decoded, schema.recovers_includes.decoded]

end Schema

/-- Catalogues, tables, columns, grants, comments and origins all come back unchanged from their
compact texts and from their indented ones. -/
theorem readsBack_json :
    (∀ schema : Schema, schema.PositionsFit → ReadsBack Schema.toJson Schema.ofJson? schema) ∧
    (∀ table : Table, table.PositionsFit → ReadsBack Table.toJson Table.ofJson? table) ∧
    (∀ column : Column, column.position < Column.positionBound →
      ReadsBack Column.toJson Column.ofJson? column) ∧
    (∀ grant : Grant, ReadsBack Grant.toJson Grant.ofJson? grant) ∧
    (∀ comment : Comment, ReadsBack Comment.toJson Comment.ofJson? comment) ∧
    ∀ origin : Origin, ReadsBack Origin.toJson Origin.ofJson? origin :=
  ⟨fun _ hp => (Schema.recovers hp).readsBack, fun _ hp => (Table.recovers hp).readsBack,
    fun _ hp => (Column.recovers hp).readsBack, fun grant => grant.recovers.readsBack,
    fun comment => comment.recovers.readsBack, fun origin => origin.recovers.readsBack⟩

theorem readsBack_json_last_position :
    let column : Column :=
      ⟨"na\"me\\", ⟨"VARCHAR2", none, some 4294967295, some 0⟩, some "\x00\n\x7f",
        18446744073709551615, false, true⟩
    let table : Table := ⟨"T", .ofList [("key", column), ("Key", column)], some ""⟩
    let schema : Schema :=
      ⟨.oracle, .ofList [("\x1f", table)], [⟨"SELECT", "T", "U"⟩], [⟨"TABLE", "T", ""⟩], ["a.sql"]⟩
    (schema.PositionsFit ∧ ReadsBack Schema.toJson Schema.ofJson? schema) ∧
    (table.PositionsFit ∧ ReadsBack Table.toJson Table.ofJson? table) ∧
    column.position < Column.positionBound ∧ ReadsBack Column.toJson Column.ofJson? column := by
  intro column table schema
  have hschema : schema.PositionsFit := by decide
  have htable : table.PositionsFit := by decide
  have hcolumn : column.position < Column.positionBound := by decide
  exact ⟨⟨hschema, readsBack_json.1 schema hschema⟩, ⟨htable, readsBack_json.2.1 table htable⟩,
    hcolumn, readsBack_json.2.2.1 column hcolumn⟩

end DdlCatalog
