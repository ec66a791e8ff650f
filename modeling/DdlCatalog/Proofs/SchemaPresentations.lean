import DdlCatalog.Proofs.JsonRecords
import DdlCatalog.Proofs.SchemaJson

namespace DdlCatalog

open Json

namespace Json

variable {α : Type} {form : Form} {encode : α → Json} {decode : Decoder α}

/-- A text that presents a tree: after any number of changes, with any white space. -/
def Presents (form : Form) (json : Json) (text : String) : Prop :=
  ∃ shown, Relation.ReflTransGen (Restates form) json shown ∧ Piece.Laid shown.pieces text.toList

theorem presents_written (form : Form) (json : Json) :
    Presents form json json.compact ∧ Presents form json json.pretty :=
  ⟨⟨json, .refl, laid_text Layout.blank_dense json 0⟩,
    ⟨json, .refl, laid_text Layout.blank_indented json 0⟩⟩

/-- Values that fit into the numbers of a text come back from all texts that present their trees. No
value comes from the text of a tree in which a known field is repeated or a required one is gone. -/
structure Insensitive (form : Form) (encode : α → Json) (decode : Decoder α) (Fits : α → Prop) :
    Prop where
  shown : ∀ value, Fits value → ∀ text, Presents form (encode value) text →
    (read? text).bind decode = some value
  refused : ∀ json, WellFormed json → Faulty form json → ∀ text : String,
    Piece.Laid json.pieces text.toList → (read? text).bind decode = none

theorem Follows.steady_run {json shown : Json} {value : α} (h : Follows form decode)
    (hs : Relation.ReflTransGen (Restates form) json shown) (hw : WellFormed json)
    (hd : Distinct form json) (hv : decode json = some value) :
    WellFormed shown ∧ Distinct form shown ∧ decode shown = some value := by
  induction hs with
  | refl => exact ⟨hw, hd, hv⟩
  | tail _ hs ih =>
    obtain ⟨hw, hd, hv⟩ := ih
    exact ⟨hs.wellFormed hw, hs.distinct hd, h.steady hs hd hv⟩

theorem Follows.insensitive {Fits : α → Prop} (h : Follows form decode)
    (hd : ∀ value, Distinct form (encode value))
    (hr : ∀ value, Fits value → Recovers encode decode value) :
    Insensitive form encode decode Fits where
  shown value hf text hp := by
    obtain ⟨shown, hs, hl⟩ := hp
    have hrecovers := hr value hf
    obtain ⟨hw, -, hv⟩ := h.steady_run hs hrecovers.regular.wellFormed (hd value) hrecovers.decoded
    rw [hw.read?_laid hl, Option.bind_some, hv]
  refused json hw hf text hl := by
    rw [hw.read?_laid hl, Option.bind_some, h.strict hf]

theorem named_escape_iff {name other : String} {json : Json} :
    Named other (escape name.toList, json) ↔ name = other := by
  rw [Named, unescape?_escape, Option.some_inj, String.toList_inj]

theorem distinct_record {slots : List (String × Slot)} {fields : List (String × Json)}
    (h : ∀ field ∈ fields, ∀ slot, slots.lookup field.1 = some slot →
      Distinct slot.form field.2) : Distinct (.record slots) (record fields) := by
  refine .record fun field hf name slot hname hslot => ?_
  obtain ⟨held, hm, rfl⟩ := List.mem_map.mp hf
  obtain rfl := named_escape_iff.mp hname
  exact h held hm slot hslot

theorem distinct_ofList {items : List α} (h : ∀ item ∈ items, Distinct form (encode item)) :
    Distinct (.list form) (ofList encode items) := by
  refine .list fun json hj => ?_
  obtain ⟨item, hi, rfl⟩ := List.mem_map.mp hj
  exact h item hi

theorem distinct_ofMap {map : NameMap α}
    (h : ∀ entry ∈ map.entries, Distinct form (encode entry.2)) :
    Distinct (.map form) (ofMap encode map) := by
  have hnames : (map.entries.map fun entry => some entry.1.toList).Nodup := by
    have hinjective : Function.Injective fun name : String => some name.toList := fun _ _ h =>
      String.toList_injective (Option.some.inj h)
    simpa [Function.comp_def] using map.nodup_names.map hinjective
  refine .map ?_ fun field hf => ?_
  · simpa [ofMap, NameMap.toList, Function.comp_def, unescape?_escape] using hnames
  · simp only [NameMap.toList, List.map_map, List.mem_map] at hf
    obtain ⟨entry, he, rfl⟩ := hf
    exact h entry he

end Json

namespace Vendor

def form : Form :=
  .record [("name", .required .leaf)]

theorem follows : Follows form ofJson? :=
  .record (by decide) (.bind (.required (.leaf _)) fun _ => .pure _)

theorem distinct_toJson (vendor : Vendor) : Distinct form vendor.toJson :=
  distinct_record (by simp [NameMap.lookup_cons_eq, Slot.required, Distinct.leaf])

end Vendor

namespace Engine

def form : Form :=
  .record [("name", .required .leaf), ("version", .required .leaf)]

theorem follows : Follows form ofJson? :=
  .record (by decide) <|
    .bind (.required (.leaf _)) fun _ => .bind (.required (.leaf _)) fun _ => .pure _

theorem distinct_toJson (engine : Engine) : Distinct form engine.toJson :=
  distinct_record (by simp [NameMap.lookup_cons_eq, Slot.required, Distinct.leaf])

end Engine

namespace Origin

def form : Form :=
  .record
    [("vendor", .required Vendor.form),
     ("engine", .required Engine.form),
     ("engine_version", .required .leaf),
     ("dialect", .required .leaf),
     ("description", .required .leaf)]

theorem follows : Follows form ofJson? :=
  .record (by decide) <|
    .bind (.required Vendor.follows) fun _ => .bind (.required Engine.follows) fun _ =>
    .bind (.required (.leaf _)) fun _ => .bind (.required (.leaf _)) fun _ =>
    .bind (.required (.leaf _)) fun _ => .pure _

theorem distinct_toJson (origin : Origin) : Distinct form origin.toJson :=
  distinct_record (by
    simp [NameMap.lookup_cons_eq, Slot.required, Distinct.leaf, Vendor.distinct_toJson,
      Engine.distinct_toJson])

end Origin

namespace Column

def form : Form :=
  .record
    [("name", .required .leaf),
     ("type", .required .leaf),
     ("default", .optional .leaf .null),
     ("precision", .optional .leaf .null),
     ("scale", .optional .leaf .null),
     ("var_char_size", .optional .leaf .null),
     ("position", .optional .leaf (.ofNat 0)),
     ("nullable", .optional .leaf (.bool true)),
     ("primary_key", .optional .leaf (.bool false))]

theorem follows : Follows form ofJson? :=
  .record (by decide) <|
    .bind (.required (.leaf _)) fun _ => .bind (.required (.leaf _)) fun _ =>
    .bind (.optional (.leaf _) rfl) fun _ => .bind (.optional (.leaf _) rfl) fun _ =>
    .bind (.optional (.leaf _) rfl) fun _ => .bind (.optional (.leaf _) rfl) fun _ =>
    .bind (.optional (.leaf _) rfl) fun _ => .bind (.optional (.leaf _) rfl) fun _ =>
    .bind (.optional (.leaf _) rfl) fun _ => .pure _

theorem distinct_toJson (column : Column) : Distinct form column.toJson :=
  distinct_record (by simp [NameMap.lookup_cons_eq, Slot.required, Slot.optional, Distinct.leaf])

end Column

namespace Table

def form : Form :=
  .record
    [("name", .required .leaf),
     ("columns", .required (.map Column.form)),
     ("select_statement", .optional .leaf .null)]

theorem follows : Follows form ofJson? :=
  .record (by decide) <|
    .bind (.required (.leaf _)) fun _ => .bind (.required Column.follows.map) fun _ =>
    .bind (.optional (.leaf _) rfl) fun _ => .pure _

theorem distinct_toJson (table : Table) : Distinct form table.toJson := by
  have hcolumns : Distinct (.map Column.form) (ofMap Column.toJson table.columns) :=
    distinct_ofMap fun entry _ => entry.2.distinct_toJson
  obtain ⟨name, columns, selectStatement⟩ := table
  refine distinct_record ?_
  cases selectStatement <;>
    simp [NameMap.lookup_cons_eq, Slot.required, Slot.optional, Distinct.leaf, hcolumns]

end Table

namespace Grant

def form : Form :=
  .record [("type", .required .leaf), ("where", .required .leaf), ("who", .required .leaf)]

theorem follows : Follows form ofJson? :=
  .record (by decide) <|
    .bind (.required (.leaf _)) fun _ => .bind (.required (.leaf _)) fun _ =>
    .bind (.required (.leaf _)) fun _ => .pure _

theorem distinct_toJson (grant : Grant) : Distinct form grant.toJson :=
  distinct_record (by simp [NameMap.lookup_cons_eq, Slot.required, Distinct.leaf])

end Grant

namespace Comment

def form : Form :=
  .record [("kind", .required .leaf), ("for", .required .leaf), ("text", .required .leaf)]

theorem follows : Follows form ofJson? :=
  .record (by decide) <|
    .bind (.required (.leaf _)) fun _ => .bind (.required (.leaf _)) fun _ =>
    .bind (.required (.leaf _)) fun _ => .pure _

theorem distinct_toJson (comment : Comment) : Distinct form comment.toJson :=
  distinct_record (by simp [NameMap.lookup_cons_eq, Slot.required, Distinct.leaf])

end Comment

namespace Schema

def form : Form :=
  .record
    [("origin", .required Origin.form),
     ("tables", .required (.map Table.form)),
     ("grants", .optional (.list Grant.form) (.array [])),
     ("comments", .optional (.list Comment.form) (.array [])),
     ("includes", .optional (.list .leaf) (.array []))]

theorem follows : Follows form ofJson? :=
  .record (by decide) <|
    .bind (.required Origin.follows) fun _ => .bind (.required Table.follows.map) fun _ =>
    .bind (.optional Grant.follows.list rfl) fun _ =>
    .bind (.optional Comment.follows.list rfl) fun _ =>
    .bind (.optional (Follows.leaf _).list rfl) fun _ => .pure _

theorem distinct_toJson (schema : Schema) : Distinct form schema.toJson := by
  have htables : Distinct (.map Table.form) (ofMap Table.toJson schema.tables) :=
    distinct_ofMap fun entry _ => entry.2.distinct_toJson
  have hgrants : Distinct (.list Grant.form) (ofList Grant.toJson schema.grants) :=
    distinct_ofList fun grant _ => grant.distinct_toJson
  have hcomments : Distinct (.list Comment.form) (ofList Comment.toJson schema.comments) :=
    distinct_ofList fun comment _ => comment.distinct_toJson
  have hincludes : Distinct (.list .leaf) (ofList ofString schema.includes) :=
    distinct_ofList fun path _ => .leaf _
  exact distinct_record (by
    simp [NameMap.lookup_cons_eq, Slot.required, Slot.optional, Origin.distinct_toJson, htables,
      hgrants, hcomments, hincludes])

end Schema

/-- Catalogues, tables, columns, grants, comments and origins come back from every text that
presents them. No text of a faulty tree is taken for one of them. -/
theorem insensitive_json :
    Insensitive Schema.form Schema.toJson Schema.ofJson? Schema.PositionsFit ∧
    Insensitive Table.form Table.toJson Table.ofJson? Table.PositionsFit ∧
    Insensitive Column.form Column.toJson Column.ofJson? (·.position < Column.positionBound) ∧
    Insensitive Grant.form Grant.toJson Grant.ofJson? (fun _ => True) ∧
    Insensitive Comment.form Comment.toJson Comment.ofJson? (fun _ => True) ∧
    Insensitive Origin.form Origin.toJson Origin.ofJson? (fun _ => True) :=
  ⟨Schema.follows.insensitive Schema.distinct_toJson fun _ hp => Schema.recovers hp,
    Table.follows.insensitive Table.distinct_toJson fun _ hp => Table.recovers hp,
    Column.follows.insensitive Column.distinct_toJson fun _ hp => Column.recovers hp,
    Grant.follows.insensitive Grant.distinct_toJson fun grant _ => grant.recovers,
    Comment.follows.insensitive Comment.distinct_toJson fun comment _ => comment.recovers,
    Origin.follows.insensitive Origin.distinct_toJson fun origin _ => origin.recovers⟩

/-- A column without its default, with its fields in reverse and one more in front of them. -/
theorem insensitive_json_reversed :
    let column : Column := ⟨"A", ⟨"NUMBER", some 5, some 2, none⟩, some "1", 3, true, false⟩
    let shown : Json := .record
      [("x", .record [("y", .ofNat 7), ("y", .null)]), ("primary_key", .bool false),
       ("position", .ofNat 3), ("var_char_size", .null), ("scale", .ofNat 2),
       ("precision", .ofNat 5), ("default", .ofString "1"), ("type", .ofString "NUMBER"),
       ("name", .ofString "A")]
    column.position < Column.positionBound ∧ Presents Column.form column.toJson shown.pretty ∧
    (read? shown.pretty).bind Column.ofJson? = some column := by
  intro column shown
  have hposition : column.position < Column.positionBound := by decide
  have hpresents : Presents Column.form column.toJson shown.pretty := by
    let written : String × Json → List Char × Json := fun field => (escape field.1.toList, field.2)
    let front := [("name", Json.ofString "A"), ("type", .ofString "NUMBER"),
      ("default", .ofString "1"), ("precision", .ofNat 5), ("scale", .ofNat 2),
      ("var_char_size", .null), ("position", .ofNat 3)].map written
    let back := [("primary_key", Json.bool false)].map written
    have hleft : Restates Column.form column.toJson (.object (front ++ back)) :=
      @Restates.leftOut _ front back (written ("nullable", .bool true)) "nullable"
        (.optional .leaf (.bool true)) (named_escape_iff.mpr rfl) rfl rfl
    have hturned : Restates Column.form (.object (front ++ back))
        (.object (front ++ back).reverse) :=
      .permuted (List.reverse_perm _).symm
    have hextra : WellFormed (.record [("y", .ofNat 7), ("y", .null)]) :=
      (regular_record (by simpa using ⟨Regular.number 7, Regular.null⟩)).wellFormed
    have hadded : Restates Column.form (.object (front ++ back).reverse) shown :=
      @Restates.added _ [] (front ++ back).reverse (written ("x", _)) "x"
        (named_escape_iff.mpr rfl) rfl (body_escape _) hextra
    exact ⟨shown, .tail (.tail (.single hleft) hturned) hadded,
      laid_text Layout.blank_indented shown 0⟩
  exact ⟨hposition, hpresents, insensitive_json.2.2.1.shown column hposition _ hpresents⟩

end DdlCatalog
