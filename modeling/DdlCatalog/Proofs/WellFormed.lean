import DdlCatalog.Proofs.ColumnMarks
import DdlCatalog.Proofs.ColumnOrder
import Mathlib.Data.List.DropRight

namespace DdlCatalog

namespace Text

def Trimmed (text : List Char) : Prop :=
  (∀ c ∈ text.head?, isBlank c = false) ∧ ∀ c ∈ text.getLast?, isBlank c = false

theorem trimmed_trim (text : List Char) : Trimmed (trim text) := by
  have htrim : trim text = (text.dropWhile isBlank).rdropWhile isBlank := rfl
  rw [htrim]
  constructor
  · intro c hc
    obtain ⟨back, hback⟩ := List.rdropWhile_prefix isBlank (text.dropWhile isBlank)
    have hfirst : c ∈ (text.dropWhile isBlank).head? := by
      rw [← hback, List.head?_append, hc]
      rfl
    have hnot := List.head?_dropWhile_not isBlank text
    rw [hfirst] at hnot
    simpa using hnot
  · intro c hc
    obtain ⟨hne, rfl⟩ := List.mem_getLast?_eq_getLast hc
    simpa using List.rdropWhile_last_not _ _ hne

theorem isLower_of_mem_upper {text : String} {c : Char} (h : c ∈ (upper text).toList) :
    c.isLower = false := by
  rw [toList_upper] at h
  obtain ⟨d, -, rfl⟩ := List.mem_map.mp h
  exact isLower_toUpper d

end Text

namespace DataType

/-- The names of types that more than one keyword spells. -/
def compoundNames : List String :=
  ["DOUBLE PRECISION", "LONG RAW", "TIMESTAMP WITH TIME ZONE", "TIMESTAMP WITH LOCAL TIME ZONE"]

/-- A name in capitals, a length for characters alone, and for these nothing but a length. -/
structure WellFormed (type : DataType) : Prop where
  capitals : ∀ c ∈ type.name.toList, c.isLower = false
  length : type.length.isSome = true → type.name ∈ characterTypes
  numbers : type.name ∈ characterTypes → type.precision = none ∧ type.scale = none

theorem isLower_of_mem_compoundNames {name : String} (h : name ∈ compoundNames) :
    ∀ c ∈ name.toList, c.isLower = false := by
  have hall : (compoundNames.all fun name => name.toList.all fun c => !c.isLower) = true := rfl
  simpa using List.all_eq_true.mp hall name h

theorem wellFormed_plain {name : String} (h : ∀ c ∈ name.toList, c.isLower = false) :
    (plain name).WellFormed :=
  ⟨h, nofun, fun _ => ⟨rfl, rfl⟩⟩

theorem WellFormed.renamed {type : DataType} (h : type.WellFormed) (hn : type.name ∉ characterTypes)
    {name : String} (hname : name ∈ compoundNames) (hother : name ∉ characterTypes) :
    ({ type with name } : DataType).WellFormed :=
  ⟨isLower_of_mem_compoundNames hname, fun hlen => absurd (h.length hlen) hn,
    fun hm => absurd hm hother⟩

end DataType

namespace Syntax

open DataType

theorem TypeName.exists_word {tokens : List Token} {name : String} (h : TypeName tokens name) :
    ∃ word more, tokens = word :: more ∧ word.kind = .keyword ∧
      (name = Text.upper word.content ∨ name ∈ compoundNames) := by
  cases h with
  | word hk => exact ⟨_, _, rfl, hk, .inl rfl⟩
  | doublePrecision ha hb => exact ⟨_, _, rfl, Token.kind_of_isKeyword ha, .inr (by decide)⟩
  | longRaw ha hb => exact ⟨_, _, rfl, Token.kind_of_isKeyword ha, .inr (by decide)⟩

theorem Numbers.wellFormed {type numbered : DataType} {parameters : List Token}
    (h : Numbers type parameters numbered) (ht : type.WellFormed)
    (hlen : type.length.isSome = false) :
    numbered.WellFormed ∧ numbered.name = type.name := by
  cases h with
  | none => exact ⟨ht, rfl⟩
  | obscure => exact ⟨ht, rfl⟩
  | length _ hm => exact ⟨⟨ht.capitals, fun _ => hm, ht.numbers⟩, rfl⟩
  | precision _ hm _ =>
    refine ⟨⟨ht.capitals, fun hsome => ?_, fun hin => absurd hin hm⟩, rfl⟩
    cases hlen.symm.trans hsome

theorem Parameters.wellFormed {type numbered : DataType} {tokens : List Token}
    (h : Parameters type tokens numbered) (ht : type.WellFormed)
    (hlen : type.length.isSome = false) :
    numbered.WellFormed ∧ numbered.name = type.name := by
  cases h with
  | absent => exact ⟨ht, rfl⟩
  | listed _ _ _ hn _ => exact hn.wellFormed ht hlen

theorem TimeZone.wellFormed {type zoned : DataType} {tokens : List Token}
    (h : TimeZone type tokens zoned) (ht : type.WellFormed) :
    zoned.WellFormed ∧ (zoned.name = type.name ∨ zoned.name ∈ compoundNames) := by
  have hplain : "TIMESTAMP" ∉ characterTypes := by decide
  have hzone : "TIMESTAMP WITH TIME ZONE" ∈ compoundNames := by decide
  have hlocal : "TIMESTAMP WITH LOCAL TIME ZONE" ∈ compoundNames := by decide
  cases h with
  | absent => exact ⟨ht, .inl rfl⟩
  | zone hname => exact ⟨ht.renamed (hname ▸ hplain) hzone (by decide), .inr hzone⟩
  | localZone hname => exact ⟨ht.renamed (hname ▸ hplain) hlocal (by decide), .inr hlocal⟩

theorem ColumnType.wellFormed {tokens : List Token} {type : DataType} (h : ColumnType tokens type) :
    type.WellFormed ∧ ∃ word more, tokens = word :: more ∧ word.kind = .keyword ∧
      (type.name = Text.upper word.content ∨ type.name ∈ compoundNames) := by
  cases h with
  | @mk name parameters zone spelled numbered _ hn hp hz =>
    obtain ⟨word, more, rfl, hk, hspelled⟩ := hn.exists_word
    have hcapitals : ∀ c ∈ spelled.toList, c.isLower = false := by
      rcases hspelled with rfl | hm
      · exact fun c hc => Text.isLower_of_mem_upper hc
      · exact isLower_of_mem_compoundNames hm
    obtain ⟨hnumbered, hsame⟩ := hp.wellFormed (wellFormed_plain hcapitals) rfl
    obtain ⟨htype, hname⟩ := hz.wellFormed hnumbered
    refine ⟨htype, word, more ++ (parameters ++ zone), rfl, hk, ?_⟩
    rcases hname with hname | hm
    · rw [hname, hsame]
      exact hspelled
    · exact .inr hm

theorem ColumnDefinition.wellFormed {tokens : List Token} {column : Column}
    (h : ColumnDefinition tokens column) :
    column.type.WellFormed ∧ ∃ title word more, tokens = title :: word :: more ∧
      word.kind = .keyword ∧
      (column.type.name = Text.upper word.content ∨ column.type.name ∈ compoundNames) := by
  cases h with
  | @mk title type value marks spelled default said hk htype hvalue hmarks =>
    obtain ⟨-, hsame, -⟩ := Column.foldl_mark_frame
      { Column.plain title.content spelled with defaultValue := default } said
    rw [hsame]
    obtain ⟨hwell, word, more, rfl, hword, hname⟩ := htype.wellFormed
    exact ⟨hwell, title, word, more ++ (value ++ marks), rfl, hword, hname⟩

inductive LastTypeWord (tokens : List Token) (full name : String) (word : Token) : Prop
  | mk {list columns front last before title more after} :
      LastColumnList tokens full list columns → LastOf (·.name = name) columns front last →
      list = before ++ ((title :: word :: more) ++ after) →
      ColumnDefinition (title :: word :: more) last → word.kind = .keyword →
      LastTypeWord tokens full name word

end Syntax

/-- A table of a script selects nothing, and its columns are those it holds under their names. -/
structure Table.WellFormed (table : Table) : Prop where
  unselected : table.selectStatement = none
  columns : ∀ name column, table.column? name = some column →
    column.name = name ∧ column.type.WellFormed ∧ column.position ≤ table.columns.size

namespace Table

@[simp] theorem selectStatement_pushAll (table : Table) (columns : List Column) :
    (table.pushAll columns).selectStatement = table.selectStatement := by
  induction columns generalizing table with
  | nil => rfl
  | cons column columns ih => exact ih (table.push column)

theorem wellFormed_pushAll (full : String) {columns : List Column}
    (h : ∀ column ∈ columns, column.type.WellFormed) :
    ((named full).pushAll columns).WellFormed where
  unselected := selectStatement_pushAll _ _
  columns := by
    intro name column hc
    obtain ⟨front, last, hlast, rfl⟩ := column?_pushAll_eq_some_iff.mp hc
    obtain ⟨back, rfl, hname, -⟩ := hlast
    -- the position counts the names in front, which are some of those of the table
    refine ⟨hname, h last (by simp), ?_⟩
    rw [size_pushAll]
    exact countNames_le_append front (last :: back)

end Table

def Statement.WellFormed : Statement → Prop
  | table definition => definition.WellFormed
  | _ => True

theorem Syntax.Sentence.wellFormed {tokens : List Token} {statement : Statement}
    (h : Sentence tokens statement) : statement.WellFormed := by
  cases h with
  | table _ _ _ hl _ =>
    refine Table.wellFormed_pushAll _ fun column hm => ?_
    obtain ⟨-, piece, -, -, hpiece⟩ := hl.definition_of_mem hm
    exact hpiece.wellFormed.1
  | _ => trivial

/-- All tables are well-formed and held under their names, and included paths are trimmed. -/
structure Schema.WellFormed (schema : Schema) : Prop where
  tables : ∀ full table, schema.table? full = some table → table.name = full ∧ table.WellFormed
  includes : ∀ path ∈ schema.includes, Text.Trimmed path.toList

namespace Schema

theorem wellFormed_empty (origin : Origin) : (empty origin).WellFormed :=
  ⟨nofun, nofun⟩

theorem WellFormed.addTo {schema : Schema} (h : schema.WellFormed) {statement : Statement}
    (hs : statement.WellFormed) : (statement.addTo schema).WellFormed := by
  cases statement with
  | directive content =>
    refine ⟨h.tables, fun path hm => ?_⟩
    rcases List.mem_append.mp hm with hm | hm
    · exact h.includes path hm
    · obtain rfl := List.mem_singleton.mp hm
      rw [Statement.includedPath, String.toList_ofList]
      exact Text.trimmed_trim _
  | grant body => exact ⟨h.tables, h.includes⟩
  | comment body => exact ⟨h.tables, h.includes⟩
  | table definition =>
    refine ⟨fun full table ht => ?_, h.includes⟩
    by_cases hcreates : (Statement.table definition).Creates full
    · obtain ⟨found, hfound, hheld⟩ := table?_addTo_of_creates hcreates schema
      cases hfound
      obtain rfl : definition = table := Option.some.inj (hheld.symm.trans ht)
      exact ⟨hcreates, hs⟩
    · rw [table?_addTo_of_not_creates hcreates] at ht
      exact h.tables full table ht

theorem wellFormed_ofStatements (origin : Origin) {statements : List Statement}
    (h : ∀ statement ∈ statements, statement.WellFormed) :
    (ofStatements origin statements).WellFormed := by
  induction statements using List.reverseRecOn with
  | nil => exact wellFormed_empty origin
  | append_singleton statements latest ih =>
    rw [ofStatements_concat]
    exact (ih fun statement hm => h statement (by simp [hm])).addTo (h latest (by simp))

/-- Every catalogue of a script is well-formed, and its columns are of the types that the keywords
of their last definitions name. -/
theorem wellFormed_ofTokens {tokens : List Token} {origin : Origin} {schema : Schema}
    (h : ofTokens tokens origin = .ok schema) :
    schema.WellFormed ∧ ∀ full table name column, schema.table? full = some table →
      table.column? name = some column →
      ∃ word, Syntax.LastTypeWord (tokens.filter (!·.isTrivia)) full name word ∧
        (column.type.name = Text.upper word.content ∨
          column.type.name ∈ DataType.compoundNames) := by
  constructor
  · obtain ⟨statements, hscript, rfl⟩ := exists_script_of_ofTokens h
    refine wellFormed_ofStatements origin fun statement hm => ?_
    obtain ⟨-, piece, -, -, hpiece⟩ := (Grammar.script_eq_ok_iff.mp hscript).of_mem hm
    exact hpiece.wellFormed
  · intro full table name column ht hc
    obtain ⟨list, columns, front, last, before, piece, after, hlist, hlast, hsplit, hpiece, rfl⟩ :=
      exists_definition_of_column? h ht hc
    obtain ⟨-, title, word, more, rfl, hword, hname⟩ := hpiece.wellFormed
    exact ⟨word, .mk hlist hlast hsplit hpiece hword, hname⟩

theorem wellFormed_ofTokens_creating :
    let tokens := creating (plainList 17 25) 26
    ∃ schema table column, ofTokens tokens .oracle = .ok schema ∧ schema.WellFormed ∧
      schema.table? "T" = some table ∧ table.column? "X" = some column ∧
      ∃ word, Syntax.LastTypeWord (tokens.filter (!·.isTrivia)) "T" "X" word ∧
        (column.type.name = Text.upper word.content ∨
          column.type.name ∈ DataType.compoundNames) := by
  intro tokens
  obtain ⟨schema, hs, ht⟩ := exists_ofTokens_creating (columnList_plainList 17 25) (by decide) 26
  have hc : ((Table.named "T").pushAll [.plain "X" (.plain "INT")]).column? "X" =
      some (.plain "X" (.plain "INT")) :=
    Table.column?_pushAll_eq_some_iff.mpr ⟨[], _, ⟨[], rfl, rfl, nofun⟩, rfl⟩
  obtain ⟨hwell, htypes⟩ := wellFormed_ofTokens hs
  exact ⟨schema, _, _, hs, hwell, ht, hc, htypes _ _ _ _ ht hc⟩

end Schema

end DdlCatalog
