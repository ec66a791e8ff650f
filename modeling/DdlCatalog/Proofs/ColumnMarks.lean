import DdlCatalog.Proofs.LastDefinitions

namespace DdlCatalog

namespace Column

theorem foldl_mark_frame (column : Column) (said : List ColumnMark) :
    (said.foldl mark column).name = column.name ∧ (said.foldl mark column).type = column.type ∧
      (said.foldl mark column).defaultValue = column.defaultValue ∧
      (said.foldl mark column).position = column.position := by
  induction said generalizing column with
  | nil => exact ⟨rfl, rfl, rfl, rfl⟩
  | cons first later ih =>
    rw [List.foldl_cons]
    have hfirst := ih (column.mark first)
    cases first <;> exact hfirst

theorem primaryKey_foldl_mark (column : Column) (said : List ColumnMark) :
    (said.foldl mark column).primaryKey = true ↔
      column.primaryKey = true ∨ ColumnMark.primaryKey ∈ said := by
  induction said generalizing column with
  | nil => simp
  | cons first later ih =>
    rw [List.foldl_cons, ih, List.mem_cons]
    cases first <;> simp [mark]

/-- All constraints that are not silent decide whether a column may be empty, the last one of them
for good. -/
theorem nullable_foldl_mark (column : Column) (said : List ColumnMark) :
    (said.foldl mark column).nullable = true ↔
      (∃ front, LastOf (· ≠ .other) said front .null) ∨
        (∀ mark ∈ said, mark = .other) ∧ column.nullable = true := by
  induction said using List.reverseRecOn with
  | nil => simp [not_lastOf_nil]
  | append_singleton said latest ih =>
    rw [List.foldl_append, List.foldl_cons, List.foldl_nil]
    simp only [lastOf_append_singleton_iff]
    by_cases hsilent : latest = .other
    · subst hsilent
      simpa [mark, or_imp, forall_and] using ih
    · have hlatest : ((said.foldl mark column).mark latest).nullable = true ↔ .null = latest := by
        cases latest <;> simp_all [mark]
      simp [hlatest, hsilent]

end Column

namespace Syntax

/-- The inline constraints in the last definition of a column, in the last statement that creates
its table. -/
inductive LastMarks (tokens : List Token) (full name : String) (said : List ColumnMark) : Prop
  | mk {list columns front last before title type value marks after spelled default} :
      LastColumnList tokens full list columns → LastOf (·.name = name) columns front last →
      list = before ++ ((title :: (type ++ (value ++ marks))) ++ after) → title.kind = .string →
      ColumnType type spelled → Default value default → Many Mark marks said →
      last = said.foldl Column.mark
        { Column.plain title.content spelled with defaultValue := default } →
      LastMarks tokens full name said

end Syntax

namespace Schema

/-- A column is part of the primary key when a constraint says so. Then it is never empty, unless
the last constraint that is not silent is `NULL`. -/
theorem nullable_primaryKey_ofTokens {tokens : List Token} {origin : Origin} {schema : Schema}
    (h : ofTokens tokens origin = .ok schema) {full name : String} {table : Table}
    {column : Column} (ht : schema.table? full = some table)
    (hc : table.column? name = some column) :
    ∃ said, Syntax.LastMarks (tokens.filter (!·.isTrivia)) full name said ∧
      (column.primaryKey = true ↔ .primaryKey ∈ said) ∧
      ((column.primaryKey = true → column.nullable = false) ↔
        ¬(.primaryKey ∈ said ∧ ∃ front, LastOf (· ≠ .other) said front .null)) := by
  obtain ⟨list, columns, front, last, before, piece, after, hlist, hlast, hsplit, hpiece, rfl⟩ :=
    exists_definition_of_column? h ht hc
  cases hpiece with
  | @mk title type value marks spelled default said hk htype hvalue hmarks =>
    have hkey := Column.primaryKey_foldl_mark
      { Column.plain title.content spelled with defaultValue := default } said
    have hnull := Column.nullable_foldl_mark
      { Column.plain title.content spelled with defaultValue := default } said
    generalize hdefined : said.foldl Column.mark
      { Column.plain title.content spelled with defaultValue := default } = defined at *
    have hkey' : defined.primaryKey = true ↔ .primaryKey ∈ said := by
      simpa [Column.plain] using hkey
    refine ⟨said, .mk hlist hlast hsplit hk htype hvalue hmarks hdefined.symm, hkey', ?_⟩
    change (defined.primaryKey = true → defined.nullable = false) ↔ _
    rw [hkey', ← Bool.not_eq_true, hnull]
    constructor
    · rintro h ⟨hm, hundone⟩
      exact h hm (.inl hundone)
    · rintro h hm (hundone | ⟨hsilent, -⟩)
      · exact h ⟨hm, hundone⟩
      · exact nomatch hsilent _ hm

def oneColumn (marks : List Token) (stop : Nat) : List Token :=
  ⟨"(", .symbol, 17, 18, 1, 1⟩ :: ⟨"A", .string, 18, 21, 1, 1⟩ ::
    ⟨"INT", .keyword, 22, 25, 1, 1⟩ :: (marks ++ [⟨")", .symbol, stop, stop + 1, 1, 1⟩])

theorem exists_ofTokens_oneColumn {marks : List Token} {said : List ColumnMark}
    (h : Syntax.Many Syntax.Mark marks said) (hkept : ∀ token ∈ marks, token.isTrivia = false)
    (stop : Nat) :
    ∃ schema table, ofTokens (creating (oneColumn marks stop) (stop + 1)) .oracle = .ok schema ∧
      schema.table? "T" = some table ∧ table.column? "A" =
        some ((said.foldl Column.mark (.plain "A" (.plain "INT"))).placedAt 0) := by
  let defined := said.foldl Column.mark (.plain "A" (.plain "INT"))
  have htype : Syntax.TypeName [⟨"INT", .keyword, 22, 25, 1, 1⟩] (Text.upper "INT") := .word rfl
  rw [show Text.upper "INT" = "INT" by decide] at htype
  have hcolumn : Syntax.Element
      (⟨"A", .string, 18, 21, 1, 1⟩ :: ([⟨"INT", .keyword, 22, 25, 1, 1⟩] ++ ([] ++ marks)))
      (some defined) :=
    .column (.mk rfl (.mk htype .absent .absent) .absent h)
  have hlist : Syntax.ColumnList (oneColumn marks stop) [defined] := .mk rfl hcolumn .nil rfl
  have hsignificant : ∀ token ∈ oneColumn marks stop, token.isTrivia = false := by
    intro token hm
    simp only [oneColumn, List.mem_cons, List.mem_append, List.not_mem_nil, or_false] at hm
    obtain rfl | rfl | rfl | hm | rfl := hm
    case inr.inr.inr.inl => exact hkept token hm
    all_goals rfl
  obtain ⟨schema, hs, ht⟩ := exists_ofTokens_creating hlist hsignificant (stop + 1)
  refine ⟨schema, _, hs, ht, Table.column?_pushAll_eq_some_iff.mpr ⟨[], defined, ?_, rfl⟩⟩
  exact ⟨[], rfl, (Column.foldl_mark_frame _ _).1, nofun⟩

theorem nullable_primaryKey_ofTokens_key :
    let tokens := creating (oneColumn
      [⟨"PRIMARY", .keyword, 26, 33, 1, 1⟩, ⟨"KEY", .keyword, 34, 37, 1, 1⟩] 37) 38
    ∃ schema table column, ofTokens tokens .oracle = .ok schema ∧
      schema.table? "T" = some table ∧ table.column? "A" = some column ∧
      column.primaryKey = true ∧
      ∃ said, Syntax.LastMarks (tokens.filter (!·.isTrivia)) "T" "A" said ∧
        (column.primaryKey = true ↔ .primaryKey ∈ said) ∧
        ((column.primaryKey = true → column.nullable = false) ↔
          ¬(.primaryKey ∈ said ∧ ∃ front, LastOf (· ≠ .other) said front .null)) := by
  intro tokens
  have hkey : Syntax.Mark [⟨"PRIMARY", .keyword, 26, 33, 1, 1⟩, ⟨"KEY", .keyword, 34, 37, 1, 1⟩]
      .primaryKey := .primaryKey rfl rfl
  obtain ⟨schema, table, hs, ht, hc⟩ := exists_ofTokens_oneColumn (.cons hkey .nil) (by decide) 37
  exact ⟨schema, table, _, hs, ht, hc, rfl, nullable_primaryKey_ofTokens hs ht hc⟩

/-- A `NULL` behind `PRIMARY KEY` makes a column of the primary key one that may be empty. -/
theorem exists_nullable_primaryKey :
    ∃ schema table column, ofTokens (creating (oneColumn
        [⟨"PRIMARY", .keyword, 26, 33, 1, 1⟩, ⟨"KEY", .keyword, 34, 37, 1, 1⟩,
         ⟨"NULL", .keyword, 38, 42, 1, 1⟩] 42) 43) .oracle = .ok schema ∧
      schema.table? "T" = some table ∧ table.column? "A" = some column ∧
      column.primaryKey = true ∧ column.nullable = true := by
  have hkey : Syntax.Mark [⟨"PRIMARY", .keyword, 26, 33, 1, 1⟩, ⟨"KEY", .keyword, 34, 37, 1, 1⟩]
      .primaryKey := .primaryKey rfl rfl
  have hnull : Syntax.Mark [⟨"NULL", .keyword, 38, 42, 1, 1⟩] .null := .null rfl
  obtain ⟨schema, table, hs, ht, hc⟩ :=
    exists_ofTokens_oneColumn (.cons hkey (.cons hnull .nil)) (by decide) 42
  exact ⟨schema, table, _, hs, ht, hc, rfl, rfl⟩

end Schema

end DdlCatalog
