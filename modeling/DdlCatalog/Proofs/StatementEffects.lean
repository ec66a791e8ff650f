import DdlCatalog.Proofs.GrantsAndComments
import DdlCatalog.Proofs.WellFormed

namespace DdlCatalog

namespace Text

theorem trim_eq_iff {text path : List Char} :
    trim text = path ↔ Trimmed path ∧ ∃ before after, text = before ++ (path ++ after) ∧
      (∀ c ∈ before, isBlank c = true) ∧ ∀ c ∈ after, isBlank c = true := by
  constructor
  · rintro rfl
    refine ⟨trimmed_trim text, text.takeWhile isBlank,
      (text.dropWhile isBlank).rtakeWhile isBlank, ?_, ?_, ?_⟩
    · change text = _ ++ (((text.dropWhile isBlank).rdropWhile isBlank) ++ _)
      rw [List.rdropWhile_append_rtakeWhile, List.takeWhile_append_dropWhile]
    · exact fun c hc => List.mem_takeWhile_imp hc
    · exact fun c hc => List.mem_rtakeWhile_imp hc
  · rintro ⟨htrimmed, before, after, rfl, hbefore, hafter⟩
    change ((before ++ (path ++ after)).dropWhile isBlank).rdropWhile isBlank = path
    rw [List.dropWhile_append_of_pos hbefore]
    cases path with
    | nil => rw [List.nil_append, List.dropWhile_eq_nil_iff.mpr hafter, List.rdropWhile_nil]
    | cons first path =>
      have hfirst : ¬isBlank first = true := by simp [htrimmed.1 first rfl]
      rw [List.cons_append, List.dropWhile_cons_of_neg hfirst, ← List.cons_append,
        List.rdropWhile, List.reverse_append, List.dropWhile_append_of_pos (by simpa using hafter)]
      refine List.rdropWhile_eq_self_iff.mpr fun hne => ?_
      simp [htrimmed.2 _ (List.getLast?_eq_some_getLast hne)]

end Text

namespace Schema

theorem snd_insertTable_eq {schema : Schema} {table : Table} {tables : NameMap Table}
    (h : ∀ other, tables.get? other =
      if other = table.name then some table else schema.table? other) :
    (schema.insertTable table).2 = { schema with tables } := by
  have hinserted : schema.tables.insert table.name table = tables :=
    NameMap.ext_get? fun other => (NameMap.get?_insert _ _ _ _).trans (h other).symm
  simp only [Schema.insertTable, hinserted]

end Schema

namespace Syntax

/-- The path in the content of a directive: behind all leading `@`, and without the white space
around it. -/
inductive IncludedPath : String → String → Prop
  | mk {marks before path after} : (∀ c ∈ marks, c = '@') →
      (before ++ (path ++ after)).head? ≠ some '@' → (∀ c ∈ before, Text.isBlank c) →
      (∀ c ∈ after, Text.isBlank c) → Text.Trimmed path →
      IncludedPath (String.ofList (marks ++ (before ++ (path ++ after)))) (String.ofList path)

/-- A table as its column definitions have it. The last definition of a name is kept, at the
position that tells how many names are defined before it. -/
structure Described (full : String) (definitions : List Column) (table : Table) : Prop where
  name : table.name = full
  selectStatement : table.selectStatement = none
  columns : ∀ name column, table.columns.get? name = some column ↔
    ∃ front last, LastOf (·.name = name) definitions front last ∧
      column = { last with position := (front.map (·.name)).dedup.length }

/-- What one statement makes of a catalogue. A grant or comment that cannot be taken apart leaves it
as it is. -/
inductive Effect : List Token → Schema → Schema → Prop
  | directive {token path schema} : token.kind = .directive → IncludedPath token.content path →
      Effect [token] schema { schema with includes := schema.includes ++ [path] }
  | grant {word rest body grant schema} : word.isKeyword "GRANT" → Body rest body →
      GrantBody body grant →
      Effect (word :: rest) schema { schema with grants := schema.grants ++ [grant] }
  | otherGrant {word rest body schema} : word.isKeyword "GRANT" → Body rest body →
      (∀ grant, ¬GrantBody body grant) → Effect (word :: rest) schema schema
  | comment {word rest body comment schema} : word.isKeyword "COMMENT" → Body rest body →
      CommentBody body comment →
      Effect (word :: rest) schema { schema with comments := schema.comments ++ [comment] }
  | otherComment {word rest body schema} : word.isKeyword "COMMENT" → Body rest body →
      (∀ comment, ¬CommentBody body comment) → Effect (word :: rest) schema schema
  | table {create word name list tail full definitions options table tables schema} :
      create.isKeyword "CREATE" → word.isKeyword "TABLE" → TableName name full →
      ColumnList list definitions → Body tail options → Described full definitions table →
      (∀ other, tables.get? other = if other = full then some table else schema.table? other) →
      Effect (create :: word :: (name ++ (list ++ tail))) schema { schema with tables }

/-- What statements make of a catalogue one after the other. -/
inductive Effects : List Token → Schema → Schema → Prop
  | nil {schema} : Effects [] schema schema
  | cons {tokens more before between after} : Effect tokens before between →
      Effects more between after → Effects (tokens ++ more) before after

/-- What inline constraints make of a column one after the other. -/
inductive Marked : List ColumnMark → Column → Column → Prop
  | nil {column} : Marked [] column column
  | notNull {later column marked} : Marked later { column with nullable := false } marked →
      Marked (.notNull :: later) column marked
  | null {later column marked} : Marked later { column with nullable := true } marked →
      Marked (.null :: later) column marked
  | primaryKey {later column marked} :
      Marked later { column with primaryKey := true, nullable := false } marked →
      Marked (.primaryKey :: later) column marked
  | other {later column marked} : Marked later column marked →
      Marked (.other :: later) column marked

/-- A column has its name, type and default value from the definition, and may be empty and is no
part of the primary key as long as no inline constraint says otherwise. -/
inductive MarkedColumn : List Token → Column → Prop
  | mk {name type value marks spelled default said column} : name.kind = .string →
      ColumnType type spelled → Default value default → Many Mark marks said →
      Marked said ⟨name.content, spelled, default, 0, true, false⟩ column →
      MarkedColumn (name :: (type ++ (value ++ marks))) column

theorem includedPath_iff {content path : String} :
    IncludedPath content path ↔ Statement.includedPath content = path := by
  have hmark : ∀ {marks : List Char}, (∀ c ∈ marks, c = '@') → ∀ c ∈ marks, (c == '@') = true :=
    fun h c hc => beq_iff_eq.mpr (h c hc)
  constructor
  · rintro @⟨marks, before, path, after, hmarks, hhead, hbefore, hafter, htrimmed⟩
    have hnone : (before ++ (path ++ after)).dropWhile (· == '@') = before ++ (path ++ after) := by
      cases hrest : before ++ (path ++ after) with
      | nil => rfl
      | cons first rest => exact List.dropWhile_cons_of_neg (by simpa [hrest] using hhead)
    rw [Statement.includedPath, String.toList_ofList, List.dropWhile_append_of_pos (hmark hmarks),
      hnone, Text.trim_eq_iff.mpr ⟨htrimmed, before, after, rfl, hbefore, hafter⟩]
  · intro h
    rw [Statement.includedPath] at h
    generalize htrim : Text.trim (content.toList.dropWhile (· == '@')) = trimmed at h
    obtain ⟨htrimmed, before, after, hsplit, hbefore, hafter⟩ := Text.trim_eq_iff.mp htrim
    have hhead := List.head?_dropWhile_not (· == '@') content.toList
    have hcontent := List.takeWhile_append_dropWhile (p := (· == '@')) (l := content.toList)
    rw [hsplit] at hhead hcontent
    rw [← String.ofList_toList (s := content), ← hcontent, ← h]
    refine .mk (fun c hc => ?_) (fun hmarked => ?_) hbefore hafter htrimmed
    · simpa using List.mem_takeWhile_imp hc
    · simp [hmarked] at hhead

theorem described_pushAll (full : String) (definitions : List Column) :
    Described full definitions ((Table.named full).pushAll definitions) where
  name := Table.name_pushAll _ _
  selectStatement := Table.selectStatement_pushAll _ _
  columns := fun _ _ => Table.column?_pushAll_eq_some_iff

theorem Described.unique {full : String} {definitions : List Column} {table other : Table}
    (h : Described full definitions table) (ho : Described full definitions other) :
    table = other := by
  have hcolumns : table.columns = other.columns :=
    NameMap.ext_get? fun name => Option.ext fun column =>
      (h.columns name column).trans (ho.columns name column).symm
  have hname := h.name.trans ho.name.symm
  have hselect := h.selectStatement.trans ho.selectStatement.symm
  cases table
  cases other
  rw [Table.mk.injEq]
  exact ⟨hname, hcolumns, hselect⟩

theorem Effect.exists_sentence {tokens : List Token} {before after : Schema}
    (h : Effect tokens before after) :
    ∃ statement, Sentence tokens statement ∧ statement.addTo before = after := by
  cases h with
  | directive hk hpath =>
    exact ⟨_, .directive hk, by simp [Statement.addTo, includedPath_iff.mp hpath]⟩
  | grant hw hb hgrant =>
    exact ⟨_, .grant hw hb, by simp [Statement.addTo, Grant.ofBody?_eq_some_iff.mpr hgrant]⟩
  | otherGrant hw hb hno =>
    exact ⟨_, .grant hw hb, by simp [Statement.addTo, Grant.ofBody?_eq_none_iff.mpr hno]⟩
  | comment hw hb hcomment =>
    exact ⟨_, .comment hw hb, by simp [Statement.addTo, Comment.ofBody?_eq_some_iff.mpr hcomment]⟩
  | otherComment hw hb hno =>
    exact ⟨_, .comment hw hb, by simp [Statement.addTo, Comment.ofBody?_eq_none_iff.mpr hno]⟩
  | table hc hw hn hl ht hdescribed htables =>
    obtain rfl := hdescribed.unique (described_pushAll _ _)
    refine ⟨_, .table hc hw hn hl ht, Schema.snd_insertTable_eq fun other => ?_⟩
    rw [Table.name_pushAll, htables]
    rfl

theorem effect_addTo {tokens : List Token} {statement : Statement}
    (h : Sentence tokens statement) (schema : Schema) :
    Effect tokens schema (statement.addTo schema) := by
  cases h with
  | directive hk => exact .directive hk (includedPath_iff.mpr rfl)
  | @grant word rest body hw hb =>
    cases hgrant : Grant.ofBody? body with
    | none =>
      have hno := Grant.ofBody?_eq_none_iff.mp hgrant
      simpa [Statement.addTo, hgrant] using Effect.otherGrant hw hb hno
    | some grant =>
      have hbody := Grant.ofBody?_eq_some_iff.mp hgrant
      simpa [Statement.addTo, hgrant] using Effect.grant hw hb hbody
  | @comment word rest body hw hb =>
    cases hcomment : Comment.ofBody? body with
    | none =>
      have hno := Comment.ofBody?_eq_none_iff.mp hcomment
      simpa [Statement.addTo, hcomment] using Effect.otherComment hw hb hno
    | some comment =>
      have hbody := Comment.ofBody?_eq_some_iff.mp hcomment
      simpa [Statement.addTo, hcomment] using Effect.comment hw hb hbody
  | table hc hw hn hl ht =>
    refine .table hc hw hn hl ht (described_pushAll _ _) fun other => ?_
    rw [Table.name_pushAll]
    exact NameMap.get?_insert _ _ _ _

theorem effect_iff {tokens : List Token} {before after : Schema} :
    Effect tokens before after ↔
      ∃ statement, Sentence tokens statement ∧ statement.addTo before = after := by
  refine ⟨Effect.exists_sentence, ?_⟩
  rintro ⟨statement, hsentence, rfl⟩
  exact effect_addTo hsentence before

theorem effects_iff {tokens : List Token} {before after : Schema} :
    Effects tokens before after ↔
      ∃ statements, Script tokens statements ∧ statements.foldl Statement.addTo before = after := by
  constructor
  · intro h
    induction h with
    | nil => exact ⟨[], .nil, rfl⟩
    | cons heffect _ ih =>
      obtain ⟨statement, hsentence, rfl⟩ := effect_iff.mp heffect
      obtain ⟨statements, hscript, rfl⟩ := ih
      exact ⟨statement :: statements, .cons hsentence hscript, rfl⟩
  · rintro ⟨statements, hscript, rfl⟩
    unfold Script at hscript
    induction hscript generalizing before with
    | nil => exact .nil
    | cons hsentence _ ih => exact .cons (effect_iff.mpr ⟨_, hsentence, rfl⟩) ih

theorem marked_iff {said : List ColumnMark} {column marked : Column} :
    Marked said column marked ↔ said.foldl Column.mark column = marked := by
  constructor
  · intro h
    induction h with
    | nil => rfl
    | notNull _ ih | null _ ih | primaryKey _ ih | other _ ih => exact ih
  · rintro rfl
    induction said generalizing column with
    | nil => exact .nil
    | cons first later ih =>
      cases first with
      | notNull => exact .notNull ih
      | null => exact .null ih
      | primaryKey => exact .primaryKey ih
      | other => exact .other ih

theorem columnDefinition_iff {tokens : List Token} {column : Column} :
    ColumnDefinition tokens column ↔ MarkedColumn tokens column := by
  constructor
  · rintro ⟨hname, htype, hvalue, hmarks⟩
    exact .mk hname htype hvalue hmarks (marked_iff.mpr rfl)
  · rintro ⟨hname, htype, hvalue, hmarks, hmarked⟩
    rw [← marked_iff.mp hmarked]
    exact .mk hname htype hvalue hmarks

end Syntax

namespace Schema

/-- Tokens are accepted exactly when those that are neither layout nor comments are statements of
the grammar, and the catalogue is what these make of an empty one from the left to the right. The
inline constraints in the definition of a column take effect in the same way. -/
theorem ofTokens_eq_ok_iff :
    (∀ tokens origin schema, ofTokens tokens origin = .ok schema ↔
      Syntax.Effects (tokens.filter (!·.isTrivia)) ⟨origin, .empty, [], [], []⟩ schema) ∧
    ∀ tokens column, Syntax.ColumnDefinition tokens column ↔ Syntax.MarkedColumn tokens column := by
  refine ⟨fun tokens origin schema => ?_, fun _ _ => Syntax.columnDefinition_iff⟩
  rw [ofTokens, ofSignificant_eq_ok_iff, Syntax.effects_iff]
  rfl

end Schema

end DdlCatalog
