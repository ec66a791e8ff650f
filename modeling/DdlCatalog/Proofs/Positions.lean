import DdlCatalog.Proofs.SchemaJson
import DdlCatalog.Proofs.ScriptSyntax
import DdlCatalog.Proofs.TokenTiling

namespace DdlCatalog

namespace Syntax

theorem Many.length_le {α : Type} {Piece : List Token → α → Prop}
    (hp : ∀ ⦃tokens item⦄, Piece tokens item → tokens ≠ []) {tokens : List Token} {items : List α}
    (h : Many Piece tokens items) : items.length ≤ tokens.length := by
  induction h with
  | nil => exact Nat.le_refl 0
  | cons hpiece _ ih =>
    have hpos := List.length_pos_iff.mpr (hp hpiece)
    rw [List.length_cons, List.length_append]
    omega

theorem NextElement.ne_nil {tokens : List Token} {item : Option Column}
    (h : NextElement tokens item) : tokens ≠ [] := by
  cases h
  exact List.cons_ne_nil _ _

theorem ColumnList.length_le {tokens : List Token} {columns : List Column}
    (h : ColumnList tokens columns) : columns.length ≤ tokens.length := by
  cases h with
  | @mk opening first others closing item items ho hf hothers hc =>
    have hitems := hothers.length_le fun _ _ hn => NextElement.ne_nil hn
    have hcolumns := List.length_filterMap_le id (item :: items)
    rw [List.length_cons] at hcolumns
    simp only [List.length_cons, List.length_append]
    omega

end Syntax

theorem NameMap.size_insert_le {α : Type} (map : NameMap α) (name : String) (value : α) :
    (map.insert name value).size ≤ map.size + 1 := by
  obtain ⟨entries, ordered⟩ := map
  change (insertInto name value entries).length ≤ entries.length + 1
  clear ordered
  induction entries with
  | nil => exact Nat.le_refl 1
  | cons head rest ih =>
    rw [insertInto]
    split
    · exact Nat.le_refl _
    · split
      · exact Nat.le_succ _
      · exact Nat.succ_le_succ ih

namespace Table

/-- The table has at most so many columns, each at a position before that number. -/
structure Within (table : Table) (n : Nat) : Prop where
  size : table.columns.size ≤ n
  position : ∀ entry ∈ table.columns.entries, entry.2.position < n

theorem Within.mono {table : Table} {n m : Nat} (h : table.Within n) (hnm : n ≤ m) :
    table.Within m :=
  ⟨h.size.trans hnm, fun entry he => (h.position entry he).trans_le hnm⟩

theorem Within.push {table : Table} {n : Nat} (h : table.Within n) (column : Column) :
    (table.push column).Within (n + 1) where
  size := (table.columns.size_insert_le _ _).trans (Nat.succ_le_succ h.size)
  position := by
    intro entry he
    rcases NameMap.mem_insertInto he with rfl | he
    · exact Nat.lt_succ_of_le h.size
    · exact Nat.lt_succ_of_lt (h.position entry he)

theorem Within.pushAll {table : Table} {n : Nat} (h : table.Within n) (columns : List Column) :
    (table.pushAll columns).Within (n + columns.length) := by
  induction columns generalizing table n with
  | nil => exact h
  | cons column columns ih =>
    rw [List.length_cons, Nat.add_comm columns.length, ← Nat.add_assoc]
    exact ih (h.push column)

theorem within_named (name : String) : (named name).Within 0 :=
  ⟨Nat.le_refl 0, nofun⟩

end Table

theorem Syntax.Sentence.within {tokens : List Token} {definition : Table}
    (h : Sentence tokens (.table definition)) : definition.Within tokens.length := by
  cases h with
  | @table create word name list tail full columns options _ _ _ hlist _ =>
    have hlength := hlist.length_le
    refine ((Table.within_named full).pushAll columns).mono ?_
    simp only [List.length_cons, List.length_append]
    omega

theorem Syntax.Script.within {tokens : List Token} {statements : List Statement}
    (h : Script tokens statements) {definition : Table}
    (hm : Statement.table definition ∈ statements) : definition.Within tokens.length := by
  unfold Script at h
  induction h with
  | nil => cases hm
  | @cons front back statement others hfront _ ih =>
    rw [List.length_append]
    rcases List.mem_cons.mp hm with rfl | hm
    · exact hfront.within.mono (Nat.le_add_right _ _)
    · exact (ih hm).mono (Nat.le_add_left _ _)

namespace Schema

theorem table_mem_of_ofStatements {origin : Origin} {statements : List Statement}
    {entry : String × Table} (h : entry ∈ (ofStatements origin statements).tables.entries) :
    Statement.table entry.2 ∈ statements := by
  have hfold : ∀ schema : Schema,
      entry ∈ (statements.foldl Statement.addTo schema).tables.entries →
        entry ∈ schema.tables.entries ∨ Statement.table entry.2 ∈ statements := by
    clear h
    induction statements with
    | nil => exact fun _ he => .inl he
    | cons statement statements ih =>
      intro schema he
      rcases ih _ he with he | hm
      · cases statement with
        | table definition =>
          rcases NameMap.mem_insertInto he with rfl | he
          · exact .inr List.mem_cons_self
          · exact .inl he
        | _ => exact .inl he
      · exact .inr (List.mem_cons_of_mem _ hm)
  exact (hfold _ h).resolve_left nofun

theorem within_ofTokens {tokens : List Token} {origin : Origin} {schema : Schema}
    (h : ofTokens tokens origin = .ok schema) {entry : String × Table}
    (he : entry ∈ schema.tables.entries) : entry.2.Within tokens.length := by
  obtain ⟨statements, hs, rfl⟩ := exists_script_of_ofTokens h
  have hwithin := (Grammar.script_eq_ok_iff.mp hs).within (table_mem_of_ofStatements he)
  exact hwithin.mono (List.length_filter_le _ _)

end Schema

theorem Tiling.length_le {before text : List Char} {tokens : List Token}
    (h : Tiling before text tokens) : tokens.length ≤ Text.byteSize text := by
  induction h with
  | nil => exact Nat.zero_le _
  | cons hlies _ ih =>
    have hpos := Text.byteSize_pos hlies.nonempty
    rw [List.length_cons, Text.byteSize_append]
    omega

theorem Schema.positionsFit_ofSource {source : String} {origin : Origin} {schema : Schema}
    (h : ofSource source origin = .ok schema)
    (hsize : source.utf8ByteSize ≤ Column.positionBound) : schema.PositionsFit := by
  obtain ⟨tokens, ht, hs⟩ := ofSource_eq_ok_iff.mp h
  have hlength := (tiling_tokenizeWith ht).length_le
  rw [Text.byteSize_eq_utf8ByteSize, String.ofList_toList] at hlength
  intro entry he column hc
  exact ((within_ofTokens hs he).position column hc).trans_le (hlength.trans hsize)

end DdlCatalog
