import DdlCatalog.Proofs.NameLookup
import DdlCatalog.Proofs.Positions

namespace DdlCatalog

namespace Syntax

theorem Many.of_append_cons {α : Type} {Piece : List Token → α → Prop} {tokens : List Token}
    {before after : List α} {item : α} (h : Many Piece tokens (before ++ item :: after)) :
    ∃ front piece back, tokens = front ++ (piece ++ back) ∧ Many Piece front before ∧
      Piece piece item ∧ Many Piece back after := by
  induction before generalizing tokens with
  | nil =>
    cases h with
    | @cons piece back _ _ hp hback => exact ⟨[], piece, back, rfl, .nil, hp, hback⟩
  | cons first before ih =>
    cases h with
    | @cons found more _ _ hfound hmore =>
      obtain ⟨front, piece, back, rfl, hfront, hp, hback⟩ := ih hmore
      exact ⟨found ++ front, piece, back, by simp, .cons hfound hfront, hp, hback⟩

theorem Many.of_mem {α : Type} {Piece : List Token → α → Prop} {tokens : List Token}
    {items : List α} {item : α} (h : Many Piece tokens items) (hm : item ∈ items) :
    ∃ front piece back, tokens = front ++ (piece ++ back) ∧ Piece piece item := by
  obtain ⟨before, after, rfl⟩ := List.append_of_mem hm
  obtain ⟨front, piece, back, hsplit, -, hp, -⟩ := h.of_append_cons
  exact ⟨front, piece, back, hsplit, hp⟩

/-- The column list of the last statement of a script that creates the table `full`. -/
inductive LastColumnList (tokens : List Token) (full : String) (list : List Token)
    (columns : List Column) : Prop
  | mk {before create word name tail options after earlier later} :
      tokens = before ++ ((create :: word :: (name ++ (list ++ tail))) ++ after) →
      Script before earlier → create.isKeyword "CREATE" → word.isKeyword "TABLE" →
      TableName name full → ColumnList list columns → Body tail options → Script after later →
      (∀ other, .table other ∈ later → other.name ≠ full) →
      LastColumnList tokens full list columns

theorem LastColumnList.columnList {tokens : List Token} {full : String} {list : List Token}
    {columns : List Column} (h : LastColumnList tokens full list columns) :
    ColumnList list columns := by
  cases h
  assumption

theorem LastColumnList.exists_piece {tokens : List Token} {full : String} {list : List Token}
    {columns : List Column} (h : LastColumnList tokens full list columns) :
    ∃ before after, tokens = before ++ (list ++ after) := by
  cases h with
  | @mk before create word name tail _ after _ _ hsplit =>
    exact ⟨before ++ create :: word :: name, tail ++ after, by simp [hsplit]⟩

theorem ColumnList.definition_of_mem {list : List Token} {columns : List Column}
    (h : ColumnList list columns) {column : Column} (hm : column ∈ columns) :
    ∃ before piece after, list = before ++ (piece ++ after) ∧ ColumnDefinition piece column := by
  have helement : ∀ {tokens : List Token}, Element tokens (some column) →
      ColumnDefinition tokens column := by
    intro tokens he
    cases he with
    | column hd => exact hd
  cases h with
  | @mk opening first others closing item items ho hf hothers hc =>
    obtain ⟨found, hfound, hcolumn⟩ := List.mem_filterMap.mp hm
    obtain rfl : found = some column := hcolumn
    rcases List.mem_cons.mp hfound with rfl | hfound
    · exact ⟨[opening], first, others ++ [closing], rfl, helement hf⟩
    · obtain ⟨front, piece, back, rfl, hp⟩ := hothers.of_mem hfound
      cases hp with
      | @mk comma tokens _ hcomma he =>
        exact ⟨opening :: (first ++ (front ++ [comma])), tokens, back ++ [closing], by simp,
          helement he⟩

end Syntax

namespace Column

def placedAt (column : Column) (position : Nat) : Column :=
  { column with position }

@[simp] theorem name_placedAt (column : Column) (n : Nat) :
    (column.placedAt n).name = column.name :=
  rfl

@[simp] theorem position_placedAt (column : Column) (n : Nat) : (column.placedAt n).position = n :=
  rfl

@[simp] theorem placedAt_placedAt (column : Column) (n m : Nat) :
    (column.placedAt n).placedAt m = column.placedAt m :=
  rfl

end Column

namespace Table

theorem column?_push (table : Table) (column : Column) (name : String) :
    (table.push column).column? name =
      if name = column.name then some (column.placedAt table.columns.size)
      else table.column? name :=
  NameMap.get?_insert _ _ _ _

theorem pushAll_append (table : Table) (front back : List Column) :
    table.pushAll (front ++ back) = (table.pushAll front).pushAll back :=
  List.foldl_append

def countNames (columns : List Column) : Nat :=
  (columns.map (·.name)).dedup.length

theorem column?_pushAll_eq_none_iff {table name : String} {columns : List Column} :
    ((named table).pushAll columns).column? name = none ↔ name ∉ columns.map (·.name) := by
  induction columns using List.reverseRecOn with
  | nil => simp [pushAll, named, column?]
  | append_singleton columns last ih =>
    rw [pushAll_append]
    change ((Table.pushAll _ columns).push last).column? name = none ↔ _
    rw [column?_push]
    by_cases h : name = last.name
    · simp [h]
    · rw [if_neg h]
      simpa [h] using ih

theorem size_pushAll (table : String) (columns : List Column) :
    ((named table).pushAll columns).columns.size = countNames columns :=
  NameMap.size_eq_length_dedup fun _ => column?_pushAll_eq_none_iff

/-- A table holds the last of the pushed columns of each name, at the position that the number of
names before it gives. -/
theorem column?_pushAll_eq_some_iff {table name : String} {columns : List Column}
    {column : Column} :
    ((named table).pushAll columns).column? name = some column ↔
      ∃ front last, LastOf (·.name = name) columns front last ∧
        column = last.placedAt (countNames front) := by
  induction columns using List.reverseRecOn with
  | nil => simp [pushAll, named, column?, not_lastOf_nil]
  | append_singleton columns latest ih =>
    rw [pushAll_append]
    change ((Table.pushAll _ columns).push latest).column? name = some column ↔ _
    rw [column?_push, size_pushAll]
    simp only [lastOf_append_singleton_iff]
    by_cases hname : name = latest.name
    · simp [hname, eq_comm]
    · rw [if_neg hname]
      simpa [Ne.symm hname] using ih

@[simp] theorem name_pushAll (table : Table) (columns : List Column) :
    (table.pushAll columns).name = table.name := by
  induction columns generalizing table with
  | nil => rfl
  | cons column columns ih => exact ih (table.push column)

end Table

namespace Statement

def Creates (full : String) : Statement → Prop
  | table definition => definition.name = full
  | _ => False

end Statement

namespace Schema

theorem table?_addTo_of_creates {full : String} {statement : Statement}
    (h : statement.Creates full) (schema : Schema) :
    ∃ table, statement = .table table ∧ (statement.addTo schema).table? full = some table := by
  cases statement with
  | table definition =>
    refine ⟨definition, rfl, ?_⟩
    exact (NameMap.get?_insert _ _ _ _).trans (if_pos (Eq.symm h))
  | _ => cases h

theorem table?_addTo_of_not_creates {full : String} {statement : Statement}
    (h : ¬statement.Creates full) (schema : Schema) :
    (statement.addTo schema).table? full = schema.table? full := by
  cases statement with
  | table definition => exact (NameMap.get?_insert _ _ _ _).trans (if_neg (Ne.symm h))
  | _ => rfl

theorem ofStatements_concat (origin : Origin) (statements : List Statement) (latest : Statement) :
    ofStatements origin (statements ++ [latest]) = latest.addTo (ofStatements origin statements) :=
  List.foldl_concat ..

theorem table?_ofStatements_eq_some_iff {origin : Origin} {statements : List Statement}
    {full : String} {table : Table} :
    (ofStatements origin statements).table? full = some table ↔
      ∃ earlier, LastOf (·.Creates full) statements earlier (.table table) := by
  induction statements using List.reverseRecOn with
  | nil => simp [ofStatements, empty, table?, not_lastOf_nil]
  | append_singleton statements latest ih =>
    rw [ofStatements_concat]
    simp only [lastOf_append_singleton_iff]
    by_cases hcreates : latest.Creates full
    · obtain ⟨definition, rfl, htable⟩ :=
        table?_addTo_of_creates hcreates (ofStatements origin statements)
      simp [htable, hcreates, eq_comm]
    · rw [table?_addTo_of_not_creates hcreates]
      simpa [hcreates] using ih

theorem table?_ofTokens_eq_some_iff {tokens : List Token} {origin : Origin} {schema : Schema}
    (h : ofTokens tokens origin = .ok schema) {full : String} {table : Table} :
    schema.table? full = some table ↔
      ∃ list columns, Syntax.LastColumnList (tokens.filter (!·.isTrivia)) full list columns ∧
        table = (Table.named full).pushAll columns := by
  obtain ⟨statements, hscript, rfl⟩ := exists_script_of_ofTokens h
  rw [table?_ofStatements_eq_some_iff]
  constructor
  · rintro ⟨earlier, later, rfl, hname, hlater⟩
    obtain ⟨front, piece, back, hsplit, hearlier, hsentence, hback⟩ :=
      Syntax.Many.of_append_cons (Grammar.script_eq_ok_iff.mp hscript)
    cases hsentence with
    | @table create word name list tail found columns options hc hw hn hl ht =>
      obtain rfl : found = full := by simpa [Statement.Creates, Table.named] using hname
      refine ⟨list, columns, .mk hsplit hearlier hc hw hn hl ht hback ?_, rfl⟩
      exact fun other ho => hlater _ ho
  · rintro ⟨list, columns, hlast, rfl⟩
    cases hlast with
    | @mk before create word name tail options after earlier later hsplit hearlier hc hw hn hl ht
        hafter hlater =>
      have hsentence := Syntax.Sentence.table hc hw hn hl ht
      have hwhole := hearlier.append (Syntax.Many.cons hsentence hafter)
      rw [← hsplit, ← Syntax.Script] at hwhole
      obtain rfl : statements = _ :=
        Except.ok.inj (hscript.symm.trans (Grammar.script_eq_ok_iff.mpr hwhole))
      refine ⟨earlier, later, rfl, Table.name_pushAll _ _, fun other ho hcreates => ?_⟩
      obtain ⟨table, rfl, -⟩ := table?_addTo_of_creates hcreates (empty origin)
      exact hlater table ho hcreates

theorem exists_definition_of_column? {tokens : List Token} {origin : Origin} {schema : Schema}
    (h : ofTokens tokens origin = .ok schema) {full name : String} {table : Table}
    {column : Column} (ht : schema.table? full = some table)
    (hc : table.column? name = some column) :
    ∃ list columns front last before piece after,
      Syntax.LastColumnList (tokens.filter (!·.isTrivia)) full list columns ∧
        LastOf (·.name = name) columns front last ∧ list = before ++ (piece ++ after) ∧
        Syntax.ColumnDefinition piece last ∧ column = last.placedAt (Table.countNames front) := by
  obtain ⟨list, columns, hlist, rfl⟩ := (table?_ofTokens_eq_some_iff h).mp ht
  obtain ⟨front, last, hlast, rfl⟩ := Table.column?_pushAll_eq_some_iff.mp hc
  have hm : last ∈ columns := by
    obtain ⟨back, rfl, -⟩ := hlast
    simp
  obtain ⟨before, piece, after, hsplit, hpiece⟩ := hlist.columnList.definition_of_mem hm
  exact ⟨list, columns, front, last, before, piece, after, hlist, hlast, hsplit, hpiece, rfl⟩

def plainColumn (start : Nat) : List Token :=
  [⟨"X", .string, start, start + 3, 1, 1⟩, ⟨"INT", .keyword, start + 4, start + 7, 1, 1⟩]

theorem element_plainColumn (start : Nat) :
    Syntax.Element (plainColumn start) (some (.plain "X" (.plain "INT"))) := by
  have htype : Syntax.TypeName [⟨"INT", .keyword, start + 4, start + 7, 1, 1⟩]
    (Text.upper "INT") := .word rfl
  rw [show Text.upper "INT" = "INT" by decide] at htype
  have hcolumn : Syntax.ColumnDefinition (⟨"X", .string, start, start + 3, 1, 1⟩ ::
      ([⟨"INT", .keyword, start + 4, start + 7, 1, 1⟩] ++ ([] ++ [])))
      (.plain "X" (.plain "INT")) := .mk rfl (.mk htype .absent .absent) .absent .nil
  exact .column hcolumn

def plainList (start stop : Nat) : List Token :=
  ⟨"(", .symbol, start, start + 1, 1, 1⟩ ::
    (plainColumn (start + 1) ++ [⟨")", .symbol, stop, stop + 1, 1, 1⟩])

theorem columnList_plainList (start stop : Nat) :
    Syntax.ColumnList (plainList start stop) [.plain "X" (.plain "INT")] :=
  .mk rfl (element_plainColumn (start + 1)) .nil rfl

/-- The tokens of `CREATE TABLE "T"`, a column list behind it and a semicolon at byte `stop`. -/
def creating (list : List Token) (stop : Nat) : List Token :=
  ⟨"CREATE", .keyword, 0, 6, 1, 1⟩ :: ⟨"TABLE", .keyword, 7, 12, 1, 1⟩ ::
    ⟨"T", .string, 13, 16, 1, 1⟩ :: (list ++ [⟨";", .symbol, stop, stop + 1, 1, 1⟩])

theorem exists_ofTokens_creating {list : List Token} {columns : List Column}
    (h : Syntax.ColumnList list columns) (hkept : ∀ token ∈ list, token.isTrivia = false)
    (stop : Nat) :
    ∃ schema, ofTokens (creating list stop) .oracle = .ok schema ∧
      schema.table? "T" = some ((Table.named "T").pushAll columns) := by
  have hcreate : Token.isKeyword ⟨"CREATE", .keyword, 0, 6, 1, 1⟩ "CREATE" = true := rfl
  have hword : Token.isKeyword ⟨"TABLE", .keyword, 7, 12, 1, 1⟩ "TABLE" = true := rfl
  have hname : Syntax.TableName [⟨"T", .string, 13, 16, 1, 1⟩] "T" := .plain rfl
  have hend : Syntax.Body ([] ++ [⟨";", .symbol, stop, stop + 1, 1, 1⟩]) [] := .bare rfl
  have hsentence := Syntax.Sentence.table hcreate hword hname h hend
  have hsignificant : (creating list stop).filter (!·.isTrivia) = creating list stop := by
    refine List.filter_eq_self.mpr fun token hm => ?_
    simp only [creating, List.mem_cons, List.mem_append, List.not_mem_nil, or_false] at hm
    obtain rfl | rfl | rfl | hm | rfl := hm
    case inr.inr.inr.inl => rw [hkept token hm, Bool.not_false]
    all_goals rfl
  have hscript : Syntax.Script ((creating list stop).filter (!·.isTrivia))
      [.table ((Table.named "T").pushAll columns)] := by
    rw [hsignificant, creating]
    have hall := Syntax.Many.cons hsentence .nil
    rwa [List.append_nil] at hall
  refine ⟨_, ofTokens_of_script hscript _, ?_⟩
  exact table?_ofStatements_eq_some_iff.mpr ⟨[], [], rfl, Table.name_pushAll _ _, nofun⟩

end Schema

end DdlCatalog
