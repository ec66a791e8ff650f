import DdlCatalog.Proofs.LiteralStrings
import DdlCatalog.Proofs.NameLookup
import DdlCatalog.Schema
import DdlCatalog.Grammar.DataType
import DdlCatalog.Vocabulary

namespace DdlCatalog

namespace Declaration

/-- A name. Whatever is no quote can stand between the quotes around it. -/
structure Name where
  text : String
  unquoted : '"' ∉ text.toList

def Name.print (name : Name) : List Char :=
  '"' :: (name.text.toList ++ ['"'])

inductive Numbers where
  | none
  | one (n : UInt32)
  | two (precision scale : UInt32)

def Numbers.print : Numbers → List Char
  | none => []
  | one n => '(' :: (Text.decimal n.toNat ++ [')'])
  | two p s => '(' :: (Text.decimal p.toNat ++ ',' :: (Text.decimal s.toNat ++ [')']))

/-- The type of a column: any keyword, with numbers. The length of a character type stands alone. -/
structure TypeName where
  keyword : String
  numbers : Numbers
  listed : keyword ∈ Vocabulary.oracle.words
  single : keyword ∈ DataType.characterTypes → ∀ p s, numbers ≠ .two p s

namespace TypeName

def print (type : TypeName) : List Char :=
  type.keyword.toList ++ type.numbers.print

/-- The type that is declared. -/
def meaning (type : TypeName) : DataType :=
  match type.numbers with
  | .none => .plain type.keyword
  | .one n =>
    if type.keyword ∈ DataType.characterTypes then ⟨type.keyword, none, none, some n⟩
    else ⟨type.keyword, some n, none, none⟩
  | .two p s => ⟨type.keyword, some p, some s, none⟩

end TypeName

/-- A default value: a whole number, or a text of which at most 255 characters are quotes. -/
inductive Default where
  | number (digits : List Char) (some : digits ≠ []) (all : ∀ c ∈ digits, c.isDigit = true)
  | literal (text : List Char) (few : text.count '\'' ≤ 255)

namespace Default

def print : Default → List Char
  | number digits _ _ => digits
  | literal text _ => '\'' :: (Text.doubled '\'' text ++ ['\''])

/-- The value that is declared. -/
def meaning : Default → String
  | number digits _ _ => String.ofList digits
  | literal text _ => String.ofList text

end Default

inductive Constraint where
  | none
  | notNull
  | primaryKey

def Constraint.print : Constraint → List Char
  | none => []
  | notNull => " NOT NULL".toList
  | primaryKey => " PRIMARY KEY".toList

structure Column where
  name : Name
  type : TypeName
  default : Option Default
  constraint : Constraint

namespace Column

def printDefault (column : Column) : List Char :=
  match column.default with
  | none => []
  | some value => " DEFAULT ".toList ++ value.print

def print (column : Column) : List Char :=
  column.name.print ++
    ' ' :: (column.type.print ++ (column.printDefault ++ column.constraint.print))

/-- The column that is declared, with `position` columns before it. -/
def meaning (column : Column) (position : Nat) : DdlCatalog.Column where
  name := column.name.text
  type := column.type.meaning
  defaultValue := column.default.map Default.meaning
  position := position
  nullable := match column.constraint with
    | .none => true
    | _ => false
  primaryKey := match column.constraint with
    | .primaryKey => true
    | _ => false

end Column

end Declaration

structure Declaration where
  parent : Option Declaration.Name
  name : Declaration.Name
  columns : List Declaration.Column
  nonempty : columns ≠ []
  distinct : (columns.map (·.name.text)).Nodup

namespace Declaration

def printName (declaration : Declaration) : List Char :=
  match declaration.parent with
  | none => declaration.name.print
  | some parent => parent.print ++ '.' :: declaration.name.print

def printColumns (declaration : Declaration) : List Char :=
  '(' :: (List.intercalate [','] (declaration.columns.map Column.print) ++ [')'])

def print (declaration : Declaration) : List Char :=
  "CREATE TABLE ".toList ++
    (declaration.printName ++ ' ' :: (declaration.printColumns ++ [';']))

/-- The statements for several declarations, joined by line ends. -/
def printAll (declarations : List Declaration) : String :=
  String.ofList (List.intercalate ['\n'] (declarations.map print))

/-- The name under which the table is found. -/
def key (declaration : Declaration) : String :=
  match declaration.parent with
  | none => declaration.name.text
  | some parent => parent.text ++ "." ++ declaration.name.text

/-- The table that is declared: each column under its own name, at its place in the list. -/
def meaning (declaration : Declaration) : Table where
  name := declaration.key
  columns := .ofList (declaration.columns.mapIdx fun i column =>
    (column.name.text, column.meaning i))
  selectStatement := none

theorem pushAll_meaning {table : Table} {columns : List Column}
    (hd : (columns.map (·.name.text)).Nodup)
    (hn : ∀ column ∈ columns, table.columns.get? column.name.text = none) :
    table.pushAll (columns.map (·.meaning 0)) =
      { table with
        columns := (columns.mapIdx fun i column =>
          (column.name.text, column.meaning (table.columns.size + i))).foldl
            (fun map entry => map.insert entry.1 entry.2) table.columns } := by
  induction columns generalizing table with
  | nil => rfl
  | cons column columns ih =>
    obtain ⟨hfresh, hrest⟩ := List.nodup_cons.mp hd
    have hsize := NameMap.size_insert (column.meaning table.columns.size)
      (hn column List.mem_cons_self)
    have hother : ∀ other ∈ columns,
        (table.columns.insert column.name.text (column.meaning table.columns.size)).get?
          other.name.text = none := by
      intro other ho
      have hne : other.name.text ≠ column.name.text := fun he =>
        hfresh (List.mem_map.mpr ⟨other, ho, he⟩)
      rw [NameMap.get?_insert, if_neg hne]
      exact hn other (List.mem_cons_of_mem _ ho)
    have hpush : table.push (column.meaning 0) = { table with
        columns := table.columns.insert column.name.text (column.meaning table.columns.size) } :=
      rfl
    rw [List.map_cons, Table.pushAll, List.foldl_cons, hpush]
    refine (ih hrest hother).trans ?_
    simp only [List.mapIdx_cons, List.foldl_cons, Nat.add_zero, hsize, Nat.add_right_comm,
      Nat.add_assoc]

theorem meaning_eq_pushAll (declaration : Declaration) :
    (Table.named declaration.key).pushAll (declaration.columns.map (·.meaning 0)) =
      declaration.meaning := by
  have hempty : ∀ column ∈ declaration.columns,
      (Table.named declaration.key).columns.get? column.name.text = none := fun _ _ => rfl
  rw [pushAll_meaning declaration.distinct hempty]
  have hzero : (Table.named declaration.key).columns.size = 0 := rfl
  simp only [hzero, Nat.zero_add]
  rfl

end Declaration

end DdlCatalog
