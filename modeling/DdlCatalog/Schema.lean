import DdlCatalog.NameMap

namespace DdlCatalog

structure Vendor where
  name : String
  deriving DecidableEq

structure Engine where
  name : String
  version : String
  deriving DecidableEq

structure Origin where
  vendor : Vendor
  engine : Engine
  engineVersion : String
  dialect : String
  description : String
  deriving DecidableEq

namespace Origin

def unknown : Origin := ⟨⟨""⟩, ⟨"", ""⟩, "", "", ""⟩

def oracle : Origin := ⟨⟨"Oracle"⟩, ⟨"Oracle Database", ""⟩, "", "oracle", ""⟩

def withDescription (origin : Origin) (description : String) : Origin :=
  { origin with description }

end Origin

/-- The type of a column: its name in capitals, and the numbers written behind it. -/
structure DataType where
  name : String
  precision : Option UInt32
  scale : Option UInt32
  length : Option UInt32
  deriving DecidableEq

namespace DataType

def plain (name : String) : DataType := ⟨name, none, none, none⟩

end DataType

structure Column where
  name : String
  type : DataType
  defaultValue : Option String
  position : Nat
  nullable : Bool
  primaryKey : Bool
  deriving DecidableEq

namespace Column

def plain (name : String) (type : DataType) : Column := ⟨name, type, none, 0, true, false⟩

end Column

/-- A table with its columns by name. A selecting statement is kept for views. -/
structure Table where
  name : String
  columns : NameMap Column
  selectStatement : Option String
  deriving DecidableEq

namespace Table

def named (name : String) : Table := ⟨name, .empty, none⟩

def column? (table : Table) (name : String) : Option Column :=
  table.columns.get? name

/-- Adds a column at the next position; a column of the same name gives way. -/
def push (table : Table) (column : Column) : Table :=
  { table with
    columns := table.columns.insert column.name { column with position := table.columns.size } }

def pushAll (table : Table) (columns : List Column) : Table :=
  columns.foldl push table

/-- The columns by position, those of one position in the order of their names. -/
def orderedColumns (table : Table) : List Column :=
  table.columns.values.mergeSort fun a b => a.position ≤ b.position

end Table

structure Grant where
  privilege : String
  object : String
  grantee : String
  deriving DecidableEq

structure Comment where
  kind : String
  target : String
  text : String
  deriving DecidableEq

structure Schema where
  origin : Origin
  tables : NameMap Table
  grants : List Grant
  comments : List Comment
  includes : List String
  deriving DecidableEq

namespace Schema

def empty (origin : Origin) : Schema := ⟨origin, .empty, [], [], []⟩

def table? (schema : Schema) (name : String) : Option Table :=
  schema.tables.get? name

/-- Stores a table under its name; the table that was stored there comes back. -/
def insertTable (schema : Schema) (table : Table) : Option Table × Schema :=
  (schema.table? table.name, { schema with tables := schema.tables.insert table.name table })

def pushColumn? (schema : Schema) (table : String) (column : Column) : Option Schema :=
  (schema.table? table).map fun held =>
    { schema with tables := schema.tables.insert table (held.push column) }

def describe (schema : Schema) (description : String) : Schema :=
  { schema with origin := schema.origin.withDescription description }

end Schema

end DdlCatalog
