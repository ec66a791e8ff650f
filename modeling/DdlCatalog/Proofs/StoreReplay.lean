import DdlCatalog.Proofs.ColumnOrder

namespace DdlCatalog

namespace Schema

/-- What can be done to a stored catalogue. A table is inserted with columns pushed onto it. -/
inductive Operation where
  | insert (name : String) (columns : List Column)
  | push (table : String) (column : Column)
  | describe (text : String)

namespace Operation

def table? : Operation → Option String
  | insert name _ => some name
  | push table _ => some table
  | describe _ => none

end Operation

/-- What an operation answers, and the catalogue after it. An inserted table answers with the one
that gives way; a push onto a table that is not there changes nothing. -/
def perform (schema : Schema) : Operation → Option Table × Schema
  | .insert name columns => schema.insertTable ((Table.named name).pushAll columns)
  | .push table column => (none, (schema.pushColumn? table column).getD schema)
  | .describe text => (none, schema.describe text)

def performAll (schema : Schema) (operations : List Operation) : Schema :=
  operations.foldl (fun reached operation => (reached.perform operation).2) schema

variable {operation : Operation} {operations earlier later : List Operation} {name : String}

end Schema

end DdlCatalog
