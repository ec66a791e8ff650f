import DdlCatalog.Text.Ascii
import DdlCatalog.Text.Bytes

namespace DdlCatalog

structure Vocabulary where
  words : List String
  deriving DecidableEq

namespace Vocabulary

def wordSize (word : String) : Nat :=
  Text.byteSize word.toList

/-- Longer words come first, words of one size in rising order. -/
def precedes (a b : String) : Bool :=
  wordSize b < wordSize a || (wordSize a == wordSize b && a < b)

/-- The distinct words of a list in trying order, without the empty one. -/
def ofList (words : List String) : Vocabulary where
  words := (words.filter (· != "")).eraseDups.mergeSort fun a b => precedes a b || a == b

def size (vocabulary : Vocabulary) : Nat :=
  vocabulary.words.length

def isEmpty (vocabulary : Vocabulary) : Bool :=
  vocabulary.words.isEmpty

def contains (vocabulary : Vocabulary) (word : String) : Bool :=
  vocabulary.words.any (Text.sameLetters · word)

def increasing : List String → Bool
  | a :: b :: rest => precedes a b && increasing (b :: rest)
  | _ => true

def isSorted (vocabulary : Vocabulary) : Bool :=
  increasing vocabulary.words

def statementWords : List String :=
  ["CREATE", "TABLE", "GRANT", "COMMENT", "ON", "TO", "IS", "COLUMN", "ALTER", "DROP", "VIEW",
   "INDEX", "SEQUENCE", "SYNONYM", "OR", "REPLACE", "GLOBAL", "TEMPORARY", "PUBLIC", "WITH",
   "OPTION", "ADMIN", "HIERARCHY", "MATERIALIZED"]

def privilegeWords : List String :=
  ["SELECT", "INSERT", "UPDATE", "DELETE", "EXECUTE", "REFERENCES", "ALL", "PRIVILEGES",
   "SESSION", "READ", "WRITE", "DEBUG", "FLASHBACK", "ANY"]

def typeWords : List String :=
  ["VARCHAR2", "VARCHAR", "NVARCHAR2", "CHAR", "NCHAR", "CHARACTER", "NUMBER", "NUMERIC",
   "DECIMAL", "INTEGER", "INT", "SMALLINT", "FLOAT", "REAL", "DOUBLE", "PRECISION",
   "BINARY_FLOAT", "BINARY_DOUBLE", "DATE", "TIMESTAMP", "INTERVAL", "YEAR", "MONTH", "DAY",
   "SECOND", "TIME", "ZONE", "LOCAL", "CLOB", "NCLOB", "BLOB", "BFILE", "RAW", "LONG", "ROWID",
   "UROWID", "XMLTYPE", "BOOLEAN", "BYTE"]

def columnWords : List String :=
  ["DEFAULT", "NOT", "NULL", "CONSTRAINT", "PRIMARY", "KEY", "UNIQUE", "CHECK", "FOREIGN",
   "ENABLE", "DISABLE", "VALIDATE", "NOVALIDATE", "RELY", "NORELY", "DEFERRABLE", "INITIALLY",
   "IMMEDIATE", "DEFERRED", "CASCADE", "SET", "VISIBLE", "INVISIBLE", "GENERATED", "ALWAYS", "AS",
   "IDENTITY", "BY", "SYSDATE", "SYSTIMESTAMP", "CURRENT_TIMESTAMP", "USER", "SYS_GUID", "TRUE",
   "FALSE", "IN", "AND", "BETWEEN", "LIKE"]

def storageWords : List String :=
  ["TABLESPACE", "PCTFREE", "PCTUSED", "INITRANS", "MAXTRANS", "STORAGE", "INITIAL", "NEXT",
   "MINEXTENTS", "MAXEXTENTS", "PCTINCREASE", "FREELISTS", "FREELIST", "GROUPS", "BUFFER_POOL",
   "FLASH_CACHE", "CELL_FLASH_CACHE", "LOGGING", "NOLOGGING", "COMPRESS", "NOCOMPRESS", "CACHE",
   "NOCACHE", "PARALLEL", "NOPARALLEL", "MONITORING", "NOMONITORING", "SEGMENT", "CREATION",
   "ORGANIZATION", "HEAP", "EXTERNAL", "USING", "COMPUTE", "STATISTICS", "LOB", "STORE",
   "SECUREFILE", "BASICFILE", "CHUNK", "RETENTION", "ROW", "MOVEMENT", "PARTITION", "RANGE",
   "HASH", "LIST", "VALUES", "LESS", "THAN", "MAXVALUE", "COMMIT", "PRESERVE", "ROWS", "KEEP",
   "RECYCLE", "NONE", "INMEMORY", "NO", "PURGE", "ONLINE", "DEFINITION"]

def oracle : Vocabulary :=
  ofList (statementWords ++ privilegeWords ++ typeWords ++ columnWords ++ storageWords)

end Vocabulary

end DdlCatalog
