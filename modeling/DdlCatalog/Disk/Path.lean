import DdlCatalog.Text.Raw
import DdlCatalog.Text.Split

namespace DdlCatalog.Path

def slash : UInt8 := 0x2F

def dot : UInt8 := 0x2E

def same : RawText := [dot]

def up : RawText := [dot, dot]

@[simp] theorem same_ne_up : same ≠ up := by decide

@[simp] theorem up_ne_same : up ≠ same := by decide

def pieces (path : RawText) : List RawText :=
  Text.partsAt slash path

def isAbsolute (path : RawText) : Bool :=
  path.head? == some slash

def nameLimit : Nat := 255

def sizeLimit : Nat := 4095

def isLongName (name : RawText) : Bool :=
  nameLimit < name.length

def isLong (path : RawText) : Bool :=
  sizeLimit < path.length

def endsOpen (path : RawText) : Bool :=
  path.getLast? == some slash

/-- The pieces that tell paths apart: `.` counts only where a relative path begins with it. -/
def components (path : RawText) : List RawText :=
  match pieces path with
  | [] => []
  | first :: rest =>
    let rest := rest.filter (· != same)
    if first = same ∧ isAbsolute path then rest else first :: rest

def atOrBefore (a b : RawText) : Bool :=
  !(components b).lex (components a)

def join (folder name : RawText) : RawText :=
  if folder = [] ∨ endsOpen folder then folder ++ name else folder ++ slash :: name

def fileName? (path : RawText) : Option RawText :=
  match (components path).getLast? with
  | some name => if name = same ∨ name = up then none else some name
  | none => none

/-- A name without its extension, and the extension: what follows the last dot, unless that dot is
the first byte. -/
def splitName (name : RawText) : RawText × Option RawText :=
  let reversed := name.reverse
  match reversed.dropWhile (· != dot) with
  | _ :: byte :: stem =>
    ((byte :: stem).reverse, some (reversed.takeWhile (· != dot)).reverse)
  | _ => (name, none)

/-- The last name of a path without its extension; the path itself where there is no name. -/
def stem (path : RawText) : RawText :=
  match fileName? path with
  | some name => (splitName name).1
  | none => path

def small (byte : UInt8) : UInt8 :=
  if 0x41 ≤ byte ∧ byte ≤ 0x5A then byte + 0x20 else byte

def isScript (path : RawText) : Bool :=
  match (fileName? path).bind fun name => (splitName name).2 with
  | some ext => ext.map small == Text.bytes "sql"
  | none => false

def ofComponents (absolute : Bool) (components : List RawText) : RawText :=
  (if absolute then [slash] else []) ++ [slash].intercalate components

/-- The paths of which components, given last first, are the last ones. -/
def prefixes (absolute : Bool) : List RawText → List RawText
  | [] => []
  | last :: above => ofComponents absolute (last :: above).reverse :: prefixes absolute above

def ancestors (path : RawText) : List RawText :=
  prefixes (isAbsolute path) (components path).reverse.tail

end DdlCatalog.Path
