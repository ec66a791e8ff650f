import DdlCatalog.Disk.Path

namespace DdlCatalog

inductive Folder where
  | empty
  | file (name : RawText) (data : ByteArray) (others : Folder)
  | folder (name : RawText) (inside : Folder) (others : Folder)

inductive Entry where
  | file (data : ByteArray)
  | folder (inside : Folder)

namespace Folder

def find? (name : RawText) : Folder → Option Entry
  | empty => none
  | file other data others => if other = name then some (.file data) else others.find? name
  | folder other inside others => if other = name then some (.folder inside) else others.find? name

def list (name : RawText) : Entry → Folder → Folder
  | .file data, others => file name data others
  | .folder inside, others => folder name inside others

def put (name : RawText) (entry : Entry) : Folder → Folder
  | empty => list name entry empty
  | file other data others =>
    if other = name then list name entry others else file other data (others.put name entry)
  | folder other inside others =>
    if other = name then list name entry others else folder other inside (others.put name entry)

def at? (inside : Folder) : List RawText → Option Entry
  | [] => some (.folder inside)
  | [name] => inside.find? name
  | name :: next :: rest =>
    match inside.find? name with
    | some (.folder deeper) => deeper.at? (next :: rest)
    | _ => none

def putAt (name : RawText) (entry : Entry) (inside : Folder) : List RawText → Folder
  | [] => inside.put name entry
  | next :: rest =>
    match inside.find? next with
    | some (.folder deeper) => inside.put next (.folder (putAt name entry deeper rest))
    | _ => inside

def scriptAt (path : RawText) : List RawText :=
  if Path.isScript path then [path] else []

/-- The paths of the scripts at any depth, when the folder itself has the given path. A folder is
not entered where its path has grown too long, and passes for a file there. -/
def scripts (path : RawText) : Folder → List RawText
  | empty => []
  | file name _ others => scriptAt (Path.join path name) ++ others.scripts path
  | folder name inside others =>
    let entry := Path.join path name
    (if Path.isLong entry then scriptAt entry else inside.scripts entry) ++ others.scripts path

def files : Folder → List (List RawText × ByteArray)
  | empty => []
  | file name data others => ([name], data) :: others.files
  | folder name inside others =>
    inside.files.map (fun found => (name :: found.1, found.2)) ++ others.files

def folders : Folder → List (List RawText)
  | empty => []
  | file _ _ others => others.folders
  | folder name inside others =>
    [name] :: inside.folders.map (name :: ·) ++ others.folders

end Folder

end DdlCatalog
