import DdlCatalog.Disk.Folder

namespace DdlCatalog

inductive DiskError where
  | notFound
  | alreadyExists
  | notFolder
  | isFolder
  | notText
  | nameTooLong
  | zeroInPath
  | outOfMemory
  deriving DecidableEq

namespace DiskError

def message : DiskError → String
  | notFound => "No such file or directory (os error 2)"
  | alreadyExists => "File exists (os error 17)"
  | notFolder => "Not a directory (os error 20)"
  | isFolder => "Is a directory (os error 21)"
  | notText => "stream did not contain valid UTF-8"
  | nameTooLong => "File name too long (os error 36)"
  | zeroInPath => "file name contained an unexpected NUL byte"
  | outOfMemory => "out of memory"

end DiskError

/-- All files and folders, and the folder from which relative paths start. -/
structure Disk where
  root : Folder
  here : List RawText

namespace Disk

def checkPath (path : RawText) : Except DiskError Unit :=
  if path.contains 0 then .error .zeroInPath
  else if path = [] then .error .notFound
  else if Path.isLong path then .error .nameTooLong
  else .ok ()

def start (disk : Disk) (path : RawText) : List RawText :=
  if Path.isAbsolute path then [] else disk.here

/-- Goes from a place, which has to be a folder, by one piece of a path. -/
def step (disk : Disk) (place : List RawText) (piece : RawText) : Except DiskError (List RawText) :=
  match disk.root.at? place with
  | some (.folder inside) =>
    if piece = Path.same then .ok place
    else if piece = Path.up then .ok place.dropLast
    else if Path.isLongName piece then .error .nameTooLong
    else if (inside.find? piece).isSome then .ok (place ++ [piece])
    else .error .notFound
  | some (.file _) => .error .notFolder
  | none => .error .notFound

def follow (disk : Disk) (place : List RawText) (pieces : List RawText) :
    Except DiskError (List RawText) :=
  pieces.foldlM disk.step place

def entry (disk : Disk) (path : RawText) : Except DiskError Entry := do
  checkPath path
  let place ← disk.follow (disk.start path) (Path.pieces path)
  match disk.root.at? place with
  | none => throw .notFound
  | some (.file data) => if Path.endsOpen path then throw .notFolder else return .file data
  | some (.folder inside) => return .folder inside

def isFolder (disk : Disk) (path : RawText) : Bool :=
  match disk.entry path with
  | .ok (.folder _) => true
  | _ => false

/-- The largest size of an object in memory. -/
def memoryLimit : Nat := 0x7fffffffffffffff

def readText (disk : Disk) (path : RawText) : Except DiskError String := do
  match ← disk.entry path with
  | .folder _ => throw .isFolder
  | .file data =>
    if memoryLimit < data.size then throw .outOfMemory
    match String.fromUTF8? data with
    | some text => return text
    | none => throw .notText

def slot (disk : Disk) (path : RawText) : Except DiskError (List RawText × Folder × RawText) := do
  checkPath path
  match (Path.pieces path).reverse with
  | [] => throw .alreadyExists
  | name :: above =>
    let place ← disk.follow (disk.start path) above.reverse
    match disk.root.at? place with
    | none => throw .notFound
    | some (.file _) => throw .notFolder
    | some (.folder inside) =>
      if Path.isLongName name then throw .nameTooLong else return (place, inside, name)

def set (disk : Disk) (place : List RawText) (name : RawText) (entry : Entry) : Disk :=
  { disk with root := disk.root.putAt name entry place }

def makeFolder (disk : Disk) (path : RawText) : Except DiskError Disk := do
  let (place, inside, name) ← disk.slot path
  if name = Path.same ∨ name = Path.up ∨ (inside.find? name).isSome then throw .alreadyExists
  return disk.set place name (.folder .empty)

/-- Makes a file, or gives new data to the one that is there. -/
def writeFile (disk : Disk) (path : RawText) (data : ByteArray) : Except DiskError Disk := do
  let (place, inside, name) ← disk.slot path
  if name = Path.same ∨ name = Path.up ∨ Path.endsOpen path then throw .isFolder
  match inside.find? name with
  | some (.folder _) => throw .isFolder
  | _ => return disk.set place name (.file data)

/-- Makes a folder unless it is there. Where the folder above is missing, that one is made first;
`above` lists those folders, nearest first. What was made stays, also if a later step fails. -/
def makeAlong (disk : Disk) (path : RawText) : (above : List RawText) → Except DiskError Unit × Disk
  | [] =>
    match disk.makeFolder path with
    | .ok made => (.ok (), made)
    | .error e => (if disk.isFolder path then .ok () else .error e, disk)
  | parent :: above =>
    match disk.makeFolder path with
    | .ok made => (.ok (), made)
    | .error .notFound =>
      match disk.makeAlong parent above with
      | (.error e, changed) => (.error e, changed)
      | (.ok (), changed) =>
        match changed.makeFolder path with
        | .ok made => (.ok (), made)
        | .error e => (if changed.isFolder path then .ok () else .error e, changed)
    | .error e => (if disk.isFolder path then .ok () else .error e, disk)

def makeFolders (disk : Disk) (path : RawText) : Except DiskError Unit × Disk :=
  if path = [] then (.ok (), disk) else disk.makeAlong path (Path.ancestors path)

end Disk

end DdlCatalog
