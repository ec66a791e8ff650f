import DdlCatalog.Command.Run

namespace DdlCatalog.Program

def absolute (place : List RawText) : String :=
  "/" ++ "/".intercalate (place.map Text.shown)

def loadFile (path : RawText) : IO Entry := do
  if Path.isScript path then return .file (← IO.FS.readBinFile (Text.shown path))
  else return .file .empty

partial def loadFolder (path : RawText) : IO Folder := do
  let mut inside := Folder.empty
  for found in ← (← IO.FS.realPath (Text.shown path)).readDir do
    let name := Text.bytes found.fileName
    let below := Path.join path name
    let entry ← if ← found.path.isDir then Entry.folder <$> loadFolder below else loadFile below
    inside := inside.put name entry
  return inside

def register (disk : Disk) (place : List RawText) : IO Disk := do
  match place.reverse with
  | [] => return disk
  | name :: above =>
    if (disk.root.at? place).isSome then return disk
    match ← (IO.FS.realPath (absolute place)).toBaseIO with
    | .error _ => return disk
    | .ok real =>
      if ← real.isDir then return disk.set above.reverse name (.folder .empty)
      else if ← real.pathExists then
        return disk.set above.reverse name (← loadFile (Text.bytes (absolute place)))
      else return disk

def registerAlong (disk : Disk) (path : RawText) : IO (Disk × List RawText) := do
  let mut disk := disk
  let mut place := disk.start path
  for piece in Path.pieces path do
    if piece = Path.up then place := place.dropLast
    else if piece != Path.same then
      place := place ++ [piece]
      disk ← register disk place
  return (disk, place)

def registerEntries (disk : Disk) (place : List RawText) : IO Disk := do
  match disk.root.at? place with
  | some (.folder _) =>
    let mut disk := disk
    for found in ← (← IO.FS.realPath (absolute place)).readDir do
      disk ← register disk (place ++ [Text.bytes found.fileName])
    return disk
  | _ => return disk

/-- The part of the machine's files that a command line can reach. -/
def loadDisk (options : Options) : IO Disk := do
  let (disk, here) ← registerAlong ⟨.empty, []⟩ (Text.bytes (← IO.currentDir).toString)
  let mut disk : Disk := { disk with here }
  if let some folder := options.outputFolder then
    let (reached, place) ← registerAlong disk folder
    disk ← registerEntries reached place
  if let some input := options.input then
    let (reached, place) ← registerAlong disk input
    disk := reached
    if let (some (.folder _), name :: above) := (disk.root.at? place, place.reverse) then
      disk := disk.set above.reverse name (.folder (← loadFolder (Text.bytes (absolute place))))
  return disk

/-- Makes the folders and writes the files that a run added or changed. -/
def store (before after : Disk) : IO Unit := do
  let folders := before.root.folders
  for place in after.root.folders do
    unless folders.contains place do IO.FS.createDirAll (absolute place)
  let files := before.root.files
  for (place, data) in after.root.files do
    unless files.any fun (old, held) => old == place && held == data do
      IO.FS.writeBinFile (absolute place) data

end DdlCatalog.Program

open DdlCatalog in
def main (arguments : List String) : IO UInt32 := do
  let words := (Command.name :: arguments).map Text.bytes
  let disk ← match Options.ofCommandLine words with
    | .ok options => Program.loadDisk options
    | .error _ => pure ⟨.empty, []⟩
  -- No log lines are written, so any filter for them will do.
  let outcome := Command.run (fun _ => none) words disk
  Program.store disk outcome.disk
  (← IO.getStdout).putStr outcome.stdout
  (← IO.getStderr).putStr outcome.stderr
  return UInt32.ofNat outcome.code
