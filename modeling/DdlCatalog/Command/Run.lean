import DdlCatalog.Command.Options
import DdlCatalog.Disk
import DdlCatalog.Schema.Json
import DdlCatalog.Script.Schema
import DdlCatalog.Token.Json

namespace DdlCatalog

/-- How a run ends: its exit code, what it printed, and the disk it leaves. -/
structure Outcome where
  code : Nat
  stdout : String
  stderr : String
  disk : Disk

namespace Command

def name : String := "ddlscan"

def usage : String :=
  "\n".intercalate
    ["Usage: " ++ name ++ " <PATH> [--pretty] [--tokens] [--output-dir DIR] [--keep-going]",
     "               [--log FILTER] [--log-json]",
     "",
     "PATH is a .sql file or a directory searched recursively for .sql files.",
     "",
     "Options:",
     "",
     "--pretty          Pretty-print JSON output",
     "--tokens          Print the token stream instead of the schema",
     "--output-dir DIR  Write <name>.json per input file into DIR",
     "--keep-going      Continue after a file fails; exit 1 at the end",
     "--log FILTER      Log filter directives (default: $DDLSCAN_LOG or `info`)",
     "--log-json        Log as JSON lines on stderr",
     "-h, --help        Show this help",
     "",
     ""]

def diskFault (activity : String) (e : DiskError) : Fault :=
  .within activity (.root (.io ⟨e.message, []⟩))

def scripts (disk : Disk) (input : RawText) : Except DiskError (List RawText) :=
  match disk.entry input with
  | .error e => .error e
  | .ok (.file _) => .ok (if Path.isScript input then [input] else [])
  | .ok (.folder inside) => .ok ((inside.scripts input).mergeSort Path.atOrBefore)

/-- The origin of the catalogue of a script, which names the script. -/
def scriptOrigin (path : RawText) : Origin :=
  Origin.oracle.withDescription ("parsed from " ++ Text.shown path)

/-- The document made of the text of a script: its tokens, or the catalogue that it describes. -/
def document (options : Options) (path : RawText) (text : String) : Except Fault Json :=
  match tokenize text with
  | .error e => .error (.within "failed to tokenize source" e.fault)
  | .ok tokens =>
    if options.tokens then .ok (.ofList Token.toJson tokens)
    else
      match Schema.ofTokens tokens (scriptOrigin path) with
      | .error e => .error (.within "failed to parse source" e.fault)
      | .ok schema => .ok schema.toJson

def rendered (options : Options) (json : Json) : String :=
  (if options.pretty then json.pretty else json.compact) ++ "\n"

def outputStem (path : RawText) : String :=
  Text.shown (Path.stem path)

def outputName (path : RawText) : RawText :=
  Text.bytes (outputStem path ++ ".json")

def target (folder path : RawText) : RawText :=
  Path.join folder (outputName path)

def write (disk : Disk) (folder path : RawText) (text : String) : Except DiskError Unit × Disk :=
  match disk.makeFolders folder with
  | (.error e, disk) => (.error e, disk)
  | (.ok (), disk) =>
    match disk.writeFile (target folder path) text.toUTF8 with
    | .error e => (.error e, disk)
    | .ok disk => (.ok (), disk)

def process (options : Options) (disk : Disk) (path : RawText) : Except Fault String × Disk :=
  let activity := "failed to process " ++ Text.shown path
  match disk.readText path with
  | .error e => (.error (diskFault activity e), disk)
  | .ok text =>
    match document options path text with
    | .error fault => (.error (.within activity fault), disk)
    | .ok json =>
      match options.outputFolder with
      | none => (.ok (rendered options json), disk)
      | some folder =>
        match write disk folder path (rendered options json) with
        | (.ok (), disk) => (.ok "", disk)
        | (.error e, disk) => (.error (diskFault activity e), disk)

/-- Processes scripts one after the other. The first fault ends the run with its own exit code,
unless it is to keep going: then every fault is reported and the code is 1. -/
def processAll (options : Options) (disk : Disk) : List RawText → Outcome
  | [] => ⟨0, "", "", disk⟩
  | path :: paths =>
    match process options disk path with
    | (.ok printed, disk) =>
      let others := processAll options disk paths
      { others with stdout := printed ++ others.stdout }
    | (.error fault, disk) =>
      if options.keepGoing then
        let others := processAll options disk paths
        { others with code := 1, stderr := fault.report ++ others.stderr }
      else ⟨fault.exitCode, "", fault.report, disk⟩

def runOn (options : Options) (disk : Disk) (input : RawText) : Outcome :=
  match scripts disk input with
  | .error e =>
    let fault := diskFault ("failed to read " ++ Text.shown input) e
    ⟨fault.exitCode, "", fault.report, disk⟩
  | .ok [] => ⟨1, "", "error: no .sql files under " ++ Text.shown input ++ "\n", disk⟩
  | .ok (path :: paths) => processAll options disk (path :: paths)

/-- What a run says about its log filter, if the log library gives a reason to refuse it. -/
def complaint? (refuses : String → Option String) (options : Options) : Option String :=
  options.logFilter.bind fun filter => (refuses filter).map fun reason =>
    "error: invalid log filter `" ++ filter ++ "`: " ++ reason ++ "\n"

/-- A run on a command line. Which log filters are refused is up to the log library. -/
def run (refuses : String → Option String) (words : List RawText) (disk : Disk) : Outcome :=
  match Options.ofCommandLine words with
  | .error e => ⟨2, "", "error: " ++ e.message ++ "\n" ++ usage, disk⟩
  | .ok options =>
    if options.help then ⟨0, usage, "", disk⟩
    else
      match complaint? refuses options with
      | some complaint => ⟨2, "", complaint, disk⟩
      | none =>
        match options.input with
        | none => ⟨2, "", "error: missing input path\n" ++ usage, disk⟩
        | some input => runOn options disk input

end Command

end DdlCatalog
