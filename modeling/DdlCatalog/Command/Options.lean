import DdlCatalog.Text.Raw

namespace DdlCatalog

structure Options where
  input : Option RawText
  pretty : Bool
  tokens : Bool
  outputFolder : Option RawText
  keepGoing : Bool
  logFilter : Option String
  logJson : Bool
  help : Bool
  deriving DecidableEq

inductive UsageError where
  | missingValue (option : String)
  | unknownOption (word : String)
  | secondInput
  deriving DecidableEq

namespace UsageError

def message : UsageError → String
  | missingValue option => "missing value for `" ++ option ++ "`"
  | unknownOption word => "unknown option `" ++ word ++ "`"
  | secondInput => "too many positional arguments; expected one input path"

end UsageError

namespace Options

def none : Options where
  input := .none
  pretty := false
  tokens := false
  outputFolder := .none
  keepGoing := false
  logFilter := .none
  logJson := false
  help := false

def after? (beginning word : String) : Option String :=
  (beginning.toList.isPrefixOf? word.toList).map String.ofList

def takeWord (options : Options) (word : RawText) : Except UsageError Options :=
  let text := Text.shown word
  if text = "-h" ∨ text = "--help" then .ok { options with help := true }
  else if text = "--pretty" then .ok { options with pretty := true }
  else if text = "--tokens" then .ok { options with tokens := true }
  else if text = "--keep-going" then .ok { options with keepGoing := true }
  else if text = "--log-json" then .ok { options with logJson := true }
  else
    match after? "--output-dir=" text, after? "--log=" text with
    | some value, _ => .ok { options with outputFolder := some (Text.bytes value) }
    | .none, some value => .ok { options with logFilter := some value }
    | .none, .none =>
      if text.toList.head? = some '-' then .error (.unknownOption text)
      else if options.input.isSome then .error .secondInput
      else .ok { options with input := some word }

/-- Takes all words. Two options have their value in the next word, whatever that is; a folder is
kept as it is handed over. -/
def takeWords (options : Options) : List RawText → Except UsageError Options
  | [] => .ok options
  | [word] =>
    if Text.shown word = "--output-dir" ∨ Text.shown word = "--log" then
      .error (.missingValue (Text.shown word))
    else options.takeWord word
  | word :: next :: rest =>
    if Text.shown word = "--output-dir" then
      takeWords { options with outputFolder := some next } rest
    else if Text.shown word = "--log" then
      takeWords { options with logFilter := some (Text.shown next) } rest
    else
      match options.takeWord word with
      | .error e => .error e
      | .ok options => takeWords options (next :: rest)

def ofCommandLine (words : List RawText) : Except UsageError Options :=
  takeWords none words.tail

end Options

end DdlCatalog
