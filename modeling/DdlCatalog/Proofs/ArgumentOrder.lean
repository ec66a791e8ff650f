import DdlCatalog.Proofs.CommandLine
import Mathlib.Data.List.Basic
import Mathlib.Data.List.Induction

namespace DdlCatalog

namespace CommandLine

inductive Flag where
  | shortHelp
  | help
  | pretty
  | tokens
  | keepGoing
  | logJson
  deriving DecidableEq

def dash : UInt8 := 0x2D

def equals : UInt8 := 0x3D

namespace Flag

def name : Flag → String
  | shortHelp => "-h"
  | help => "--help"
  | pretty => "--pretty"
  | tokens => "--tokens"
  | keepGoing => "--keep-going"
  | logJson => "--log-json"

def word (flag : Flag) : RawText :=
  Text.bytes flag.name

end Flag

inductive Valued where
  | outputFolder
  | logFilter
  deriving DecidableEq

namespace Valued

def name : Valued → String
  | outputFolder => "--output-dir"
  | logFilter => "--log"

def word (option : Valued) : RawText :=
  Text.bytes option.name

/-- A value as it is taken. Only a folder in a word of its own is kept byte for byte, all else is
read as text. -/
def taken (joined : Bool) (raw : RawText) : Valued → RawText
  | outputFolder => if joined then Text.bytes (Text.shown raw) else raw
  | logFilter => Text.bytes (Text.shown raw)

def joined (option : Valued) (raw : RawText) : RawText :=
  option.word ++ equals :: raw

end Valued

/-- What a line is cut into. A value is joined to its option or stands in the next word, whatever it
looks like; an input is any other word that does not begin as an option. -/
inductive Segment where
  | flag (flag : Flag)
  | value (option : Valued) (joined : Bool) (raw : RawText)
  | input (path : RawText) (plain : path.head? ≠ some dash)
  deriving DecidableEq

namespace Segment

def words : Segment → List RawText
  | flag f => [f.word]
  | value option true raw => [option.joined raw]
  | value option false raw => [option.word, raw]
  | input path _ => [path]

def value? (option : Valued) : Segment → Option RawText
  | value other joined raw => if other = option then some (other.taken joined raw) else none
  | _ => none

def input? : Segment → Option RawText
  | input path _ => some path
  | _ => none

end Segment

def inputs (segments : List Segment) : List RawText :=
  segments.filterMap Segment.input?

def values (option : Valued) (segments : List Segment) : List RawText :=
  segments.filterMap (Segment.value? option)

/-- Words cut to their end into segments, with at most one input among them. -/
structure Cut (words : List RawText) (segments : List Segment) : Prop where
  spelled : words = segments.flatMap Segment.words
  oneInput : (inputs segments).length ≤ 1

structure Unknown (word : RawText) : Prop where
  dashed : word.head? = some dash
  flag : ∀ flag : Flag, word ≠ flag.word
  option : ∀ option : Valued, word ≠ option.word
  joined : ∀ (option : Valued) (raw : RawText), word ≠ option.joined raw

/-- The fault that stands first in a line, behind words that are cut into segments. -/
inductive FirstFault : List RawText → UsageError → Prop
  | missingValue {front : List RawText} {segments : List Segment} (option : Valued)
      (cut : Cut front segments) :
      FirstFault (front ++ [option.word]) (.missingValue option.name)
  | unknownOption {front back : List RawText} {segments : List Segment} {word : RawText}
      (cut : Cut front segments) (unknown : Unknown word) :
      FirstFault (front ++ word :: back) (.unknownOption (Text.shown word))
  | secondInput {front back : List RawText} {segments : List Segment} {path : RawText}
      (cut : Cut front segments) (first : inputs segments ≠ [])
      (plain : path.head? ≠ some dash) :
      FirstFault (front ++ path :: back) .secondInput

theorem Cut.nil : Cut [] [] where
  spelled := rfl
  oneInput := Nat.zero_le 1

inductive Opening : List RawText → Prop
  | done : Opening []
  | segment (segment : Segment) (back : List RawText) : Opening (segment.words ++ back)
  | missingValue (option : Valued) : Opening [option.word]
  | unknownOption {word : RawText} (back : List RawText) (unknown : Unknown word) :
      Opening (word :: back)

theorem opening (words : List RawText) : Opening words := by
  cases words with
  | nil => exact .done
  | cons word back =>
    by_cases hdash : word.head? = some dash
    case neg => exact .segment (.input word hdash) back
    by_cases hflag : ∃ flag : Flag, word = flag.word
    case pos =>
      obtain ⟨flag, rfl⟩ := hflag
      exact .segment (.flag flag) back
    by_cases hjoined : ∃ (option : Valued) (raw : RawText), word = option.joined raw
    case pos =>
      obtain ⟨option, raw, rfl⟩ := hjoined
      exact .segment (.value option true raw) back
    by_cases hoption : ∃ option : Valued, word = option.word
    case pos =>
      obtain ⟨option, rfl⟩ := hoption
      cases back with
      | nil => exact .missingValue option
      | cons raw back => exact .segment (.value option false raw) back
    push Not at hflag hjoined hoption
    exact .unknownOption back ⟨hdash, hflag, hoption, hjoined⟩

end CommandLine

namespace Options

open CommandLine

end Options

end DdlCatalog
