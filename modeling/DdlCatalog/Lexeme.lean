import DdlCatalog.Text.Ascii
import DdlCatalog.Text.Quoted

namespace DdlCatalog

inductive Unfinished where
  | noTerminator (terminators : String)
  | openRegion (opening terminators : String)
  | delimited (delimiter : String)
  deriving DecidableEq

namespace Unfinished

def message : Unfinished → String
  | noTerminator terminators =>
    "no terminator from " ++ Text.quoted terminators ++ " before end of input"
  | openRegion opening terminators =>
    Text.quoted opening ++ " opened but no terminator from " ++ Text.quoted terminators ++
      " before end of input"
  | delimited delimiter => "unterminated " ++ delimiter ++ " region"

end Unfinished

/-- So many characters at the front of a text, with so many at each end that only delimit. -/
structure Extent where
  length : Nat
  margin : Nat := 0
  deriving DecidableEq

namespace Extent

def empty : Extent := ⟨0, 0⟩

def span (extent : Extent) (text : List Char) : List Char :=
  text.take extent.length

def content (extent : Extent) (text : List Char) : List Char :=
  ((extent.span text).drop extent.margin).take (extent.length - 2 * extent.margin)

def rest (extent : Extent) (text : List Char) : List Char :=
  text.drop extent.length

theorem span_append_rest (extent : Extent) (text : List Char) :
    extent.span text ++ extent.rest text = text :=
  List.take_append_drop extent.length text

theorem rest_length_lt {extent : Extent} {text : List Char} (h : extent.span text ≠ []) :
    (extent.rest text).length < text.length := by
  have hl := congrArg List.length (extent.span_append_rest text)
  have hp := List.length_pos_iff.mpr h
  simp only [List.length_append] at hl
  omega

end Extent

/-- Measures the lexeme at the front of a text. -/
abbrev Recognizer := List Char → Except Unfinished Extent

/-- Shapes of text whose longest instance at the front can be measured. -/
inductive Shape where
  | run (charset : String)
  | decimal
  | either (first second : Shape)
  deriving DecidableEq

namespace Shape

def measure : Shape → List Char → Nat
  | run charset, text => (text.takeWhile (charset.toList.contains ·)).length
  | decimal, text =>
    match text.dropWhile Char.isDigit with
    | '.' :: fraction =>
      let whole := (text.takeWhile Char.isDigit).length
      let places := (fraction.takeWhile Char.isDigit).length
      if whole = 0 ∨ places = 0 then 0 else whole + 1 + places
    | _ => 0
  | either first second, text =>
    match first.measure text with
    | 0 => second.measure text
    | n => n

end Shape

namespace Recognizer

def atFront (word : String) (anyCase : Bool) (text : List Char) : Bool :=
  word != "" &&
    if anyCase then Text.startsWithLetters word.toList text else Text.startsWith word.toList text

def anyWord (words : List String) (anyCase : Bool) : Recognizer := fun text =>
  match words.find? (atFront · anyCase text) with
  | some word => .ok ⟨word.toList.length, 0⟩
  | none => .ok .empty

def word (text : String) (anyCase : Bool) : Recognizer :=
  anyWord [text] anyCase

def oneOf (charset : String) : Recognizer
  | c :: _ => if charset.toList.contains c then .ok ⟨1, 0⟩ else .ok .empty
  | [] => .ok .empty

def shape (s : Shape) : Recognizer := fun text =>
  .ok ⟨s.measure text, 0⟩

def run (charset : String) : Recognizer :=
  shape (.run charset)

def distanceTo? (terminators : String) (text : List Char) : Option Nat :=
  text.findIdx? (terminators.toList.contains ·)

/-- All up to the first character of a set, which has to come. -/
def upTo (terminators : String) : Recognizer := fun text =>
  match distanceTo? terminators text with
  | some n => .ok ⟨n, 0⟩
  | none => .error (.noTerminator terminators)

/-- An opening and all up to the first character of a set after it, which has to come. -/
def openedUntil (opening terminators : String) : Recognizer := fun text =>
  if atFront opening false text then
    match distanceTo? terminators (text.drop opening.toList.length) with
    | some n => .ok ⟨opening.toList.length + n, 0⟩
    | none => .error (.openRegion opening terminators)
  else .ok .empty

/-- All from one delimiter to the next, which has to come. The delimiters are margin if asked. -/
def delimited (delimiter : String) (keepDelimiters : Bool) : Recognizer := fun text =>
  if atFront delimiter false text then
    let width := delimiter.toList.length
    match Text.find? delimiter.toList (text.drop width) with
    | some n => .ok ⟨n + 2 * width, if keepDelimiters then 0 else width⟩
    | none => .error (.delimited delimiter)
  else .ok .empty

end Recognizer

end DdlCatalog
