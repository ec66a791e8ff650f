namespace DdlCatalog.Text

/-- The number that decimal digits write, from left to right. -/
def decimalValue (digits : List Char) : Nat :=
  digits.foldl (fun n d => 10 * n + (d.toNat - '0'.toNat)) 0

def decimal? (text : List Char) : Option Nat :=
  if !text.isEmpty && text.all Char.isDigit then some (decimalValue text) else none

def word? (text : List Char) : Option UInt32 :=
  match decimal? text with
  | some n => if n < UInt32.size then some (UInt32.ofNat n) else none
  | none => none

def withoutPlus : List Char → List Char
  | '+' :: digits => digits
  | text => text

def decimal (n : Nat) : List Char :=
  Nat.toDigits 10 n

end DdlCatalog.Text
