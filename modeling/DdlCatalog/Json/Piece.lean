import DdlCatalog.Json

namespace DdlCatalog.Json

inductive Piece where
  | openArray
  | closeArray
  | openObject
  | closeObject
  | comma
  | colon
  | null
  | bool (value : Bool)
  | number (literal : List Char)
  | string (body : List Char)
  deriving DecidableEq

namespace Piece

def isSpace (c : Char) : Bool :=
  c == ' ' || c == '\n' || c == '\r' || c == '\t'

/-- What stands before the closing quote, and what follows that quote. Escapes have to be well
formed and control characters escaped. -/
def stringBody? : List Char → Option (List Char × List Char)
  | [] => none
  | '"' :: rest => some ([], rest)
  | '\\' :: 'u' :: a :: b :: c :: d :: rest =>
    if (unit? a b c d).isSome then
      (stringBody? rest).map fun (body, rest) => ('\\' :: 'u' :: a :: b :: c :: d :: body, rest)
    else none
  | '\\' :: e :: rest =>
    if (shortEscape? e).isSome then
      (stringBody? rest).map fun (body, rest) => ('\\' :: e :: body, rest)
    else none
  | c :: rest =>
    if c.toNat < 0x20 then none
    else (stringBody? rest).map fun (body, rest) => (c :: body, rest)

def digits? (text : List Char) : Option (List Char × List Char) :=
  match text.takeWhile Char.isDigit with
  | [] => none
  | digits => some (digits, text.dropWhile Char.isDigit)

def whole? : List Char → Option (List Char × List Char)
  | '0' :: rest => some (['0'], rest)
  | text => digits? text

def fraction? : List Char → Option (List Char × List Char)
  | '.' :: rest => (digits? rest).map fun (digits, rest) => ('.' :: digits, rest)
  | text => some ([], text)

def exponentSign : List Char → List Char × List Char
  | '+' :: rest => (['+'], rest)
  | '-' :: rest => (['-'], rest)
  | text => ([], text)

def exponent? : List Char → Option (List Char × List Char)
  | c :: rest =>
    if c = 'e' ∨ c = 'E' then
      (digits? (exponentSign rest).2).map fun (digits, after) =>
        (c :: (exponentSign rest).1 ++ digits, after)
    else some ([], c :: rest)
  | [] => some ([], [])

def minus : List Char → List Char × List Char
  | '-' :: rest => (['-'], rest)
  | text => ([], text)

def number? (text : List Char) : Option (List Char × List Char) := do
  let (whole, rest) ← whole? (minus text).2
  let (fraction, rest) ← fraction? rest
  let (exponent, rest) ← exponent? rest
  return ((minus text).1 ++ whole ++ fraction ++ exponent, rest)

def first? : List Char → Option (Piece × List Char)
  | '[' :: rest => some (openArray, rest)
  | ']' :: rest => some (closeArray, rest)
  | '{' :: rest => some (openObject, rest)
  | '}' :: rest => some (closeObject, rest)
  | ',' :: rest => some (comma, rest)
  | ':' :: rest => some (colon, rest)
  | 'n' :: 'u' :: 'l' :: 'l' :: rest => some (null, rest)
  | 't' :: 'r' :: 'u' :: 'e' :: rest => some (bool true, rest)
  | 'f' :: 'a' :: 'l' :: 's' :: 'e' :: rest => some (bool false, rest)
  | '"' :: rest => (stringBody? rest).map fun (body, rest) => (string body, rest)
  | text => (number? text).map fun (literal, rest) => (number literal, rest)

theorem length_stringBody? {text body rest : List Char} (h : stringBody? text = some (body, rest)) :
    rest.length < text.length := by
  fun_induction stringBody? text generalizing body with
  | case1 => cases h
  | case2 => cases h; simp
  | case3 a b c d tail hu ih =>
    obtain ⟨found, hf, he⟩ := Option.map_eq_some_iff.mp h
    cases he
    have := ih hf
    simp only [List.length_cons]
    omega
  | case4 => cases h
  | case5 e tail hn he ih =>
    obtain ⟨found, hf, heq⟩ := Option.map_eq_some_iff.mp h
    cases heq
    have := ih hf
    simp only [List.length_cons]
    omega
  | case6 => cases h
  | case7 => cases h
  | case8 c tail _ _ _ hc ih =>
    obtain ⟨found, hf, he⟩ := Option.map_eq_some_iff.mp h
    cases he
    have := ih hf
    simp only [List.length_cons]
    omega

theorem length_digits? {text digits rest : List Char} (h : digits? text = some (digits, rest)) :
    rest.length < text.length := by
  unfold digits? at h
  split at h
  next => cases h
  next hne =>
    cases h
    have hl := congrArg List.length (List.takeWhile_append_dropWhile (p := Char.isDigit)
      (l := text))
    have hp := List.length_pos_iff.mpr hne
    simp only [List.length_append] at hl
    omega

theorem length_whole? {text whole rest : List Char} (h : whole? text = some (whole, rest)) :
    rest.length < text.length := by
  unfold whole? at h
  split at h
  next => cases h; simp
  next => exact length_digits? h

theorem length_fraction? {text fraction rest : List Char}
    (h : fraction? text = some (fraction, rest)) : rest.length ≤ text.length := by
  unfold fraction? at h
  split at h
  next tail =>
    obtain ⟨found, hf, he⟩ := Option.map_eq_some_iff.mp h
    cases he
    have := length_digits? hf
    simp only [List.length_cons]
    omega
  next => cases h; exact Nat.le_refl _

theorem length_exponentSign (text : List Char) :
    (exponentSign text).2.length ≤ text.length := by
  unfold exponentSign
  split <;> simp

theorem length_exponent? {text exponent rest : List Char}
    (h : exponent? text = some (exponent, rest)) : rest.length ≤ text.length := by
  unfold exponent? at h
  split at h
  next c tail =>
    split at h
    next =>
      obtain ⟨found, hf, he⟩ := Option.map_eq_some_iff.mp h
      cases he
      have := length_digits? hf
      have := length_exponentSign tail
      simp only [List.length_cons]
      omega
    next => cases h; exact Nat.le_refl _
  next => cases h; exact Nat.le_refl _

theorem length_minus (text : List Char) : (minus text).2.length ≤ text.length := by
  unfold minus
  split <;> simp

theorem length_number? {text literal rest : List Char} (h : number? text = some (literal, rest)) :
    rest.length < text.length := by
  obtain ⟨whole, hw, h⟩ := Option.bind_eq_some_iff.mp h
  obtain ⟨fraction, hf, h⟩ := Option.bind_eq_some_iff.mp h
  obtain ⟨exponent, he, h⟩ := Option.bind_eq_some_iff.mp h
  cases h
  have := length_minus text
  have := length_whole? hw
  have := length_fraction? hf
  have := length_exponent? he
  omega

theorem length_first? {text rest : List Char} {piece : Piece}
    (h : first? text = some (piece, rest)) : rest.length < text.length := by
  unfold first? at h
  split at h
  case h_10 =>
    obtain ⟨found, hf, he⟩ := Option.map_eq_some_iff.mp h
    cases he
    have := length_stringBody? hf
    simp only [List.length_cons]
    omega
  case h_11 =>
    obtain ⟨found, hf, he⟩ := Option.map_eq_some_iff.mp h
    cases he
    exact length_number? hf
  all_goals
    cases h
    simp only [List.length_cons]
    omega

def all? (text : List Char) : Option (List Piece) :=
  match text with
  | [] => some []
  | c :: rest =>
    if isSpace c then all? rest
    else
      match _ : first? (c :: rest) with
      | none => none
      | some (piece, after) => (all? after).map (piece :: ·)
termination_by text.length
decreasing_by
  · simp
  · exact length_first? ‹_›

end Piece

end DdlCatalog.Json
