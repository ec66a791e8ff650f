import DdlCatalog.Text.Hexadecimal
import DdlCatalog.Text.Quoted

namespace DdlCatalog.Json

open Text (hexValue?)

def escapeChar (c : Char) : List Char :=
  if c = '"' then ['\\', '"']
  else if c = '\\' then ['\\', '\\']
  else if c = '\x08' then ['\\', 'b']
  else if c = '\x0c' then ['\\', 'f']
  else if c = '\n' then ['\\', 'n']
  else if c = '\r' then ['\\', 'r']
  else if c = '\t' then ['\\', 't']
  else if c.toNat < 0x20 then
    ['\\', 'u', '0', '0', Nat.digitChar (c.toNat / 16), Nat.digitChar (c.toNat % 16)]
  else [c]

def escape (text : List Char) : List Char :=
  text.flatMap escapeChar

def unit? (a b c d : Char) : Option Nat := do
  return (((← hexValue? a) * 16 + (← hexValue? b)) * 16 + (← hexValue? c)) * 16 + (← hexValue? d)

def shortEscape? : Char → Option Char
  | '"' => some '"'
  | '\\' => some '\\'
  | '/' => some '/'
  | 'b' => some '\x08'
  | 'f' => some '\x0c'
  | 'n' => some '\n'
  | 'r' => some '\r'
  | 't' => some '\t'
  | _ => none

def unescape? : List Char → Option (List Char)
  | [] => some []
  | '\\' :: 'u' :: a :: b :: c :: d :: rest => do
    let unit ← unit? a b c d
    if unit < 0xd800 ∨ 0xe000 ≤ unit then return Char.ofNat unit :: (← unescape? rest)
    else if 0xdc00 ≤ unit then none
    else
      match rest with
      | '\\' :: 'u' :: e :: f :: g :: h :: rest =>
        let low ← unit? e f g h
        if low < 0xdc00 ∨ 0xe000 ≤ low then none
        else
          let code := 0x10000 + (unit - 0xd800) * 0x400 + (low - 0xdc00)
          return Char.ofNat code :: (← unescape? rest)
      | _ => none
  | '\\' :: e :: rest => return (← shortEscape? e) :: (← unescape? rest)
  | c :: rest => return c :: (← unescape? rest)

end DdlCatalog.Json
