import DdlCatalog.Proofs.JsonPieces

namespace DdlCatalog.Json

open Piece

mutual

/-- The pieces of a tree, as they follow each other in its text. -/
def pieces : Json → List Piece
  | null => [.null]
  | bool value => [.bool value]
  | number literal => [.number literal]
  | string body => [.string body]
  | array [] => [.openArray, .closeArray]
  | array (item :: items) => .openArray :: (pieces item ++ itemPieces items)
  | object [] => [.openObject, .closeObject]
  | object ((key, value) :: fields) =>
    .openObject :: .string key :: .colon :: (pieces value ++ fieldPieces fields)

def itemPieces : List Json → List Piece
  | [] => [.closeArray]
  | item :: items => .comma :: (pieces item ++ itemPieces items)

def fieldPieces : List (List Char × Json) → List Piece
  | [] => [.closeObject]
  | (key, value) :: fields =>
    .comma :: .string key :: .colon :: (pieces value ++ fieldPieces fields)

end

/-- Trees whose numbers and strings are written as such. -/
inductive WellFormed : Json → Prop
  | null : WellFormed .null
  | bool (value : Bool) : WellFormed (.bool value)
  | number {literal : List Char} : Numeral literal → WellFormed (.number literal)
  | string {body : List Char} : Body body → WellFormed (.string body)
  | array {items : List Json} : (∀ item ∈ items, WellFormed item) → WellFormed (.array items)
  | object {fields : List (List Char × Json)} :
      (∀ field ∈ fields, Body field.1) → (∀ field ∈ fields, WellFormed field.2) →
        WellFormed (.object fields)

theorem pieces_cons (json : Json) :
    ∃ piece rest, json.pieces = piece :: rest ∧ piece ≠ .closeArray := by
  match json with
  | .null | .bool _ | .number _ | .string _ | .array [] | .array (_ :: _) | .object []
  | .object (_ :: _) => exact ⟨_, _, rfl, nofun⟩

namespace Reading

theorem foldlM_firstItem (item : Json) (more : List Piece) (stack : List Frame) :
    (item.pieces ++ more).foldlM step (itemOrClose stack) =
      (item.pieces ++ more).foldlM step (value (.array [] :: stack)) := by
  obtain ⟨piece, rest, hpieces, hopen⟩ := pieces_cons item
  have hstep : step (itemOrClose stack) piece = step (value (.array [] :: stack)) piece := by
    cases piece <;> first | rfl | exact absurd rfl hopen
  rw [hpieces, List.cons_append, List.foldlM_cons, List.foldlM_cons, hstep]

mutual

/-- The pieces of a tree lead from where a value is awaited to where the tree is there, whatever is
open around it. -/
theorem foldlM_pieces (json : Json) (stack : List Frame) :
    json.pieces.foldlM step (value stack) = some (complete json stack) := by
  match json with
  | .null | .bool _ | .number _ | .string _ | .array [] | .object [] => rfl
  | .array (item :: items) =>
    change (item.pieces ++ itemPieces items).foldlM step (itemOrClose stack) = _
    rw [foldlM_firstItem, List.foldlM_append, foldlM_pieces item]
    exact foldlM_itemPieces items item [] stack
  | .object ((name, held) :: fields) =>
    change (held.pieces ++ fieldPieces fields).foldlM step (value (.object [] name :: stack)) = _
    rw [List.foldlM_append, foldlM_pieces held]
    exact foldlM_fieldPieces fields held name [] stack

theorem foldlM_itemPieces (items : List Json) (last : Json) (done : List Json)
    (stack : List Frame) :
    (itemPieces items).foldlM step (complete last (.array done :: stack)) =
      some (complete (.array ((last :: done).reverse ++ items)) stack) := by
  match items with
  | [] => rw [List.append_nil]; rfl
  | item :: items =>
    change (item.pieces ++ itemPieces items).foldlM step (value (.array (last :: done) :: stack)) =
      _
    rw [List.foldlM_append, foldlM_pieces item]
    change (itemPieces items).foldlM step (complete item (.array (last :: done) :: stack)) = _
    rw [foldlM_itemPieces items, List.reverse_cons (a := item), List.append_assoc]
    rfl

theorem foldlM_fieldPieces (fields : List (List Char × Json)) (last : Json) (name : List Char)
    (done : List (List Char × Json)) (stack : List Frame) :
    (fieldPieces fields).foldlM step (complete last (.object done name :: stack)) =
      some (complete (.object (((name, last) :: done).reverse ++ fields)) stack) := by
  match fields with
  | [] => rw [List.append_nil]; rfl
  | (other, held) :: fields =>
    change (held.pieces ++ fieldPieces fields).foldlM step
      (value (.object ((name, last) :: done) other :: stack)) = _
    rw [List.foldlM_append, foldlM_pieces held]
    change (fieldPieces fields).foldlM step
      (complete held (.object ((name, last) :: done) other :: stack)) = _
    rw [foldlM_fieldPieces fields, List.reverse_cons (a := (other, held)), List.append_assoc]
    rfl

end

end Reading

theorem itemPieces_head (items : List Json) (more : List Piece) :
    ∀ piece ∈ (itemPieces items ++ more).head?, piece.isNumber = false := by
  cases items <;> exact fun piece hp => Option.some.inj hp ▸ rfl

theorem fieldPieces_head (fields : List (List Char × Json)) (more : List Piece) :
    ∀ piece ∈ (fieldPieces fields ++ more).head?, piece.isNumber = false := by
  cases fields <;> exact fun piece hp => Option.some.inj hp ▸ rfl

mutual

theorem readable_pieces {json : Json} (h : WellFormed json) {more : List Piece}
    (hm : Readable more) (hf : ∀ piece ∈ more.head?, piece.isNumber = false) :
    Readable (json.pieces ++ more) := by
  match json, h with
  | .null, _ => exact .cons trivial nofun hm
  | .bool _, _ => exact .cons trivial nofun hm
  | .number _, .number hn => exact .cons hn (fun _ => hf) hm
  | .string _, .string hb => exact .cons hb nofun hm
  | .array [], _ => exact .cons trivial nofun (.cons trivial nofun hm)
  | .array (item :: items), .array hi =>
    obtain ⟨hitem, hitems⟩ := List.forall_mem_cons.mp hi
    rw [pieces, List.cons_append, List.append_assoc]
    exact .cons trivial nofun
      (readable_pieces hitem (readable_itemPieces hitems hm) (itemPieces_head items more))
  | .object [], _ => exact .cons trivial nofun (.cons trivial nofun hm)
  | .object ((key, value) :: fields), .object hk hv =>
    obtain ⟨hkey, hkeys⟩ := List.forall_mem_cons.mp hk
    obtain ⟨hvalue, hvalues⟩ := List.forall_mem_cons.mp hv
    have hrest := readable_pieces hvalue (readable_fieldPieces hkeys hvalues hm)
      (fieldPieces_head fields more)
    simp only [pieces, List.cons_append, List.append_assoc]
    exact .cons trivial nofun (.cons hkey nofun (.cons trivial nofun hrest))

theorem readable_itemPieces {items : List Json} (hi : ∀ item ∈ items, WellFormed item)
    {more : List Piece} (hm : Readable more) : Readable (itemPieces items ++ more) := by
  match items with
  | [] => exact .cons trivial nofun hm
  | item :: items =>
    obtain ⟨hitem, hitems⟩ := List.forall_mem_cons.mp hi
    rw [itemPieces, List.cons_append, List.append_assoc]
    exact .cons trivial nofun
      (readable_pieces hitem (readable_itemPieces hitems hm) (itemPieces_head items more))

theorem readable_fieldPieces {fields : List (List Char × Json)}
    (hk : ∀ field ∈ fields, Body field.1) (hv : ∀ field ∈ fields, WellFormed field.2)
    {more : List Piece} (hm : Readable more) : Readable (fieldPieces fields ++ more) := by
  match fields with
  | [] => exact .cons trivial nofun hm
  | (key, value) :: fields =>
    obtain ⟨hkey, hkeys⟩ := List.forall_mem_cons.mp hk
    obtain ⟨hvalue, hvalues⟩ := List.forall_mem_cons.mp hv
    have hrest := readable_pieces hvalue (readable_fieldPieces hkeys hvalues hm)
      (fieldPieces_head fields more)
    simp only [fieldPieces, List.cons_append, List.append_assoc]
    exact .cons trivial nofun (.cons hkey nofun (.cons trivial nofun hrest))

end

theorem WellFormed.read?_laid {json : Json} (h : WellFormed json) {text : String}
    (hl : Laid json.pieces text.toList) : read? text = some json := by
  have hpieces : Readable json.pieces := List.append_nil json.pieces ▸ readable_pieces h .nil nofun
  rw [read?, hpieces.all?_laid hl, Option.bind_some, assemble?, Reading.foldlM_pieces]

structure Layout.Blank (layout : Layout) : Prop where
  line : ∀ depth, ∀ c ∈ layout.line depth, isSpace c = true
  gap : ∀ c ∈ layout.gap, isSpace c = true

theorem Layout.blank_dense : Layout.dense.Blank := by
  constructor <;> simp [dense]

theorem Layout.blank_indented : Layout.indented.Blank := by
  constructor
  · intro depth c hc
    rcases List.mem_cons.mp hc with rfl | hc
    · rfl
    · rw [List.eq_of_mem_replicate hc]
      rfl
  · intro c hc
    obtain rfl := List.mem_singleton.mp hc
    rfl

section Layout

variable {layout : Layout} (hl : layout.Blank)
include hl

mutual

theorem laid_write (json : Json) (depth : Nat) {more : List Piece} {text : List Char}
    (h : Laid more text) : Laid (json.pieces ++ more) (write layout depth json ++ text) := by
  match json with
  | .null => exact h.cons .null
  | .bool true => exact h.cons (.bool true)
  | .bool false => exact h.cons (.bool false)
  | .number literal => exact h.cons (.number literal)
  | .string body => exact h.cons (.string body)
  | .array [] => exact (h.cons .closeArray).cons .openArray
  | .array (item :: items) =>
    have hitems := laid_writeItems items depth h
    have hitem := (laid_write item (depth + 1) hitems).spaced (hl.line (depth + 1))
    simpa [pieces, write, spelled] using hitem.cons .openArray
  | .object [] => exact (h.cons .closeObject).cons .openObject
  | .object ((key, value) :: fields) =>
    have hfields := laid_writeFields fields depth h
    have hvalue := (laid_write value (depth + 1) hfields).spaced hl.gap
    have hkey := ((hvalue.cons .colon).cons (.string key)).spaced (hl.line (depth + 1))
    simpa [pieces, write, spelled] using hkey.cons .openObject

theorem laid_writeItems (items : List Json) (depth : Nat) {more : List Piece} {text : List Char}
    (h : Laid more text) :
    Laid (itemPieces items ++ more)
      (writeItems layout (depth + 1) items ++ (layout.line depth ++ ']' :: text)) := by
  match items with
  | [] =>
    have hclose := (h.cons .closeArray).spaced (hl.line depth)
    exact hclose
  | item :: items =>
    have hitems := laid_writeItems items depth h
    have hitem := (laid_write item (depth + 1) hitems).spaced (hl.line (depth + 1))
    simpa [itemPieces, writeItems, spelled] using hitem.cons .comma

theorem laid_writeFields (fields : List (List Char × Json)) (depth : Nat) {more : List Piece}
    {text : List Char} (h : Laid more text) :
    Laid (fieldPieces fields ++ more)
      (writeFields layout (depth + 1) fields ++ (layout.line depth ++ '}' :: text)) := by
  match fields with
  | [] =>
    have hclose := (h.cons .closeObject).spaced (hl.line depth)
    exact hclose
  | (key, value) :: fields =>
    have hfields := laid_writeFields fields depth h
    have hvalue := (laid_write value (depth + 1) hfields).spaced hl.gap
    have hkey := ((hvalue.cons .colon).cons (.string key)).spaced (hl.line (depth + 1))
    simpa [fieldPieces, writeFields, spelled] using hkey.cons .comma

end

theorem laid_text (json : Json) (depth : Nat) :
    Laid json.pieces (String.ofList (write layout depth json)).toList := by
  have hdone : Laid [] [] := .done fun _ hc => absurd hc List.not_mem_nil
  simpa using laid_write hl json depth hdone

end Layout

/-- Trees whose leaves are the written forms of numbers and texts. -/
inductive Regular : Json → Prop
  | null : Regular .null
  | bool (value : Bool) : Regular (.bool value)
  | number (n : Nat) : Regular (.number (Text.decimal n))
  | string (text : List Char) : Regular (.string (escape text))
  | array {items : List Json} : (∀ item ∈ items, Regular item) → Regular (.array items)
  | object {fields : List (List Char × Json)} :
      (∀ field ∈ fields, ∃ text, field.1 = escape text) →
      (∀ field ∈ fields, Regular field.2) → Regular (.object fields)

theorem Regular.wellFormed {json : Json} (h : Regular json) : WellFormed json := by
  induction h with
  | null => exact .null
  | bool value => exact .bool value
  | number n => exact .number (numeral_decimal n)
  | string text => exact .string (body_escape text)
  | array _ ih => exact .array ih
  | object hk _ ih =>
    refine .object (fun field hf => ?_) ih
    obtain ⟨text, htext⟩ := hk field hf
    exact htext ▸ body_escape text

theorem Regular.read?_compact {json : Json} (h : Regular json) : read? json.compact = some json :=
  h.wellFormed.read?_laid (laid_text Layout.blank_dense json 0)

theorem Regular.read?_pretty {json : Json} (h : Regular json) : read? json.pretty = some json :=
  h.wellFormed.read?_laid (laid_text Layout.blank_indented json 0)

end DdlCatalog.Json
