import DdlCatalog.Proofs.JsonLeaves

namespace DdlCatalog.Json

namespace Piece

def spelled : Piece → List Char
  | openArray => ['[']
  | closeArray => [']']
  | openObject => ['{']
  | closeObject => ['}']
  | comma => [',']
  | colon => [':']
  | null => "null".toList
  | bool true => "true".toList
  | bool false => "false".toList
  | number literal => literal
  | string body => writeString body

def Sound : Piece → Prop
  | number literal => Numeral literal
  | string body => Body body
  | _ => True

def isNumber : Piece → Bool
  | number _ => true
  | _ => false

theorem isSpace_iff (c : Char) :
    isSpace c = true ↔ c = ' ' ∨ c = '\n' ∨ c = '\r' ∨ c = '\t' := by
  simp [isSpace, or_assoc]

theorem endsNumber_cons {c : Char} (rest : List Char) (h : c.isDigit = false) (hpoint : c ≠ '.')
    (he : c ≠ 'e') (hE : c ≠ 'E') : EndsNumber (c :: rest) := by
  intro d hd
  obtain rfl : c = d := Option.some.inj hd
  exact ⟨h, hpoint, he, hE⟩

theorem endsNumber_spaces {spaces rest : List Char} (hs : ∀ c ∈ spaces, isSpace c = true)
    (hr : EndsNumber rest) : EndsNumber (spaces ++ rest) := by
  cases spaces with
  | nil => exact hr
  | cons c cs =>
    rcases (isSpace_iff c).mp (hs c List.mem_cons_self) with rfl | rfl | rfl | rfl <;>
      exact endsNumber_cons _ rfl nofun nofun nofun

theorem endsNumber_spelled {piece : Piece} (h : piece.isNumber = false) (rest : List Char) :
    EndsNumber (piece.spelled ++ rest) := by
  cases piece with
  | number => cases h
  | bool value => cases value <;> exact endsNumber_cons _ rfl nofun nofun nofun
  | _ => exact endsNumber_cons _ rfl nofun nofun nofun

theorem numeral_cons {literal : List Char} (h : Numeral literal) :
    ∃ c cs, literal = c :: cs ∧ (c = '-' ∨ c.isDigit = true) := by
  obtain ⟨sign, whole, fraction, exponent, rfl | rfl, hw, -, -, rfl⟩ := h
  · obtain ⟨d, ds, rfl, hd⟩ := whole_cons hw
    exact ⟨d, _, rfl, .inr hd⟩
  · exact ⟨'-', _, rfl, .inl rfl⟩

theorem spelled_cons {piece : Piece} (h : piece.Sound) :
    ∃ c cs, piece.spelled = c :: cs ∧ isSpace c = false := by
  cases piece with
  | number literal =>
    obtain ⟨c, cs, hc, hfirst⟩ := numeral_cons h
    refine ⟨c, cs, hc, Bool.eq_false_iff.mpr fun hs => ?_⟩
    rcases (isSpace_iff c).mp hs with rfl | rfl | rfl | rfl <;> revert hfirst <;> decide
  | bool value => cases value <;> exact ⟨_, _, rfl, rfl⟩
  | _ => exact ⟨_, _, rfl, rfl⟩

theorem first?_spelled {piece : Piece} {rest : List Char} (h : piece.Sound)
    (hr : piece.isNumber = true → EndsNumber rest) :
    first? (piece.spelled ++ rest) = some (piece, rest) := by
  cases piece with
  | number literal =>
    have hnumber := number?_numeral h (hr rfl)
    obtain ⟨c, cs, rfl, hfirst⟩ := numeral_cons h
    rw [spelled]
    rw [List.cons_append] at hnumber ⊢
    unfold first?
    split
    case h_11 => rw [hnumber]; rfl
    all_goals
      next heq =>
        obtain rfl := (List.cons.inj heq).1
        exact absurd hfirst (by decide)
  | string body =>
    have htext : (string body).spelled ++ rest = '"' :: (body ++ '"' :: rest) := by
      simp [spelled, writeString]
    rw [htext, first?, stringBody?_body h, Option.map_some]
  | bool value => cases value <;> rfl
  | _ => rfl

variable {pieces more : List Piece} {spaces text : List Char}

/-- A text that holds the given pieces one behind the other. White space may stand before each of
them and behind the last one. -/
inductive Laid : List Piece → List Char → Prop
  | done {spaces : List Char} : (∀ c ∈ spaces, isSpace c = true) → Laid [] spaces
  | next {spaces : List Char} {piece : Piece} {pieces : List Piece} {text : List Char} :
      (∀ c ∈ spaces, isSpace c = true) → Laid pieces text →
      Laid (piece :: pieces) (spaces ++ (piece.spelled ++ text))

theorem Laid.cons (piece : Piece) (h : Laid pieces text) :
    Laid (piece :: pieces) (piece.spelled ++ text) :=
  .next (fun _ hc => absurd hc List.not_mem_nil) h

theorem Laid.spaced (hs : ∀ c ∈ spaces, isSpace c = true) (h : Laid pieces text) :
    Laid pieces (spaces ++ text) := by
  cases h with
  | done hmore => exact .done fun c hc => (List.mem_append.mp hc).elim (hs c) (hmore c)
  | next hmore h =>
    rw [← List.append_assoc]
    exact .next (fun c hc => (List.mem_append.mp hc).elim (hs c) (hmore c)) h

/-- Pieces that any text keeps apart: each is written as it should be, and no number stands right
before another. -/
inductive Readable : List Piece → Prop
  | nil : Readable []
  | cons {piece : Piece} {pieces : List Piece} : piece.Sound →
      (piece.isNumber = true → ∀ next ∈ pieces.head?, next.isNumber = false) → Readable pieces →
      Readable (piece :: pieces)

theorem Laid.endsNumber (h : Laid pieces text)
    (hf : ∀ piece ∈ pieces.head?, piece.isNumber = false) : EndsNumber text := by
  cases h with
  | done hs => exact List.append_nil text ▸ endsNumber_spaces hs nofun
  | next hs h => exact endsNumber_spaces hs (endsNumber_spelled (hf _ rfl) _)

theorem all?_spaces (hs : ∀ c ∈ spaces, isSpace c = true) : all? (spaces ++ text) = all? text := by
  induction spaces with
  | nil => rfl
  | cons c cs ih =>
    rw [List.cons_append, all?, if_pos (hs c List.mem_cons_self)]
    exact ih fun d hd => hs d (List.mem_cons_of_mem c hd)

theorem all?_spelled {piece : Piece} (h : piece.Sound)
    (hr : piece.isNumber = true → EndsNumber text) :
    all? (piece.spelled ++ text) = (all? text).map (piece :: ·) := by
  have hfirst := first?_spelled h hr
  obtain ⟨c, cs, hc, hspace⟩ := spelled_cons h
  rw [hc, List.cons_append] at hfirst ⊢
  rw [all?, if_neg (by simp [hspace])]
  split
  next hnone => rw [hfirst] at hnone; cases hnone
  next other after hsome => rw [hfirst] at hsome; cases hsome; rfl

/-- The pieces of a text are found again, whatever white space stands between them. -/
theorem Readable.all?_laid (hr : Readable pieces) (h : Laid pieces text) :
    all? text = some pieces := by
  induction h with
  | @done spaces hs =>
    rw [← List.append_nil spaces, all?_spaces hs, all?]
  | next hs h ih =>
    cases hr with
    | cons hsound hapart hrest =>
      rw [all?_spaces hs, all?_spelled hsound fun hn => h.endsNumber (hapart hn), ih hrest,
        Option.map_some]

end Piece

end DdlCatalog.Json
