import DdlCatalog.Proofs.MunchedPlaces
import Mathlib.Data.List.DropRight

namespace DdlCatalog

/-- The longest front of a text that takes so many bytes at most. -/
structure Text.LongestWithin (size : Nat) (front text : List Char) : Prop where
  isPrefix : front <+: text
  fits : byteSize front ≤ size
  longest : ∀ other, other <+: text → byteSize other ≤ size → other <+: front

theorem Text.longestWithin_takeBytes (size : Nat) (text : List Char) :
    LongestWithin size (takeBytes size text) text := by
  refine ⟨⟨_, takeBytes_append_dropBytes size text⟩, byteSize_takeBytes_le size text, ?_⟩
  intro other hp hsize
  fun_induction takeBytes size text generalizing other with
  | case1 => exact hp
  | case2 n c cs hc ih =>
    cases other with
    | nil => exact List.nil_prefix
    | cons d ds =>
      obtain ⟨rfl, hds⟩ := List.cons_prefix_cons.mp hp
      rw [byteSize_cons] at hsize
      exact List.cons_prefix_cons.mpr ⟨rfl, ih ds hds (by omega)⟩
  | case3 n c cs hc =>
    cases other with
    | nil => exact List.nil_prefix
    | cons d ds =>
      obtain ⟨rfl, -⟩ := List.cons_prefix_cons.mp hp
      rw [byteSize_cons] at hsize
      omega

theorem Text.LongestWithin.unique {size : Nat} {front other text : List Char}
    (h : LongestWithin size front text) (ho : LongestWithin size other text) : front = other := by
  have hle := (h.longest other ho.isPrefix ho.fits).length_le
  exact (ho.longest front h.isPrefix h.fits).eq_of_length_le hle

theorem Tiling.append {before text more : List Char} {tokens others : List Token}
    (h : Tiling before text tokens) (ho : Tiling (before ++ text) more others) :
    Tiling before (text ++ more) (tokens ++ others) := by
  induction h with
  | nil => simpa using ho
  | @cons before span rest token tokens hlies _ ih =>
    rw [List.append_assoc]
    exact .cons hlies (ih (by rwa [List.append_assoc]))

/-- The places that maximal munch comes to in a script: `before` has been cut into tokens, and
`rest` stands ahead. -/
inductive Reaches (words : List String) (source : List Char) :
    (before rest : List Char) → List Token → Prop
  | start : Reaches words source [] source []
  | next {before span rest tokens token} : Reaches words source before (span ++ rest) tokens →
      token.Munched words before span rest →
      Reaches words source (before ++ span) rest (tokens ++ [token])

namespace Reaches

variable {words : List String} {source before rest : List Char} {tokens : List Token}

end Reaches

namespace Scanner

variable {words : List String} {scanner : Scanner}

end Scanner

namespace LexicalError

end LexicalError

example : (match tokenizeWith (.ofList []) "1\n?" with
    | .ok _ => none
    | .error e => some e.fault) = some (.root (.unhandledInput 2 "?" 2 ["1", "\n"])) := by
  decide +kernel

end DdlCatalog
