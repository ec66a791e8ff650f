import DdlCatalog.Proofs.ReaderOutcome
import DdlCatalog.Proofs.Syntax

namespace DdlCatalog

theorem Syntax.Many.append {α : Type} {Piece : List Token → α → Prop} {front back : List Token}
    {as bs : List α} (h : Many Piece front as) (h' : Many Piece back bs) :
    Many Piece (front ++ back) (as ++ bs) := by
  induction h with
  | nil => exact h'
  | cons hp _ ih => rw [List.append_assoc, List.cons_append]; exact .cons hp ih

namespace TokenReader

open Syntax

variable {α : Type} {test : Token → Bool} {read : TokenReader α} {consumes : Consumes read}
  {Piece : List Token → α → Prop}

theorem manyWhile_sound {cursor after : Cursor} {items : List α}
    (hs : ∀ ⦃cursor a after⦄, read cursor = .ok a after → cursor.sees test = true →
      ∃ tokens, Piece tokens a ∧ cursor.rest = tokens ++ after.rest)
    (h : manyWhile test read consumes cursor = .ok items after) :
    (∃ tokens, Many Piece tokens items ∧ cursor.rest = tokens ++ after.rest) ∧
      after.sees test = false := by
  fun_induction manyWhile test read consumes cursor generalizing items after with
  | case1 => cases h
  | case2 => cases h
  | case3 cursor hc a middle hr others final hm ih =>
    cases h
    obtain ⟨⟨back, hback, hrest⟩, hend⟩ := ih hm
    obtain ⟨front, hfront, hr⟩ := hs hr hc
    exact ⟨⟨front ++ back, .cons hfront hback, by simp [hr, hrest]⟩, hend⟩
  | case4 cursor hc =>
    cases h
    exact ⟨⟨[], .nil, rfl⟩, by simpa using hc⟩

/-- A reader finds each piece of a sequence, since the test tells where one begins and nothing
that can follow it, another piece included, makes it longer. -/
structure FindsPieces (test : Token → Bool) (read : TokenReader α)
    (Piece : List Token → α → Prop) (Follow : List Token → Prop) : Prop where
  opens : ∀ ⦃tokens a⦄, Piece tokens a → tokens.head?.any test = true
  reads : ∀ ⦃tokens a rest⦄, Piece tokens a → Follow rest → Reads read (tokens ++ rest) a rest
  follows : ∀ ⦃tokens a⦄, Piece tokens a → ∀ rest, Follow (tokens ++ rest)

/-- Pieces at the front are read one by one, whatever becomes of the rest. -/
theorem manyWhile_append {Follow : List Token → Prop} {tokens rest : List Token} {items : List α}
    (finds : FindsPieces test read Piece Follow) (h : Many Piece tokens items) (hf : Follow rest)
    (index : Nat) :
    ∃ reached, manyWhile test read consumes ⟨index, tokens ++ rest⟩ =
      ((items ++ ·) <$> manyWhile test read consumes : TokenReader (List α)) ⟨reached, rest⟩ := by
  induction h generalizing index with
  | nil =>
    refine ⟨index, ?_⟩
    rw [List.nil_append]
    cases hrest : manyWhile test read consumes ⟨index, rest⟩ with
    | ok others after => exact (map_of_ok hrest ([] ++ ·)).symm
    | error e after => exact (map_of_error hrest _).symm
  | @cons front back a others hfront hback ih =>
    have hfollow : Follow (back ++ rest) := by
      cases hback with
      | nil => exact hf
      | cons hnext _ => rw [List.append_assoc]; exact finds.follows hnext _
    obtain ⟨between, hread⟩ := finds.reads hfront hfollow index
    obtain ⟨reached, hmany⟩ := ih between
    refine ⟨reached, ?_⟩
    have hsees : Cursor.sees ⟨index, front ++ (back ++ rest)⟩ test = true := by
      have hh := finds.opens hfront
      cases front with
      | nil => simp at hh
      | cons token _ => simpa [Cursor.sees] using hh
    rw [List.append_assoc, manyWhile_of_read hsees hread]
    cases hrest : manyWhile test read consumes ⟨reached, rest⟩ with
    | ok others after =>
      rw [map_of_ok hrest] at hmany
      rw [map_of_ok hmany, map_of_ok hrest]
      rfl
    | error e after =>
      rw [map_of_error hrest] at hmany
      rw [map_of_error hmany, map_of_error hrest]

theorem reads_manyWhile {Follow : List Token → Prop} {tokens rest : List Token} {items : List α}
    (finds : FindsPieces test read Piece Follow) (h : Many Piece tokens items) (hf : Follow rest)
    (hn : rest.head?.any test = false) :
    Reads (manyWhile test read consumes) (tokens ++ rest) items rest := by
  intro index
  obtain ⟨reached, hmany⟩ := manyWhile_append finds h hf index
  have hend : Cursor.sees ⟨reached, rest⟩ test = false := hn
  refine ⟨reached, ?_⟩
  rw [hmany, map_of_ok (manyWhile_of_not_sees hend), List.append_nil]

end TokenReader

end DdlCatalog
