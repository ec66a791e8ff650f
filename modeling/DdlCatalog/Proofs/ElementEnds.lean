import DdlCatalog.Proofs.ListSyntax
import Mathlib.Data.Nat.Find

namespace DdlCatalog

namespace Grammar

open TokenReader

def opened (tokens : List Token) : Nat :=
  tokens.countP (·.isSymbol "(")

def closed (tokens : List Token) : Nat :=
  tokens.countP (·.isSymbol ")")

/-- At index `n` a comma or closing parenthesis stands. The tokens before it open as many
parentheses as they close, and no beginning of them closes more than it opens. -/
structure EndsAt (tokens : List Token) (n : Nat) : Prop where
  stop : ∃ token, tokens[n]? = some token ∧
    (token.isSymbol "," = true ∨ token.isSymbol ")" = true)
  even : opened (tokens.take n) = closed (tokens.take n)
  proper : ∀ m ≤ n, closed (tokens.take m) ≤ opened (tokens.take m)

/-- The first index at which an element can end. -/
def FirstEnd (tokens : List Token) (n : Nat) : Prop :=
  EndsAt tokens n ∧ ∀ m < n, ¬EndsAt tokens m

/-- The search for the end of an element is past the first `n` tokens and has counted `depth` open
parentheses: those opened less those closed, and of the latter there were never more. -/
structure Searched (tokens : List Token) (n depth : Nat) : Prop where
  within : n ≤ tokens.length
  proper : ∀ m ≤ n, closed (tokens.take m) ≤ opened (tokens.take m)
  count : closed (tokens.take n) + depth = opened (tokens.take n)
  goesOn : elementLength? 0 tokens = (elementLength? depth (tokens.drop n)).map (· + n)

variable {tokens : List Token} {n depth : Nat} {token : Token}

theorem EndsAt.lt_length (h : EndsAt tokens n) : n < tokens.length := by
  obtain ⟨token, ht, -⟩ := h.stop
  exact (List.getElem?_eq_some_iff.mp ht).1

theorem exists_firstEnd (h : EndsAt tokens n) : ∃ m, FirstEnd tokens m := by
  classical
  have hex : ∃ m, EndsAt tokens m := ⟨n, h⟩
  exact ⟨Nat.find hex, Nat.find_spec hex, fun _ hm => Nat.find_min hex hm⟩

theorem take_succ_of_getElem? (ht : tokens[n]? = some token) :
    tokens.take (n + 1) = tokens.take n ++ [token] := by
  rw [List.take_add_one, ht, Option.toList_some]

theorem searched_zero (tokens : List Token) : Searched tokens 0 0 where
  within := Nat.zero_le _
  proper := by
    intro m hm
    obtain rfl := Nat.le_zero.mp hm
    exact Nat.le_refl _
  count := rfl
  goesOn := by simp

theorem Searched.past {next : Nat} (h : Searched tokens n depth) (ht : tokens[n]? = some token)
    (hcount : closed (tokens.take (n + 1)) + next = opened (tokens.take (n + 1)))
    (hnext : ∀ rest, elementLength? depth (token :: rest) =
      (elementLength? next rest).map (· + 1)) : Searched tokens (n + 1) next where
  within := (List.getElem?_eq_some_iff.mp ht).1
  proper := by
    intro m hm
    rcases Nat.lt_or_eq_of_le hm with hlt | rfl
    · exact h.proper m (Nat.le_of_lt_succ hlt)
    · omega
  count := hcount
  goesOn := by
    obtain ⟨hlt, rfl⟩ := List.getElem?_eq_some_iff.mp ht
    rw [h.goesOn, List.drop_eq_getElem_cons hlt, hnext, Option.map_map]
    congr 1
    funext m
    exact (Nat.add_right_comm m 1 n)

/-- One step: where no element ends, the search passes the token, and a closing parenthesis among
them was opened before. -/
theorem Searched.step (h : Searched tokens n depth) (ht : tokens[n]? = some token)
    (hend : ¬EndsAt tokens n) : ∃ next, Searched tokens (n + 1) next := by
  have hcount := h.count
  have htake := take_succ_of_getElem? ht
  have hopened : opened (tokens.take (n + 1)) =
      opened (tokens.take n) + if token.isSymbol "(" then 1 else 0 := by
    simp [opened, htake, List.countP_append, List.countP_singleton]
  have hclosed : closed (tokens.take (n + 1)) =
      closed (tokens.take n) + if token.isSymbol ")" then 1 else 0 := by
    simp [closed, htake, List.countP_append, List.countP_singleton]
  -- With all parentheses closed a comma or closing parenthesis would end the element.
  have hends : depth = 0 → ¬(token.isSymbol "," = true ∨ token.isSymbol ")" = true) := by
    rintro rfl hstop
    exact hend ⟨⟨token, ht, hstop⟩, by omega, h.proper⟩
  by_cases ho : token.isSymbol "(" = true
  · have hc : token.isSymbol ")" = false := Token.isSymbol_unique ho (by decide)
    refine ⟨depth + 1, h.past ht ?_ fun rest => by simp [elementLength?, ho]⟩
    simp only [hopened, hclosed, ho, hc, if_true, Bool.false_eq_true, if_false]
    omega
  by_cases hc : token.isSymbol ")" = true
  · cases depth with
    | zero => exact absurd (.inr hc) (hends rfl)
    | succ depth =>
      refine ⟨depth, h.past ht ?_ fun rest => by simp [elementLength?, ho, hc]⟩
      simp only [hopened, hclosed, ho, hc, if_true, Bool.false_eq_true, if_false]
      omega
  · have hcomma : ¬(token.isSymbol "," = true ∧ depth = 0) := fun hz => hends hz.2 (.inl hz.1)
    refine ⟨depth, h.past ht ?_ fun rest => by simp [elementLength?, ho, hc, hcomma]⟩
    simp only [hopened, hclosed, ho, hc, Bool.false_eq_true, if_false]
    omega

theorem exists_searched (hn : n ≤ tokens.length) (hends : ∀ m < n, ¬EndsAt tokens m) :
    ∃ depth, Searched tokens n depth := by
  induction n with
  | zero => exact ⟨0, searched_zero tokens⟩
  | succ n ih =>
    obtain ⟨depth, h⟩ := ih (by omega) fun m hm => hends m (by omega)
    exact h.step (List.getElem?_eq_getElem hn) (hends n (by omega))

theorem elementLength?_of_firstEnd (h : FirstEnd tokens n) : elementLength? 0 tokens = some n := by
  obtain ⟨hend, hfirst⟩ := h
  obtain ⟨depth, hs⟩ := exists_searched (Nat.le_of_lt hend.lt_length) hfirst
  obtain rfl : depth = 0 := by
    have hcount := hs.count
    have heven := hend.even
    omega
  obtain ⟨stop, ht, hstop⟩ := hend.stop
  obtain ⟨hlt, rfl⟩ := List.getElem?_eq_some_iff.mp ht
  have hzero := elementLength?_of_balanced .nil hstop (tokens.drop (n + 1))
  rw [List.nil_append] at hzero
  rw [hs.goesOn, List.drop_eq_getElem_cons hlt, hzero]
  simp

theorem elementLength?_eq_none (h : ∀ n, ¬EndsAt tokens n) : elementLength? 0 tokens = none := by
  obtain ⟨depth, hs⟩ := exists_searched (Nat.le_refl tokens.length) fun m _ => h m
  rw [hs.goesOn, List.drop_length]
  rfl

section

variable {cursor : Cursor}

theorem tableConstraint_of_firstEnd (h : FirstEnd (cursor.upTo statementLimit) n) :
    tableConstraint cursor = .ok () (cursor.moved n) := by
  have hlt := h.1.lt_length
  have hle : (cursor.upTo statementLimit).length ≤ cursor.available := List.length_take_le' _ _
  rw [tableConstraint_eq, elementLength?_of_firstEnd h]
  exact if_pos (Cursor.has_iff.mpr (by omega))

theorem tableConstraint_of_no_end (h : ∀ n, ¬FirstEnd (cursor.upTo statementLimit) n) :
    tableConstraint cursor = .error ⟨.unclosed ", or )" statementLimit, [], cursor⟩ cursor := by
  have hnone : ∀ n, ¬EndsAt (cursor.upTo statementLimit) n := fun n hend =>
    (exists_firstEnd hend).elim h
  rw [tableConstraint_eq, elementLength?_eq_none hnone]

theorem FirstEnd.pos {limit : Nat} (h : FirstEnd (cursor.upTo limit) n)
    (hs : cursor.sees opensTableConstraint = true) : 1 ≤ n := by
  obtain ⟨stop, ht, hstop⟩ := h.1.stop
  refine Nat.pos_of_ne_zero ?_
  rintro rfl
  have hlimit : 0 < limit := by
    have hlt := h.1.lt_length
    rw [Cursor.upTo, List.length_take] at hlt
    omega
  rw [Cursor.upTo, List.getElem?_take_of_lt hlimit, ← List.head?_eq_getElem?] at ht
  rw [Cursor.sees, ht, Option.any_some] at hs
  obtain ⟨word, -, hword⟩ := opensTableConstraint_iff.mp hs
  have hk := Token.kind_of_isKeyword hword
  rcases hstop with hstop | hstop <;> simp [Token.kind_of_isSymbol hstop] at hk

end

theorem consumes_element : Consumes element := by
  intro cursor item after h
  obtain ⟨tokens, helement, hrest⟩ := element_sound h
  have hne : tokens ≠ [] := by
    cases helement with
    | constraint => exact List.cons_ne_nil _ _
    | column hd => cases hd; exact List.cons_ne_nil _ _
  have hlength := List.length_pos_iff.mpr hne
  rw [hrest, List.length_append]
  omega

/-- A constraint of the table is passed over up to the first place among the next 256 tokens where
an element can end; without one the cursor stays where it is. At no token that the search comes to
were more parentheses closed than opened. A constraint has a token, as every element has, so that
the loop over the elements always moves on. -/
theorem tableConstraint_firstEnd (cursor : Cursor) :
    (∀ after, tableConstraint cursor = .ok () after ↔
        ∃ n, FirstEnd (cursor.upTo 256) n ∧ after = cursor.moved n) ∧
      ((∀ n, ¬FirstEnd (cursor.upTo 256) n) → ∃ e, tableConstraint cursor = .error e cursor ∧
        e.place = cursor ∧ e.fault = .root (.lookaheadExceeded ", or )" 256 cursor.location)) ∧
      (∀ n ≤ (cursor.upTo 256).length, (∀ m < n, ¬EndsAt (cursor.upTo 256) m) →
        ∃ depth, Searched (cursor.upTo 256) n depth) ∧
      (cursor.sees opensTableConstraint = true →
        ∀ n, FirstEnd (cursor.upTo 256) n → 1 ≤ n) ∧
      ∀ item after, element cursor = .ok item after → after.available < cursor.available := by
  refine ⟨fun after => ⟨fun h => ?_, ?_⟩, fun hnone => ?_, fun n => exists_searched,
    fun hs n h => h.pos hs, fun item after h => consumes_element h⟩
  · by_cases hend : ∃ n, FirstEnd (cursor.upTo 256) n
    · obtain ⟨n, hn⟩ := hend
      cases (tableConstraint_of_firstEnd hn).symm.trans h
      exact ⟨n, hn, rfl⟩
    · cases (tableConstraint_of_no_end (not_exists.mp hend)).symm.trans h
  · rintro ⟨n, hn, rfl⟩
    exact tableConstraint_of_firstEnd hn
  · exact ⟨_, tableConstraint_of_no_end hnone, rfl, rfl⟩

end Grammar

end DdlCatalog
