import DdlCatalog.Proofs.ColumnSyntax

namespace DdlCatalog

namespace Grammar

open TokenReader Syntax

theorem elementLength?_sound {depth n : Nat} {tokens : List Token}
    (h : elementLength? depth tokens = some n) :
    ∃ front stop back, tokens = front ++ stop :: back ∧ front.length = n ∧ Balanced depth front ∧
      (stop.isSymbol "," = true ∨ stop.isSymbol ")" = true) := by
  fun_induction elementLength? depth tokens generalizing n with
  | case1 => cases h
  | case2 depth token rest ho ih =>
    obtain ⟨m, hm, rfl⟩ := Option.map_eq_some_iff.mp h
    obtain ⟨front, stop, back, rfl, rfl, hb, hs⟩ := ih hm
    exact ⟨token :: front, stop, back, rfl, rfl, .opening ho hb, hs⟩
  | case3 token rest ho hc =>
    cases h
    exact ⟨[], token, rest, rfl, rfl, .nil, .inr hc⟩
  | case4 token rest ho hc depth ih =>
    obtain ⟨m, hm, rfl⟩ := Option.map_eq_some_iff.mp h
    obtain ⟨front, stop, back, rfl, rfl, hb, hs⟩ := ih hm
    exact ⟨token :: front, stop, back, rfl, rfl, .closing hc hb, hs⟩
  | case5 depth token rest ho hc hcomma =>
    cases h
    obtain ⟨hcomma, rfl⟩ := hcomma
    exact ⟨[], token, rest, rfl, rfl, .nil, .inl hcomma⟩
  | case6 depth token rest ho hc hcomma ih =>
    obtain ⟨m, hm, rfl⟩ := Option.map_eq_some_iff.mp h
    obtain ⟨front, stop, back, rfl, rfl, hb, hs⟩ := ih hm
    have hdepth : token.isSymbol "," = true → 0 < depth := fun ht =>
      Nat.pos_of_ne_zero fun hz => hcomma ⟨ht, hz⟩
    exact ⟨token :: front, stop, back, rfl, rfl, .other ho hc hdepth hb, hs⟩

theorem elementLength?_of_balanced {depth : Nat} {front : List Token} (h : Balanced depth front)
    {stop : Token} (hs : stop.isSymbol "," = true ∨ stop.isSymbol ")" = true)
    (back : List Token) : elementLength? depth (front ++ stop :: back) = some front.length := by
  induction h with
  | nil =>
    rcases hs with hs | hs
    · have ho : stop.isSymbol "(" = false := Token.isSymbol_unique hs (by decide)
      have hc : stop.isSymbol ")" = false := Token.isSymbol_unique hs (by decide)
      simp [elementLength?, ho, hc, hs]
    · have ho : stop.isSymbol "(" = false := Token.isSymbol_unique hs (by decide)
      simp [elementLength?, ho, hs]
  | opening ho _ ih => simp [elementLength?, ho, ih]
  | @closing depth token rest hc _ ih =>
    have ho : token.isSymbol "(" = false := Token.isSymbol_unique hc (by decide)
    simp [elementLength?, ho, hc, ih]
  | @other depth token rest ho hc hcomma _ ih =>
    have hn : ¬(token.isSymbol "," = true ∧ depth = 0) := by
      rintro ⟨ht, hz⟩
      have hpos := hcomma ht
      omega
    rw [Bool.not_eq_true] at ho hc
    simp [elementLength?, ho, hc, hn, ih]

theorem elementLength?_append {depth n : Nat} {tokens : List Token}
    (h : elementLength? depth tokens = some n) (more : List Token) :
    elementLength? depth (tokens ++ more) = some n := by
  obtain ⟨front, stop, back, rfl, rfl, hb, hs⟩ := elementLength?_sound h
  rw [List.append_assoc, List.cons_append]
  exact elementLength?_of_balanced hb hs (back ++ more)

theorem tableConstraint_eq (cursor : Cursor) :
    tableConstraint cursor = match elementLength? 0 (cursor.upTo statementLimit) with
      | some n => skip n cursor
      | none => .error ⟨.unclosed ", or )" statementLimit, [], cursor⟩ cursor := by
  change (match elementLength? 0 (cursor.upTo statementLimit) with
    | some n => skip n
    | none => fail (.unclosed ", or )" statementLimit) : TokenReader Unit) cursor = _
  cases elementLength? 0 (cursor.upTo statementLimit) <;> rfl

theorem opensTableConstraint_iff {token : Token} : opensTableConstraint token = true ↔
    ∃ word ∈ tableConstraintWords, token.isKeyword word = true :=
  List.any_eq_true

theorem tableConstraint_sound {cursor after : Cursor} {u : Unit}
    (h : tableConstraint cursor = .ok u after)
    (hs : cursor.sees opensTableConstraint = true) :
    ∃ tokens, Element tokens none ∧ cursor.rest = tokens ++ after.rest := by
  rw [tableConstraint_eq] at h
  cases hn : elementLength? 0 (cursor.upTo statementLimit) with
  | none => simp only [hn] at h; cases h
  | some n =>
    simp only [hn] at h
    obtain ⟨rfl, -⟩ := skip_eq_ok h
    obtain ⟨front, stop, back, hw, rfl, hb, hstop⟩ := elementLength?_sound hn
    have hlen : (cursor.upTo statementLimit).length ≤ 256 := List.length_take_le _ _
    rw [hw, List.length_append, List.length_cons] at hlen
    obtain ⟨more, hmore⟩ : ∃ more, cursor.rest = front ++ stop :: more := by
      have hrest := List.take_append_drop statementLimit cursor.rest
      rw [show cursor.rest.take statementLimit = front ++ stop :: back from hw] at hrest
      exact ⟨back ++ cursor.rest.drop statementLimit, hrest.symm.trans (by simp)⟩
    refine ⟨front, ?_, by simp [Cursor.moved, hmore]⟩
    cases front with
    | nil =>
      have ho : opensTableConstraint stop = true := by simpa [Cursor.sees, hmore] using hs
      obtain ⟨word, -, hword⟩ := opensTableConstraint_iff.mp ho
      have hk := Token.kind_of_isKeyword hword
      rcases hstop with hstop | hstop
      · simp [Token.kind_of_isSymbol hstop] at hk
      · simp [Token.kind_of_isSymbol hstop] at hk
    | cons first others =>
      have ho : opensTableConstraint first = true := by simpa [Cursor.sees, hmore] using hs
      obtain ⟨word, hm, hword⟩ := opensTableConstraint_iff.mp ho
      exact .constraint hm hword (by omega) hb

theorem element_sound {cursor after : Cursor} {item : Option Column}
    (h : element cursor = .ok item after) :
    ∃ tokens, Element tokens item ∧ cursor.rest = tokens ++ after.rest := by
  obtain ⟨seen, middle, hs, h⟩ := bind_eq_ok h
  cases hs
  split at h
  next ho =>
    obtain ⟨_, last, hc, h⟩ := bind_eq_ok h
    cases h
    exact tableConstraint_sound (during_eq_ok hc) ho
  next =>
    obtain ⟨definition, hc, rfl⟩ := map_eq_ok h
    obtain ⟨tokens, hd, hr⟩ := column_sound (during_eq_ok hc)
    exact ⟨tokens, .column hd, hr⟩

theorem reads_tableConstraint {tokens rest : List Token} (hlen : tokens.length ≤ 255)
    (hb : Balanced 0 tokens) (hr : HeadIn [",", ")"] [] rest) :
    Reads tableConstraint (tokens ++ rest) () rest := by
  obtain ⟨stop, back, rfl, ⟨text, hm, ht⟩ | ⟨_, hm, _⟩⟩ := hr
  · have hstop : stop.isSymbol "," = true ∨ stop.isSymbol ")" = true := by
      simp only [List.mem_cons, List.not_mem_nil, or_false] at hm
      rcases hm with rfl | rfl
      · exact .inl ht
      · exact .inr ht
    obtain ⟨n, hn⟩ : ∃ n, statementLimit = tokens.length + (n + 1) :=
      ⟨statementLimit - tokens.length - 1, by unfold statementLimit; omega⟩
    have hw : (tokens ++ stop :: back).take statementLimit = tokens ++ stop :: back.take n := by
      rw [hn, List.take_length_add_append, List.take_succ_cons]
    refine (reads_lookahead statementLimit _).bind ?_
    rw [hw, elementLength?_of_balanced hb hstop]
    exact reads_skip rfl _
  · cases hm

theorem reads_element {tokens rest : List Token} {item : Option Column} (h : Element tokens item)
    (hr : HeadIn [",", ")"] [] rest) : Reads element (tokens ++ rest) item rest := by
  cases h with
  | @constraint first others word hm hword hlen hb =>
    refine (reads_sees _ _).bind ?_
    rw [if_pos (by simpa using opensTableConstraint_iff.mpr ⟨word, hm, hword⟩)]
    exact ((reads_tableConstraint hlen hb hr).during _).bind (reads_pure none rest)
  | @column _ definition hd =>
    have hs : (tokens ++ rest).head?.any opensTableConstraint = false := by
      cases hd with
      | @mk name _ _ _ _ _ _ hk _ _ _ =>
        rw [List.cons_append, List.head?_cons, Option.any_some, Bool.eq_false_iff]
        intro ho
        obtain ⟨word, -, hword⟩ := opensTableConstraint_iff.mp ho
        simp [Token.kind_of_isKeyword hword] at hk
    refine (reads_sees _ _).bind ?_
    rw [hs, if_neg (by simp)]
    exact ((reads_column hd hr).during _).map some

theorem nextElement_sound {cursor after : Cursor} {item : Option Column}
    (h : nextElement cursor = .ok item after) (hs : cursor.sees (·.is .symbol ",") = true) :
    ∃ tokens, NextElement tokens item ∧ cursor.rest = tokens ++ after.rest := by
  obtain ⟨_, middle, hskip, h⟩ := bind_eq_ok h
  obtain ⟨comma, hr⟩ := skip_one_eq_ok hskip
  obtain ⟨tokens, he, hr1⟩ := element_sound h
  have hcomma : comma.is .symbol "," = true := by simpa [Cursor.sees, hr] using hs
  exact ⟨comma :: tokens, .mk ((Token.is_symbol_iff (by decide)).mp hcomma) he, by simp [hr, hr1]⟩

theorem findsPieces_nextElement :
    FindsPieces (·.is .symbol ",") nextElement NextElement (HeadIn [",", ")"] []) where
  opens := by
    intro tokens item h
    cases h with
    | mk hcomma _ => exact (Token.is_symbol_iff (by decide)).mpr hcomma
  reads := by
    intro tokens item rest h hr
    cases h with
    | @mk comma others _ _ he => exact (reads_skip_one comma _).bind (reads_element he hr)
  follows := by
    intro tokens item h rest
    cases h with
    | mk hcomma _ => exact ⟨_, _, rfl, .inl ⟨",", by simp, hcomma⟩⟩

theorem others_headIn {others rest : List Token} {items : List (Option Column)}
    (h : Many NextElement others items) (hr : HeadIn [",", ")"] [] rest) :
    HeadIn [",", ")"] [] (others ++ rest) := by
  cases h with
  | nil => exact hr
  | cons hnext _ =>
    rw [List.append_assoc]
    exact findsPieces_nextElement.follows hnext _

theorem columnList_sound {cursor after : Cursor} {columns : List Column}
    (h : columnList cursor = .ok columns after) :
    ∃ tokens, ColumnList tokens columns ∧ cursor.rest = tokens ++ after.rest := by
  obtain ⟨_, second, ho, h⟩ := bind_eq_ok h
  obtain ⟨item, third, hf, h⟩ := bind_eq_ok h
  obtain ⟨items, fourth, hm, h⟩ := bind_eq_ok h
  obtain ⟨_, fifth, hc, h⟩ := bind_eq_ok h
  obtain ⟨opening, hopening, hr⟩ := expect_eq_ok ho
  obtain ⟨first, hfirst, hr1⟩ := element_sound hf
  obtain ⟨⟨others, hothers, hr2⟩, -⟩ :=
    manyWhile_sound (fun _ _ _ hn hs => nextElement_sound hn hs) hm
  obtain ⟨closing, hclosing, hr3⟩ := expect_eq_ok hc
  cases h
  refine ⟨opening :: (first ++ (others ++ [closing])), ?_, by simp [hr, hr1, hr2, hr3]⟩
  exact .mk ((Token.is_symbol_iff (by decide)).mp hopening) hfirst hothers
    ((Token.is_symbol_iff (by decide)).mp hclosing)

theorem reads_columnList {tokens : List Token} {columns : List Column}
    (h : ColumnList tokens columns) (rest : List Token) :
    Reads columnList (tokens ++ rest) columns rest := by
  cases h with
  | @mk opening first others closing item items ho hfirst hothers hc =>
    have hclose : HeadIn [",", ")"] [] (closing :: rest) := ⟨_, _, rfl, .inl ⟨")", by simp, hc⟩⟩
    have hnext := others_headIn hothers hclose
    have hstop : (closing :: rest).head?.any (·.is .symbol ",") = false := by
      have hn : closing.isSymbol "," = false := Token.isSymbol_unique hc (by decide)
      rw [List.head?_cons, Option.any_some, Bool.eq_false_iff]
      intro ht
      simp [(Token.is_symbol_iff (by decide)).mp ht] at hn
    rw [List.cons_append, List.append_assoc, List.append_assoc, List.singleton_append]
    refine (reads_expect ((Token.is_symbol_iff (by decide)).mpr ho) _).bind ?_
    refine (reads_element hfirst hnext).bind ?_
    refine (reads_manyWhile findsPieces_nextElement hothers hclose hstop).bind ?_
    exact (reads_expect ((Token.is_symbol_iff (by decide)).mpr hc) rest).bind (reads_pure _ rest)

end Grammar

end DdlCatalog
