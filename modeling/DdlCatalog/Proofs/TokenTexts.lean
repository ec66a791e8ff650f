import DdlCatalog.Proofs.SteadyGrammar

namespace DdlCatalog

namespace Token

/-- What stands between the texts of two lists on one line: nothing where one of them is empty,
behind a dot, and before a dot or a comma. -/
def separator (before after : List Token) : String :=
  if before = [] ∨ after = [] ∨ before.getLast?.any (·.isSymbol ".") ∨
    after.head?.any fun first => first.isSymbol "." || first.isSymbol "," then "" else " "

@[simp] theorem separator_nil_left (after : List Token) : separator [] after = "" := by
  simp [separator]

@[simp] theorem separator_nil_right (before : List Token) : separator before [] = "" := by
  simp [separator]

theorem separator_singleton_cons (last first : Token) (rest : List Token) :
    separator [last] (first :: rest) = gap last first := by
  simp [separator, gap, or_assoc]

theorem separator_cons_cons (first second : Token) (rest after : List Token) :
    separator (first :: second :: rest) after = separator (second :: rest) after := by
  simp [separator]

theorem render_cons (first : Token) (rest : List Token) :
    render (first :: rest) = first.text ++ separator [first] rest ++ render rest := by
  cases rest with
  | nil => simp [render]
  | cons second rest => rw [separator_singleton_cons]; rfl

theorem render_append (before after : List Token) :
    render (before ++ after) = render before ++ separator before after ++ render after := by
  induction before with
  | nil => simp [render]
  | cons first before ih =>
    cases before with
    | nil => exact render_cons first after
    | cons second before =>
      -- The gap behind the first token looks at the second one, which the cut leaves in place.
      have hgap : separator [first] (second :: before ++ after) =
          separator [first] (second :: before) := by
        rw [List.cons_append, separator_singleton_cons, separator_singleton_cons]
      rw [List.cons_append, render_cons first, ih, hgap, render_cons first (second :: before),
        separator_cons_cons]
      simp only [String.append_assoc]

/-- The texts of two lists on one line, and of a single token: a keyword shows its small letters as
capitals, all else is its content. -/
theorem render_parts (before after : List Token) :
    render (before ++ after) = render before ++ separator before after ++ render after ∧
      (∀ token, render [token] =
        if token.kind = .keyword then Text.upper token.content else token.content) ∧
      ∀ text, (Text.upper text).toList = text.toList.map fun c =>
        if 'a' ≤ c ∧ c ≤ 'z' then Char.ofNat (c.toNat - 32) else c := by
  refine ⟨render_append before after, fun token => rfl, fun text => ?_⟩
  rw [Text.toList_upper]
  exact List.map_congr_left fun c _ => Text.toUpper_eq c

/-- A quoted dot is no dot. -/
example : render [bare .keyword "select", bare .symbol ",", bare .string "S", bare .symbol ".",
    bare .string ".", bare .string "T"] = "SELECT, S.. T" := by decide

end Token

namespace Grammar

open TokenReader

variable {cursor : Cursor}

theorem defaultValue_of_string {first : Token} {rest : List Token}
    (hr : cursor.rest = first :: rest) (hk : first.kind = .string) {run : Nat}
    (hrun : Token.touchingStrings (cursor.upTo statementLimit) = run) :
    1 ≤ run ∧
      defaultValue cursor = .ok (Token.joined (cursor.upTo run) "'") (cursor.moved run) := by
  have hle : run ≤ (cursor.upTo statementLimit).length := hrun ▸ Token.touchingStrings_le _
  have hlimit : (cursor.upTo statementLimit).length ≤ statementLimit := List.length_take_le _ _
  have hwindow : (cursor.upTo statementLimit).take run = cursor.upTo run := by
    rw [Cursor.upTo, List.take_take, Nat.min_eq_left (by omega), Cursor.upTo]
  have hpos : 1 ≤ run := by
    rw [← hrun, Cursor.upTo, hr]
    exact Token.touchingStrings_cons_pos_iff.mpr hk
  have hliteral := (Token.literal?_take_eq_some_iff hle).mpr ⟨⟨hpos, hrun.ge⟩, rfl⟩
  rw [hwindow] at hliteral
  refine ⟨hpos, ?_⟩
  have hkind : hasKind .string cursor = .ok true cursor := by
    rw [hasKind, bind_of_ok (show peek cursor = .ok first cursor by rw [peek, hr]), hk]
    rfl
  rw [defaultValue, bind_of_ok hkind, if_pos rfl, quotedDefault_eq hrun, hliteral]

theorem defaultValue_eq_error {e : ParseError} {after : Cursor}
    (h : defaultValue cursor = .error e after) :
    e.obstacle = .endOfTokens 1 ∨ e.obstacle = .unexpected .defaultValue := by
  obtain ⟨index, _ | ⟨first, rest⟩⟩ := cursor
  · cases h
    exact .inl rfl
  · by_cases hk : first.kind = .string
    · rw [(defaultValue_of_string rfl hk rfl).2] at h
      cases h
    · have hkind : hasKind .string ⟨index, first :: rest⟩ =
          .ok (first.kind == .string) ⟨index, first :: rest⟩ := rfl
      have hkinds : hasKindIn [.string, .int, .float, .keyword] ⟨index, first :: rest⟩ =
          .ok ([.string, .int, .float, .keyword].contains first.kind) ⟨index, first :: rest⟩ := rfl
      rw [defaultValue, bind_of_ok hkind, if_neg (by simpa using hk), bind_of_ok hkinds] at h
      split at h <;> cases h
      exact .inr rfl

end Grammar

/-- Tokens at the front of a list are a literal exactly when they are counted as touching strings.
So a string ahead always begins a default value, and the report of a string that is none never
comes. -/
theorem Token.literal?_front (tokens : List Token) :
    (∀ n ≤ tokens.length, ∀ text, literal? (tokens.take n) = some text ↔
        (1 ≤ n ∧ n ≤ touchingStrings tokens) ∧ joined (tokens.take n) "'" = text) ∧
      ∀ index,
        (∀ first ∈ tokens.head?, first.kind = .string →
          ∃ n, n = touchingStrings (tokens.take 256) ∧ 1 ≤ n ∧
            Grammar.defaultValue ⟨index, tokens⟩ =
              .ok (joined (tokens.take n) "'") ⟨index + n, tokens.drop n⟩) ∧
        ∀ e after, Grammar.defaultValue ⟨index, tokens⟩ = .error e after →
          ∀ place, e.fault.rootCause ≠ .unexpectedToken "string default value" place := by
  refine ⟨fun n hn text => literal?_take_eq_some_iff hn,
    fun index => ⟨?_, fun e after he place => ?_⟩⟩
  · intro first hfirst hk
    obtain ⟨rest, rfl⟩ := List.head?_eq_some_iff.mp hfirst
    exact ⟨_, rfl, Grammar.defaultValue_of_string rfl hk rfl⟩
  · rw [ParseError.rootCause_fault]
    rcases Grammar.defaultValue_eq_error he with ho | ho <;> rw [ho, Obstacle.cause]
    · simp
    · simp [Expectation.message]

end DdlCatalog
