import DdlCatalog.Proofs.LetterCase
import DdlCatalog.Proofs.Segments
import DdlCatalog.TokenReader

namespace DdlCatalog

namespace TokenReader

variable {α β : Type}

theorem bind_of_ok {read : TokenReader α} {cursor middle : Cursor} {a : α}
    (h : read cursor = .ok a middle) (follow : α → TokenReader β) :
    (read >>= follow) cursor = follow a middle := by
  change EStateM.bind read follow cursor = _
  rw [EStateM.bind, h]

theorem bind_of_error {read : TokenReader α} {cursor after : Cursor} {e : ParseError}
    (h : read cursor = .error e after) (follow : α → TokenReader β) :
    (read >>= follow) cursor = .error e after := by
  change EStateM.bind read follow cursor = _
  rw [EStateM.bind, h]

theorem bind_eq_error {read : TokenReader α} {follow : α → TokenReader β} {cursor after : Cursor}
    {e : ParseError} (h : (read >>= follow) cursor = .error e after) :
    read cursor = .error e after ∨
      ∃ a middle, read cursor = .ok a middle ∧ follow a middle = .error e after := by
  cases hr : read cursor with
  | error first place =>
    rw [bind_of_error hr] at h
    cases h
    exact .inl rfl
  | ok a middle => exact .inr ⟨a, middle, rfl, (bind_of_ok hr follow).symm.trans h⟩

theorem map_of_ok {read : TokenReader α} {cursor after : Cursor} {a : α}
    (h : read cursor = .ok a after) (f : α → β) : (f <$> read) cursor = .ok (f a) after :=
  bind_of_ok h fun a => pure (f a)

theorem map_of_error {read : TokenReader α} {cursor after : Cursor} {e : ParseError}
    (h : read cursor = .error e after) (f : α → β) : (f <$> read) cursor = .error e after :=
  bind_of_error h fun a => pure (f a)

theorem map_eq_ok {read : TokenReader α} {f : α → β} {cursor after : Cursor} {b : β}
    (h : (f <$> read) cursor = .ok b after) : ∃ a, read cursor = .ok a after ∧ f a = b := by
  change (read >>= fun a => pure (f a)) cursor = .ok b after at h
  obtain ⟨a, middle, hr, h⟩ := bind_eq_ok h
  cases h
  exact ⟨a, hr, rfl⟩

theorem peek_eq_ok {cursor after : Cursor} {token : Token} (h : peek cursor = .ok token after) :
    cursor = after ∧ ∃ rest, cursor.rest = token :: rest := by
  unfold peek at h
  split at h
  next => cases h
  next first rest hr => cases h; exact ⟨rfl, rest, hr⟩

theorem skip_eq_ok {n : Nat} {cursor after : Cursor} {u : Unit}
    (h : skip n cursor = .ok u after) :
    cursor.moved n = after ∧ n ≤ cursor.rest.length := by
  unfold skip at h
  split at h
  next hn => cases h; exact ⟨rfl, Cursor.has_iff.mp hn⟩
  next => cases h

theorem skip_one_eq_ok {cursor after : Cursor} {u : Unit} (h : skip 1 cursor = .ok u after) :
    ∃ token, cursor.rest = token :: after.rest := by
  obtain ⟨rfl, hlen⟩ := skip_eq_ok h
  cases hr : cursor.rest with
  | nil => simp [hr] at hlen
  | cons token rest => exact ⟨token, by simp [Cursor.moved, hr]⟩

theorem next_eq_ok {cursor after : Cursor} {token : Token} (h : next cursor = .ok token after) :
    cursor.rest = token :: after.rest := by
  obtain ⟨first, middle, hp, h⟩ := bind_eq_ok h
  obtain ⟨rfl, rest, hr⟩ := peek_eq_ok hp
  obtain ⟨_, last, hs, h⟩ := bind_eq_ok h
  obtain ⟨rfl, _⟩ := skip_eq_ok hs
  cases h
  simp [Cursor.moved, hr]

theorem hasKind_eq_ok {kind : Token.Kind} {cursor after : Cursor} {b : Bool}
    (h : hasKind kind cursor = .ok b after) :
    cursor = after ∧ ∃ token rest, cursor.rest = token :: rest ∧ (token.kind == kind) = b := by
  obtain ⟨token, middle, hp, h⟩ := bind_eq_ok h
  obtain ⟨rfl, rest, hr⟩ := peek_eq_ok hp
  cases h
  exact ⟨rfl, token, rest, hr, rfl⟩

theorem take_eq_ok {kind : Token.Kind} {expected : Expectation} {cursor after : Cursor}
    {token : Token} (h : take kind expected cursor = .ok token after) :
    token.kind = kind ∧ cursor.rest = token :: after.rest := by
  obtain ⟨b, middle, hk, h⟩ := bind_eq_ok h
  obtain ⟨rfl, first, rest, hr, rfl⟩ := hasKind_eq_ok hk
  split at h
  next hb =>
    have hn := next_eq_ok h
    have hf : first = token := by simpa [hr] using congrArg List.head? hn
    exact ⟨by simpa [hf] using hb, hn⟩
  next => cases h

theorem peekMany_eq_ok {n : Nat} {cursor after : Cursor} {tokens : List Token}
    (h : peekMany n cursor = .ok tokens after) :
    cursor = after ∧ tokens = cursor.rest.take n := by
  unfold peekMany at h
  split at h
  next => cases h; exact ⟨rfl, rfl⟩
  next => cases h

theorem hasKindIn_eq_ok {kinds : List Token.Kind} {cursor after : Cursor} {b : Bool}
    (h : hasKindIn kinds cursor = .ok b after) :
    cursor = after ∧ ∃ token rest, cursor.rest = token :: rest ∧ kinds.contains token.kind = b := by
  obtain ⟨token, middle, hp, h⟩ := bind_eq_ok h
  obtain ⟨rfl, rest, hr⟩ := peek_eq_ok hp
  cases h
  exact ⟨rfl, token, rest, hr, rfl⟩

theorem hasText_eq_ok {kind : Token.Kind} {text : String} {cursor after : Cursor} {b : Bool}
    (h : hasText kind text true cursor = .ok b after) :
    cursor = after ∧ ∃ token rest, cursor.rest = token :: rest ∧ token.is kind text = b := by
  obtain ⟨token, middle, hp, h⟩ := bind_eq_ok h
  obtain ⟨rfl, rest, hr⟩ := peek_eq_ok hp
  cases h
  exact ⟨rfl, token, rest, hr, rfl⟩

theorem expect_eq_ok {kind : Token.Kind} {text : String} {cursor after : Cursor}
    {u : Unit} (h : expect kind text cursor = .ok u after) :
    ∃ token, token.is kind text = true ∧ cursor.rest = token :: after.rest := by
  obtain ⟨b, middle, ht, h⟩ := bind_eq_ok h
  obtain ⟨rfl, token, rest, hr, rfl⟩ := hasText_eq_ok ht
  split at h
  next hb =>
    obtain ⟨rfl, _⟩ := skip_eq_ok h
    exact ⟨token, hb, by simp [Cursor.moved, hr]⟩
  next => cases h

theorem ignoreIf_eq_ok {test : Token → Bool} {cursor after : Cursor} {b : Bool}
    (h : ignoreIf test cursor = .ok b after) :
    (b = true ∧ ∃ token, test token = true ∧ cursor.rest = token :: after.rest) ∨
      (b = false ∧ cursor = after) := by
  obtain ⟨seen, middle, hs, h⟩ := bind_eq_ok h
  cases hs
  split at h
  next hb =>
    obtain ⟨_, last, hs, h⟩ := bind_eq_ok h
    obtain ⟨token, hr⟩ := skip_one_eq_ok hs
    cases h
    exact .inl ⟨rfl, token, by simpa [Cursor.sees, hr] using hb, hr⟩
  next hb => cases h; exact .inr ⟨rfl, rfl⟩

theorem tokensBefore_eq_ok {kind : Token.Kind} {text : String} {limit : Nat}
    {cursor after : Cursor} {tokens : List Token}
    (h : tokensBefore kind text limit cursor = .ok tokens after) :
    cursor = after ∧ tokens.length < limit ∧ (∀ token ∈ tokens, token.is kind text = false) ∧
      ∃ stop back, stop.is kind text = true ∧ cursor.rest = tokens ++ stop :: back := by
  obtain ⟨window, middle, hw, h⟩ := bind_eq_ok h
  cases hw
  cases hn : (cursor.upTo limit).findIdx? (·.is kind text) with
  | none => simp only [hn] at h; cases h
  | some n =>
    simp only [hn] at h
    cases h
    obtain ⟨front, stop, back, hr, rfl, hf, hs⟩ := findIdx?_eq_some_iff_split.mp hn
    have hlen := congrArg List.length hr
    simp only [Cursor.upTo, List.length_take, List.length_append, List.length_cons] at hlen
    have hall := List.take_append_drop limit cursor.rest
    rw [show cursor.rest.take limit = front ++ stop :: back from hr] at hall
    rw [hr, List.take_left]
    exact ⟨rfl, by omega, hf, stop, back ++ cursor.rest.drop limit, hs, hall.symm.trans (by simp)⟩

section

variable {test : Token → Bool} {read : TokenReader α} {consumes : Consumes read}

theorem manyWhile_of_read {cursor middle : Cursor} {a : α} (ht : cursor.sees test = true)
    (hr : read cursor = .ok a middle) :
    manyWhile test read consumes cursor =
      ((a :: ·) <$> manyWhile test read consumes : TokenReader (List α)) middle := by
  rw [manyWhile, if_pos ht]
  split
  next e after he => rw [hr] at he; cases he
  next b after he =>
    rw [hr] at he
    cases he
    split
    next e final hm => exact (map_of_error hm _).symm
    next others final hm => exact (map_of_ok hm _).symm

theorem manyWhile_of_not_sees {cursor : Cursor} (ht : cursor.sees test = false) :
    manyWhile test read consumes cursor = .ok [] cursor := by
  rw [manyWhile, if_neg (by simp [ht])]

theorem manyWhile_of_error {cursor after : Cursor} {e : ParseError} (ht : cursor.sees test = true)
    (hr : read cursor = .error e after) :
    manyWhile test read consumes cursor = .error e after := by
  rw [manyWhile, if_pos ht]
  split
  next e' place he =>
    rw [hr] at he
    cases he
    rfl
  next b place he => rw [hr] at he; cases he

end

/-- From `tokens` on, wherever they stand, the reader answers `a` and leaves `rest` ahead. -/
def Reads (read : TokenReader α) (tokens : List Token) (a : α) (rest : List Token) : Prop :=
  ∀ index, ∃ reached, read ⟨index, tokens⟩ = .ok a ⟨reached, rest⟩

theorem reads_pure (a : α) (tokens : List Token) : Reads (pure a) tokens a tokens :=
  fun index => ⟨index, rfl⟩

theorem Reads.bind {read : TokenReader α} {follow : α → TokenReader β}
    {tokens middle rest : List Token} {a : α} {b : β} (hr : Reads read tokens a middle)
    (hf : Reads (follow a) middle b rest) : Reads (read >>= follow) tokens b rest := by
  intro index
  obtain ⟨between, hr⟩ := hr index
  obtain ⟨reached, hf⟩ := hf between
  exact ⟨reached, (bind_of_ok hr follow).trans hf⟩

theorem Reads.map {read : TokenReader α} {tokens rest : List Token} {a : α} (f : α → β)
    (h : Reads read tokens a rest) : Reads (f <$> read) tokens (f a) rest :=
  show Reads (read >>= fun a => pure (f a)) tokens (f a) rest from h.bind (reads_pure (f a) rest)

theorem Reads.during {read : TokenReader α} {tokens rest : List Token} {a : α}
    (rule : GrammarRule) (h : Reads read tokens a rest) :
    Reads (during rule read) tokens a rest := by
  intro index
  obtain ⟨reached, h⟩ := h index
  exact ⟨reached, by rw [TokenReader.during, h]⟩

theorem reads_peek (token : Token) (rest : List Token) :
    Reads peek (token :: rest) token (token :: rest) :=
  fun index => ⟨index, rfl⟩

theorem reads_lookahead (n : Nat) (tokens : List Token) :
    Reads (lookahead n) tokens (tokens.take n) tokens :=
  fun index => ⟨index, rfl⟩

theorem reads_skip {n : Nat} {front : List Token} (hn : front.length = n) (rest : List Token) :
    Reads (skip n) (front ++ rest) () rest := by
  intro index
  refine ⟨index + n, ?_⟩
  simp [skip, Cursor.has, Cursor.upTo, Cursor.moved, ← hn]

theorem reads_peekMany {n : Nat} {front : List Token} (hn : front.length = n)
    (rest : List Token) : Reads (peekMany n) (front ++ rest) front (front ++ rest) := by
  intro index
  refine ⟨index, ?_⟩
  simp [peekMany, Cursor.has, Cursor.upTo, ← hn]

theorem reads_skip_one (token : Token) (rest : List Token) :
    Reads (skip 1) (token :: rest) () rest :=
  reads_skip (show [token].length = 1 from rfl) rest

theorem reads_next (token : Token) (rest : List Token) : Reads next (token :: rest) token rest := by
  refine (reads_peek token rest).bind ?_
  exact (reads_skip_one token rest).bind (reads_pure token rest)

theorem reads_hasKind (kind : Token.Kind) (token : Token) (rest : List Token) :
    Reads (hasKind kind) (token :: rest) (token.kind == kind) (token :: rest) :=
  fun index => ⟨index, rfl⟩

theorem reads_hasKindIn (kinds : List Token.Kind) (token : Token) (rest : List Token) :
    Reads (hasKindIn kinds) (token :: rest) (kinds.contains token.kind) (token :: rest) :=
  fun index => ⟨index, rfl⟩

theorem reads_hasText (kind : Token.Kind) (text : String) (token : Token) (rest : List Token) :
    Reads (hasText kind text true) (token :: rest) (token.is kind text) (token :: rest) :=
  fun index => ⟨index, rfl⟩

theorem reads_take {kind : Token.Kind} {token : Token} (expected : Expectation)
    (hk : token.kind = kind) (rest : List Token) :
    Reads (take kind expected) (token :: rest) token rest := by
  refine (reads_hasKind kind token rest).bind ?_
  rw [if_pos (by simpa using hk)]
  exact reads_next token rest

theorem reads_expect {kind : Token.Kind} {text : String} {token : Token}
    (ht : token.is kind text = true) (rest : List Token) :
    Reads (expect kind text) (token :: rest) () rest := by
  refine (reads_hasText kind text token rest).bind ?_
  rw [if_pos ht]
  exact reads_skip_one token rest

theorem reads_sees (test : Token → Bool) (tokens : List Token) :
    Reads (sees test) tokens (tokens.head?.any test) tokens :=
  fun index => ⟨index, rfl⟩

theorem reads_ignoreIf {test : Token → Bool} {token : Token} (ht : test token = true)
    (rest : List Token) : Reads (ignoreIf test) (token :: rest) true rest := by
  refine (reads_sees test (token :: rest)).bind ?_
  rw [if_pos (by simpa using ht)]
  exact (reads_skip_one token rest).bind (reads_pure true rest)

theorem reads_ignoreIf_other {test : Token → Bool} {tokens : List Token}
    (ht : tokens.head?.any test = false) : Reads (ignoreIf test) tokens false tokens := by
  refine (reads_sees test tokens).bind ?_
  rw [ht, if_neg (by simp)]
  exact reads_pure false tokens

theorem reads_tokensBefore {kind : Token.Kind} {text : String} {limit : Nat}
    {tokens : List Token} {stop : Token} (hl : tokens.length < limit)
    (hn : ∀ token ∈ tokens, token.is kind text = false) (hs : stop.is kind text = true)
    (rest : List Token) :
    Reads (tokensBefore kind text limit) (tokens ++ stop :: rest) tokens
      (tokens ++ stop :: rest) := by
  refine (reads_lookahead limit _).bind ?_
  obtain ⟨n, rfl⟩ : ∃ n, limit = tokens.length + (n + 1) := ⟨limit - tokens.length - 1, by omega⟩
  have hw : (tokens ++ stop :: rest).take (tokens.length + (n + 1)) =
      tokens ++ stop :: rest.take n := by
    rw [List.take_length_add_append, List.take_succ_cons]
  rw [hw, findIdx?_eq_some_iff_split.mpr ⟨tokens, stop, rest.take n, rfl, rfl, hn, hs⟩]
  dsimp only
  rw [List.take_left]
  exact reads_pure _ _

/-- From `tokens` on, wherever they stand, the reader has no answer. -/
def Fails (read : TokenReader α) (tokens : List Token) : Prop :=
  ∀ index a after, read ⟨index, tokens⟩ ≠ .ok a after

theorem Fails.bind {read : TokenReader α} {tokens : List Token} (h : Fails read tokens)
    (follow : α → TokenReader β) : Fails (read >>= follow) tokens := by
  intro index b after hb
  obtain ⟨a, middle, hr, -⟩ := bind_eq_ok hb
  exact h index a middle hr

theorem Fails.map {read : TokenReader α} {tokens : List Token} (h : Fails read tokens)
    (f : α → β) : Fails (f <$> read) tokens :=
  h.bind fun a => pure (f a)

theorem Fails.during {read : TokenReader α} {tokens : List Token} (h : Fails read tokens)
    (rule : GrammarRule) : Fails (during rule read) tokens := by
  intro index a after ha
  exact h index a after (during_eq_ok ha)

theorem Reads.bind_fails {read : TokenReader α} {follow : α → TokenReader β}
    {tokens middle : List Token} {a : α} (hr : Reads read tokens a middle)
    (hf : Fails (follow a) middle) : Fails (read >>= follow) tokens := by
  intro index b after hb
  obtain ⟨reached, hread⟩ := hr index
  obtain ⟨a', middle', hr', hb⟩ := bind_eq_ok hb
  rw [hread] at hr'
  cases hr'
  exact hf reached b after hb

theorem fails_expect {kind : Token.Kind} {text : String} {token : Token}
    (ht : token.is kind text = false) (rest : List Token) :
    Fails (expect kind text) (token :: rest) := by
  intro index u after h
  obtain ⟨first, hfirst, hrest⟩ := expect_eq_ok h
  obtain rfl : token = first := (List.cons.inj hrest).1
  rw [ht] at hfirst
  cases hfirst

theorem fails_tokensBefore {kind : Token.Kind} {text : String} {limit : Nat}
    {front : List Token} (hl : limit ≤ front.length)
    (hn : ∀ token ∈ front, token.is kind text = false) (rest : List Token) :
    Fails (tokensBefore kind text limit) (front ++ rest) := by
  intro index tokens after h
  obtain ⟨rfl, hlen, -, stop, back, hs, hr⟩ := tokensBefore_eq_ok h
  rcases List.append_eq_append_iff.mp hr with ⟨more, hm, -⟩ | ⟨more, rfl, hm⟩
  · rw [hm, List.length_append] at hlen
    omega
  · cases more with
    | nil =>
      rw [List.append_nil] at hl
      omega
    | cons first others =>
      have hfirst := hn first (by simp)
      rw [← (List.cons.inj hm).1, hs] at hfirst
      cases hfirst

end TokenReader

end DdlCatalog
