import DdlCatalog.ParseError

namespace DdlCatalog

/-- Reads an `α` from the tokens ahead. A reader that fails leaves the cursor somewhere too. -/
abbrev TokenReader (α : Type) := EStateM ParseError Cursor α

namespace TokenReader

variable {α β : Type}

def fail (obstacle : Obstacle) : TokenReader α := fun cursor =>
  .error ⟨obstacle, [], cursor⟩ cursor

/-- Reads as part of a rule. A failure then names the rule, and the place where the cursor is by
then. -/
def during (rule : GrammarRule) (read : TokenReader α) : TokenReader α := fun cursor =>
  match read cursor with
  | .ok a after => .ok a after
  | .error e after => .error { e with contexts := (rule, after) :: e.contexts } after

def lookahead (n : Nat) : TokenReader (List Token) := fun cursor =>
  .ok (cursor.upTo n) cursor

def peekMany (n : Nat) : TokenReader (List Token) := fun cursor =>
  if cursor.has n then .ok (cursor.upTo n) cursor
  else .error ⟨.endOfTokens n, [], cursor⟩ cursor

def skip (n : Nat) : TokenReader Unit := fun cursor =>
  if cursor.has n then .ok () (cursor.moved n)
  else .error ⟨.endOfTokens n, [], cursor⟩ cursor

def peek : TokenReader Token := fun cursor =>
  match cursor.rest with
  | [] => .error ⟨.endOfTokens 1, [], cursor⟩ cursor
  | token :: _ => .ok token cursor

def next : TokenReader Token := do
  let token ← peek
  skip 1
  return token

def hasKind (kind : Token.Kind) : TokenReader Bool := do
  return (← peek).kind == kind

def hasKindIn (kinds : List Token.Kind) : TokenReader Bool := do
  return kinds.contains (← peek).kind

def hasText (kind : Token.Kind) (text : String) (anyCase : Bool) : TokenReader Bool := do
  let token ← peek
  return token.kind == kind &&
    if anyCase then Text.sameLetters token.content text else token.content == text

def sees (test : Token → Bool) : TokenReader Bool := fun cursor =>
  .ok (cursor.sees test) cursor

def ignoreIf (test : Token → Bool) : TokenReader Bool := do
  if ← sees test then
    skip 1
    return true
  return false

def ignoreKind (kind : Token.Kind) : TokenReader Bool :=
  ignoreIf (·.kind == kind)

def ignoreText (kind : Token.Kind) (text : String) : TokenReader Bool :=
  ignoreIf (·.is kind text)

/-- The tokens before the first one that is of a kind and shows a text, which has to be among the
next `limit` tokens. Does not move. -/
def tokensBefore (kind : Token.Kind) (text : String) (limit : Nat) : TokenReader (List Token) := do
  let window ← lookahead limit
  match window.findIdx? (·.is kind text) with
  | some n => return window.take n
  | none => fail (.unclosed text limit)

def take (kind : Token.Kind) (expected : Expectation) : TokenReader Token := do
  if ← hasKind kind then next else fail (.unexpected expected)

def expect (kind : Token.Kind) (text : String) : TokenReader Unit := do
  if ← hasText kind text true then skip 1 else fail (.unexpected (.token kind text))

def Forward (read : TokenReader α) : Prop :=
  ∀ ⦃cursor a after⦄, read cursor = .ok a after → after.rest.length ≤ cursor.rest.length

/-- The reader passes at least one token. -/
def Consumes (read : TokenReader α) : Prop :=
  ∀ ⦃cursor a after⦄, read cursor = .ok a after → after.rest.length < cursor.rest.length

theorem bind_eq_ok {read : TokenReader α} {follow : α → TokenReader β} {cursor after : Cursor}
    {b : β} (h : (read >>= follow) cursor = .ok b after) :
    ∃ a middle, read cursor = .ok a middle ∧ follow a middle = .ok b after := by
  change EStateM.bind read follow cursor = .ok b after at h
  cases hr : read cursor with
  | error e place => rw [EStateM.bind, hr] at h; cases h
  | ok a middle => rw [EStateM.bind, hr] at h; exact ⟨a, middle, rfl, h⟩

theorem during_eq_ok {rule : GrammarRule} {read : TokenReader α} {cursor after : Cursor} {a : α}
    (h : during rule read cursor = .ok a after) : read cursor = .ok a after := by
  unfold during at h
  split at h
  next hr => rw [hr, h]
  next => cases h

theorem Consumes.forward {read : TokenReader α} (h : Consumes read) : Forward read :=
  fun _ _ _ hr => Nat.le_of_lt (h hr)

theorem forward_pure (a : α) : Forward (pure a : TokenReader α) := by
  intro cursor b after h
  cases h
  exact Nat.le_refl _

theorem forward_fail (obstacle : Obstacle) : Forward (fail obstacle : TokenReader α) := by
  intro cursor a after h
  cases h

theorem forward_lookahead (n : Nat) : Forward (lookahead n) := by
  intro cursor a after h
  cases h
  exact Nat.le_refl _

theorem forward_sees (test : Token → Bool) : Forward (sees test) := by
  intro cursor a after h
  cases h
  exact Nat.le_refl _

theorem forward_peek : Forward peek := by
  intro cursor a after h
  unfold peek at h
  split at h
  next => cases h
  next => cases h; exact Nat.le_refl _

theorem forward_peekMany (n : Nat) : Forward (peekMany n) := by
  intro cursor a after h
  unfold peekMany at h
  split at h
  next => cases h; exact Nat.le_refl _
  next => cases h

theorem forward_skip (n : Nat) : Forward (skip n) := by
  intro cursor a after h
  unfold skip at h
  split at h
  next => cases h; simp [Cursor.moved]
  next => cases h

theorem consumes_skip_succ (n : Nat) : Consumes (skip (n + 1)) := by
  intro cursor a after h
  unfold skip at h
  split at h
  next hn =>
    cases h
    have hle := Cursor.has_iff.mp hn
    unfold Cursor.available at hle
    simp only [Cursor.moved, List.length_drop]
    omega
  next => cases h

theorem Forward.bind {read : TokenReader α} {follow : α → TokenReader β} (hr : Forward read)
    (hc : ∀ a, Forward (follow a)) : Forward (read >>= follow) := by
  intro cursor b after h
  obtain ⟨a, middle, h1, h2⟩ := bind_eq_ok h
  exact Nat.le_trans (hc a h2) (hr h1)

theorem Consumes.bind {read : TokenReader α} {follow : α → TokenReader β} (hr : Consumes read)
    (hc : ∀ a, Forward (follow a)) : Consumes (read >>= follow) := by
  intro cursor b after h
  obtain ⟨a, middle, h1, h2⟩ := bind_eq_ok h
  exact Nat.lt_of_le_of_lt (hc a h2) (hr h1)

theorem Forward.bind_consumes {read : TokenReader α} {follow : α → TokenReader β}
    (hr : Forward read) (hc : ∀ a, Consumes (follow a)) : Consumes (read >>= follow) := by
  intro cursor b after h
  obtain ⟨a, middle, h1, h2⟩ := bind_eq_ok h
  exact Nat.lt_of_lt_of_le (hc a h2) (hr h1)

theorem Forward.map {read : TokenReader α} (f : α → β) (hr : Forward read) :
    Forward (f <$> read) :=
  Forward.bind hr fun a => forward_pure (f a)

theorem Consumes.map {read : TokenReader α} (f : α → β) (hr : Consumes read) :
    Consumes (f <$> read) :=
  Consumes.bind hr fun a => forward_pure (f a)

theorem Forward.during {read : TokenReader α} (rule : GrammarRule) (hr : Forward read) :
    Forward (during rule read) :=
  fun _ _ _ h => hr (during_eq_ok h)

theorem Consumes.during {read : TokenReader α} (rule : GrammarRule) (hr : Consumes read) :
    Consumes (during rule read) :=
  fun _ _ _ h => hr (during_eq_ok h)

theorem Forward.ite {p : Prop} [Decidable p] {read other : TokenReader α} (hr : Forward read)
    (ho : Forward other) : Forward (if p then read else other) := by
  split
  · exact hr
  · exact ho

theorem Consumes.ite {p : Prop} [Decidable p] {read other : TokenReader α} (hr : Consumes read)
    (ho : Consumes other) : Consumes (if p then read else other) := by
  split
  · exact hr
  · exact ho

theorem consumes_next : Consumes next :=
  forward_peek.bind_consumes fun token =>
    (consumes_skip_succ 0).bind fun _ => forward_pure token

theorem forward_ignoreIf (test : Token → Bool) : Forward (ignoreIf test) :=
  (forward_sees test).bind fun _ =>
    .ite ((forward_skip 1).bind fun _ => forward_pure true) (forward_pure false)

theorem forward_hasKind (kind : Token.Kind) : Forward (hasKind kind) :=
  forward_peek.bind fun _ => forward_pure _

theorem forward_hasKindIn (kinds : List Token.Kind) : Forward (hasKindIn kinds) :=
  forward_peek.bind fun _ => forward_pure _

theorem forward_hasText (kind : Token.Kind) (text : String) (anyCase : Bool) :
    Forward (hasText kind text anyCase) :=
  forward_peek.bind fun _ => forward_pure _

theorem forward_tokensBefore (kind : Token.Kind) (text : String) (limit : Nat) :
    Forward (tokensBefore kind text limit) := by
  refine (forward_lookahead limit).bind fun window => ?_
  split
  · exact forward_pure _
  · exact forward_fail _

theorem consumes_take (kind : Token.Kind) (expected : Expectation) :
    Consumes (take kind expected) := by
  refine (forward_hasKind kind).bind_consumes fun _ => ?_
  split
  · exact consumes_next
  · intro cursor a after h
    cases h

theorem consumes_expect (kind : Token.Kind) (text : String) : Consumes (expect kind text) := by
  refine (forward_hasText kind text true).bind_consumes fun _ => ?_
  split
  · exact consumes_skip_succ 0
  · intro cursor a after h
    cases h

def manyWhile (test : Token → Bool) (read : TokenReader α) (consumes : Consumes read)
    (cursor : Cursor) : EStateM.Result ParseError Cursor (List α) :=
  if cursor.sees test then
    match _ : read cursor with
    | .error e after => .error e after
    | .ok a after =>
      match manyWhile test read consumes after with
      | .error e final => .error e final
      | .ok as final => .ok (a :: as) final
  else .ok [] cursor
termination_by cursor.rest.length
decreasing_by exact consumes ‹_›

theorem forward_manyWhile (test : Token → Bool) {read : TokenReader α} (consumes : Consumes read) :
    Forward (manyWhile test read consumes) := by
  intro cursor as final h
  fun_induction manyWhile test read consumes cursor generalizing as final with
  | case1 => cases h
  | case2 => cases h
  | case3 cursor hs a after hr as' final' hm ih =>
    cases h
    exact Nat.le_trans (ih hm) (Nat.le_of_lt (consumes hr))
  | case4 => cases h; exact Nat.le_refl _

def ignoreRun (kind : Token.Kind) : TokenReader Nat :=
  List.length <$> manyWhile (·.kind == kind) next consumes_next

end TokenReader

end DdlCatalog
