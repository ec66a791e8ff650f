import DdlCatalog.Proofs.ReaderOutcome
import DdlCatalog.Token.Render
import Mathlib.Data.List.Forall2

namespace DdlCatalog

/-- Tokens of one kind. They show the same text, or names that stand for each other when they are
strings. -/
structure Token.Like (Named : String → String → Prop) (a b : Token) : Prop where
  kind : a.kind = b.kind
  text : a.kind ≠ .string → a.text = b.text
  name : a.kind = .string → Named a.content b.content

namespace Token.Like

variable {Named : String → String → Prop} {a b : Token}

theorem upper (h : a.Like Named b) (hs : a.kind ≠ .string) :
    Text.upper a.content = Text.upper b.content := by
  have ht := h.text hs
  unfold Token.text at ht
  rw [← h.kind] at ht
  split at ht
  next => exact ht
  next => rw [ht]

theorem content (h : a.Like Named b) (hs : a.kind ≠ .string) (hk : a.kind ≠ .keyword) :
    a.content = b.content := by
  have ht := h.text hs
  unfold Token.text at ht
  rwa [← h.kind, if_neg hk, if_neg hk] at ht

theorem is_eq (h : a.Like Named b) {kind : Kind} (hk : kind ≠ .string) (text : String) :
    a.is kind text = b.is kind text := by
  rw [Bool.eq_iff_iff, is_iff, is_iff, ← h.kind]
  refine and_congr_right fun he => ?_
  rw [h.upper (by rwa [he])]

theorem isKeyword_eq (h : a.Like Named b) (word : String) :
    a.isKeyword word = b.isKeyword word :=
  h.is_eq (by decide) word

theorem isSymbol_eq (h : a.Like Named b) (text : String) : a.isSymbol text = b.isSymbol text := by
  unfold isSymbol
  rw [← h.kind]
  by_cases hk : a.kind = .symbol
  · rw [h.content (by simp [hk]) (by simp [hk])]
  · rw [beq_eq_false_iff_ne.mpr hk, Bool.false_and, Bool.false_and]

theorem valued_text {Valued : String → String → Prop} (h : a.Like Named b)
    (named : ∀ ⦃text other⦄, Named text other → Valued text other)
    (same : ∀ text, Valued text text) : Valued a.text b.text := by
  by_cases hs : a.kind = .string
  · have hn := named (h.name hs)
    unfold Token.text
    rwa [← h.kind, if_neg (by simp [hs]), if_neg (by simp [hs])]
  · rw [h.text hs]
    exact same _

end Token.Like

/-- A relation between token lists that readers cannot see through. Names stand for each other as
`Named` says, and default values as `Valued` says. -/
structure Likeness (Named Valued : String → String → Prop)
    (Alike : List Token → List Token → Prop) : Prop where
  length : ∀ ⦃as bs⦄, Alike as bs → as.length = bs.length
  head : ∀ ⦃a b as bs⦄, Alike (a :: as) (b :: bs) → a.Like Named b
  tail : ∀ ⦃a b as bs⦄, Alike (a :: as) (b :: bs) → Alike as bs
  take : ∀ ⦃as bs⦄ n, Alike as bs → Alike (as.take n) (bs.take n)
  run : ∀ ⦃as bs⦄, Alike as bs → Token.touchingStrings as = Token.touchingStrings bs
  literal : ∀ ⦃as bs⦄, Alike as bs → Option.Rel Valued (Token.literal? as) (Token.literal? bs)
  same : ∀ text, Valued text text
  valued : ∀ ⦃text other⦄, Named text other → Valued text other
  qualified : ∀ ⦃a b c d⦄, Named a b → Named c d → Named (a ++ "." ++ c) (b ++ "." ++ d)

namespace Likeness

variable {Named Valued : String → String → Prop} {Alike : List Token → List Token → Prop}
  {as bs : List Token}

theorem split (like : Likeness Named Valued Alike) (h : Alike as bs) :
    (as = [] ∧ bs = []) ∨ ∃ a as' b bs', as = a :: as' ∧ bs = b :: bs' ∧ a.Like Named b := by
  have hlen := like.length h
  cases as with
  | nil => exact .inl ⟨rfl, (List.length_eq_zero_iff.mp hlen.symm)⟩
  | cons a as =>
    obtain ⟨b, bs, rfl⟩ := List.exists_cons_of_length_eq_add_one hlen.symm
    exact .inr ⟨a, as, b, bs, rfl, rfl, like.head h⟩

theorem drop (like : Likeness Named Valued Alike) (h : Alike as bs) (n : Nat) :
    Alike (as.drop n) (bs.drop n) := by
  induction n generalizing as bs with
  | zero => exact h
  | succ n ih =>
    obtain ⟨rfl, rfl⟩ | ⟨a, as, b, bs, rfl, rfl, _⟩ := like.split h
    · exact h
    · exact ih (like.tail h)

end Likeness

namespace TokenReader

variable {α β γ δ : Type} {Named Valued : String → String → Prop}
  {Alike : List Token → List Token → Prop}

/-- Both readings end alike: with answers that stand for each other and alike tokens ahead, or for
one reason in one rule. -/
inductive SameEnd (Alike : List Token → List Token → Prop) (Same : α → β → Prop) :
    EStateM.Result ParseError Cursor α → EStateM.Result ParseError Cursor β → Prop
  | ok {a b cursor other} : Same a b → Alike cursor.rest other.rest →
      SameEnd Alike Same (.ok a cursor) (.ok b other)
  | error {e e' cursor other} : e.obstacle = e'.obstacle → e.rules = e'.rules →
      SameEnd Alike Same (.error e cursor) (.error e' other)

/-- From alike tokens on, two readers end alike. -/
def Agree (Alike : List Token → List Token → Prop) (Same : α → β → Prop) (read : TokenReader α)
    (read' : TokenReader β) : Prop :=
  ∀ ⦃cursor other : Cursor⦄, Alike cursor.rest other.rest →
    SameEnd Alike Same (read cursor) (read' other)

theorem agree_pure {Same : α → β → Prop} {a : α} {b : β} (h : Same a b) :
    Agree Alike Same (pure a) (pure b) :=
  fun _ _ hc => .ok h hc

theorem agree_fail (Same : α → β → Prop) (obstacle : Obstacle) :
    Agree Alike Same (fail obstacle) (fail obstacle) :=
  fun _ _ _ => .error rfl rfl

theorem Agree.bind {Same : α → β → Prop} {Same' : γ → δ → Prop} {read : TokenReader α}
    {read' : TokenReader β} {follow : α → TokenReader γ} {follow' : β → TokenReader δ}
    (hr : Agree Alike Same read read')
    (hf : ∀ a b, Same a b → Agree Alike Same' (follow a) (follow' b)) :
    Agree Alike Same' (read >>= follow) (read' >>= follow') := by
  intro cursor other hc
  have hs := hr hc
  generalize hfound : read cursor = found at hs
  generalize hfound' : read' other = found' at hs
  cases hs with
  | ok hs hm =>
    rw [bind_of_ok hfound, bind_of_ok hfound']
    exact hf _ _ hs hm
  | error ho hrules =>
    rw [bind_of_error hfound, bind_of_error hfound']
    exact .error ho hrules

theorem Agree.map {Same : α → β → Prop} {Same' : γ → δ → Prop} {read : TokenReader α}
    {read' : TokenReader β} {f : α → γ} {g : β → δ} (hr : Agree Alike Same read read')
    (hf : ∀ a b, Same a b → Same' (f a) (g b)) : Agree Alike Same' (f <$> read) (g <$> read') :=
  show Agree Alike Same' (read >>= fun a => pure (f a)) (read' >>= fun b => pure (g b)) from
    hr.bind fun a b h => agree_pure (hf a b h)

theorem Agree.during {Same : α → β → Prop} {read : TokenReader α} {read' : TokenReader β}
    (rule : GrammarRule) (h : Agree Alike Same read read') :
    Agree Alike Same (during rule read) (during rule read') := by
  intro cursor other hc
  have hs := h hc
  unfold TokenReader.during
  generalize read cursor = found at hs ⊢
  generalize read' other = found' at hs ⊢
  cases hs with
  | ok hs hm => exact .ok hs hm
  | error ho hr => exact .error ho (congrArg (rule :: ·) hr)

theorem Agree.ite {Same : α → β → Prop} {p q : Prop} [Decidable p] [Decidable q]
    {yes no : TokenReader α} {yes' no' : TokenReader β} (hpq : p ↔ q)
    (hyes : p → Agree Alike Same yes yes') (hno : ¬p → Agree Alike Same no no') :
    Agree Alike Same (if p then yes else no) (if q then yes' else no') := by
  by_cases h : p
  · rw [if_pos h, if_pos (hpq.mp h)]
    exact hyes h
  · rw [if_neg h, if_neg fun hq => h (hpq.mpr hq)]
    exact hno h

/-- The same question about alike tokens has the same answer. -/
def Blind (Named : String → String → Prop) (test : Token → Bool) : Prop :=
  ∀ ⦃a b : Token⦄, a.Like Named b → test a = test b

theorem sees_eq (like : Likeness Named Valued Alike) {test : Token → Bool} (ht : Blind Named test)
    {as bs : List Token} (h : Alike as bs) : as.head?.any test = bs.head?.any test := by
  obtain ⟨rfl, rfl⟩ | ⟨a, as, b, bs, rfl, rfl, hhead⟩ := like.split h
  · rfl
  · exact ht hhead

theorem findIdx?_eq (like : Likeness Named Valued Alike) {test : Token → Bool}
    (ht : Blind Named test) {as bs : List Token} (h : Alike as bs) :
    as.findIdx? test = bs.findIdx? test := by
  induction as generalizing bs with
  | nil => rw [List.length_eq_zero_iff.mp (like.length h).symm]
  | cons a as ih =>
    obtain ⟨⟨⟩, _⟩ | ⟨_, _, b, bs, ⟨⟩, rfl, hhead⟩ := like.split h
    rw [List.findIdx?_cons, List.findIdx?_cons, ht hhead, ih (like.tail h)]

theorem alike_takeWhile_dropWhile (like : Likeness Named Valued Alike) {test : Token → Bool}
    (ht : Blind Named test) {as bs : List Token} (h : Alike as bs) :
    Alike (as.takeWhile test) (bs.takeWhile test) ∧
      Alike (as.dropWhile test) (bs.dropWhile test) := by
  have hnot : Blind Named fun token => !test token := fun _ _ hab => congrArg _ (ht hab)
  have hend : as.findIdx (fun token => !test token) = bs.findIdx fun token => !test token := by
    rw [List.findIdx_eq_getD_findIdx?, List.findIdx_eq_getD_findIdx?, findIdx?_eq like hnot h,
      like.length h]
  rw [List.takeWhile_eq_take_findIdx_not, List.takeWhile_eq_take_findIdx_not,
    List.dropWhile_eq_drop_findIdx_not, List.dropWhile_eq_drop_findIdx_not, hend]
  exact ⟨like.take _ h, like.drop h _⟩

theorem agree_lookahead (like : Likeness Named Valued Alike) (n : Nat) :
    Agree Alike Alike (lookahead n) (lookahead n) :=
  fun _ _ hc => .ok (like.take n hc) hc

theorem has_eq (like : Likeness Named Valued Alike) {cursor other : Cursor}
    (h : Alike cursor.rest other.rest) (n : Nat) : cursor.has n = other.has n := by
  rw [Bool.eq_iff_iff, Cursor.has_iff, Cursor.has_iff, Cursor.available, Cursor.available,
    like.length h]

theorem agree_peekMany (like : Likeness Named Valued Alike) (n : Nat) :
    Agree Alike Alike (peekMany n) (peekMany n) := by
  intro cursor other hc
  unfold peekMany
  rw [has_eq like hc n]
  split
  · exact .ok (like.take n hc) hc
  · exact .error rfl rfl

theorem agree_skip (like : Likeness Named Valued Alike) (n : Nat) :
    Agree Alike Eq (skip n) (skip n) := by
  intro cursor other hc
  unfold skip
  rw [has_eq like hc n]
  split
  · exact .ok rfl (like.drop hc n)
  · exact .error rfl rfl

theorem agree_peek (like : Likeness Named Valued Alike) :
    Agree Alike (Token.Like Named) peek peek := by
  rintro ⟨i, as⟩ ⟨j, bs⟩ hc
  obtain ⟨rfl, rfl⟩ | ⟨a, as, b, bs, rfl, rfl, hhead⟩ := like.split hc
  · exact .error rfl rfl
  · exact .ok hhead hc

theorem agree_next (like : Likeness Named Valued Alike) :
    Agree Alike (Token.Like Named) next next :=
  (agree_peek like).bind fun _ _ h => (agree_skip like 1).bind fun _ _ _ => agree_pure h

theorem agree_hasKind (like : Likeness Named Valued Alike) (kind : Token.Kind) :
    Agree Alike Eq (hasKind kind) (hasKind kind) :=
  (agree_peek like).bind fun _ _ h => agree_pure (by rw [h.kind])

theorem agree_hasKindIn (like : Likeness Named Valued Alike) (kinds : List Token.Kind) :
    Agree Alike Eq (hasKindIn kinds) (hasKindIn kinds) :=
  (agree_peek like).bind fun _ _ h => agree_pure (by rw [h.kind])

theorem agree_hasText (like : Likeness Named Valued Alike) {kind : Token.Kind} (hk : kind ≠ .string)
    (text : String) : Agree Alike Eq (hasText kind text true) (hasText kind text true) :=
  (agree_peek like).bind fun _ _ h => agree_pure (h.is_eq hk text)

theorem agree_sees (like : Likeness Named Valued Alike) {test : Token → Bool}
    (ht : Blind Named test) : Agree Alike Eq (sees test) (sees test) :=
  fun _ _ hc => .ok (sees_eq like ht hc) hc

theorem agree_ignoreIf (like : Likeness Named Valued Alike) {test : Token → Bool}
    (ht : Blind Named test) : Agree Alike Eq (ignoreIf test) (ignoreIf test) := by
  refine (agree_sees like ht).bind ?_
  rintro b _ rfl
  refine .ite Iff.rfl (fun _ => ?_) fun _ => agree_pure rfl
  exact (agree_skip like 1).bind fun _ _ _ => agree_pure rfl

theorem agree_ignoreText (like : Likeness Named Valued Alike) {kind : Token.Kind}
    (hk : kind ≠ .string) (text : String) :
    Agree Alike Eq (ignoreText kind text) (ignoreText kind text) :=
  agree_ignoreIf like fun _ _ h => h.is_eq hk text

theorem agree_tokensBefore (like : Likeness Named Valued Alike) {kind : Token.Kind}
    (hk : kind ≠ .string) (text : String) (limit : Nat) :
    Agree Alike Alike (tokensBefore kind text limit) (tokensBefore kind text limit) := by
  refine (agree_lookahead like limit).bind fun window window' hw => ?_
  rw [findIdx?_eq like (fun _ _ h => h.is_eq hk text) hw]
  cases window'.findIdx? (·.is kind text) with
  | none => exact agree_fail _ _
  | some n => exact agree_pure (like.take n hw)

theorem take_cons (kind : Token.Kind) (expected : Expectation) (token : Token) (index : Nat)
    (rest : List Token) : take kind expected ⟨index, token :: rest⟩ =
      if token.kind = kind then .ok token ⟨index + 1, rest⟩
      else .error ⟨.unexpected expected, [], ⟨index, token :: rest⟩⟩ ⟨index, token :: rest⟩ := by
  change (if (token.kind == kind) = true then next else fail (.unexpected expected))
    ⟨index, token :: rest⟩ = _
  by_cases h : token.kind = kind
  · rw [if_pos h, if_pos (by simpa using h)]
    rfl
  · rw [if_neg h, if_neg (by simpa using h)]
    rfl

theorem agree_take (like : Likeness Named Valued Alike) (kind : Token.Kind)
    (expected : Expectation) :
    Agree Alike (fun a b => a.Like Named b ∧ a.kind = kind) (take kind expected)
      (take kind expected) := by
  rintro ⟨i, as⟩ ⟨j, bs⟩ hc
  obtain ⟨rfl, rfl⟩ | ⟨a, as, b, bs, rfl, rfl, hhead⟩ := like.split hc
  · exact .error rfl rfl
  · rw [take_cons, take_cons, ← hhead.kind]
    split
    next hk => exact .ok ⟨hhead, hk⟩ (like.tail hc)
    next => exact .error rfl rfl

theorem agree_expect (like : Likeness Named Valued Alike) {kind : Token.Kind} (hk : kind ≠ .string)
    (text : String) : Agree Alike Eq (expect kind text) (expect kind text) := by
  refine (agree_hasText like hk text).bind ?_
  rintro b _ rfl
  exact .ite Iff.rfl (fun _ => agree_skip like 1) fun _ => agree_fail _ _

theorem agree_manyWhile (like : Likeness Named Valued Alike) {Same : α → α → Prop}
    {test : Token → Bool} {read : TokenReader α} {consumes : Consumes read}
    (ht : Blind Named test) (hr : Agree Alike Same read read) :
    Agree Alike (List.Forall₂ Same) (manyWhile test read consumes)
      (manyWhile test read consumes) := by
  intro cursor other hc
  have hsees := sees_eq like ht hc
  have hend := hr hc
  fun_induction manyWhile test read consumes cursor generalizing other with
  | case1 cursor hs e after he =>
    rw [he] at hend
    generalize hfound : read other = found at hend
    cases hend with
    | error ho hrules =>
      rw [manyWhile_of_error (hsees.symm.trans hs) hfound]
      exact .error ho hrules
  | case2 cursor hs a middle he e final hm ih =>
    rw [he] at hend
    generalize hfound : read other = found at hend
    cases hend with
    | @ok _ b _ middle' hab hrest =>
      rw [manyWhile_of_read (hsees.symm.trans hs) hfound]
      have hih := ih hrest (sees_eq like ht hrest) (hr hrest)
      rw [hm] at hih
      generalize hmany : manyWhile test read consumes middle' = found' at hih
      cases hih with
      | error ho hrules =>
        rw [map_of_error hmany]
        exact .error ho hrules
  | case3 cursor hs a middle he others final hm ih =>
    rw [he] at hend
    generalize hfound : read other = found at hend
    cases hend with
    | @ok _ b _ middle' hab hrest =>
      rw [manyWhile_of_read (hsees.symm.trans hs) hfound]
      have hih := ih hrest (sees_eq like ht hrest) (hr hrest)
      rw [hm] at hih
      generalize hmany : manyWhile test read consumes middle' = found' at hih
      cases hih with
      | ok hothers hfinal =>
        rw [map_of_ok hmany]
        exact .ok (.cons hab hothers) hfinal
  | case4 cursor hs =>
    rw [manyWhile_of_not_sees (hsees.symm.trans (Bool.eq_false_iff.mpr hs))]
    exact .ok .nil hc

end TokenReader

end DdlCatalog
