import DdlCatalog.Proofs.ReaderOutcome

namespace DdlCatalog

namespace Obstacle

/-- The tokens ended too early, or before the end of a clause was in sight. More of them might
remove such an obstacle, but no other one. -/
def isShortage : Obstacle → Bool
  | endOfTokens _ => true
  | unclosed _ _ => true
  | _ => false

end Obstacle

namespace Cursor

def followedBy (cursor : Cursor) (more : List Token) : Cursor :=
  ⟨cursor.index, cursor.rest ++ more⟩

theorem moved_followedBy {cursor : Cursor} {n : Nat} (h : n ≤ cursor.rest.length)
    (more : List Token) : (cursor.followedBy more).moved n = (cursor.moved n).followedBy more := by
  simp only [moved, followedBy, List.drop_append_of_le_length h]

theorem sees_followedBy {cursor : Cursor} (h : cursor.rest ≠ []) (more : List Token)
    (test : Token → Bool) : (cursor.followedBy more).sees test = cursor.sees test := by
  obtain ⟨index, rest⟩ := cursor
  cases rest with
  | nil => exact absurd rfl h
  | cons token rest => rfl

theorem upTo_followedBy (cursor : Cursor) (n : Nat) (more : List Token) :
    ∃ back, (cursor.followedBy more).upTo n = cursor.upTo n ++ back :=
  ⟨more.take (n - cursor.rest.length), List.take_append⟩

end Cursor

namespace TokenReader

variable {α β : Type}

/-- How a reading ends, and how it ends when `more` tokens follow. -/
inductive Endures (more : List Token) :
    EStateM.Result ParseError Cursor α → EStateM.Result ParseError Cursor α → Prop
  | ok (a : α) (cursor : Cursor) :
      Endures more (.ok a cursor) (.ok a (cursor.followedBy more))
  | spent {a : α} {cursor : Cursor} (outcome : EStateM.Result ParseError Cursor α) :
      cursor.rest = [] → Endures more (.ok a cursor) outcome
  | short {e : ParseError} {cursor : Cursor} (outcome : EStateM.Result ParseError Cursor α) :
      e.obstacle.isShortage = true → Endures more (.error e cursor) outcome
  | error {e e' : ParseError} {cursor other : Cursor} : e'.obstacle = e.obstacle →
      e'.rules = e.rules → Endures more (.error e cursor) (.error e' other)

/-- Where a token is ahead, more tokens behind the last one change nothing that is settled. -/
def Lasting (read : TokenReader α) : Prop :=
  ∀ ⦃cursor : Cursor⦄, cursor.rest ≠ [] → ∀ more,
    Endures more (read cursor) (read (cursor.followedBy more))

/-- At the end of the tokens there is a shortage. -/
def Starved (read : TokenReader α) : Prop :=
  ∀ ⦃cursor : Cursor⦄, cursor.rest = [] →
    ∃ e after, read cursor = .error e after ∧ e.obstacle.isShortage = true

/-- At the end of the tokens nothing but a shortage is found wrong. -/
def Patient (read : TokenReader α) : Prop :=
  ∀ ⦃cursor : Cursor⦄, cursor.rest = [] →
    (∃ a after, read cursor = .ok a after ∧ after.rest = []) ∨
      ∃ e after, read cursor = .error e after ∧ e.obstacle.isShortage = true

def Looks (read : TokenReader α) : Prop :=
  ∀ ⦃cursor a after⦄, read cursor = .ok a after → after = cursor

/-- The reader takes the end of the tokens for a shortage and for nothing else, and anything that
it finds before that end stands. -/
structure Steady (read : TokenReader α) : Prop where
  lasting : Lasting read
  patient : Patient read

theorem looks_pure (a : α) : Looks (pure a : TokenReader α) := by
  intro cursor b after h
  cases h
  rfl

theorem looks_fail (obstacle : Obstacle) : Looks (fail obstacle : TokenReader α) := by
  intro cursor a after h
  cases h

theorem Looks.bind {read : TokenReader α} {follow : α → TokenReader β} (hr : Looks read)
    (hf : ∀ a, Looks (follow a)) : Looks (read >>= follow) := by
  intro cursor b after h
  obtain ⟨a, middle, hread, h⟩ := bind_eq_ok h
  rw [hf a h, hr hread]

theorem Looks.map {read : TokenReader α} (h : Looks read) (f : α → β) : Looks (f <$> read) :=
  Looks.bind h fun a => looks_pure (f a)

theorem Looks.ite {p : Prop} [Decidable p] {read other : TokenReader α} (hr : Looks read)
    (ho : Looks other) : Looks (if p then read else other) := by
  split
  · exact hr
  · exact ho

theorem Starved.bind {read : TokenReader α} (h : Starved read) (follow : α → TokenReader β) :
    Starved (read >>= follow) := by
  intro cursor hc
  obtain ⟨e, after, he, hshort⟩ := h hc
  exact ⟨e, after, bind_of_error he follow, hshort⟩

theorem Patient.bind {read : TokenReader α} {follow : α → TokenReader β} (hr : Patient read)
    (hf : ∀ a, Patient (follow a)) : Patient (read >>= follow) := by
  intro cursor hc
  rcases hr hc with ⟨a, middle, hread, hm⟩ | ⟨e, after, he, hshort⟩
  · rw [bind_of_ok hread]
    exact hf a hm
  · exact .inr ⟨e, after, bind_of_error he follow, hshort⟩

/-- What a sequence has found endures if this holds of both parts. Where the first part has used up
all tokens, the second finds nothing wrong but that. -/
theorem Lasting.bind_of {read : TokenReader α} {follow : α → TokenReader β} (hr : Lasting read)
    (hf : ∀ a, Lasting (follow a))
    (hspent : ∀ ⦃cursor a after⦄, cursor.rest ≠ [] → read cursor = .ok a after →
      after.rest = [] → Patient (follow a)) : Lasting (read >>= follow) := by
  intro cursor hc more
  have hend := hr hc more
  have hused : ∀ a after, read cursor = .ok a after → after.rest = [] →
      ∀ outcome, Endures more (follow a after) outcome := by
    intro a after hread hempty outcome
    rcases hspent hc hread hempty hempty with ⟨b, last, hb, hlast⟩ | ⟨e, last, he, hshort⟩
    · rw [hb]
      exact .spent outcome hlast
    · rw [he]
      exact .short outcome hshort
  generalize hread : read cursor = found at hend
  generalize hread' : read (cursor.followedBy more) = found' at hend
  cases hend with
  | ok a after =>
    rw [bind_of_ok hread, bind_of_ok hread']
    by_cases hempty : after.rest = []
    · exact hused a after hread hempty _
    · exact hf a hempty more
  | @spent a after _ hempty =>
    rw [bind_of_ok hread]
    exact hused a after hread hempty _
  | short _ hshort =>
    rw [bind_of_error hread]
    exact .short _ hshort
  | error ho hrules =>
    rw [bind_of_error hread, bind_of_error hread']
    exact .error ho hrules

theorem Lasting.bind_looks {read : TokenReader α} {follow : α → TokenReader β} (hr : Lasting read)
    (hl : Looks read) (hf : ∀ a, Lasting (follow a)) : Lasting (read >>= follow) :=
  hr.bind_of hf fun _ _ _ hc hread hempty => absurd (hl hread ▸ hempty) hc

theorem Lasting.bind_steady {read : TokenReader α} {follow : α → TokenReader β}
    (hr : Lasting read) (hf : ∀ a, Steady (follow a)) : Lasting (read >>= follow) :=
  hr.bind_of (fun a => (hf a).lasting) fun _ a _ _ _ _ => (hf a).patient

theorem Lasting.ite {p : Prop} [Decidable p] {read other : TokenReader α} (hr : Lasting read)
    (ho : Lasting other) : Lasting (if p then read else other) := by
  split
  · exact hr
  · exact ho

theorem lasting_fail (obstacle : Obstacle) : Lasting (fail obstacle : TokenReader α) :=
  fun _ _ _ => .error rfl rfl

theorem steady_pure (a : α) : Steady (pure a : TokenReader α) where
  lasting := fun cursor _ _ => .ok a cursor
  patient := fun cursor hc => .inl ⟨a, cursor, rfl, hc⟩

theorem Lasting.map {read : TokenReader α} (h : Lasting read) (f : α → β) : Lasting (f <$> read) :=
  Lasting.bind_steady h fun a => steady_pure (f a)

theorem Steady.bind {read : TokenReader α} {follow : α → TokenReader β} (hr : Steady read)
    (hf : ∀ a, Steady (follow a)) : Steady (read >>= follow) where
  lasting := hr.lasting.bind_steady hf
  patient := hr.patient.bind fun a => (hf a).patient

/-- A sequence that begins with a look at the next token may fail in any way after that. -/
theorem Steady.of_starved {read : TokenReader α} {follow : α → TokenReader β} (hr : Lasting read)
    (hl : Looks read) (hs : Starved read) (hf : ∀ a, Lasting (follow a)) :
    Steady (read >>= follow) where
  lasting := hr.bind_looks hl hf
  patient := fun _ hc => .inr (hs.bind follow hc)

theorem Steady.map {read : TokenReader α} (h : Steady read) (f : α → β) : Steady (f <$> read) :=
  Steady.bind h fun a => steady_pure (f a)

theorem Steady.ite {p : Prop} [Decidable p] {read other : TokenReader α} (hr : Steady read)
    (ho : Steady other) : Steady (if p then read else other) := by
  split
  · exact hr
  · exact ho

theorem Steady.during {read : TokenReader α} (rule : GrammarRule) (h : Steady read) :
    Steady (during rule read) := by
  constructor
  · intro cursor hc more
    have hend := h.lasting hc more
    unfold TokenReader.during
    generalize read cursor = found at hend ⊢
    generalize read (cursor.followedBy more) = found' at hend ⊢
    cases hend with
    | ok a after => exact .ok a after
    | spent _ hempty => exact .spent _ hempty
    | short _ hshort => exact .short _ hshort
    | error ho hr => exact .error ho (congrArg (rule :: ·) hr)
  · intro cursor hc
    unfold TokenReader.during
    rcases h.patient hc with ⟨a, after, hread, ha⟩ | ⟨e, after, he, hshort⟩
    · rw [hread]
      exact .inl ⟨a, after, rfl, ha⟩
    · rw [he]
      exact .inr ⟨_, after, rfl, hshort⟩

theorem looks_peek : Looks peek :=
  fun _ _ _ h => (peek_eq_ok h).1.symm

theorem starved_peek : Starved peek := by
  rintro ⟨index, rest⟩ rfl
  exact ⟨_, _, rfl, rfl⟩

theorem lasting_peek : Lasting peek := by
  rintro ⟨index, rest⟩ hc more
  cases rest with
  | nil => exact absurd rfl hc
  | cons token rest => exact .ok token ⟨index, token :: rest⟩

theorem steady_peek_bind {follow : Token → TokenReader α} (hf : ∀ a, Lasting (follow a)) :
    Steady (peek >>= follow) :=
  .of_starved lasting_peek looks_peek starved_peek hf

theorem steady_skip (n : Nat) : Steady (skip n) := by
  constructor
  · intro cursor hc more
    unfold skip
    by_cases hn : cursor.has n = true
    · have hlen := Cursor.has_iff.mp hn
      have hmore : (cursor.followedBy more).has n = true := by
        refine Cursor.has_iff.mpr (Nat.le_trans hlen ?_)
        simp [Cursor.available, Cursor.followedBy]
      rw [if_pos hn, if_pos hmore, Cursor.moved_followedBy hlen]
      exact .ok () _
    · rw [if_neg hn]
      exact .short _ rfl
  · rintro ⟨index, rest⟩ rfl
    unfold skip
    split
    · exact .inl ⟨(), _, rfl, by simp [Cursor.moved]⟩
    · exact .inr ⟨_, _, rfl, rfl⟩

theorem steady_next : Steady next :=
  steady_peek_bind fun token => ((steady_skip 1).bind fun _ => steady_pure token).lasting

theorem steady_question {ask : Token → Bool} {follow : Bool → TokenReader α}
    (hf : ∀ b, Lasting (follow b)) : Steady ((do return ask (← peek)) >>= follow) := by
  refine .of_starved ?_ ?_ (starved_peek.bind _) hf
  · exact (steady_peek_bind fun token => (steady_pure (ask token)).lasting).lasting
  · exact looks_peek.bind fun token => looks_pure (ask token)

theorem steady_take (kind : Token.Kind) (expected : Expectation) : Steady (take kind expected) :=
  steady_question fun _ => .ite steady_next.lasting (lasting_fail _)

theorem steady_expect (kind : Token.Kind) (text : String) : Steady (expect kind text) :=
  steady_question fun _ => .ite (steady_skip 1).lasting (lasting_fail _)

theorem steady_sees (test : Token → Bool) : Steady (sees test) := by
  constructor
  · intro cursor hc more
    rw [sees, sees, Cursor.sees_followedBy hc]
    exact .ok _ cursor
  · exact fun cursor hc => .inl ⟨cursor.sees test, cursor, rfl, hc⟩

theorem steady_ignoreIf (test : Token → Bool) : Steady (ignoreIf test) :=
  (steady_sees test).bind fun _ =>
    .ite ((steady_skip 1).bind fun _ => steady_pure true) (steady_pure false)

theorem tokensBefore_eq (kind : Token.Kind) (text : String) (limit : Nat) (cursor : Cursor) :
    tokensBefore kind text limit cursor =
      match (cursor.upTo limit).findIdx? (·.is kind text) with
      | some n => .ok ((cursor.upTo limit).take n) cursor
      | none => .error ⟨.unclosed text limit, [], cursor⟩ cursor := by
  change (match (cursor.upTo limit).findIdx? (·.is kind text) with
    | some n => pure ((cursor.upTo limit).take n)
    | none => fail (.unclosed text limit) : TokenReader (List Token)) cursor = _
  cases (cursor.upTo limit).findIdx? (·.is kind text) <;> rfl

theorem lasting_tokensBefore (kind : Token.Kind) (text : String) (limit : Nat) :
    Lasting (tokensBefore kind text limit) := by
  intro cursor hc more
  rw [tokensBefore_eq, tokensBefore_eq]
  cases hfound : (cursor.upTo limit).findIdx? (·.is kind text) with
  | none => exact .short _ rfl
  | some n =>
    obtain ⟨back, hback⟩ := cursor.upTo_followedBy limit more
    obtain ⟨hn, -⟩ := List.findIdx?_eq_some_iff_getElem.mp hfound
    rw [hback, List.findIdx?_append, hfound, Option.some_or]
    dsimp only
    rw [List.take_append_of_le_length (Nat.le_of_lt hn)]
    exact .ok _ cursor

theorem steady_tokensBefore_bind {kind : Token.Kind} {text : String} {limit : Nat}
    {follow : List Token → TokenReader α} (hf : ∀ tokens, Lasting (follow tokens)) :
    Steady (tokensBefore kind text limit >>= follow) := by
  refine .of_starved (lasting_tokensBefore kind text limit) ?_ ?_ hf
  · exact fun _ _ _ h => (tokensBefore_eq_ok h).1.symm
  · intro cursor hc
    refine ⟨⟨.unclosed text limit, [], cursor⟩, cursor, ?_, rfl⟩
    simp [tokensBefore_eq, Cursor.upTo, hc]

section

variable {test : Token → Bool} {read : TokenReader α} {consumes : Consumes read}

theorem manyWhile_of_rest_eq_nil {cursor : Cursor} (hc : cursor.rest = []) :
    manyWhile test read consumes cursor = .ok [] cursor :=
  manyWhile_of_not_sees (by simp [Cursor.sees, hc])

theorem lasting_manyWhile (hr : Lasting read) : Lasting (manyWhile test read consumes) := by
  intro cursor hc more
  have hsees : ∀ {cursor : Cursor}, cursor.rest ≠ [] →
      (cursor.followedBy more).sees test = cursor.sees test := fun hc =>
    Cursor.sees_followedBy hc more test
  fun_induction manyWhile test read consumes cursor with
  | case1 cursor hs e after he =>
    have hend := hr hc more
    rw [he] at hend
    generalize hfound : read (cursor.followedBy more) = found at hend
    cases hend with
    | short _ hshort => exact .short _ hshort
    | error ho hrules =>
      rw [manyWhile_of_error ((hsees hc).trans hs) hfound]
      exact .error ho hrules
  | case2 cursor hs a middle he e final hm ih =>
    have hmiddle : middle.rest ≠ [] := by
      intro hempty
      rw [manyWhile_of_rest_eq_nil hempty] at hm
      cases hm
    have hend := hr hc more
    rw [he] at hend
    generalize hfound : read (cursor.followedBy more) = found at hend
    cases hend with
    | spent _ hempty => exact absurd hempty hmiddle
    | ok =>
      rw [manyWhile_of_read ((hsees hc).trans hs) hfound]
      have hih := ih hmiddle
      rw [hm] at hih
      generalize hmany : manyWhile test read consumes (middle.followedBy more) = found' at hih
      cases hih with
      | short _ hshort => exact .short _ hshort
      | error ho hrules =>
        rw [map_of_error hmany]
        exact .error ho hrules
  | case3 cursor hs a middle he others final hm ih =>
    by_cases hmiddle : middle.rest = []
    · rw [manyWhile_of_rest_eq_nil hmiddle] at hm
      cases hm
      exact .spent _ hmiddle
    have hend := hr hc more
    rw [he] at hend
    generalize hfound : read (cursor.followedBy more) = found at hend
    cases hend with
    | spent _ hempty => exact absurd hempty hmiddle
    | ok =>
      rw [manyWhile_of_read ((hsees hc).trans hs) hfound]
      have hih := ih hmiddle
      rw [hm] at hih
      generalize hmany : manyWhile test read consumes (middle.followedBy more) = found' at hih
      cases hih with
      | ok =>
        rw [map_of_ok hmany]
        exact .ok _ final
      | spent _ hempty => exact .spent _ hempty
  | case4 cursor hs =>
    rw [manyWhile_of_not_sees ((hsees hc).trans (Bool.eq_false_iff.mpr hs))]
    exact .ok [] cursor

theorem steady_manyWhile (hr : Lasting read) : Steady (manyWhile test read consumes) where
  lasting := lasting_manyWhile hr
  patient := fun cursor hc => .inl ⟨[], cursor, manyWhile_of_rest_eq_nil hc, hc⟩

end

end TokenReader

end DdlCatalog
