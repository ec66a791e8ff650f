import DdlCatalog.Proofs.Concatenation
import DdlCatalog.Proofs.LikeStatements
import DdlCatalog.Proofs.LiteralStrings

namespace DdlCatalog

namespace Token

def touches (a b : Token) : Bool :=
  a.kind == .string && b.kind == .string && a.stop == b.start

/-- Which neighbours are strings that touch. -/
def joints (tokens : List Token) : List Bool :=
  tokens.zipWith touches tokens.tail

def significant (tokens : List Token) : List Token :=
  tokens.filter (!·.isTrivia)

theorem content_eq_of_text_eq {a b : Token} (hk : a.kind = b.kind) (ht : a.text = b.text)
    (hs : a.kind = .string) : a.content = b.content := by
  rwa [text, text, ← hk, if_neg (by simp [hs]), if_neg (by simp [hs])] at ht

/-- Token lists that show the same kinds and texts, with the same strings touching. -/
inductive ReadAlike : List Token → List Token → Prop
  | nil : ReadAlike [] []
  | cons {a b as bs} : a.kind = b.kind → a.text = b.text →
      as.head?.any a.touches = bs.head?.any b.touches → ReadAlike as bs →
      ReadAlike (a :: as) (b :: bs)

theorem readAlike_of_joints {as bs : List Token}
    (hwords : List.Forall₂ (fun a b => a.kind = b.kind ∧ a.text = b.text) as bs)
    (hjoints : joints as = joints bs) : ReadAlike as bs := by
  induction hwords with
  | nil => exact .nil
  | @cons a b as bs hab hrest ih =>
    cases hrest with
    | nil => exact .cons hab.1 hab.2 rfl .nil
    | cons =>
      obtain ⟨htouch, hmore⟩ := List.cons.inj hjoints
      exact .cons hab.1 hab.2 htouch (ih hmore)

namespace ReadAlike

variable {as bs : List Token}

theorem length (h : ReadAlike as bs) : as.length = bs.length := by
  induction h with
  | nil => rfl
  | cons _ _ _ _ ih => rw [List.length_cons, List.length_cons, ih]

theorem take (h : ReadAlike as bs) (n : Nat) : ReadAlike (as.take n) (bs.take n) := by
  induction h generalizing n with
  | nil => simpa using .nil
  | cons hk ht htouch _ ih =>
    cases n with
    | zero => exact .nil
    | succ n =>
      refine .cons hk ht ?_ (ih n)
      rw [List.head?_take, List.head?_take]
      split
      · rfl
      · exact htouch

theorem stop_eq_start_iff {a b c d : Token} (h : ReadAlike (a :: c :: as) (b :: d :: bs))
    (ha : a.kind = .string) (hc : c.kind = .string) : a.stop = c.start ↔ b.stop = d.start := by
  cases h with
  | cons hk _ htouch hrest =>
    cases hrest with
    | cons hk' =>
      have hb : b.kind = .string := hk ▸ ha
      have hd : d.kind = .string := hk' ▸ hc
      simpa [touches, ha, hb, hc, hd] using htouch

theorem touchingStrings_eq (h : ReadAlike as bs) : touchingStrings as = touchingStrings bs := by
  induction h with
  | nil => rfl
  | @cons a b as bs hk ht htouch hrest ih =>
    have hall := ReadAlike.cons hk ht htouch hrest
    cases hrest with
    | nil =>
      rw [touchingStrings, touchingStrings, hk]
      rfl
    | @cons c d as bs hk' =>
      rw [touchingStrings_cons_cons, touchingStrings_cons_cons, ← hk, ← hk', ih]
      by_cases hstrings : a.kind = .string ∧ c.kind = .string
      · simp only [hall.stop_eq_start_iff hstrings.1 hstrings.2]
      · grind

theorem literal?_eq (h : ReadAlike as bs) : literal? as = literal? bs := by
  induction h with
  | nil => rfl
  | @cons a b as bs hk ht htouch hrest ih =>
    have hall := ReadAlike.cons hk ht htouch hrest
    by_cases ha : a.kind = .string
    · have hcontent := content_eq_of_text_eq hk ht ha
      cases hrest with
      | nil =>
        rw [literal?, literal?, hk, hcontent]
        rfl
      | @cons c d as bs hk' =>
        rw [literal?_cons_cons, literal?_cons_cons, ← hk, hcontent, ih]
        by_cases hc : c.kind = .string
        · simp only [hall.stop_eq_start_iff ha hc]
        · have hnone : literal? (d :: bs) = none := if_neg (hk' ▸ hc)
          rw [hnone, Option.map_none, ite_self, ite_self]
    · rw [literal?, literal?, if_neg ha, if_neg (hk ▸ ha)]

end ReadAlike

theorem likeness_readAlike : Likeness Eq Eq ReadAlike where
  length := fun _ _ h => h.length
  head := by
    rintro a b as bs (_ | ⟨hk, ht⟩)
    exact ⟨hk, fun _ => ht, content_eq_of_text_eq hk ht⟩
  tail := by
    rintro a b as bs (_ | ⟨_, _, _, h⟩)
    exact h
  take := fun _ _ n h => h.take n
  run := fun _ _ h => h.touchingStrings_eq
  literal := by
    intro as bs h
    rw [h.literal?_eq]
    cases literal? bs with
    | none => exact .none
    | some text => exact .some rfl
  same := fun _ => rfl
  valued := fun _ _ => id
  qualified := by
    rintro a _ c _ rfl rfl
    rfl

end Token

namespace Schema

theorem ofStatements_origin (origin origin' : Origin) (statements : List Statement) :
    ofStatements origin' statements =
      { ofStatements origin statements with origin := origin' } := by
  have hfold : ∀ schema : Schema,
      statements.foldl Statement.addTo { schema with origin := origin' } =
        { statements.foldl Statement.addTo schema with origin := origin' } := by
    induction statements with
    | nil => exact fun _ => rfl
    | cons statement statements ih =>
      intro schema
      have hstep : statement.addTo { schema with origin := origin' } =
          { statement.addTo schema with origin := origin' } := by
        cases statement <;> rfl
      rw [List.foldl_cons, hstep, ih, List.foldl_cons]
  exact hfold (.empty origin)

theorem ofTokens_readAlike {tokens others : List Token}
    (h : Token.ReadAlike (Token.significant tokens) (Token.significant others))
    (origin origin' : Origin) :
    (∃ e e', ofTokens tokens origin = .error e ∧ ofTokens others origin' = .error e' ∧
      e.obstacle = e'.obstacle ∧ e.rules = e'.rules) ∨
    ∃ schema, ofTokens tokens origin = .ok schema ∧ schema.origin = origin ∧
      ofTokens others origin' = .ok { schema with origin := origin' } := by
  change (∃ e e', (Grammar.script (Token.significant tokens)).map _ = _ ∧
      (Grammar.script (Token.significant others)).map _ = _ ∧ _) ∨
    ∃ schema, (Grammar.script (Token.significant tokens)).map _ = _ ∧ _ ∧
      (Grammar.script (Token.significant others)).map _ = _
  rcases Grammar.script_like Token.likeness_readAlike h with
    ⟨e, e', he, he', ho, hr⟩ | ⟨statements, statements', hs, hs', hall⟩
  · rw [he, he']
    exact .inl ⟨e, e', rfl, rfl, ho, hr⟩
  · rw [hs, hs']
    refine .inr ⟨_, rfl, origin_ofStatements origin statements, congrArg Except.ok ?_⟩
    rw [← ofStatements_origin]
    exact (foldl_addTo_like Token.likeness_readAlike hall _).symm

/-- Token lists of the same words, in which the same strings touch, describe the same catalogue but
for its origin, or fail in the same rules for the same reason. Layout and comments between the
words, and the places of the words, make no difference. -/
theorem ofTokens_any_layout {tokens others : List Token}
    (hwords : (Token.significant tokens).map (fun token => (token.kind, token.content)) =
      (Token.significant others).map fun token => (token.kind, token.content))
    (hjoints : Token.joints (Token.significant tokens) = Token.joints (Token.significant others))
    (origin origin' : Origin) :
    (∃ e e', ofTokens tokens origin = .error e ∧ ofTokens others origin' = .error e' ∧
      e.fault.rootCause.SameButPlace e'.fault.rootCause ∧ e.rules = e'.rules) ∨
    ∃ schema, ofTokens tokens origin = .ok schema ∧ schema.origin = origin ∧
      ofTokens others origin' = .ok { schema with origin := origin' } := by
  have htexts : List.Forall₂ (fun a b : Token => a.kind = b.kind ∧ a.text = b.text)
      (Token.significant tokens) (Token.significant others) := by
    rw [← List.forall₂_eq_eq_eq, List.forall₂_map_left_iff, List.forall₂_map_right_iff] at hwords
    refine hwords.imp fun a b hab => ?_
    obtain ⟨hk, hc⟩ := Prod.mk.inj hab
    exact ⟨hk, by rw [Token.text, Token.text, hk, hc]⟩
  rcases ofTokens_readAlike (Token.readAlike_of_joints htexts hjoints) origin origin' with
    ⟨e, e', he, he', ho, hr⟩ | hok
  · refine .inl ⟨e, e', he, he', ?_, hr⟩
    rw [ParseError.rootCause_fault, ParseError.rootCause_fault, ho]
    exact Obstacle.sameButPlace_cause _ _ _
  · exact .inr hok

theorem ofTokens_any_layout_literal :
    let body : List Token :=
      [⟨"ON", .keyword, 8, 10, 1, 1⟩, ⟨"TABLE", .keyword, 11, 16, 1, 1⟩,
       ⟨"T", .string, 17, 20, 1, 1⟩, ⟨"IS", .keyword, 21, 23, 1, 1⟩,
       ⟨"it", .string, 24, 28, 1, 1⟩, ⟨"s", .string, 28, 31, 1, 1⟩]
    let tokens := ⟨"COMMENT", .keyword, 0, 7, 1, 1⟩ :: (body ++ [⟨";", .symbol, 31, 32, 1, 1⟩])
    let others : List Token :=
      ⟨"--", .comment, 0, 2, 1, 1⟩ :: ⟨"\n", .newline, 2, 3, 1, 2⟩ ::
        tokens.map fun token => { token with start := token.start + 3, stop := token.stop + 3 }
    (Token.significant tokens).map (fun token => (token.kind, token.content)) =
      (Token.significant others).map (fun token => (token.kind, token.content)) ∧
    Token.joints (Token.significant tokens) = Token.joints (Token.significant others) ∧
    ∃ schema, ofTokens tokens .oracle = .ok schema ∧ schema.comments = [⟨"TABLE", "T", "it's"⟩] ∧
      ofTokens others .unknown = .ok { schema with origin := .unknown } := by
  intro body tokens others
  have hread : ofTokens tokens .oracle =
      .ok ⟨.oracle, .empty, [], [⟨"TABLE", "T", "it's"⟩], []⟩ := by
    have hbody : Syntax.Body (body ++ [⟨";", .symbol, 31, 32, 1, 1⟩]) body :=
      .mk (by decide) (by decide) rfl
    have hsentence : Syntax.Sentence tokens (.comment body) := .comment rfl hbody
    have hscript : Syntax.Script tokens [.comment body] := Syntax.Many.cons hsentence .nil
    have hkept : tokens.filter (!·.isTrivia) = tokens := rfl
    rw [ofTokens, ofSignificant, hkept, Grammar.script_eq_ok_iff.mpr hscript]
    rfl
  refine ⟨rfl, rfl, ?_⟩
  rcases @ofTokens_any_layout tokens others rfl rfl .oracle .unknown with
    ⟨e, e', he, -⟩ | ⟨schema, hs, -, hs'⟩
  · rw [hread] at he
    cases he
  · obtain rfl := Except.ok.inj (hread.symm.trans hs)
    exact ⟨_, hs, rfl, hs'⟩

end Schema

end DdlCatalog
