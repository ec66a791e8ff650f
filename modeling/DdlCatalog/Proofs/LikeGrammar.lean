import DdlCatalog.Grammar.Statement
import DdlCatalog.Proofs.LikeReaders
import Mathlib.Data.Option.Basic

namespace DdlCatalog

/-- Columns that differ in names and literals that stand for each other. -/
structure Column.Like (Named Valued : String → String → Prop) (a b : Column) : Prop where
  name : Named a.name b.name
  type : a.type = b.type
  defaultValue : Option.Rel Valued a.defaultValue b.defaultValue
  position : a.position = b.position
  nullable : a.nullable = b.nullable
  primaryKey : a.primaryKey = b.primaryKey

/-- Statements that differ in names and default values, or hold bodies of alike tokens. -/
inductive Statement.Like (Named Valued : String → String → Prop)
    (Alike : List Token → List Token → Prop) : Statement → Statement → Prop
  | directive (content) : Like Named Valued Alike (.directive content) (.directive content)
  | grant {as bs} : Alike as bs → Like Named Valued Alike (.grant as) (.grant bs)
  | comment {as bs} : Alike as bs → Like Named Valued Alike (.comment as) (.comment bs)
  | table {name name' columns columns'} : Named name name' →
      List.Forall₂ (Column.Like Named Valued) columns columns' →
      Like Named Valued Alike (.table ((Table.named name).pushAll columns))
        (.table ((Table.named name').pushAll columns'))

theorem Column.Like.mark {Named Valued : String → String → Prop} {a b : Column}
    (h : a.Like Named Valued b) (mark : ColumnMark) :
    (a.mark mark).Like Named Valued (b.mark mark) := by
  obtain ⟨hn, ht, hd, hp, hnull, hkey⟩ := h
  cases mark <;> exact ⟨hn, ht, hd, hp, by simp_all [Column.mark], by simp_all [Column.mark]⟩

theorem Column.Like.marks {Named Valued : String → String → Prop} {a b : Column}
    (h : a.Like Named Valued b) (marks : List ColumnMark) :
    (marks.foldl Column.mark a).Like Named Valued (marks.foldl Column.mark b) := by
  induction marks generalizing a b with
  | nil => exact h
  | cons mark marks ih => exact ih (h.mark mark)

namespace Grammar

open TokenReader

variable {Named Valued : String → String → Prop} {Alike : List Token → List Token → Prop}

theorem agree_number {a b : Token} (h : a.Like Named b) (hk : a.kind = .int) :
    Agree Alike Eq (number a) (number b) := by
  have hc := h.content (by simp [hk]) (by simp [hk])
  unfold number DataType.number?
  rw [hc]
  cases Text.word? (Text.withoutPlus b.content.toList) with
  | none => exact agree_fail _ _
  | some n => exact agree_pure rfl

theorem agree_lead {a b : Token} (h : a.Like Named b) : Agree Alike Eq (lead a) (lead b) := by
  refine .ite (by rw [h.kind]) (fun hk => ?_) fun _ => agree_pure rfl
  exact (agree_number h hk).map fun _ _ he => congrArg some he

theorem agree_scale (like : Likeness Named Valued Alike) {as bs : List Token} (h : Alike as bs) :
    Agree Alike Eq (scale as) (scale bs) := by
  have hlen := like.length h
  rcases as with _ | ⟨first, _ | ⟨comma, _ | ⟨token, more⟩⟩⟩ <;>
    rcases bs with _ | ⟨first', _ | ⟨comma', _ | ⟨token', more'⟩⟩⟩ <;>
    simp only [List.length_cons, List.length_nil] at hlen <;> try omega
  -- fewer than three parameters hold no scale
  · exact agree_pure rfl
  · exact agree_pure rfl
  · exact agree_pure rfl
  · have hcomma := like.head (like.tail h)
    have htoken := like.head (like.tail (like.tail h))
    refine .ite (by rw [hcomma.isSymbol_eq, htoken.kind]) (fun hk => ?_) fun _ => agree_pure rfl
    exact (agree_number htoken hk.2).map fun _ _ he => congrArg some he

theorem agree_withParameters (like : Likeness Named Valued Alike) (type : DataType)
    {as bs : List Token} (h : Alike as bs) :
    Agree Alike Eq (withParameters type as) (withParameters type bs) := by
  obtain ⟨rfl, rfl⟩ | ⟨a, as, b, bs, rfl, rfl, hhead⟩ := like.split h
  · exact agree_pure rfl
  · refine .ite (by rw [hhead.kind, hhead.isSymbol_eq]) (fun _ => ?_) fun _ => agree_pure rfl
    refine (agree_lead hhead).bind ?_
    rintro n _ rfl
    refine .ite Iff.rfl (fun _ => agree_pure rfl) fun _ => ?_
    refine (agree_scale like h).bind ?_
    rintro s _ rfl
    exact agree_pure rfl

theorem agree_typeName (like : Likeness Named Valued Alike) : Agree Alike Eq typeName typeName := by
  refine (agree_take like .keyword .columnType).bind ?_
  rintro a b ⟨h, hk⟩
  dsimp only
  rw [h.upper (by simp [hk])]
  cases DataType.secondWord? (Text.upper b.content) with
  | none => exact agree_pure rfl
  | some second =>
    refine (agree_ignoreText like (by decide) second).bind ?_
    rintro b _ rfl
    exact .ite Iff.rfl (fun _ => agree_pure rfl) fun _ => agree_pure rfl

theorem agree_typeParameters (like : Likeness Named Valued Alike) (type : DataType) :
    Agree Alike Eq (typeParameters type) (typeParameters type) := by
  refine (agree_ignoreText like (by decide) "(").bind ?_
  rintro b _ rfl
  refine .ite Iff.rfl (fun _ => ?_) fun _ => agree_pure rfl
  refine (agree_tokensBefore like (by decide) ")" typeParameterLimit).bind fun as bs h => ?_
  refine (agree_withParameters like type h).bind ?_
  rintro numbered _ rfl
  rw [like.length h]
  refine (agree_skip like bs.length).bind fun _ _ _ => ?_
  exact (agree_expect like (by decide) ")").bind fun _ _ _ => agree_pure rfl

theorem agree_timeZone (like : Likeness Named Valued Alike) (type : DataType) :
    Agree Alike Eq (timeZone type) (timeZone type) := by
  refine .ite Iff.rfl (fun _ => ?_) fun _ => agree_pure rfl
  refine (agree_ignoreText like (by decide) "WITH").bind ?_
  rintro b _ rfl
  refine .ite Iff.rfl (fun _ => ?_) fun _ => agree_pure rfl
  refine (agree_ignoreText like (by decide) "LOCAL").bind ?_
  rintro isLocal _ rfl
  refine (agree_expect like (by decide) "TIME").bind fun _ _ _ => ?_
  exact (agree_expect like (by decide) "ZONE").bind fun _ _ _ => agree_pure rfl

theorem agree_dataType (like : Likeness Named Valued Alike) : Agree Alike Eq dataType dataType := by
  refine (agree_typeName like).bind ?_
  rintro name _ rfl
  refine (agree_typeParameters like (.plain name)).bind ?_
  rintro type _ rfl
  exact agree_timeZone like type

theorem agree_defaultValue (like : Likeness Named Valued Alike) :
    Agree Alike Valued defaultValue defaultValue := by
  refine (agree_hasKind like .string).bind ?_
  rintro b _ rfl
  refine .ite Iff.rfl (fun _ => ?_) fun _ => ?_
  · refine (agree_lookahead like statementLimit).bind fun window window' hw => ?_
    rw [like.run hw]
    refine (agree_peekMany like _).bind fun as bs h => ?_
    have hl := like.literal h
    generalize Token.literal? as = literal at hl ⊢
    generalize Token.literal? bs = literal' at hl ⊢
    cases hl with
    | some hn => exact (agree_skip like _).bind fun _ _ _ => agree_pure hn
    | none => exact agree_fail _ _
  · refine (agree_hasKindIn like _).bind ?_
    rintro b _ rfl
    refine .ite Iff.rfl (fun _ => ?_) fun _ => agree_fail _ _
    exact (agree_next like).bind fun _ _ h => agree_pure (h.valued_text like.valued like.same)

theorem agree_columnDefault (like : Likeness Named Valued Alike) :
    Agree Alike (Option.Rel Valued) columnDefault columnDefault := by
  refine (agree_ignoreText like (by decide) "DEFAULT").bind ?_
  rintro b _ rfl
  refine .ite Iff.rfl (fun _ => ?_) fun _ => agree_pure .none
  exact ((agree_defaultValue like).during _).map fun _ _ h => .some h

theorem blind_opensColumnMark : Blind Named opensColumnMark := by
  intro a b h
  have hwords : silentWords.any a.isKeyword = silentWords.any b.isKeyword :=
    congrArg silentWords.any (funext h.isKeyword_eq)
  simp only [opensColumnMark, h.isKeyword_eq, hwords]

theorem agree_columnMark (like : Likeness Named Valued Alike) :
    Agree Alike Eq columnMark columnMark := by
  refine (agree_next like).bind fun a b h => ?_
  refine .ite (by rw [h.isKeyword_eq]) (fun _ => ?_) fun _ => ?_
  · exact (agree_expect like (by decide) "NULL").bind fun _ _ _ => agree_pure rfl
  refine .ite (by rw [h.isKeyword_eq]) (fun _ => agree_pure rfl) fun _ => ?_
  refine .ite (by rw [h.isKeyword_eq]) (fun _ => ?_) fun _ => ?_
  · exact (agree_expect like (by decide) "KEY").bind fun _ _ _ => agree_pure rfl
  refine .ite (by rw [h.isKeyword_eq]) (fun _ => ?_) fun _ => agree_pure rfl
  exact (agree_take like .string .constraintName).bind fun _ _ _ => agree_pure rfl

theorem agree_columnMarks (like : Likeness Named Valued Alike) :
    Agree Alike (List.Forall₂ Eq) columnMarks columnMarks :=
  agree_manyWhile like blind_opensColumnMark (agree_columnMark like)

theorem agree_column (like : Likeness Named Valued Alike) :
    Agree Alike (Column.Like Named Valued) column column := by
  refine (agree_take like .string .columnName).bind ?_
  rintro name name' ⟨hname, hk⟩
  refine ((agree_dataType like).during _).bind ?_
  rintro type _ rfl
  refine (agree_columnDefault like).bind fun value value' hvalue => ?_
  refine ((agree_columnMarks like).during _).bind fun marks marks' hmarks => ?_
  obtain rfl := List.forall₂_eq_eq_eq ▸ hmarks
  refine agree_pure (Column.Like.marks ?_ marks)
  exact ⟨hname.name hk, rfl, hvalue, rfl, rfl, rfl⟩

theorem elementLength?_eq (like : Likeness Named Valued Alike) (depth : Nat) {as bs : List Token}
    (h : Alike as bs) : elementLength? depth as = elementLength? depth bs := by
  induction as generalizing depth bs with
  | nil => rw [List.length_eq_zero_iff.mp (like.length h).symm]
  | cons a as ih =>
    obtain ⟨⟨⟩, _⟩ | ⟨_, _, b, bs, ⟨⟩, rfl, hhead⟩ := like.split h
    cases depth <;> simp only [elementLength?, hhead.isSymbol_eq, ih _ (like.tail h)]

theorem agree_tableConstraint (like : Likeness Named Valued Alike) :
    Agree Alike Eq tableConstraint tableConstraint := by
  refine (agree_lookahead like statementLimit).bind fun window window' hw => ?_
  rw [elementLength?_eq like 0 hw]
  cases elementLength? 0 window' with
  | none => exact agree_fail _ _
  | some n => exact agree_skip like n

theorem blind_opensTableConstraint : Blind Named opensTableConstraint := by
  intro a b h
  exact congrArg tableConstraintWords.any (funext h.isKeyword_eq)

theorem agree_element (like : Likeness Named Valued Alike) :
    Agree Alike (Option.Rel (Column.Like Named Valued)) element element := by
  refine (agree_sees like blind_opensTableConstraint).bind ?_
  rintro b _ rfl
  refine .ite Iff.rfl (fun _ => ?_) fun _ => ?_
  · exact ((agree_tableConstraint like).during _).bind fun _ _ _ => agree_pure .none
  · exact ((agree_column like).during _).map fun _ _ h => .some h

theorem agree_nextElement (like : Likeness Named Valued Alike) :
    Agree Alike (Option.Rel (Column.Like Named Valued)) nextElement nextElement :=
  (agree_skip like 1).bind fun _ _ _ => agree_element like

theorem like_filterMap {items items' : List (Option Column)}
    (h : List.Forall₂ (Option.Rel (Column.Like Named Valued)) items items') :
    List.Forall₂ (Column.Like Named Valued) (items.filterMap id) (items'.filterMap id) := by
  induction h with
  | nil => exact .nil
  | cons hitem _ ih =>
    cases hitem with
    | some hcolumn => exact .cons hcolumn ih
    | none => simpa using ih

theorem agree_columnList (like : Likeness Named Valued Alike) :
    Agree Alike (List.Forall₂ (Column.Like Named Valued)) columnList columnList := by
  refine (agree_expect like (by decide) "(").bind fun _ _ _ => ?_
  refine (agree_element like).bind fun first first' hfirst => ?_
  refine (agree_manyWhile like (fun _ _ h => h.is_eq (by decide) ",") (agree_nextElement like)).bind
    fun others others' hothers => ?_
  refine (agree_expect like (by decide) ")").bind fun _ _ _ => ?_
  exact agree_pure (like_filterMap (.cons hfirst hothers))

theorem agree_body (like : Likeness Named Valued Alike) : Agree Alike Alike body body := by
  refine (agree_tokensBefore like (by decide) ";" statementLimit).bind fun as bs h => ?_
  rw [like.length h]
  exact (agree_skip like _).bind fun _ _ _ => agree_pure h

theorem agree_qualifiedName (like : Likeness Named Valued Alike) :
    Agree Alike Named qualifiedName qualifiedName := by
  refine (agree_take like .string .tableName).bind ?_
  rintro first first' ⟨hfirst, hk⟩
  refine (agree_ignoreText like (by decide) ".").bind ?_
  rintro b _ rfl
  refine .ite Iff.rfl (fun _ => ?_) fun _ => agree_pure (hfirst.name hk)
  refine (agree_take like .string .qualifiedName).bind ?_
  rintro second second' ⟨hsecond, hk'⟩
  exact agree_pure (like.qualified (hfirst.name hk) (hsecond.name hk'))

theorem agree_creation (like : Likeness Named Valued Alike) :
    Agree Alike (fun t u => Statement.Like Named Valued Alike (.table t) (.table u)) creation
      creation := by
  refine (agree_skip like 1).bind fun _ _ _ => (agree_hasText like (by decide) "TABLE").bind ?_
  rintro b _ rfl
  refine .ite Iff.rfl (fun _ => ?_) fun _ => agree_fail _ _
  refine Agree.during _ ((agree_skip like 1).bind fun _ _ _ => ?_)
  refine ((agree_qualifiedName like).during _).bind fun name name' hname => ?_
  refine ((agree_columnList like).during _).bind fun columns columns' hcolumns => ?_
  exact ((agree_body like).during _).bind fun _ _ _ => agree_pure (.table hname hcolumns)

theorem agree_bodyAfter (like : Likeness Named Valued Alike) :
    Agree Alike Alike (skip 1 >>= fun _ => body) (skip 1 >>= fun _ => body) :=
  (agree_skip like 1).bind fun _ _ _ => agree_body like

theorem statement_cons (token : Token) (index : Nat) (rest : List Token) :
    statement ⟨index, token :: rest⟩ =
      (if token.isKeyword "CREATE" then .table <$> during .createStatement creation
      else if token.isKeyword "GRANT" then
        .grant <$> during .grantStatement (skip 1 >>= fun _ => body)
      else if token.isKeyword "COMMENT" then
        .comment <$> during .commentStatement (skip 1 >>= fun _ => body)
      else if token.kind = .directive then return .directive (← next).content
      else fail (.unexpected .statement) : TokenReader Statement) ⟨index, token :: rest⟩ :=
  rfl

theorem agree_statement (like : Likeness Named Valued Alike) :
    Agree Alike (Statement.Like Named Valued Alike) statement statement := by
  rintro ⟨i, as⟩ ⟨j, bs⟩ hc
  obtain ⟨rfl, rfl⟩ | ⟨a, as, b, bs, rfl, rfl, hhead⟩ := like.split hc
  · exact .error rfl rfl
  rw [statement_cons, statement_cons]
  by_cases hd : a.kind = .directive
  · have hn : ∀ word, a.isKeyword word = false := fun word =>
      Token.not_isKeyword (by simp [hd])
    have hn' : ∀ word, b.isKeyword word = false := fun word =>
      (hhead.isKeyword_eq word).symm.trans (hn word)
    simp only [hn, hn', hd, ← hhead.kind, Bool.false_eq_true, if_false, if_true]
    have hcontent := hhead.content (by simp [hd]) (by simp [hd])
    exact .ok (hcontent ▸ .directive a.content) (like.tail hc)
  · refine Agree.ite (by rw [hhead.isKeyword_eq]) (fun _ => ?_) (fun _ => ?_) hc
    · exact ((agree_creation like).during _).map fun _ _ h => h
    refine Agree.ite (by rw [hhead.isKeyword_eq]) (fun _ => ?_) fun _ => ?_
    · exact ((agree_bodyAfter like).during _).map fun _ _ h => .grant h
    refine Agree.ite (by rw [hhead.isKeyword_eq]) (fun _ => ?_) fun _ => ?_
    · exact ((agree_bodyAfter like).during _).map fun _ _ h => .comment h
    · exact Agree.ite (by rw [hhead.kind]) (fun hk => absurd hk hd) fun _ => agree_fail _ _

/-- Alike tokens are both no script, for one reason, or scripts whose statements stand for each
other. -/
theorem script_like (like : Likeness Named Valued Alike) {as bs : List Token} (h : Alike as bs) :
    (∃ e e', script as = .error e ∧ script bs = .error e' ∧ e.obstacle = e'.obstacle ∧
      e.rules = e'.rules) ∨
    ∃ statements statements', script as = .ok statements ∧ script bs = .ok statements' ∧
      List.Forall₂ (Statement.Like Named Valued Alike) statements statements' := by
  have hagree :
      Agree Alike (List.Forall₂ (Statement.Like Named Valued Alike)) statements statements :=
    agree_manyWhile like (fun _ _ _ => rfl) (agree_statement like)
  have hend := @hagree (.start as) (.start bs) h
  generalize hfound : statements (.start as) = found at hend
  generalize hfound' : statements (.start bs) = found' at hend
  cases hend with
  | ok hs _ => exact .inr ⟨_, _, script_of_ok hfound, script_of_ok hfound', hs⟩
  | error ho hr => exact .inl ⟨_, _, script_of_error hfound, script_of_error hfound', ho, hr⟩

end Grammar

end DdlCatalog
