import DdlCatalog.Proofs.Diagnosis
import DdlCatalog.Proofs.LikeStatements
import DdlCatalog.Proofs.Renaming
import DdlCatalog.Proofs.ScriptSyntax

namespace DdlCatalog

namespace Token

/-- Tokens of one kind at one place, which show the same text unless they are strings. -/
structure SameOutsideQuotes (a b : Token) : Prop where
  kind : a.kind = b.kind
  start : a.start = b.start
  stop : a.stop = b.stop
  firstLine : a.firstLine = b.firstLine
  lastLine : a.lastLine = b.lastLine
  content : a.kind ≠ .string → a.content = b.content

/-- Tokens that show the same text, or strings with texts that correspond. -/
def Requoted (Word : String → String → Prop) (a b : Token) : Prop :=
  a.SameOutsideQuotes b ∧ (a.kind = .string → Word a.content b.content)

variable {Word : String → String → Prop}

theorem Requoted.like {Named : String → String → Prop} {a b : Token}
    (word : ∀ ⦃x y⦄, Word x y → Named x y) (h : Requoted Word a b) : a.Like Named b where
  kind := h.1.kind
  text := fun hs => by rw [text, text, ← h.1.kind, h.1.content hs]
  name := fun hs => word (h.2 hs)

theorem touchingFrom_requoted {as bs : List Token} (h : List.Forall₂ (Requoted Word) as bs)
    (stop : Nat) : touchingFrom stop as = touchingFrom stop bs := by
  induction h generalizing stop with
  | nil => rfl
  | cons hab _ ih => rw [touchingFrom, touchingFrom, hab.1.kind, hab.1.start, hab.1.stop, ih]

theorem touchingStrings_requoted {as bs : List Token} (h : List.Forall₂ (Requoted Word) as bs) :
    touchingStrings as = touchingStrings bs := by
  cases h with
  | nil => rfl
  | cons hab hrest =>
    rw [touchingStrings, touchingStrings, hab.1.kind, hab.1.stop, touchingFrom_requoted hrest]

theorem continued?_requoted {as bs : List Token} (h : List.Forall₂ (Requoted Word) as bs)
    (stop : Nat) : (continued? stop as).isSome = (continued? stop bs).isSome := by
  induction h generalizing stop with
  | nil => rfl
  | cons hab _ ih =>
    rw [continued?, continued?, hab.1.kind, hab.1.start, hab.1.stop]
    split
    · rw [Option.isSome_map, Option.isSome_map, ih]
    · rfl

theorem literal?_requoted {as bs : List Token} (h : List.Forall₂ (Requoted Word) as bs) :
    (literal? as).isSome = (literal? bs).isSome := by
  cases h with
  | nil => rfl
  | cons hab hrest =>
    rw [literal?, literal?, hab.1.kind, hab.1.stop]
    split
    · rw [Option.isSome_map, Option.isSome_map, continued?_requoted hrest]
    · rfl

end Token

theorem likeness_requoted {Word Named : String → String → Prop}
    (word : ∀ ⦃a b⦄, Word a b → Named a b)
    (qualified : ∀ ⦃a b c d⦄, Named a b → Named c d → Named (a ++ "." ++ c) (b ++ "." ++ d)) :
    Likeness Named (fun _ _ => True) (List.Forall₂ (Token.Requoted Word)) where
  length := fun _ _ h => h.length_eq
  head := fun _ _ _ _ h => by cases h with | cons hab _ => exact hab.like word
  tail := fun _ _ _ _ h => by cases h with | cons _ hrest => exact hrest
  take := fun _ _ n h => List.forall₂_take n h
  run := fun _ _ h => Token.touchingStrings_requoted h
  literal := by
    intro as bs h
    have hsome := Token.literal?_requoted h
    cases hl : Token.literal? as <;> cases hl' : Token.literal? bs <;> rw [hl, hl'] at hsome
    · exact .none
    · cases hsome
    · cases hsome
    · exact .some trivial
  same := fun _ => trivial
  valued := fun _ _ _ => trivial
  qualified := qualified

section

variable {Named Valued : String → String → Prop} {Alike : List Token → List Token → Prop}
  {as bs : List Token}

/-- Catalogues that include the same scripts and hold as many grants, and comments on objects of the
same kinds. -/
structure Schema.SameOutline (first second : Schema) : Prop where
  includes : first.includes = second.includes
  grants : first.grants.length = second.grants.length
  comments : first.comments.map Comment.kind = second.comments.map Comment.kind

theorem Schema.SameOutline.addTo (like : Likeness Named Valued Alike) {first second : Schema}
    (h : first.SameOutline second) {statement statement' : Statement}
    (hs : Statement.Like Named Valued Alike statement statement') :
    (statement.addTo first).SameOutline (statement'.addTo second) := by
  obtain ⟨hi, hg, hc⟩ := h
  cases hs with
  | directive content => exact ⟨by simp [Statement.addTo, hi], hg, hc⟩
  | @grant as bs hb =>
    have hgrant : Option.Rel (Grant.Like fun _ _ => True) (Grant.ofBody? as) (Grant.ofBody? bs) :=
      Grant.ofBody?_like like (fun _ _ _ => trivial) hb
    refine ⟨hi, ?_, hc⟩
    simp only [Statement.addTo, List.length_append, hg]
    generalize Grant.ofBody? as = found at hgrant ⊢
    generalize Grant.ofBody? bs = found' at hgrant ⊢
    cases hgrant <;> rfl
  | @comment as bs hb =>
    have hcomment : Option.Rel (Comment.Like (fun _ _ => True) Valued) (Comment.ofBody? as)
        (Comment.ofBody? bs) :=
      Comment.ofBody?_like like (fun _ _ _ => trivial) hb
    refine ⟨hi, hg, ?_⟩
    simp only [Statement.addTo, List.map_append, hc]
    generalize Comment.ofBody? as = found at hcomment ⊢
    generalize Comment.ofBody? bs = found' at hcomment ⊢
    cases hcomment with
    | none => rfl
    | some h => rw [Option.toList_some, Option.toList_some, List.map_singleton,
        List.map_singleton, h.kind]
  | table => exact ⟨hi, hg, hc⟩

theorem Schema.sameOutline_ofStatements (like : Likeness Named Valued Alike)
    {statements statements' : List Statement}
    (h : List.Forall₂ (Statement.Like Named Valued Alike) statements statements')
    (origin : Origin) :
    (ofStatements origin statements).SameOutline (ofStatements origin statements') := by
  have hfold : ∀ first second : Schema, first.SameOutline second →
      (statements.foldl Statement.addTo first).SameOutline
        (statements'.foldl Statement.addTo second) := by
    induction h with
    | nil => exact fun _ _ hs => hs
    | cons hab _ ih => exact fun first second hs => ih _ _ (hs.addTo like hab)
  exact hfold _ _ ⟨rfl, rfl, rfl⟩

/-- Tables under corresponding names, with columns that say the same under corresponding names. -/
structure Table.Renamed (Named Valued : String → String → Prop) (a b : Table) : Prop where
  name : Named a.name b.name
  columns : a.columns.Renamed Named (Column.Like Named Valued) b.columns

theorem Table.Renamed.push (hn : Relator.BiUnique Named) {a b : Table}
    (h : a.Renamed Named Valued b) {c d : Column} (hcd : c.Like Named Valued d) :
    (a.push c).Renamed Named Valued (b.push d) :=
  ⟨h.name, h.columns.insert hn hcd.name { hcd with position := h.columns.size_eq }⟩

theorem Table.Renamed.pushAll (hn : Relator.BiUnique Named) {columns columns' : List Column}
    (hc : List.Forall₂ (Column.Like Named Valued) columns columns') {a b : Table}
    (h : a.Renamed Named Valued b) :
    (a.pushAll columns).Renamed Named Valued (b.pushAll columns') := by
  induction hc generalizing a b with
  | nil => exact h
  | cons hcd _ ih => exact ih (h.push hn hcd)

theorem Schema.renamed_ofStatements (hn : Relator.BiUnique Named)
    {statements statements' : List Statement}
    (h : List.Forall₂ (Statement.Like Named Valued Alike) statements statements')
    (origin : Origin) :
    (ofStatements origin statements).tables.Renamed Named (Table.Renamed Named Valued)
      (ofStatements origin statements').tables := by
  have hfold : ∀ first second : Schema,
      first.tables.Renamed Named (Table.Renamed Named Valued) second.tables →
      (statements.foldl Statement.addTo first).tables.Renamed Named (Table.Renamed Named Valued)
        (statements'.foldl Statement.addTo second).tables := by
    induction h with
    | nil => exact fun _ _ hs => hs
    | cons hab _ ih =>
      intro first second hs
      refine ih _ _ ?_
      cases hab with
      | @table name name' columns columns' hname hcolumns =>
        have htable : ((Table.named name).pushAll columns).Renamed Named Valued
            ((Table.named name').pushAll columns') := .pushAll hn hcolumns ⟨hname, .empty⟩
        exact hs.insert hn htable.name htable
      | _ => exact hs
  exact hfold _ _ .empty

end

/-- What a column says, apart from its name and the text of its default value. -/
def Column.facts (column : Column) : Nat × DataType × Bool × Bool × Bool :=
  (column.position, column.type, column.nullable, column.primaryKey, column.defaultValue.isSome)

def Schema.columnFacts (schema : Schema) : List (Nat × DataType × Bool × Bool × Bool) :=
  schema.tables.values.flatMap fun table => table.columns.values.map Column.facts

theorem Column.Like.facts_eq {Named Valued : String → String → Prop} {a b : Column}
    (h : a.Like Named Valued b) : a.facts = b.facts := by
  have hdefault : a.defaultValue.isSome = b.defaultValue.isSome := by
    have hvalue := h.defaultValue
    generalize a.defaultValue = value at hvalue ⊢
    generalize b.defaultValue = value' at hvalue ⊢
    cases hvalue <;> rfl
  rw [facts, facts, h.position, h.type, h.nullable, h.primaryKey, hdefault]

theorem Schema.columnFacts_perm {Named Valued : String → String → Prop} {first second : Schema}
    (h : first.tables.Renamed Named (Table.Renamed Named Valued) second.tables) :
    first.columnFacts.Perm second.columnFacts := by
  refine h.flatMap_perm fun a b hab => ?_
  rw [List.map_eq_flatMap, List.map_eq_flatMap]
  exact hab.columns.flatMap_perm fun c d hcd => by rw [hcd.facts_eq]

namespace Token

def quotedTexts (tokens : List Token) : List String :=
  (tokens.filter (·.kind = .string)).map content

/-- No two strings show the same text, and none holds a dot. -/
structure PlainlyQuoted (tokens : List Token) : Prop where
  nodup : (quotedTexts tokens).Nodup
  undotted : ∀ text ∈ quotedTexts tokens, '.' ∉ text.toList

theorem requoted_of_zip {Word : String → String → Prop} {tokens others : List Token}
    (h : List.Forall₂ SameOutsideQuotes tokens others)
    (hw : ∀ x y, (x, y) ∈ (quotedTexts tokens).zip (quotedTexts others) → Word x y) :
    List.Forall₂ (Requoted Word) tokens others := by
  induction h with
  | nil => exact .nil
  | @cons a b as bs hab _ ih =>
    by_cases hs : a.kind = .string
    · have hs' : b.kind = .string := hab.kind ▸ hs
      simp only [quotedTexts, hs, hs', decide_true, List.filter_cons_of_pos, List.map_cons,
        List.zip_cons_cons, List.mem_cons] at hw
      exact .cons ⟨hab, fun _ => hw _ _ (.inl rfl)⟩ (ih fun x y hm => hw x y (.inr hm))
    · have hs' : b.kind ≠ .string := hab.kind ▸ hs
      simp only [quotedTexts, hs, hs', decide_false, Bool.false_eq_true, not_false_eq_true,
        List.filter_cons_of_neg] at hw
      exact .cons ⟨hab, fun he => absurd he hs⟩ (ih hw)

end Token

namespace Schema

theorem ofTokens_requoted {Word Named : String → String → Prop}
    (word : ∀ ⦃a b⦄, Word a b → Named a b)
    (qualified : ∀ ⦃a b c d⦄, Named a b → Named c d → Named (a ++ "." ++ c) (b ++ "." ++ d))
    {tokens others : List Token} (h : List.Forall₂ (Token.Requoted Word) tokens others)
    (origin : Origin) :
    (∃ e e', ofTokens tokens origin = .error e ∧ ofTokens others origin = .error e' ∧
      e.obstacle = e'.obstacle ∧ e.rules = e'.rules) ∨
    ∃ statements statements',
      ofTokens tokens origin = .ok (ofStatements origin statements) ∧
      ofTokens others origin = .ok (ofStatements origin statements') ∧
      List.Forall₂ (Statement.Like Named (fun _ _ => True) (List.Forall₂ (Token.Requoted Word)))
        statements statements' := by
  have hkept : List.Forall₂ (Token.Requoted Word) (tokens.filter (!·.isTrivia))
      (others.filter (!·.isTrivia)) := by
    refine List.rel_filter (fun a b hab => ?_) h
    simp only [Token.isTrivia, hab.1.kind]
  unfold ofTokens ofSignificant
  rcases Grammar.script_like (likeness_requoted word qualified) hkept with
    ⟨e, e', he, he', ho, hr⟩ | ⟨statements, statements', hs, hs', hall⟩
  · rw [he, he']
    exact .inl ⟨e, e', rfl, rfl, ho, hr⟩
  · rw [hs, hs']
    exact .inr ⟨statements, statements', rfl, rfl, hall⟩

/-- Strings that are plain names stand for each other one to one, and so do the names of tables and
columns that are made of them. -/
theorem renamed_of_plainlyQuoted {tokens others : List Token}
    (h : List.Forall₂ Token.SameOutsideQuotes tokens others) (hp : Token.PlainlyQuoted tokens)
    (hp' : Token.PlainlyQuoted others) {origin : Origin} {schema schema' : Schema}
    (hs : ofTokens tokens origin = .ok schema) (hs' : ofTokens others origin = .ok schema') :
    ∃ Named Valued, schema.tables.Renamed Named (Table.Renamed Named Valued) schema'.tables := by
  let Word : String → String → Prop := fun x y =>
    (x, y) ∈ (Token.quotedTexts tokens).zip (Token.quotedTexts others)
  have hword : Relator.BiUnique Word := biUnique_zip hp.nodup hp'.nodup
  have hdotted : ∀ ⦃a b⦄, Word a b → Dotted Word a b := by
    intro a b hab
    obtain ⟨ha, hb⟩ := List.of_mem_zip hab
    exact .of_word hab (hp.undotted a ha) (hp'.undotted b hb)
  rcases ofTokens_requoted hdotted (fun _ _ _ _ => Dotted.append)
    (Token.requoted_of_zip h fun _ _ hm => hm) origin with
    ⟨e, e', he, -⟩ | ⟨statements, statements', hok, hok', hall⟩
  · rw [he] at hs
    cases hs
  · rw [hok] at hs
    rw [hok'] at hs'
    cases hs
    cases hs'
    exact ⟨Dotted Word, _, renamed_ofStatements (Dotted.biUnique hword) hall origin⟩

/-- Token lists that differ between quotes alone are both no script, for one reason and in the same
rules, or describe catalogues with one outline. If the strings are plain names, the catalogues have
as many tables, and their columns say the same. -/
theorem ofTokens_sameOutsideQuotes {tokens others : List Token}
    (h : List.Forall₂ Token.SameOutsideQuotes tokens others) (origin : Origin) :
    (∃ e e', ofTokens tokens origin = .error e ∧ ofTokens others origin = .error e' ∧
      e.fault.rootCause.SameVariant e'.fault.rootCause ∧ e.rules = e'.rules) ∨
    ∃ schema schema', ofTokens tokens origin = .ok schema ∧ ofTokens others origin = .ok schema' ∧
      schema.includes = schema'.includes ∧ schema.grants.length = schema'.grants.length ∧
      schema.comments.map Comment.kind = schema'.comments.map Comment.kind ∧
      (Token.PlainlyQuoted tokens → Token.PlainlyQuoted others →
        schema.tables.size = schema'.tables.size ∧
          schema.columnFacts.Perm schema'.columnFacts) := by
  let Any : String → String → Prop := fun _ _ => True
  have hany : List.Forall₂ (Token.Requoted Any) tokens others :=
    h.imp fun _ _ hab => ⟨hab, fun _ => trivial⟩
  have hword : ∀ ⦃a b⦄, Any a b → Any a b := fun _ _ _ => trivial
  have hqualified : ∀ ⦃a b c d⦄, Any a b → Any c d → Any (a ++ "." ++ c) (b ++ "." ++ d) :=
    fun _ _ _ _ _ _ => trivial
  rcases ofTokens_requoted hword hqualified hany origin with
    ⟨e, e', he, he', ho, hr⟩ | ⟨statements, statements', hs, hs', hall⟩
  · refine .inl ⟨e, e', he, he', ?_, hr⟩
    rw [ParseError.rootCause_fault, ParseError.rootCause_fault, ho]
    exact Obstacle.sameVariant_cause _ _ _
  · have houtline := sameOutline_ofStatements (likeness_requoted hword hqualified) hall origin
    refine .inr ⟨_, _, hs, hs', houtline.includes, houtline.grants, houtline.comments, ?_⟩
    intro hp hp'
    obtain ⟨Named, Valued, hrenamed⟩ := renamed_of_plainlyQuoted h hp hp' hs hs'
    exact ⟨hrenamed.size_eq, columnFacts_perm hrenamed⟩

theorem ofTokens_sameOutsideQuotes_table :
    let script (table column : String) : List Token :=
      [⟨"CREATE", .keyword, 0, 6, 1, 1⟩, ⟨"TABLE", .keyword, 7, 12, 1, 1⟩,
       ⟨table, .string, 13, 16, 1, 1⟩, ⟨"(", .symbol, 16, 17, 1, 1⟩,
       ⟨column, .string, 17, 20, 1, 1⟩, ⟨"DATE", .keyword, 21, 25, 1, 1⟩,
       ⟨")", .symbol, 25, 26, 1, 1⟩, ⟨";", .symbol, 26, 27, 1, 1⟩]
    List.Forall₂ Token.SameOutsideQuotes (script "T" "A") (script ";" ")") ∧
    Token.PlainlyQuoted (script "T" "A") ∧ Token.PlainlyQuoted (script ";" ")") ∧
    ∃ schema schema', ofTokens (script "T" "A") .oracle = .ok schema ∧
      ofTokens (script ";" ")") .oracle = .ok schema' ∧
      schema.tables.size = schema'.tables.size ∧ schema.columnFacts.Perm schema'.columnFacts := by
  intro script
  have hsame : List.Forall₂ Token.SameOutsideQuotes (script "T" "A") (script ";" ")") := by
    repeat' constructor
    all_goals simp
  have hplain : Token.PlainlyQuoted (script "T" "A") := ⟨by decide, by decide⟩
  have hplain' : Token.PlainlyQuoted (script ";" ")") := ⟨by decide, by decide⟩
  have hread (table column : String) :
      ∃ schema, ofTokens (script table column) .oracle = .ok schema := by
    have htype : Syntax.ColumnType [⟨"DATE", .keyword, 21, 25, 1, 1⟩] (.plain "DATE") :=
      .mk (.word rfl) .absent .absent
    have hcolumn : Syntax.Element
        [⟨column, .string, 17, 20, 1, 1⟩, ⟨"DATE", .keyword, 21, 25, 1, 1⟩]
        (some (Column.plain column (.plain "DATE"))) :=
      .column (.mk rfl htype .absent .nil)
    have hlist : Syntax.ColumnList
        [⟨"(", .symbol, 16, 17, 1, 1⟩, ⟨column, .string, 17, 20, 1, 1⟩,
         ⟨"DATE", .keyword, 21, 25, 1, 1⟩, ⟨")", .symbol, 25, 26, 1, 1⟩]
        [Column.plain column (.plain "DATE")] :=
      .mk rfl hcolumn .nil rfl
    have hend : Syntax.Body ([] ++ [⟨";", .symbol, 26, 27, 1, 1⟩]) [] := .bare rfl
    have hsentence : Syntax.Sentence (script table column) _ :=
      .table rfl rfl (.plain rfl) hlist hend
    have hscript : Syntax.Script (script table column) _ := Syntax.Many.cons hsentence .nil
    have hkept : (script table column).filter (!·.isTrivia) = script table column := rfl
    rw [ofTokens, ofSignificant, hkept, Grammar.script_eq_ok_iff.mpr hscript]
    exact ⟨_, rfl⟩
  refine ⟨hsame, hplain, hplain', ?_⟩
  rcases ofTokens_sameOutsideQuotes hsame .oracle with
    ⟨e, e', he, -⟩ | ⟨schema, schema', hs, hs', -, -, -, hcolumns⟩
  · obtain ⟨schema, hs⟩ := hread "T" "A"
    rw [hs] at he
    cases he
  · exact ⟨schema, schema', hs, hs', hcolumns hplain hplain'⟩

end Schema

end DdlCatalog
