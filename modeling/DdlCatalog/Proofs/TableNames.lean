import DdlCatalog.Proofs.LastDefinitions
import Mathlib.Data.Finset.Card

namespace DdlCatalog

structure QualifiedName where
  parent : Option String
  table : String
  deriving DecidableEq

namespace QualifiedName

/-- The name under which a catalogue keeps the table. -/
def full (name : QualifiedName) : String :=
  match name.parent with
  | none => name.table
  | some parent => parent ++ "." ++ name.table

/-- Two names that a dot joins to the same text: what the first one has for the parent, or for the
end of it, belongs to the table of the second one. -/
inductive Clash : QualifiedName → QualifiedName → Prop
  | joined (parent table : String) : Clash ⟨some parent, table⟩ ⟨none, parent ++ "." ++ table⟩
  | moved (parent middle table : String) :
      Clash ⟨some (parent ++ "." ++ middle), table⟩ ⟨some parent, middle ++ "." ++ table⟩

theorem dotted_eq_dotted_iff {parent table parent' table' : String} :
    parent ++ "." ++ table = parent' ++ "." ++ table' ↔
      parent = parent' ∧ table = table' ∨
        (∃ middle, parent = parent' ++ "." ++ middle ∧ table' = middle ++ "." ++ table) ∨
          ∃ middle, parent' = parent ++ "." ++ middle ∧ table = middle ++ "." ++ table' := by
  constructor
  · intro h
    have hlists :
        parent.toList ++ '.' :: table.toList = parent'.toList ++ '.' :: table'.toList := by
      simpa using congrArg String.toList h
    -- one of the parents is the front of the other, up to a dot where it is shorter
    rcases List.append_eq_append_iff.mp hlists with ⟨more, hp, ht⟩ | ⟨more, hp, ht⟩
    · cases more with
      | nil => exact .inl (by simpa [← String.toList_inj, eq_comm] using And.intro hp ht)
      | cons dot middle =>
        have hrest : table.toList = middle ++ '.' :: table'.toList := (List.cons.inj ht).2
        obtain rfl : '.' = dot := (List.cons.inj ht).1
        exact .inr (.inr ⟨String.ofList middle, by simp [← String.toList_inj, hp, hrest]⟩)
    · cases more with
      | nil => exact .inl (by simpa [← String.toList_inj, eq_comm] using And.intro hp ht)
      | cons dot middle =>
        have hrest : table'.toList = middle ++ '.' :: table.toList := (List.cons.inj ht).2
        obtain rfl : '.' = dot := (List.cons.inj ht).1
        exact .inr (.inl ⟨String.ofList middle, by simp [← String.toList_inj, hp, hrest]⟩)
  · rintro (⟨rfl, rfl⟩ | ⟨middle, rfl, rfl⟩ | ⟨middle, rfl, rfl⟩)
    · rfl
    · simp [String.append_assoc]
    · simp [String.append_assoc]

theorem Clash.ne {a b : QualifiedName} (h : Clash a b) : a ≠ b := by
  cases h with
  | joined parent table => exact nofun
  | moved parent middle table =>
    intro heq
    have hparent : parent ++ "." ++ middle = parent := by
      simpa using congrArg QualifiedName.parent heq
    have hlength := congrArg String.length hparent
    rw [String.length_append, String.length_append, show ".".length = 1 from rfl] at hlength
    omega

theorem Clash.full_eq {a b : QualifiedName} (h : Clash a b) : a.full = b.full := by
  cases h with
  | joined parent table => rfl
  | moved parent middle table => simp [full, String.append_assoc]

/-- Different names have the same full name exactly when they clash. -/
theorem full_eq_full_iff {a b : QualifiedName} :
    a.full = b.full ↔ a = b ∨ Clash a b ∨ Clash b a := by
  constructor
  · obtain ⟨p, t⟩ := a
    obtain ⟨p', t'⟩ := b
    intro h
    cases p with
    | none =>
      cases p' with
      | none => exact .inl (congrArg _ h)
      | some parent =>
        obtain rfl : t = parent ++ "." ++ t' := h
        exact .inr (.inr (.joined parent t'))
    | some parent =>
      cases p' with
      | none =>
        obtain rfl : parent ++ "." ++ t = t' := h
        exact .inr (.inl (.joined parent t))
      | some parent' =>
        rcases dotted_eq_dotted_iff.mp h with ⟨rfl, rfl⟩ | ⟨middle, rfl, rfl⟩ | ⟨middle, rfl, rfl⟩
        · exact .inl rfl
        · exact .inr (.inl (.moved parent' middle t))
        · exact .inr (.inr (.moved parent middle t'))
  · rintro (rfl | h | h)
    · rfl
    · exact h.full_eq
    · exact h.full_eq.symm

theorem length_dedup_full_eq_iff {names : List QualifiedName} :
    (names.map full).dedup.length = names.dedup.length ↔ ∀ a ∈ names, ∀ b ∈ names, ¬Clash a b := by
  have himage : (names.map full).toFinset = names.toFinset.image full := by
    ext name
    simp
  rw [← List.card_toFinset, ← List.card_toFinset, himage, Finset.card_image_iff]
  constructor
  · intro h a ha b hb hclash
    exact hclash.ne (h (by simpa using ha) (by simpa using hb) hclash.full_eq)
  · intro h a ha b hb hfull
    have hma : a ∈ names := by simpa using ha
    have hmb : b ∈ names := by simpa using hb
    rcases full_eq_full_iff.mp hfull with heq | hclash | hclash
    · exact heq
    · exact absurd hclash (h a hma b hmb)
    · exact absurd hclash (h b hmb a hma)

end QualifiedName

namespace Syntax

inductive NameParts : List Token → QualifiedName → Prop
  | plain {name} : name.kind = .string → NameParts [name] ⟨none, name.content⟩
  | qualified {parent dot name} : parent.kind = .string → dot.isSymbol "." → name.kind = .string →
      NameParts [parent, dot, name] ⟨some parent.content, name.content⟩

theorem tableName_iff {tokens : List Token} {full : String} :
    TableName tokens full ↔ ∃ name, NameParts tokens name ∧ name.full = full := by
  constructor
  · intro h
    cases h with
    | plain hk => exact ⟨_, .plain hk, rfl⟩
    | qualified hp hd hk => exact ⟨_, .qualified hp hd hk, rfl⟩
  · rintro ⟨name, h, rfl⟩
    cases h with
    | plain hk => exact .plain hk
    | qualified hp hd hk => exact .qualified hp hd hk

theorem Many.exists_forall₂ {α β : Type} {Piece : List Token → α → Prop}
    {Other : List Token → β → Prop} {R : α → β → Prop} {tokens : List Token} {items : List α}
    (h : Many Piece tokens items)
    (hp : ∀ {tokens item}, Piece tokens item → ∃ other, Other tokens other ∧ R item other) :
    ∃ others, Many Other tokens others ∧ List.Forall₂ R items others := by
  induction h with
  | nil => exact ⟨[], .nil, .nil⟩
  | cons hfirst _ ih =>
    obtain ⟨other, hother, hr⟩ := hp hfirst
    obtain ⟨others, hothers, hrs⟩ := ih
    exact ⟨other :: others, .cons hother hothers, .cons hr hrs⟩

inductive Declares : List Token → Option QualifiedName → Prop
  | table {create word name list tail title columns options} : create.isKeyword "CREATE" →
      word.isKeyword "TABLE" → NameParts name title → ColumnList list columns →
      Body tail options → Declares (create :: word :: (name ++ (list ++ tail))) (some title)
  | other {tokens statement} : Sentence tokens statement →
      (∀ definition, statement ≠ .table definition) → Declares tokens none

def Declared (tokens : List Token) (names : List QualifiedName) : Prop :=
  ∃ titles, Many Declares tokens titles ∧ titles.filterMap id = names

end Syntax

namespace Statement

def created? : Statement → Option String
  | table definition => some definition.name
  | _ => none

theorem creates_iff {statement : Statement} {full : String} :
    statement.Creates full ↔ statement.created? = some full := by
  cases statement <;> simp [Creates, created?]

end Statement

namespace Syntax

theorem Sentence.exists_declares {tokens : List Token} {statement : Statement}
    (h : Sentence tokens statement) : ∃ title, Declares tokens title := by
  cases h with
  | table hc hw hn hl ht =>
    obtain ⟨title, hparts, -⟩ := tableName_iff.mp hn
    exact ⟨some title, .table hc hw hparts hl ht⟩
  | directive hk => exact ⟨none, .other (.directive hk) nofun⟩
  | grant hw hb => exact ⟨none, .other (.grant hw hb) nofun⟩
  | comment hw hb => exact ⟨none, .other (.comment hw hb) nofun⟩

theorem Declares.exists_sentence {tokens : List Token} {title : Option QualifiedName}
    (h : Declares tokens title) :
    ∃ statement, Sentence tokens statement ∧ statement.created? = title.map (·.full) := by
  cases h with
  | @table _ _ _ _ _ title _ _ hc hw hparts hl ht =>
    refine ⟨_, .table hc hw (tableName_iff.mpr ⟨title, hparts, rfl⟩) hl ht, ?_⟩
    simp [Statement.created?, Table.named]
  | @other _ statement hs hother =>
    refine ⟨statement, hs, ?_⟩
    cases statement with
    | table definition => exact absurd rfl (hother definition)
    | _ => rfl

theorem Script.exists_declared {tokens : List Token} {statements : List Statement}
    (h : Script tokens statements) : ∃ names, Declared tokens names := by
  obtain ⟨titles, htitles, -⟩ := h.exists_forall₂ (R := fun _ _ => True) fun hs =>
    hs.exists_declares.imp fun _ hd => ⟨hd, trivial⟩
  exact ⟨_, titles, htitles, rfl⟩

theorem Declared.exists_script {tokens : List Token} {names : List QualifiedName}
    (h : Declared tokens names) : ∃ statements, Script tokens statements ∧
      ∀ full, full ∈ names.map (·.full) ↔ ∃ statement ∈ statements, statement.Creates full := by
  obtain ⟨titles, htitles, rfl⟩ := h
  obtain ⟨statements, hscript, hcreated⟩ := htitles.exists_forall₂ Declares.exists_sentence
  refine ⟨statements, hscript, fun full => ?_⟩
  have hsame : titles.map (Option.map (·.full)) = statements.map Statement.created? := by
    rw [← List.forall₂_eq_eq_eq, List.forall₂_map_left_iff, List.forall₂_map_right_iff]
    exact hcreated.imp fun _ _ => Eq.symm
  have hmem : full ∈ (titles.filterMap id).map (·.full) ↔
      some full ∈ titles.map (Option.map (·.full)) := by
    simp
  rw [hmem, hsame]
  simp [Statement.creates_iff]

end Syntax

namespace Schema

theorem table?_ofStatements_eq_none_iff {origin : Origin} {statements : List Statement}
    {full : String} : (ofStatements origin statements).table? full = none ↔
      ∀ statement ∈ statements, ¬statement.Creates full := by
  induction statements using List.reverseRecOn with
  | nil => simp [ofStatements, empty, table?]
  | append_singleton statements latest ih =>
    rw [ofStatements_concat]
    by_cases hcreates : latest.Creates full
    · obtain ⟨definition, -, htable⟩ :=
        table?_addTo_of_creates hcreates (ofStatements origin statements)
      simp [htable, hcreates]
    · rw [table?_addTo_of_not_creates hcreates, ih]
      simp [hcreates, or_imp, forall_and]

theorem size_tables_of_declared {tokens : List Token} {origin : Origin} {schema : Schema}
    (h : ofTokens tokens origin = .ok schema) {names : List QualifiedName}
    (hnames : Syntax.Declared (tokens.filter (!·.isTrivia)) names) :
    schema.tables.size = (names.map (·.full)).dedup.length := by
  obtain ⟨statements, hscript, hcreates⟩ := hnames.exists_script
  have hschema := (ofTokens_of_script hscript origin).symm.trans h
  cases hschema
  refine NameMap.size_eq_length_dedup fun full => ?_
  rw [hcreates]
  exact table?_ofStatements_eq_none_iff.trans (by simp)

/-- A catalogue holds as many tables as its script declares under different full names. These are
as many as there are different qualified names, unless two of those clash. -/
theorem size_tables_ofTokens {tokens : List Token} {origin : Origin} {schema : Schema}
    (h : ofTokens tokens origin = .ok schema) :
    (∃ names, Syntax.Declared (tokens.filter (!·.isTrivia)) names) ∧
      ∀ names, Syntax.Declared (tokens.filter (!·.isTrivia)) names →
        schema.tables.size = (names.map (·.full)).dedup.length ∧
          (schema.tables.size = names.dedup.length ↔
            ∀ a ∈ names, ∀ b ∈ names, ¬QualifiedName.Clash a b) := by
  obtain ⟨statements, hscript, -⟩ := exists_script_of_ofTokens h
  refine ⟨(Grammar.script_eq_ok_iff.mp hscript).exists_declared, fun names hnames => ?_⟩
  have hsize := size_tables_of_declared h hnames
  exact ⟨hsize, hsize ▸ QualifiedName.length_dedup_full_eq_iff⟩

def plainEnding (start : Nat) : List Token :=
  plainList start (start + 8) ++ [⟨";", .symbol, start + 9, start + 10, 1, 1⟩]

def dottedTwice : List Token :=
  (⟨"CREATE", .keyword, 0, 6, 1, 1⟩ :: ⟨"TABLE", .keyword, 7, 12, 1, 1⟩ ::
    ([⟨"A.B", .string, 13, 18, 1, 1⟩] ++ plainEnding 19)) ++
  (⟨"CREATE", .keyword, 30, 36, 1, 1⟩ :: ⟨"TABLE", .keyword, 37, 42, 1, 1⟩ ::
    ([⟨"A", .string, 43, 46, 1, 1⟩, ⟨".", .symbol, 46, 47, 1, 1⟩, ⟨"B", .string, 47, 50, 1, 1⟩] ++
      plainEnding 51))

theorem declares_plainEnding {create word : Token} {name : List Token} {title : QualifiedName}
    (hc : create.isKeyword "CREATE" = true) (hw : word.isKeyword "TABLE" = true)
    (hn : Syntax.NameParts name title) (start : Nat) :
    Syntax.Declares (create :: word :: (name ++ plainEnding start)) (some title) := by
  have hend : Syntax.Body ([] ++ [⟨";", .symbol, start + 9, start + 10, 1, 1⟩]) [] := .bare rfl
  exact .table hc hw hn (columnList_plainList start _) hend

theorem declared_dottedTwice :
    Syntax.Declared (dottedTwice.filter (!·.isTrivia)) [⟨none, "A.B"⟩, ⟨some "A", "B"⟩] := by
  have hplain : Syntax.NameParts [⟨"A.B", .string, 13, 18, 1, 1⟩] ⟨none, "A.B"⟩ := .plain rfl
  have hqualified : Syntax.NameParts [⟨"A", .string, 43, 46, 1, 1⟩, ⟨".", .symbol, 46, 47, 1, 1⟩,
      ⟨"B", .string, 47, 50, 1, 1⟩] ⟨some "A", "B"⟩ := .qualified rfl rfl rfl
  have hall : Syntax.Many Syntax.Declares dottedTwice [some ⟨none, "A.B"⟩, some ⟨some "A", "B"⟩] :=
    .cons (declares_plainEnding rfl rfl hplain 19)
      (.cons (declares_plainEnding rfl rfl hqualified 51) .nil)
  exact ⟨_, hall, rfl⟩

theorem exists_ofTokens_dottedTwice : ∃ schema, ofTokens dottedTwice .oracle = .ok schema := by
  obtain ⟨statements, hscript, -⟩ := declared_dottedTwice.exists_script
  exact ⟨_, ofTokens_of_script hscript _⟩

theorem size_tables_ofTokens_dottedTwice :
    ∃ schema, ofTokens dottedTwice .oracle = .ok schema ∧
      (∃ names, Syntax.Declared (dottedTwice.filter (!·.isTrivia)) names) ∧
      ∀ names, Syntax.Declared (dottedTwice.filter (!·.isTrivia)) names →
        schema.tables.size = (names.map (·.full)).dedup.length ∧
          (schema.tables.size = names.dedup.length ↔
            ∀ a ∈ names, ∀ b ∈ names, ¬QualifiedName.Clash a b) := by
  obtain ⟨schema, hs⟩ := exists_ofTokens_dottedTwice
  exact ⟨schema, hs, size_tables_ofTokens hs⟩

/-- Of two tables with different names but one full name, the later one takes the place of the
other. -/
theorem size_tables_dottedTwice :
    ∃ schema names, ofTokens dottedTwice .oracle = .ok schema ∧
      Syntax.Declared (dottedTwice.filter (!·.isTrivia)) names ∧
      schema.tables.size = 1 ∧ names.dedup.length = 2 := by
  obtain ⟨schema, hs⟩ := exists_ofTokens_dottedTwice
  exact ⟨schema, _, hs, declared_dottedTwice, size_tables_of_declared hs declared_dottedTwice,
    by decide⟩

end Schema

end DdlCatalog
