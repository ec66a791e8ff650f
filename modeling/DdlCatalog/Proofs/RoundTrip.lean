import DdlCatalog.Proofs.Declaration
import DdlCatalog.Proofs.Numerals
import DdlCatalog.Proofs.ScriptSyntax
import DdlCatalog.Proofs.Spelling

namespace DdlCatalog

namespace Declaration

open Spells

variable {rest : List Char}

theorem listed :
    ∀ word ∈ ["CREATE", "TABLE", "DEFAULT", "NOT", "NULL", "PRIMARY", "KEY", "NUMBER", "VARCHAR2"],
      word ∈ Vocabulary.oracle.words := by
  intro word hw
  have hall : ∀ word ∈
      ["CREATE", "TABLE", "DEFAULT", "NOT", "NULL", "PRIMARY", "KEY", "NUMBER", "VARCHAR2"],
      word ∈ Vocabulary.statementWords ++ Vocabulary.privilegeWords ++ Vocabulary.typeWords ++
        Vocabulary.columnWords ++ Vocabulary.storageWords ∧ word ≠ "" := by decide
  exact Vocabulary.mem_words_ofList.mpr (hall word hw)

theorem spells_name (name : Name) : Spells name.print (Single .string name.text) rest := by
  have hspells : Spells name.print (Single .string (String.ofList name.text.toList)) rest :=
    Spells.name name.unquoted
  rwa [String.ofList_toList] at hspells

theorem spells_decimal (n : UInt32) (hr : Separated rest) :
    Spells (Text.decimal n.toNat) (fun tokens => ∃ token, tokens = [token] ∧
      token.kind = .int ∧ DataType.number? token = some n) rest := by
  have hdigits : ∀ c ∈ Text.decimal n.toNat, c.isDigit = true := fun c hc =>
    Text.isDigit_of_mem_decimal hc
  refine (number (Text.decimal_ne_nil _) hdigits hr).mono ?_
  rintro _ ⟨token, rfl, hk, hc⟩
  refine ⟨token, rfl, hk, ?_⟩
  rw [DataType.number?, hc, String.toList_ofList, Text.word?_decimal]

theorem numbers_one {type : TypeName} {n : UInt32} (hone : type.numbers = .one n) {token : Token}
    (hk : token.kind = .int) (hn : DataType.number? token = some n) :
    Syntax.Numbers (.plain type.keyword) [token] type.meaning := by
  have hlead : Syntax.Lead token (some n) := .number hk hn
  rw [TypeName.meaning, hone]
  dsimp only
  split
  next hchar => exact .length hlead hchar
  next hchar => exact .precision hlead hchar (.absent (by simp))

theorem numbers_two {type : TypeName} {p s : UInt32} (htwo : type.numbers = .two p s)
    {first comma second : Token} (hk : first.kind = .int) (hn : DataType.number? first = some p)
    (hcomma : comma.isSymbol "," = true) (hk' : second.kind = .int)
    (hn' : DataType.number? second = some s) :
    Syntax.Numbers (.plain type.keyword) [first, comma, second] type.meaning := by
  have hchar : type.keyword ∉ DataType.characterTypes := fun h => type.single h p s htwo
  rw [TypeName.meaning, htwo]
  exact .precision (.number hk hn) hchar (.number hcomma hk' hn')

theorem spells_numbers (type : TypeName) :
    Spells type.numbers.print (Syntax.Parameters (.plain type.keyword) · type.meaning) rest := by
  have closes : Separated (')' :: rest) := separated_cons (by decide) rest
  have hclosing : Spells [')'] (Sign ")") rest := sign (by decide)
  have hopening : ∀ rest, Spells ['('] (Sign "(") rest := fun _ => sign (by decide)
  cases hnumbers : type.numbers with
  | none =>
    refine .nil ?_
    rw [TypeName.meaning, hnumbers]
    exact .absent
  | one n =>
    refine ((hopening _).append ((spells_decimal n closes).append hclosing)).mono ?_
    rintro _ ⟨_, _, rfl, ⟨o, rfl, ho⟩, _, _, rfl, ⟨token, rfl, hk, hn⟩, c, rfl, hc⟩
    have hinside : ∀ t ∈ [token], ¬t.isSymbol ")" = true := by
      have hnumber : token.isSymbol ")" = false := Token.not_isSymbol (by simp [hk])
      simp [hnumber]
    exact .listed ho (by simp) hinside (numbers_one hnumbers hk hn) hc
  | two p s =>
    have hcomma : Spells [','] (Sign ",") (Text.decimal s.toNat ++ [')'] ++ rest) :=
      sign (by decide)
    have hbehind : Separated (([','] ++ (Text.decimal s.toNat ++ [')'])) ++ rest) :=
      separated_cons (by decide) _
    have hlast := hcomma.append ((spells_decimal s closes).append hclosing)
    refine ((hopening _).append ((spells_decimal p hbehind).append hlast)).mono ?_
    rintro _ ⟨_, _, rfl, ⟨o, rfl, ho⟩, _, _, rfl, ⟨first, rfl, hk, hn⟩, _, _, rfl,
      ⟨comma, rfl, hcomma⟩, _, _, rfl, ⟨second, rfl, hk', hn'⟩, c, rfl, hc⟩
    have hinside : ∀ t ∈ [first, comma, second], ¬t.isSymbol ")" = true := by
      have hfirst : first.isSymbol ")" = false := Token.not_isSymbol (by simp [hk])
      have hbetween : comma.isSymbol ")" = false := Token.isSymbol_unique hcomma (by decide)
      have hsecond : second.isSymbol ")" = false := Token.not_isSymbol (by simp [hk'])
      simp [hfirst, hbetween, hsecond]
    exact .listed ho (by simp) hinside (numbers_two hnumbers hk hn hcomma hk' hn') hc

theorem spells_type (type : TypeName) (hr : Separated rest) :
    Spells type.print (Syntax.ColumnType · type.meaning) rest := by
  have hnext : Separated (type.numbers.print ++ rest) := by
    cases type.numbers with
    | none => exact hr
    | one n => exact separated_cons (by decide) _
    | two p s => exact separated_cons (by decide) _
  refine ((keyword type.listed hnext).append (spells_numbers type)).mono ?_
  rintro _ ⟨_, parameters, rfl, ⟨token, rfl, hk, hc⟩, hparameters⟩
  have hupper : Text.upper token.content = type.keyword := by
    rw [hc, (Vocabulary.capital_of_mem type.listed).upper]
  have hname : Syntax.TypeName [token] type.keyword := hupper ▸ .word hk
  have htokens : [token] ++ parameters = [token] ++ (parameters ++ []) := by simp
  rw [htokens]
  exact .mk hname hparameters .absent

theorem spells_blankType (type : TypeName) (hr : Separated rest) :
    Spells (' ' :: type.print) (Syntax.ColumnType · type.meaning) rest := by
  have hfront : ∀ c ∈ (type.print ++ rest).head?, c ∉ "\t ".toList := by
    rw [TypeName.print, List.append_assoc]
    exact head_not_blank type.listed _
  refine ((blank hfront).append (spells_type type hr)).mono ?_
  rintro _ ⟨_, back, rfl, rfl, hback⟩
  exact hback

theorem spells_literal {text : List Char} (few : text.count '\'' ≤ 255) :
    Spells ('\'' :: (Text.doubled '\'' text ++ ['\'']))
      (fun tokens => tokens ≠ [] ∧ tokens.length ≤ 256 ∧ Syntax.Touching tokens ∧
        Token.joined tokens "'" = String.ofList text) rest := by
  refine (Spells.literal text rest).mono ?_
  rintro tokens ⟨hlength, htouching, hjoined⟩
  refine ⟨?_, by omega, htouching, hjoined⟩
  rintro rfl
  simp at hlength

theorem spells_value (value : Default) (hr : Separated rest) :
    Spells value.print (fun tokens => ∀ word : Token, word.isKeyword "DEFAULT" = true →
      Syntax.Default (word :: tokens) (some value.meaning)) rest := by
  cases value with
  | number digits hne hdigits =>
    refine (number hne hdigits hr).mono ?_
    rintro _ ⟨token, rfl, hk, hc⟩ word hw
    rw [Default.meaning, ← hc]
    exact .number hw (.inl hk)
  | literal text few =>
    refine (spells_literal few).mono ?_
    rintro tokens ⟨hne, hlength, htouching, hjoined⟩ word hw
    rw [Default.meaning, ← hjoined]
    exact .literal hw hne hlength htouching

theorem print_not_blank (value : Default) (rest : List Char) :
    ∀ c ∈ (value.print ++ rest).head?, c ∉ "\t ".toList := by
  cases value with
  | number digits hne hdigits =>
    have hall : "\t ".toList.all (!·.isDigit) = true := by decide
    cases digits with
    | nil => exact absurd rfl hne
    | cons d ds =>
      rintro c ⟨rfl⟩ hc
      have hdigit := hdigits d List.mem_cons_self
      have hno := List.all_eq_true.mp hall d hc
      rw [hdigit] at hno
      cases hno
  | literal text few =>
    rintro c ⟨rfl⟩
    decide

theorem spells_printDefault (column : Column) (hr : Separated rest) :
    Spells column.printDefault (Syntax.Default · (column.default.map Default.meaning)) rest := by
  unfold Column.printDefault
  cases column.default with
  | none => exact .nil .absent
  | some value =>
    have hvalue := (blank (print_not_blank value rest)).append (spells_value value hr)
    have hblank : Separated (([' '] ++ value.print) ++ rest) := separated_cons (by decide) _
    have hword := blankWord (listed "DEFAULT" (by decide)) hblank
    refine (hword.append hvalue).mono ?_
    rintro _ ⟨_, _, rfl, ⟨word, rfl, hw⟩, _, tokens, rfl, rfl, htokens⟩
    exact htokens word hw

def Constraint.marks : Constraint → List ColumnMark
  | none => []
  | notNull => [.notNull]
  | primaryKey => [.primaryKey]

theorem spells_constraint (constraint : Constraint) (hr : Separated rest) :
    Spells constraint.print (Syntax.Many Syntax.Mark · constraint.marks) rest := by
  have spells_pair : ∀ {first second : String}, first ∈ Vocabulary.oracle.words →
      second ∈ Vocabulary.oracle.words →
      Spells (' ' :: first.toList ++ ' ' :: second.toList) (Then (Word first) (Word second)) rest :=
    fun hf hs => (blankWord hf (separated_cons (by decide) _)).append (blankWord hs hr)
  cases constraint with
  | none => exact .nil .nil
  | notNull =>
    refine (spells_pair (listed "NOT" (by decide)) (listed "NULL" (by decide))).mono ?_
    rintro _ ⟨_, _, rfl, ⟨a, rfl, ha⟩, b, rfl, hb⟩
    have hmany : Syntax.Many Syntax.Mark ([a, b] ++ []) [.notNull] := .cons (.notNull ha hb) .nil
    exact hmany
  | primaryKey =>
    refine (spells_pair (listed "PRIMARY" (by decide)) (listed "KEY" (by decide))).mono ?_
    rintro _ ⟨_, _, rfl, ⟨a, rfl, ha⟩, b, rfl, hb⟩
    have hmany : Syntax.Many Syntax.Mark ([a, b] ++ []) [.primaryKey] :=
      .cons (.primaryKey ha hb) .nil
    exact hmany

theorem separated_constraint (constraint : Constraint) (hr : Separated rest) :
    Separated (constraint.print ++ rest) := by
  cases constraint with
  | none => exact hr
  | notNull => exact separated_cons (by decide) _
  | primaryKey => exact separated_cons (by decide) _

theorem separated_printDefault (column : Column) (hr : Separated rest) :
    Separated (column.printDefault ++ rest) := by
  unfold Column.printDefault
  cases column.default with
  | none => exact hr
  | some value => exact separated_cons (by decide) _

theorem foldl_marks (column : Column) :
    column.constraint.marks.foldl DdlCatalog.Column.mark
      { DdlCatalog.Column.plain column.name.text column.type.meaning with
        defaultValue := column.default.map Default.meaning } = column.meaning 0 := by
  obtain ⟨name, type, default, constraint⟩ := column
  cases constraint <;> rfl

theorem spells_column (column : Column) (hr : Separated rest) :
    Spells column.print (Syntax.ColumnDefinition · (column.meaning 0)) rest := by
  have hconstraint := separated_constraint column.constraint hr
  have hmarks := (spells_printDefault column hconstraint).append
    (spells_constraint column.constraint hr)
  have hdefault : Separated (column.printDefault ++ column.constraint.print ++ rest) := by
    rw [List.append_assoc]
    exact separated_printDefault column hconstraint
  have htype := (spells_blankType column.type hdefault).append hmarks
  refine ((spells_name column.name).append htype).mono ?_
  rintro _ ⟨_, _, rfl, ⟨name, rfl, hk, hc⟩, type, _, rfl, htype, value, marks, rfl, hvalue, hmarks⟩
  rw [← foldl_marks, ← hc, List.singleton_append]
  exact .mk hk htype hvalue hmarks

theorem spells_others (columns : List Column) (hr : Separated rest) :
    Spells (columns.flatMap fun column => ',' :: column.print)
      (Syntax.Many Syntax.NextElement · (columns.map fun column => some (column.meaning 0)))
      rest := by
  induction columns with
  | nil => exact .nil .nil
  | cons column columns ih =>
    have hnext : Separated ((columns.flatMap fun column => ',' :: column.print) ++ rest) := by
      cases columns with
      | nil => exact hr
      | cons other columns => exact separated_cons (by decide) _
    have hcomma : Spells [','] (Sign ",") (column.print ++
        ((columns.flatMap fun column => ',' :: column.print) ++ rest)) := sign (by decide)
    refine ((hcomma.append (spells_column column hnext)).append ih).mono ?_
    rintro _ ⟨_, others, rfl, ⟨_, tokens, rfl, ⟨comma, rfl, hc⟩, htokens⟩, hothers⟩
    exact .cons (.mk hc (.column htokens)) hothers

theorem intercalate_cons (separator : Char) (text : List Char) (texts : List (List Char)) :
    List.intercalate [separator] (text :: texts) = text ++ texts.flatMap (separator :: ·) := by
  induction texts generalizing text with
  | nil => simp
  | cons next texts ih => rw [List.intercalate_cons_cons, ih]; simp

theorem spells_printColumns (declaration : Declaration) :
    Spells declaration.printColumns
      (Syntax.ColumnList · (declaration.columns.map (·.meaning 0))) rest := by
  unfold printColumns
  have closes : Separated ([')'] ++ rest) := separated_cons (by decide) rest
  cases hcolumns : declaration.columns with
  | nil => exact absurd hcolumns declaration.nonempty
  | cons column columns =>
    have hclosing : Spells [')'] (Sign ")") rest := sign (by decide)
    have hothers := (spells_others columns closes).append hclosing
    have hnext : Separated
        ((columns.flatMap fun column => ',' :: column.print) ++ [')'] ++ rest) := by
      cases columns with
      | nil => exact closes
      | cons other columns => exact separated_cons (by decide) _
    have hopening : Spells ['('] (Sign "(") ((column.print ++
        ((columns.flatMap fun column => ',' :: column.print) ++ [')'])) ++ rest) := sign (by decide)
    rw [List.map_cons, intercalate_cons, List.flatMap_map, List.append_assoc]
    refine (hopening.append ((spells_column column hnext).append hothers)).mono ?_
    rintro _ ⟨_, _, rfl, ⟨o, rfl, ho⟩, first, _, rfl, hfirst, others, _, rfl, hmany, c, rfl, hc⟩
    have hitems : (some (column.meaning 0) ::
        columns.map fun column => some (column.meaning 0)).filterMap id =
          (column :: columns).map (·.meaning 0) := by
      simp [List.filterMap_map]
    rw [← hitems]
    exact .mk ho (.column hfirst) hmany hc

theorem spells_printName (declaration : Declaration) :
    Spells declaration.printName (Syntax.TableName · declaration.key) rest := by
  unfold printName key
  cases declaration.parent with
  | none =>
    refine (spells_name declaration.name).mono ?_
    rintro _ ⟨name, rfl, hk, hc⟩
    rw [← hc]
    exact .plain hk
  | some parent =>
    have hdot : Spells ['.'] (Sign ".") (declaration.name.print ++ rest) := sign (by decide)
    refine ((spells_name parent).append (hdot.append (spells_name declaration.name))).mono ?_
    rintro _ ⟨_, _, rfl, ⟨first, rfl, hk, hc⟩, _, _, rfl, ⟨dot, rfl, hd⟩, name, rfl, hk', hc'⟩
    dsimp only
    rw [← hc, ← hc']
    exact .qualified hk hd hk'

theorem printName_not_blank (declaration : Declaration) (rest : List Char) :
    ∀ c ∈ (declaration.printName ++ rest).head?, c ∉ "\t ".toList := by
  unfold printName
  cases declaration.parent with
  | none =>
    rintro c ⟨rfl⟩
    decide
  | some parent =>
    rintro c ⟨rfl⟩
    decide

theorem spells_print (declaration : Declaration) :
    Spells declaration.print (Syntax.Sentence · (.table declaration.meaning)) rest := by
  have hend : Spells [';'] (Sign ";") rest := sign (by decide)
  have hbracket : ∀ c ∈ (declaration.printColumns ++ [';'] ++ rest).head?, c ∉ "\t ".toList := by
    rintro c ⟨rfl⟩
    decide
  have hlist := (blank hbracket).append ((spells_printColumns declaration).append hend)
  have hname := (spells_printName declaration).append hlist
  have hquote := printName_not_blank declaration
    ([' '] ++ (declaration.printColumns ++ [';']) ++ rest)
  rw [← List.append_assoc] at hquote
  have htable := (blankWord (listed "TABLE" (by decide)) (separated_cons (by decide) _)).append
    ((blank hquote).append hname)
  have hcreate := (Spells.word (listed "CREATE" (by decide)) (separated_cons (by decide) _)).append
    htable
  refine hcreate.mono ?_
  rintro _ ⟨_, _, rfl, ⟨create, rfl, hc⟩, _, _, rfl, ⟨word, rfl, hw⟩, _, _, rfl, rfl, name, _, rfl,
    hname, _, _, rfl, rfl, list, _, rfl, hlist, stop, rfl, hs⟩
  have hbody : Syntax.Body ([] ++ [stop]) [] := .bare hs
  rw [← meaning_eq_pushAll]
  simp only [List.nil_append, List.singleton_append]
  exact .table hc hw hname hlist hbody

theorem spells_printAll (declarations : List Declaration) :
    Spells (List.intercalate ['\n'] (declarations.map print))
      (Syntax.Script · (declarations.map fun declaration => .table declaration.meaning)) [] := by
  have hmore : ∀ declarations : List Declaration,
      Spells (declarations.flatMap fun declaration => '\n' :: declaration.print)
        (Syntax.Script · (declarations.map fun declaration => .table declaration.meaning)) [] := by
    intro declarations
    induction declarations with
    | nil => exact .nil .nil
    | cons declaration declarations ih =>
      have hline : Spells ['\n'] (· = []) (declaration.print ++
          ((declarations.flatMap fun declaration => '\n' :: declaration.print) ++ [])) := by
        refine lineEnd ?_
        rintro c ⟨rfl⟩
        decide
      refine ((hline.append (spells_print declaration)).append ih).mono ?_
      rintro _ ⟨_, others, rfl, ⟨_, tokens, rfl, rfl, htokens⟩, hothers⟩
      exact .cons htokens hothers
  cases declarations with
  | nil => exact .nil .nil
  | cons declaration declarations =>
    rw [List.map_cons, intercalate_cons, List.flatMap_map]
    refine ((spells_print declaration).append (hmore declarations)).mono ?_
    rintro _ ⟨tokens, others, rfl, htokens, hothers⟩
    exact .cons htokens hothers

theorem ofStatements_tables (origin : Origin) (declarations : List Declaration) :
    Schema.ofStatements origin (declarations.map fun declaration => .table declaration.meaning) =
      ⟨origin, declarations.foldl
        (fun tables declaration => tables.insert declaration.key declaration.meaning) .empty,
        [], [], []⟩ := by
  have hfold : ∀ tables : NameMap Table,
      (declarations.map fun declaration => Statement.table declaration.meaning).foldl
          Statement.addTo ⟨origin, tables, [], [], []⟩ =
        ⟨origin, declarations.foldl
          (fun tables declaration => tables.insert declaration.key declaration.meaning) tables,
          [], [], []⟩ := by
    induction declarations with
    | nil => exact fun _ => rfl
    | cons declaration declarations ih => exact fun tables => ih _
  exact hfold .empty

theorem get?_foldl_insert (declarations : List Declaration) (tables : NameMap Table)
    (name : String) :
    (declarations.foldl (fun tables declaration =>
        tables.insert declaration.key declaration.meaning) tables).get? name =
      ((declarations.findRev? (·.key == name)).map meaning).or (tables.get? name) := by
  induction declarations generalizing tables with
  | nil => rfl
  | cons declaration declarations ih =>
    rw [List.foldl_cons, ih, NameMap.get?_insert, List.findRev?]
    cases declarations.findRev? (·.key == name) with
    | some later => rfl
    | none =>
      by_cases hkey : name = declaration.key
      · simp [hkey]
      · have hne : (declaration.key == name) = false := beq_eq_false_iff_ne.mpr (Ne.symm hkey)
        simp [hkey, hne]

theorem ofSource_printAll_eq (declarations : List Declaration) (origin : Origin) :
    Schema.ofSource (printAll declarations) origin =
      .ok ⟨origin, declarations.foldl
        (fun tables declaration => tables.insert declaration.key declaration.meaning) .empty,
        [], [], []⟩ := by
  obtain ⟨tokens, htokens, hscript⟩ := tokenize_of_spells (spells_printAll declarations)
  have hparse := Grammar.script_eq_ok_iff.mpr hscript
  rw [Schema.ofSource, printAll, htokens]
  dsimp only
  rw [Schema.ofTokens, Schema.ofSignificant, hparse]
  dsimp only [Except.map]
  rw [ofStatements_tables]

/-- Printed declarations are read back: under each name the catalogue holds the table that was
declared last under it, and nothing else. -/
theorem ofSource_printAll (declarations : List Declaration) (origin : Origin) :
    ∃ tables, Schema.ofSource (printAll declarations) origin = .ok ⟨origin, tables, [], [], []⟩ ∧
      ∀ name, tables.get? name =
        (declarations.findRev? (·.key == name)).map Declaration.meaning := by
  refine ⟨_, ofSource_printAll_eq declarations origin, fun name => ?_⟩
  rw [get?_foldl_insert, NameMap.get?_empty, Option.or_none]

/-- A table with a parent, a key, a number of two digits and a text with a quote in it. -/
def parts : Declaration where
  parent := some ⟨"S", by decide⟩
  name := ⟨"PARTS", by decide⟩
  columns :=
    [⟨⟨"ID", by decide⟩,
      ⟨"NUMBER", .two 10 2, listed "NUMBER" (by decide), fun h => absurd h (by decide)⟩, none,
      .primaryKey⟩,
     ⟨⟨"NOTE", by decide⟩, ⟨"VARCHAR2", .one 20, listed "VARCHAR2" (by decide), nofun⟩,
      some (.literal "it's".toList (by decide)), .notNull⟩]
  nonempty := List.cons_ne_nil _ _
  distinct := by decide

example : printAll [parts] =
    "CREATE TABLE \"S\".\"PARTS\" (\"ID\" NUMBER(10,2) PRIMARY KEY," ++
      "\"NOTE\" VARCHAR2(20) DEFAULT 'it''s' NOT NULL);" := by
  decide +kernel

end Declaration

end DdlCatalog
