import DdlCatalog.Proofs.ColumnMarks

namespace DdlCatalog

namespace TokenReader

open Syntax

variable {α β γ : Type}

/-- From `tokens` on, wherever they stand, the reader has no answer because of the obstacle. -/
def StopsOn (read : TokenReader α) (tokens : List Token) (obstacle : Obstacle) : Prop :=
  ∀ index, ∃ e after, read ⟨index, tokens⟩ = .error e after ∧ e.obstacle = obstacle

theorem stopsOn_fail (obstacle : Obstacle) (tokens : List Token) :
    StopsOn (fail obstacle : TokenReader α) tokens obstacle :=
  fun _ => ⟨_, _, rfl, rfl⟩

theorem StopsOn.bind {read : TokenReader α} {tokens : List Token} {obstacle : Obstacle}
    (h : StopsOn read tokens obstacle) (follow : α → TokenReader β) :
    StopsOn (read >>= follow) tokens obstacle := by
  intro index
  obtain ⟨e, after, he, ho⟩ := h index
  exact ⟨e, after, bind_of_error he follow, ho⟩

theorem StopsOn.map {read : TokenReader α} {tokens : List Token} {obstacle : Obstacle}
    (h : StopsOn read tokens obstacle) (f : α → β) : StopsOn (f <$> read) tokens obstacle :=
  h.bind fun a => pure (f a)

theorem Reads.bind_stopsOn {read : TokenReader α} {follow : α → TokenReader β}
    {tokens middle : List Token} {a : α} {obstacle : Obstacle} (hr : Reads read tokens a middle)
    (hf : StopsOn (follow a) middle obstacle) : StopsOn (read >>= follow) tokens obstacle := by
  intro index
  obtain ⟨between, hread⟩ := hr index
  obtain ⟨e, after, he, ho⟩ := hf between
  exact ⟨e, after, (bind_of_ok hread follow).trans he, ho⟩

/-- From `tokens` on the reader comes to `rest` and goes on with another reader there: it is stopped
by what stops that one, and has an answer only with one of its. `Ends` tells what the reader makes
of that answer and of the tokens left behind it. -/
def Enters (read : TokenReader α) (tokens : List Token) (inner : TokenReader β) (rest : List Token)
    (Ends : β → List Token → α → List Token → Prop) : Prop :=
  ∀ index, ∃ reached,
    (∀ e place, inner ⟨reached, rest⟩ = .error e place →
      ∃ e' place', read ⟨index, tokens⟩ = .error e' place' ∧ e'.obstacle = e.obstacle) ∧
    ∀ a after, read ⟨index, tokens⟩ = .ok a after →
      ∃ b middle, inner ⟨reached, rest⟩ = .ok b middle ∧ Ends b middle.rest a after.rest

variable {read : TokenReader α} {inner : TokenReader β} {tokens rest : List Token}
  {Ends : β → List Token → α → List Token → Prop}

theorem enters_self (read : TokenReader α) (tokens : List Token) :
    Enters read tokens read tokens fun b left a left' => b = a ∧ left = left' :=
  fun index =>
    ⟨index, fun e place h => ⟨e, place, h, rfl⟩, fun a after h => ⟨a, after, h, rfl, rfl⟩⟩

theorem Enters.mono {Other : β → List Token → α → List Token → Prop}
    (h : Enters read tokens inner rest Ends)
    (ho : ∀ b left a left', Ends b left a left' → Other b left a left') :
    Enters read tokens inner rest Other := by
  intro index
  obtain ⟨reached, hstop, hanswer⟩ := h index
  refine ⟨reached, hstop, fun a after ha => ?_⟩
  obtain ⟨b, middle, hb, hends⟩ := hanswer a after ha
  exact ⟨b, middle, hb, ho _ _ _ _ hends⟩

theorem Enters.trans {outer : TokenReader γ} {front : List Token}
    {Behind : α → List Token → γ → List Token → Prop} (h : Enters outer front read tokens Behind)
    (h' : Enters read tokens inner rest Ends) :
    Enters outer front inner rest fun b left c left' =>
      ∃ a between, Ends b left a between ∧ Behind a between c left' := by
  intro index
  obtain ⟨place, hstop, hanswer⟩ := h index
  obtain ⟨reached, hstop', hanswer'⟩ := h' place
  refine ⟨reached, fun e last he => ?_, fun c after hc => ?_⟩
  · obtain ⟨e', last', he', ho'⟩ := hstop' e last he
    obtain ⟨e'', last'', he'', ho''⟩ := hstop e' last' he'
    exact ⟨e'', last'', he'', ho''.trans ho'⟩
  · obtain ⟨a, between, ha, hbehind⟩ := hanswer c after hc
    obtain ⟨b, middle, hb, hends⟩ := hanswer' a between ha
    exact ⟨b, middle, hb, a, between.rest, hends, hbehind⟩

theorem Enters.during (rule : GrammarRule) (h : Enters read tokens inner rest Ends) :
    Enters (during rule read) tokens inner rest Ends := by
  intro index
  obtain ⟨reached, hstop, hanswer⟩ := h index
  refine ⟨reached, fun e place he => ?_, fun a after ha => hanswer a after (during_eq_ok ha)⟩
  obtain ⟨e', place', he', ho⟩ := hstop e place he
  refine ⟨{ e' with contexts := (rule, place') :: e'.contexts }, place', ?_, ho⟩
  rw [TokenReader.during, he']

theorem Reads.bind_enters {first : TokenReader γ} {follow : γ → TokenReader α}
    {front : List Token} {c : γ} (hr : Reads first front c tokens)
    (hf : Enters (follow c) tokens inner rest Ends) :
    Enters (first >>= follow) front inner rest Ends := by
  intro index
  obtain ⟨place, hread⟩ := hr index
  obtain ⟨reached, hstop, hanswer⟩ := hf place
  rw [bind_of_ok hread]
  exact ⟨reached, hstop, hanswer⟩

theorem Enters.bind {follow : α → TokenReader γ} (h : Enters read tokens inner rest Ends)
    (Follow : α → List Token → γ → List Token → Prop)
    (hf : ∀ a cursor c after, follow a cursor = .ok c after →
      Follow a cursor.rest c after.rest) :
    Enters (read >>= follow) tokens inner rest fun b left c left' =>
      ∃ a between, Ends b left a between ∧ Follow a between c left' := by
  intro index
  obtain ⟨reached, hstop, hanswer⟩ := h index
  refine ⟨reached, fun e place he => ?_, fun c after hc => ?_⟩
  · obtain ⟨e', place', he', ho⟩ := hstop e place he
    exact ⟨e', place', bind_of_error he' follow, ho⟩
  · obtain ⟨a, between, ha, hc⟩ := bind_eq_ok hc
    obtain ⟨b, middle, hb, hends⟩ := hanswer a between ha
    exact ⟨b, middle, hb, a, between.rest, hends, hf a between c after hc⟩

theorem Enters.map (f : α → γ) (h : Enters read tokens inner rest Ends) :
    Enters (f <$> read) tokens inner rest fun b left c left' =>
      ∃ a, Ends b left a left' ∧ f a = c := by
  have hf : ∀ a cursor c after, (pure (f a) : TokenReader γ) cursor = .ok c after →
      cursor.rest = after.rest ∧ f a = c := by
    intro a cursor c after hc
    cases hc
    exact ⟨rfl, rfl⟩
  refine (h.bind (fun a between c left' => between = left' ∧ f a = c) hf).mono ?_
  rintro b left c left' ⟨a, between, hends, rfl, hc⟩
  exact ⟨a, hends, hc⟩

theorem Enters.stopsOn {obstacle : Obstacle} (h : Enters read tokens inner rest Ends)
    (hs : StopsOn inner rest obstacle) : StopsOn read tokens obstacle := by
  intro index
  obtain ⟨reached, hstop, -⟩ := h index
  obtain ⟨e, place, he, ho⟩ := hs reached
  obtain ⟨e', place', he', ho'⟩ := hstop e place he
  exact ⟨e', place', he', ho'.trans ho⟩

/-- A repetition enters what its reader enters behind any number of pieces. -/
theorem Enters.manyWhile {test : Token → Bool} {Piece : List Token → α → Prop}
    {Follow : List Token → Prop} {front : List Token} {items : List α}
    (h : Enters read tokens inner rest Ends) (consumes : Consumes read)
    (finds : FindsPieces test read Piece Follow)
    (sound : ∀ ⦃cursor a after⦄, read cursor = .ok a after → cursor.sees test = true →
      ∃ passed, Piece passed a ∧ cursor.rest = passed ++ after.rest)
    (hfront : Many Piece front items) (hf : Follow tokens)
    (ht : tokens.head?.any test = true) :
    Enters (manyWhile test read consumes) (front ++ tokens) inner rest fun b left all left' =>
      ∃ a passed more, Ends b left a (passed ++ left') ∧ Many Piece passed more ∧
        all = items ++ a :: more ∧ left'.head?.any test = false := by
  intro index
  obtain ⟨place, hmany⟩ : ∃ place,
      TokenReader.manyWhile test read consumes ⟨index, front ++ tokens⟩ =
        ((items ++ ·) <$> TokenReader.manyWhile test read consumes : TokenReader (List α))
          ⟨place, tokens⟩ := manyWhile_append finds hfront hf index
  obtain ⟨reached, hstop, hanswer⟩ := h place
  have hsees : Cursor.sees ⟨place, tokens⟩ test = true := ht
  refine ⟨reached, fun e last he => ?_, fun all after hall => ?_⟩
  · obtain ⟨e', last', he', ho⟩ := hstop e last he
    exact ⟨e', last', hmany.trans (map_of_error (manyWhile_of_error hsees he') _), ho⟩
  · obtain ⟨found, hfound, rfl⟩ := map_eq_ok (hmany.symm.trans hall)
    cases hread : read ⟨place, tokens⟩ with
    | error e last => cases (manyWhile_of_error hsees hread).symm.trans hfound
    | ok a between =>
      obtain ⟨b, middle, hb, hends⟩ := hanswer a between hread
      obtain ⟨more, hmore, rfl⟩ := map_eq_ok ((manyWhile_of_read hsees hread).symm.trans hfound)
      obtain ⟨⟨passed, hpassed, hrest⟩, hend⟩ := manyWhile_sound sound hmore
      exact ⟨b, middle, hb, a, passed, more, hrest ▸ hends, hpassed, rfl, hend⟩

end TokenReader

namespace Syntax

inductive Elements : List Token → List (Option Column) → Prop
  | none : Elements [] []
  | some {first others comma item items} : Element first item → Many NextElement others items →
      comma.isSymbol "," → Elements (first ++ (others ++ [comma])) (item :: items)

/-- Tokens up to the name of a column, with the name: statements, and behind them the front of a
statement that creates a table. -/
inductive ToColumn : List Token → List Statement → String → List (Option Column) → Token → Prop
  | mk {scripted earlier create word title full opening elements items name} :
      Script scripted earlier → create.isKeyword "CREATE" → word.isKeyword "TABLE" →
      TableName title full → opening.isSymbol "(" → Elements elements items →
      name.kind = .string →
      ToColumn (scripted ++ create :: word :: (title ++ opening :: (elements ++ [name])))
        earlier full items name

inductive ColumnEnd (name : Token) (type : DataType) : List Token → Column → Prop
  | mk {value marks default said} : Default value default → Many Mark marks said →
      ColumnEnd name type (value ++ marks)
        (said.foldl Column.mark { Column.plain name.content type with defaultValue := default })

/-- The rest of a script behind the type of a column: the column, the elements behind it, and the
statements behind that of its table. -/
inductive FromColumn (name : Token) (type : DataType) :
    List Token → Column → List (Option Column) → List Statement → Prop
  | mk {ending column others more closing tail options scripted later} :
      ColumnEnd name type ending column → Many NextElement others more →
      closing.isSymbol ")" → Body tail options → Script scripted later →
      FromColumn name type (ending ++ (others ++ closing :: (tail ++ scripted))) column more later

def tableOf (full : String) (items : List (Option Column)) (column : Column)
    (more : List (Option Column)) : Statement :=
  .table ((Table.named full).pushAll ((items ++ some column :: more).filterMap id))

theorem FromColumn.type_eq {name : Token} {type : DataType} {tokens : List Token}
    {column : Column} {more : List (Option Column)} {later : List Statement}
    (h : FromColumn name type tokens column more later) : column.type = type := by
  cases h with
  | mk hend _ _ _ _ =>
    cases hend with
    | mk _ _ => exact (Column.foldl_mark_frame _ _).2.1

theorem FromColumn.headIn {name : Token} {type : DataType} {tokens : List Token}
    {column : Column} {more : List (Option Column)} {later : List Statement}
    (h : FromColumn name type tokens column more later) :
    HeadIn [",", ")"] ("DEFAULT" :: markWords) tokens := by
  cases h with
  | mk hend hothers hclosing _ _ =>
    cases hend with
    | mk hvalue hmarks =>
      rw [List.append_assoc]
      refine Grammar.default_headIn hvalue (Grammar.marks_headIn hmarks ?_)
      exact Grammar.others_headIn hothers ⟨_, _, rfl, .inl ⟨")", by simp, hclosing⟩⟩

theorem Elements.columnList {opening closing : Token} {elements tokens others : List Token}
    {items more : List (Option Column)} {item : Option Column} (h : Elements elements items)
    (ho : opening.isSymbol "(" = true) (hitem : Element tokens item)
    (hothers : Many NextElement others more) (hc : closing.isSymbol ")" = true) :
    ColumnList (opening :: (elements ++ (tokens ++ (others ++ [closing]))))
      ((items ++ item :: more).filterMap id) := by
  cases h with
  | none => exact .mk ho hitem hothers hc
  | @some first before comma item befores hfirst hbefore hcomma =>
    have hnext := hbefore.append (.cons (.mk hcomma hitem) hothers)
    have hlist := ColumnList.mk ho hfirst hnext hc
    rwa [show first ++ (before ++ (comma :: tokens ++ others) ++ [closing]) =
      first ++ (before ++ [comma]) ++ (tokens ++ (others ++ [closing])) by simp] at hlist

theorem ToColumn.script {front spelled rest : List Token} {earlier : List Statement}
    {full : String} {items : List (Option Column)} {name : Token} {type : DataType}
    {column : Column} {more : List (Option Column)} {later : List Statement}
    (h : ToColumn front earlier full items name) (htype : ColumnType spelled type)
    (hrest : FromColumn name type rest column more later) :
    Script (front ++ (spelled ++ rest)) (earlier ++ tableOf full items column more :: later) := by
  cases h with
  | @mk scripted _ create word title _ opening elements _ _ hearlier hcreate hword htitle hopening
      helements hname =>
    cases hrest with
    | @mk ending _ others _ closing tail options scripted' _ hend hothers hclosing htail hlater =>
      have hcolumn : Element (name :: (spelled ++ ending)) (some column) := by
        cases hend with
        | mk hvalue hmarks => exact .column (.mk hname htype hvalue hmarks)
      have hlist := helements.columnList hopening hcolumn hothers hclosing
      have htable := Sentence.table hcreate hword htitle hlist htail
      have hwhole : Script _ (earlier ++ tableOf full items column more :: later) :=
        Many.append hearlier (.cons htable hlater)
      rw [List.append_assoc]
      simpa only [List.append_assoc, List.cons_append, List.nil_append] using hwhole

end Syntax

namespace Grammar

open TokenReader Syntax

theorem enters_column {name : Token} (hk : name.kind = .string) (rest : List Token) :
    Enters column (name :: rest) dataType rest fun type left definition left' =>
      ∃ tokens, ColumnEnd name type tokens definition ∧ left = tokens ++ left' := by
  refine (reads_take _ hk rest).bind_enters ?_
  refine (((enters_self dataType rest).during _).bind (fun type between definition left' =>
    ∃ tokens, ColumnEnd name type tokens definition ∧ between = tokens ++ left') ?_).mono ?_
  · intro type cursor definition after h
    obtain ⟨value, middle, hd, h⟩ := bind_eq_ok h
    obtain ⟨said, last, hm, h⟩ := bind_eq_ok h
    obtain ⟨default, hdefault, hr⟩ := columnDefault_sound hd
    obtain ⟨⟨marks, hmarks, hr'⟩, -⟩ :=
      manyWhile_sound (fun _ _ _ hc hs => columnMark_sound hc hs) (during_eq_ok hm)
    cases h
    exact ⟨default ++ marks, .mk hdefault hmarks, by simp [hr, hr']⟩
  · rintro type left definition left' ⟨_, _, ⟨rfl, rfl⟩, hend⟩
    exact hend

theorem enters_element {name : Token} (hk : name.kind = .string) (rest : List Token) :
    Enters element (name :: rest) dataType rest fun type left item left' =>
      ∃ tokens definition, ColumnEnd name type tokens definition ∧ left = tokens ++ left' ∧
        item = some definition := by
  have hs : (name :: rest).head?.any opensTableConstraint = false := by
    rw [List.head?_cons, Option.any_some, Bool.eq_false_iff]
    intro ho
    obtain ⟨word, -, hword⟩ := opensTableConstraint_iff.mp ho
    simp [Token.kind_of_isKeyword hword] at hk
  refine (reads_sees opensTableConstraint (name :: rest)).bind_enters ?_
  rw [hs, if_neg (by simp)]
  refine (((enters_column hk rest).during _).map some).mono ?_
  rintro type left item left' ⟨definition, ⟨tokens, hend, hleft⟩, rfl⟩
  exact ⟨tokens, definition, hend, hleft, rfl⟩

theorem columnListEnd_sound {cursor after : Cursor} {items : List (Option Column)}
    {columns : List Column}
    (h : (expect .symbol ")" >>= fun _ => pure (items.filterMap id)) cursor =
      .ok columns after) :
    ∃ closing : Token, closing.isSymbol ")" = true ∧ cursor.rest = closing :: after.rest ∧
      columns = items.filterMap id := by
  obtain ⟨_, middle, hc, h⟩ := bind_eq_ok h
  obtain ⟨closing, hclosing, hr⟩ := expect_eq_ok hc
  cases h
  exact ⟨closing, (Token.is_symbol_iff (by decide)).mp hclosing, hr, rfl⟩

theorem enters_columnList {opening : Token} {elements tokens : List Token}
    {items : List (Option Column)} (ho : opening.isSymbol "(" = true)
    (h : Elements elements items) :
    Enters columnList (opening :: (elements ++ tokens)) element tokens
      fun item left columns left' => ∃ others more closing, Many NextElement others more ∧
        closing.isSymbol ")" ∧ left = others ++ closing :: left' ∧
        columns = (items ++ item :: more).filterMap id := by
  refine (reads_expect ((Token.is_symbol_iff (by decide)).mpr ho) _).bind_enters ?_
  cases h with
  | none =>
    refine ((enters_self element tokens).bind (fun item left columns left' =>
      ∃ others more closing, Many NextElement others more ∧ closing.isSymbol ")" ∧
        left = others ++ closing :: left' ∧ columns = (item :: more).filterMap id) ?_).mono ?_
    · intro item cursor columns after hf
      obtain ⟨more, middle, hm, hf⟩ := bind_eq_ok hf
      obtain ⟨⟨others, hothers, hr⟩, -⟩ :=
        manyWhile_sound (fun _ _ _ hn hs => nextElement_sound hn hs) hm
      obtain ⟨closing, hclosing, hr', hcolumns⟩ := columnListEnd_sound hf
      exact ⟨others, more, closing, hothers, hclosing, by rw [hr, hr'], hcolumns⟩
    · rintro item left columns left' ⟨_, _, ⟨rfl, rfl⟩, hend⟩
      exact hend
  | @some first before comma item befores hfirst hbefore hcomma =>
    have hstop : HeadIn [",", ")"] [] (comma :: tokens) := ⟨_, _, rfl, .inl ⟨",", by simp, hcomma⟩⟩
    have hopens : (comma :: tokens).head?.any (·.is .symbol ",") = true :=
      (Token.is_symbol_iff (by decide)).mpr hcomma
    have hnext : Enters nextElement (comma :: tokens) element tokens _ :=
      (reads_skip_one comma tokens).bind_enters (enters_self element tokens)
    have hmany := hnext.manyWhile consumes_nextElement findsPieces_nextElement
      (fun _ _ _ hn hs => nextElement_sound hn hs) hbefore hstop hopens
    rw [List.append_assoc, List.append_assoc]
    refine (reads_element hfirst (others_headIn hbefore hstop)).bind_enters ?_
    refine (hmany.bind (fun all between columns left' => ∃ closing : Token,
      closing.isSymbol ")" = true ∧ between = closing :: left' ∧
        columns = (item :: all).filterMap id)
      fun all cursor columns after h => columnListEnd_sound h).mono ?_
    rintro found left columns left' ⟨_, _, ⟨_, others, more, ⟨rfl, rfl⟩, hothers, rfl, -⟩,
      closing, hclosing, hleft, rfl⟩
    exact ⟨others, more, closing, hothers, hclosing, by rw [hleft], rfl⟩

theorem enters_tableDefinition {word opening : Token} {title rest : List Token} {full : String}
    (ht : TableName title full) (ho : opening.isSymbol "(" = true) :
    Enters tableDefinition (word :: (title ++ opening :: rest)) columnList (opening :: rest)
      fun columns left definition left' => ∃ tail options, Body tail options ∧
        left = tail ++ left' ∧ definition = (Table.named full).pushAll columns := by
  have hdot : (opening :: rest).head?.any (·.is .symbol ".") = false := by
    have hn : opening.isSymbol "." = false := Token.isSymbol_unique ho (by decide)
    rw [List.head?_cons, Option.any_some, Bool.eq_false_iff]
    intro hd
    simp [(Token.is_symbol_iff (by decide)).mp hd] at hn
  refine (reads_skip_one word _).bind_enters ?_
  refine ((reads_qualifiedName ht hdot).during _).bind_enters ?_
  refine (((enters_self columnList _).during _).bind (fun columns between definition left' =>
    ∃ tail options, Body tail options ∧ between = tail ++ left' ∧
      definition = (Table.named full).pushAll columns) ?_).mono ?_
  · intro columns cursor definition after h
    obtain ⟨options, middle, hb, h⟩ := bind_eq_ok h
    obtain ⟨tail, htail, hr⟩ := body_sound (during_eq_ok hb)
    cases h
    exact ⟨tail, options, htail, hr, rfl⟩
  · rintro columns left definition left' ⟨_, _, ⟨rfl, rfl⟩, hend⟩
    exact hend

theorem enters_statement {create word opening : Token} {title rest : List Token} {full : String}
    (hc : create.isKeyword "CREATE" = true) (hw : word.isKeyword "TABLE" = true)
    (ht : TableName title full) (ho : opening.isSymbol "(" = true) :
    Enters statement (create :: word :: (title ++ opening :: rest)) columnList (opening :: rest)
      fun columns left sentence left' => ∃ tail options, Body tail options ∧
        left = tail ++ left' ∧ sentence = .table ((Table.named full).pushAll columns) := by
  have hcreation : Enters creation (create :: word :: (title ++ opening :: rest)) columnList
      (opening :: rest) fun columns left definition left' => ∃ tail options,
        Body tail options ∧ left = tail ++ left' ∧
          definition = (Table.named full).pushAll columns := by
    refine (reads_skip_one create _).bind_enters ?_
    refine (reads_hasText .keyword "TABLE" word _).bind_enters ?_
    rw [show word.is .keyword "TABLE" = true from hw, if_pos rfl]
    exact (enters_tableDefinition ht ho).during _
  refine (reads_peek create _).bind_enters ?_
  rw [if_pos hc]
  refine ((hcreation.during _).map Statement.table).mono ?_
  rintro columns left sentence left' ⟨_, ⟨tail, options, htail, hleft, rfl⟩, rfl⟩
  exact ⟨tail, options, htail, hleft, rfl⟩

theorem enters_script {front : List Token} {earlier : List Statement} {full : String}
    {items : List (Option Column)} {name : Token} (h : ToColumn front earlier full items name)
    (rest : List Token) :
    Enters statements (front ++ rest) dataType rest
      fun type left found left' => left' = [] → ∃ column more later,
        FromColumn name type left column more later ∧
          found = earlier ++ tableOf full items column more :: later := by
  cases h with
  | @mk scripted _ create word title _ opening elements _ _ hearlier hcreate hword htitle hopening
      helements hname =>
    have hstatement := (enters_statement hcreate hword htitle hopening).trans
      ((enters_columnList hopening helements).trans (enters_element hname rest))
    have hmany := hstatement.manyWhile consumes_statement findsPieces_statement
      (fun _ _ _ hs _ => statement_sound hs) hearlier trivial rfl
    simp only [List.append_assoc, List.cons_append, List.nil_append]
    refine hmany.mono ?_
    rintro type left statements left' ⟨sentence, passed, later, ⟨columns, between, ⟨item, behind,
      ⟨ending, column, hend, rfl, rfl⟩, others, more, closing, hothers, hclosing, rfl, rfl⟩,
      tail, options, htail, rfl, rfl⟩, hlater, rfl, -⟩ rfl
    refine ⟨column, more, later, ?_, rfl⟩
    rw [List.append_nil]
    exact .mk hend hothers hclosing htail hlater

theorem script_of_stopsOn {front rest : List Token} {earlier : List Statement} {full : String}
    {items : List (Option Column)} {name : Token} {obstacle : Obstacle}
    (h : ToColumn front earlier full items name) (hs : StopsOn dataType rest obstacle) :
    ∃ e, script (front ++ rest) = .error e ∧ e.obstacle = obstacle := by
  obtain ⟨e, after, he, ho⟩ := (enters_script h rest).stopsOn hs 0
  exact ⟨e, script_of_error he, ho⟩

end Grammar

namespace Syntax

open Grammar TokenReader

/-- Behind the name of a column, a script goes on with the type of the column and with what can
stand behind that. -/
theorem ToColumn.script_iff {front rest : List Token} {earlier statements : List Statement}
    {full : String} {items : List (Option Column)} {name : Token}
    (h : ToColumn front earlier full items name) :
    Script (front ++ rest) statements ↔ ∃ spelled type behind column more later,
      rest = spelled ++ behind ∧ ColumnType spelled type ∧
        FromColumn name type behind column more later ∧
        statements = earlier ++ tableOf full items column more :: later := by
  constructor
  · intro hscript
    obtain ⟨after, hread⟩ := exists_of_script_eq_ok (script_eq_ok_iff.mpr hscript)
    obtain ⟨reached, -, hanswer⟩ := enters_script h rest 0
    obtain ⟨type, middle, htype, hends⟩ := hanswer statements after hread
    obtain ⟨column, more, later, hbehind, hfound⟩ := hends (statements_sound hread).2
    obtain ⟨spelled, hspelled, hrest⟩ := dataType_sound htype
    exact ⟨spelled, type, middle.rest, column, more, later, hrest, hspelled, hbehind, hfound⟩
  · rintro ⟨spelled, type, behind, column, more, later, rfl, htype, hbehind, rfl⟩
    exact h.script htype hbehind

end Syntax

end DdlCatalog
