import DdlCatalog.Proofs.ListSyntax
import DdlCatalog.Script.Schema

namespace DdlCatalog

theorem Syntax.Body.bare {stop : Token} (h : stop.isSymbol ";" = true) : Body ([] ++ [stop]) [] :=
  .mk (Nat.zero_le _) (by simp) h

namespace Grammar

open TokenReader Syntax

theorem body_sound {cursor after : Cursor} {tokens : List Token}
    (h : body cursor = .ok tokens after) :
    ∃ passed, Body passed tokens ∧ cursor.rest = passed ++ after.rest := by
  obtain ⟨found, middle, ht, h⟩ := bind_eq_ok h
  obtain ⟨rfl, hlen, hn, stop, back, hs, hr⟩ := tokensBefore_eq_ok ht
  obtain ⟨_, last, hskip, h⟩ := bind_eq_ok h
  obtain ⟨rfl, -⟩ := skip_eq_ok hskip
  cases h
  have hno : ∀ token ∈ tokens, ¬token.isSymbol ";" = true := by
    intro token hm hsymbol
    have hf := hn token hm
    rw [(Token.is_symbol_iff (by decide)).mpr hsymbol] at hf
    cases hf
  refine ⟨tokens ++ [stop], .mk (Nat.le_of_lt_succ hlen) hno ?_, ?_⟩
  · exact (Token.is_symbol_iff (by decide)).mp hs
  · simp [Cursor.moved, hr, List.drop_append]

theorem reads_body {passed tokens : List Token} (h : Body passed tokens) (rest : List Token) :
    Reads body (passed ++ rest) tokens rest := by
  cases h with
  | @mk _ stop hlen hn hs =>
    have hno : ∀ token ∈ tokens, token.is .symbol ";" = false := by
      intro token hm
      rw [Bool.eq_false_iff]
      exact fun ht => hn token hm ((Token.is_symbol_iff (by decide)).mp ht)
    have hstop : stop.is .symbol ";" = true := (Token.is_symbol_iff (by decide)).mpr hs
    have hskip : Reads (skip (tokens.length + 1)) (tokens ++ stop :: rest) () rest := by
      simpa using reads_skip (show (tokens ++ [stop]).length = tokens.length + 1 by simp) rest
    rw [List.append_assoc, List.singleton_append]
    refine (reads_tokensBefore (Nat.lt_succ_of_le hlen) hno hstop rest).bind ?_
    exact hskip.bind (reads_pure tokens rest)

theorem qualifiedName_sound {cursor after : Cursor} {name : String}
    (h : qualifiedName cursor = .ok name after) :
    ∃ tokens, TableName tokens name ∧ cursor.rest = tokens ++ after.rest := by
  obtain ⟨first, second, hf, h⟩ := bind_eq_ok h
  obtain ⟨hk, hr⟩ := take_eq_ok hf
  obtain ⟨b, third, hi, h⟩ := bind_eq_ok h
  obtain ⟨rfl, dot, hd, hr1⟩ | ⟨rfl, rfl⟩ := ignoreIf_eq_ok hi
  · obtain ⟨last, fourth, hl, h⟩ := bind_eq_ok h
    obtain ⟨hk', hr2⟩ := take_eq_ok hl
    cases h
    exact ⟨[first, dot, last], .qualified hk ((Token.is_symbol_iff (by decide)).mp hd) hk',
      by simp [hr, hr1, hr2]⟩
  · cases h
    exact ⟨[first], .plain hk, hr⟩

theorem reads_qualifiedName {tokens rest : List Token} {name : String} (h : TableName tokens name)
    (hr : rest.head?.any (·.is .symbol ".") = false) :
    Reads qualifiedName (tokens ++ rest) name rest := by
  cases h with
  | plain hk =>
    refine (reads_take _ hk rest).bind ?_
    exact (reads_ignoreIf_other hr).bind (reads_pure _ rest)
  | qualified hp hd hn =>
    refine (reads_take _ hp _).bind ?_
    refine (reads_ignoreIf ((Token.is_symbol_iff (by decide)).mpr hd) _).bind ?_
    exact (reads_take _ hn rest).bind (reads_pure _ rest)

theorem creation_sound {cursor after : Cursor} {definition : Table}
    (h : creation cursor = .ok definition after)
    (hs : cursor.sees (·.isKeyword "CREATE") = true) :
    ∃ tokens, Sentence tokens (.table definition) ∧ cursor.rest = tokens ++ after.rest := by
  obtain ⟨_, second, hcreate, h⟩ := bind_eq_ok h
  obtain ⟨create, hr⟩ := skip_one_eq_ok hcreate
  obtain ⟨b, third, ht, h⟩ := bind_eq_ok h
  obtain ⟨rfl, word, rest, hr1, rfl⟩ := hasText_eq_ok ht
  split at h
  next hword =>
    obtain ⟨_, third, hskip, h⟩ := bind_eq_ok (during_eq_ok h)
    obtain ⟨same, hr2⟩ := skip_one_eq_ok hskip
    obtain rfl : word = same := by simpa [hr1] using congrArg List.head? hr2
    obtain ⟨full, fourth, hn, h⟩ := bind_eq_ok h
    obtain ⟨columns, fifth, hl, h⟩ := bind_eq_ok h
    obtain ⟨options, last, ho, h⟩ := bind_eq_ok h
    obtain ⟨name, hname, hr3⟩ := qualifiedName_sound (during_eq_ok hn)
    obtain ⟨list, hlist, hr4⟩ := columnList_sound (during_eq_ok hl)
    obtain ⟨tail, htail, hr5⟩ := body_sound (during_eq_ok ho)
    cases h
    refine ⟨create :: word :: (name ++ (list ++ tail)), ?_, by simp [hr, hr2, hr3, hr4, hr5]⟩
    exact .table (by simpa [Cursor.sees, hr] using hs) hword hname hlist htail
  next => cases h

theorem bodyAfter_sound {cursor after : Cursor} {tokens : List Token}
    (h : (skip 1 >>= fun _ => body) cursor = .ok tokens after) :
    ∃ word passed, Body passed tokens ∧ cursor.rest = word :: (passed ++ after.rest) := by
  obtain ⟨_, middle, hs, h⟩ := bind_eq_ok h
  obtain ⟨word, hr⟩ := skip_one_eq_ok hs
  obtain ⟨passed, hb, hr1⟩ := body_sound h
  exact ⟨word, passed, hb, by simp [hr, hr1]⟩

theorem statement_sound {cursor after : Cursor} {sentence : Statement}
    (h : statement cursor = .ok sentence after) :
    ∃ tokens, Sentence tokens sentence ∧ cursor.rest = tokens ++ after.rest := by
  obtain ⟨token, middle, hp, h⟩ := bind_eq_ok h
  obtain ⟨rfl, rest, hr⟩ := peek_eq_ok hp
  split at h
  next hc =>
    obtain ⟨definition, hd, rfl⟩ := map_eq_ok h
    exact creation_sound (during_eq_ok hd) (by simpa [Cursor.sees, hr] using hc)
  next =>
    split at h
    next hg =>
      obtain ⟨tokens, hb, rfl⟩ := map_eq_ok h
      obtain ⟨word, passed, hbody, hr1⟩ := bodyAfter_sound (during_eq_ok hb)
      obtain rfl : token = word := by simpa [hr] using congrArg List.head? hr1
      exact ⟨token :: passed, .grant hg hbody, hr1⟩
    next =>
      split at h
      next hc =>
        obtain ⟨tokens, hb, rfl⟩ := map_eq_ok h
        obtain ⟨word, passed, hbody, hr1⟩ := bodyAfter_sound (during_eq_ok hb)
        obtain rfl : token = word := by simpa [hr] using congrArg List.head? hr1
        exact ⟨token :: passed, .comment hc hbody, hr1⟩
      next =>
        split at h
        next hk =>
          obtain ⟨found, last, hn, h⟩ := bind_eq_ok h
          cases h
          have hr1 := next_eq_ok hn
          obtain rfl : token = found := by simpa [hr] using congrArg List.head? hr1
          exact ⟨[token], .directive hk, hr1⟩
        next => cases h

theorem reads_creation {create word : Token} {name list tail options : List Token} {full : String}
    {columns : List Column} (hw : word.isKeyword "TABLE" = true) (hn : TableName name full)
    (hl : ColumnList list columns) (ht : Body tail options) (rest : List Token) :
    Reads creation (create :: word :: (name ++ (list ++ tail)) ++ rest)
      ((Table.named full).pushAll columns) rest := by
  have hdot : (list ++ (tail ++ rest)).head?.any (·.is .symbol ".") = false := by
    cases hl with
    | @mk opening _ _ _ _ _ ho _ _ _ =>
      have hn : opening.isSymbol "." = false := Token.isSymbol_unique ho (by decide)
      rw [List.cons_append, List.head?_cons, Option.any_some, Bool.eq_false_iff]
      intro hd
      simp [(Token.is_symbol_iff (by decide)).mp hd] at hn
  rw [List.cons_append, List.cons_append, List.append_assoc, List.append_assoc]
  refine (reads_skip_one create _).bind ((reads_hasText .keyword "TABLE" word _).bind ?_)
  rw [show word.is .keyword "TABLE" = true from hw, if_pos rfl]
  refine Reads.during _ ((reads_skip_one word _).bind ?_)
  refine ((reads_qualifiedName hn hdot).during _).bind ?_
  refine ((reads_columnList hl _).during _).bind ?_
  exact ((reads_body ht rest).during _).bind (reads_pure _ rest)

theorem reads_bodyAfter {passed tokens : List Token} (h : Body passed tokens) (word : Token)
    (rest : List Token) :
    Reads (skip 1 >>= fun _ => body) (word :: (passed ++ rest)) tokens rest :=
  (reads_skip_one word _).bind (reads_body h rest)

theorem reads_statement {tokens : List Token} {sentence : Statement}
    (h : Sentence tokens sentence) (rest : List Token) :
    Reads statement (tokens ++ rest) sentence rest := by
  cases h with
  | @directive token hk =>
    have hn : ∀ word, token.isKeyword word = false := fun word =>
      Token.not_isKeyword (by simp [hk])
    refine (reads_peek token rest).bind ?_
    rw [if_neg (by simp [hn]), if_neg (by simp [hn]), if_neg (by simp [hn]), if_pos hk]
    exact (reads_next token rest).bind (reads_pure _ rest)
  | @grant word passed body hw hb =>
    have hc : word.isKeyword "CREATE" = false := Token.isKeyword_unique hw (by decide)
    refine (reads_peek word (passed ++ rest)).bind ?_
    rw [if_neg (by simp [hc]), if_pos hw]
    exact ((reads_bodyAfter hb word rest).during _).map Statement.grant
  | @comment word passed body hw hb =>
    have hc : word.isKeyword "CREATE" = false := Token.isKeyword_unique hw (by decide)
    have hg : word.isKeyword "GRANT" = false := Token.isKeyword_unique hw (by decide)
    refine (reads_peek word (passed ++ rest)).bind ?_
    rw [if_neg (by simp [hc]), if_neg (by simp [hg]), if_pos hw]
    exact ((reads_bodyAfter hb word rest).during _).map Statement.comment
  | @table create word name list tail full columns options hc hw hn hl ht =>
    refine (reads_peek create _).bind ?_
    rw [if_pos hc]
    exact ((reads_creation hw hn hl ht rest).during _).map Statement.table

theorem findsPieces_statement : FindsPieces (fun _ => true) statement Sentence fun _ => True where
  opens := by
    intro tokens sentence h
    cases h <;> rfl
  reads := fun _ _ rest h _ => reads_statement h rest
  follows := fun _ _ _ _ => trivial

theorem statements_sound {cursor after : Cursor} {found : List Statement}
    (h : statements cursor = .ok found after) : Script cursor.rest found ∧ after.rest = [] := by
  obtain ⟨⟨passed, hp, hr⟩, hend⟩ := manyWhile_sound (fun _ _ _ hs _ => statement_sound hs) h
  have hempty : after.rest = [] := by
    cases hc : after.rest with
    | nil => rfl
    | cons token rest => simp [Cursor.sees, hc] at hend
  rw [hempty, List.append_nil] at hr
  exact ⟨hr ▸ hp, hempty⟩

/-- Reading accepts exactly the scripts of the grammar. -/
theorem script_eq_ok_iff {tokens : List Token} {found : List Statement} :
    script tokens = .ok found ↔ Script tokens found := by
  constructor
  · intro h
    obtain ⟨after, hstatements⟩ := exists_of_script_eq_ok h
    exact (statements_sound hstatements).1
  · intro h
    have hend : ([] : List Token).head?.any (fun _ => true) = false := rfl
    have hr : Reads statements (tokens ++ []) found [] :=
      reads_manyWhile findsPieces_statement h trivial hend
    obtain ⟨reached, hstatements⟩ := hr 0
    rw [List.append_nil] at hstatements
    exact script_of_ok hstatements

end Grammar

namespace Schema

theorem ofSignificant_eq_ok_iff {tokens : List Token} {origin : Origin} {schema : Schema} :
    ofSignificant tokens origin = .ok schema ↔
      ∃ statements, Syntax.Script tokens statements ∧ ofStatements origin statements = schema := by
  unfold ofSignificant
  constructor
  · intro h
    cases hs : Grammar.script tokens with
    | error e => rw [hs] at h; cases h
    | ok statements =>
      rw [hs] at h
      cases h
      exact ⟨statements, Grammar.script_eq_ok_iff.mp hs, rfl⟩
  · rintro ⟨statements, hs, rfl⟩
    rw [Grammar.script_eq_ok_iff.mpr hs]
    rfl

theorem exists_script_of_ofTokens {tokens : List Token} {origin : Origin} {schema : Schema}
    (h : ofTokens tokens origin = .ok schema) :
    ∃ statements, Grammar.script (tokens.filter (!·.isTrivia)) = .ok statements ∧
      ofStatements origin statements = schema := by
  obtain ⟨statements, hscript, hschema⟩ := ofSignificant_eq_ok_iff.mp h
  exact ⟨statements, Grammar.script_eq_ok_iff.mpr hscript, hschema⟩

theorem ofTokens_of_script {tokens : List Token} {statements : List Statement}
    (h : Syntax.Script (tokens.filter (!·.isTrivia)) statements) (origin : Origin) :
    ofTokens tokens origin = .ok (ofStatements origin statements) :=
  ofSignificant_eq_ok_iff.mpr ⟨statements, h, rfl⟩

theorem ofSource_of_tokenize {source : String} {tokens : List Token}
    (h : tokenize source = .ok tokens) (origin : Origin) :
    ofSource source origin =
      (ofTokens tokens origin).mapError fun e => .within "failed to parse source" e.fault := by
  simp only [ofSource, h]
  cases ofTokens tokens origin <;> rfl

theorem ofSource_eq_ok_iff {source : String} {origin : Origin} {schema : Schema} :
    ofSource source origin = .ok schema ↔
      ∃ tokens, tokenize source = .ok tokens ∧ ofTokens tokens origin = .ok schema := by
  cases ht : tokenize source with
  | error e => simp [ofSource, ht]
  | ok tokens =>
    rw [ofSource_of_tokenize ht]
    cases hs : ofTokens tokens origin <;> simp [Except.mapError, hs]

end Schema

end DdlCatalog
