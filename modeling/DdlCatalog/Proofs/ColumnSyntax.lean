import DdlCatalog.Proofs.LiteralStrings
import DdlCatalog.Proofs.Repetition
import DdlCatalog.Proofs.TypeSyntax

namespace DdlCatalog

namespace Grammar

open TokenReader Syntax

theorem default_of_kind {word token : Token} (hw : word.isKeyword "DEFAULT" = true)
    (hk : token.kind ∈ [.int, .float, .keyword]) : Default [word, token] (some token.text) := by
  unfold Token.text
  split
  next hkey => exact .keyword hw hkey
  next hkey =>
    refine .number hw ?_
    simpa [hkey] using hk

theorem defaultValue_sound {word : Token} (hw : word.isKeyword "DEFAULT" = true)
    {cursor after : Cursor} {text : String} (h : defaultValue cursor = .ok text after) :
    ∃ tokens, Default (word :: tokens) (some text) ∧ cursor.rest = tokens ++ after.rest := by
  obtain ⟨b, middle, hk, h⟩ := bind_eq_ok h
  obtain ⟨rfl, token, rest, hr, hb⟩ := hasKind_eq_ok hk
  split at h
  next hs =>
    obtain ⟨window, second, hl, h⟩ := bind_eq_ok h
    cases hl
    obtain ⟨strings, third, hp, h⟩ := bind_eq_ok h
    obtain ⟨rfl, hstrings⟩ := peekMany_eq_ok hp
    cases hlit : Token.literal? strings with
    | none => simp only [hlit] at h; cases h
    | some value =>
      simp only [hlit] at h
      obtain ⟨_, last, hskip, h⟩ := bind_eq_ok h
      obtain ⟨rfl, -⟩ := skip_eq_ok hskip
      cases h
      obtain ⟨hne, htouch, rfl⟩ := Token.literal?_eq_some_iff.mp hlit
      refine ⟨strings, .literal hw hne ?_ htouch, by simp [hstrings, Cursor.moved]⟩
      have hle := Token.touchingStrings_le (cursor.upTo statementLimit)
      have hwindow : (cursor.upTo statementLimit).length ≤ 256 := List.length_take_le _ _
      rw [hstrings, List.length_take]
      omega
  next hs =>
    obtain ⟨listed, second, hin, h⟩ := bind_eq_ok h
    obtain ⟨rfl, same, rest', hr', hc⟩ := hasKindIn_eq_ok hin
    obtain rfl : token = same := by simpa [hr] using congrArg List.head? hr'
    split at h
    next hl =>
      obtain ⟨found, third, hn, h⟩ := bind_eq_ok h
      cases h
      have hrest := next_eq_ok hn
      obtain rfl : token = found := by simpa [hr] using congrArg List.head? hrest
      refine ⟨[token], default_of_kind hw ?_, hrest⟩
      have hns : token.kind ≠ .string := by simpa [← hb] using hs
      rw [hl] at hc
      simpa [hns] using hc
    next => cases h

theorem touchingStrings_window {strings rest : List Token}
    (hlen : strings.length ≤ statementLimit) (ht : Touching strings)
    (hr : rest.head?.any (·.kind == .string) = false) :
    Token.touchingStrings ((strings ++ rest).take statementLimit) = strings.length := by
  rw [List.take_append, List.take_of_length_le hlen]
  refine Token.touchingStrings_append ht ?_
  cases statementLimit - strings.length with
  | zero => simp
  | succ n => cases rest <;> simp_all

theorem touchingStrings_full_window {strings : List Token} (hlen : strings.length = statementLimit)
    (ht : Touching strings) (rest : List Token) :
    Token.touchingStrings ((strings ++ rest).take statementLimit) = strings.length := by
  have hcount : Token.touchingStrings (strings ++ []) = strings.length :=
    Token.touchingStrings_append ht rfl
  rw [List.append_nil] at hcount
  rw [← hlen, List.take_left, hcount]

theorem reads_literal {strings rest : List Token} (hne : strings ≠ []) (ht : Touching strings)
    (hrun : Token.touchingStrings ((strings ++ rest).take statementLimit) = strings.length) :
    Reads defaultValue (strings ++ rest) (Token.joined strings "'") rest := by
  have hlit := Token.literal?_eq_some_iff.mpr ⟨hne, ht, rfl⟩
  have hkind : Reads (hasKind .string) (strings ++ rest) true (strings ++ rest) := by
    cases strings with
    | nil => exact absurd rfl hne
    | cons first others =>
      have hf : first.kind = .string := ht.1 first (by simp)
      simpa [hf] using reads_hasKind .string first (others ++ rest)
  refine hkind.bind ?_
  rw [if_pos rfl]
  refine (reads_lookahead statementLimit _).bind ?_
  rw [hrun]
  refine (reads_peekMany rfl rest).bind ?_
  rw [hlit]
  exact (reads_skip rfl rest).bind (reads_pure _ rest)

theorem reads_plainDefault {token : Token} (hk : token.kind ∈ [.int, .float, .keyword])
    (rest : List Token) : Reads defaultValue (token :: rest) token.text rest := by
  have hs : token.kind ≠ .string := by
    intro hs
    simp [hs] at hk
  have hin : [.string, .int, .float, .keyword].contains token.kind = true := by
    rw [List.contains_iff_mem]
    exact List.mem_cons_of_mem _ hk
  refine (reads_hasKind .string token rest).bind ?_
  rw [if_neg (by simpa using hs)]
  refine (reads_hasKindIn _ token rest).bind ?_
  rw [if_pos hin]
  exact (reads_next token rest).bind (reads_pure _ rest)

theorem reads_columnDefault {tokens rest : List Token} {value : Option String}
    (h : Default tokens value) (hr : HeadIn [",", ")"] markWords rest) :
    Reads columnDefault (tokens ++ rest) value rest := by
  cases h with
  | absent =>
    exact (reads_ignoreIf_other (hr.no_keyword (by decide))).bind (reads_pure none rest)
  | literal hw hne hlen ht =>
    refine (reads_ignoreIf hw _).bind ?_
    have hrun := touchingStrings_window hlen ht hr.no_string
    exact ((reads_literal hne ht hrun).during _).map some
  | @number word token hw hk =>
    have htext : token.text = token.content := by
      unfold Token.text
      rw [if_neg (by rcases hk with hk | hk <;> simp [hk])]
    refine (reads_ignoreIf hw (token :: rest)).bind ?_
    rw [← htext]
    exact ((reads_plainDefault (by rcases hk with hk | hk <;> simp [hk]) rest).during _).map some
  | @keyword word token hw hk =>
    have htext : token.text = Text.upper token.content := by
      unfold Token.text
      rw [if_pos hk]
    refine (reads_ignoreIf hw (token :: rest)).bind ?_
    rw [← htext]
    exact ((reads_plainDefault (by simp [hk]) rest).during _).map some

theorem columnDefault_sound {cursor after : Cursor} {value : Option String}
    (h : columnDefault cursor = .ok value after) :
    ∃ tokens, Default tokens value ∧ cursor.rest = tokens ++ after.rest := by
  obtain ⟨b, middle, hi, h⟩ := bind_eq_ok h
  obtain ⟨rfl, word, hw, hr⟩ | ⟨rfl, rfl⟩ := ignoreIf_eq_ok hi
  · obtain ⟨text, ht, rfl⟩ := map_eq_ok h
    obtain ⟨tokens, hd, hr'⟩ := defaultValue_sound hw (during_eq_ok ht)
    exact ⟨word :: tokens, hd, by simp [hr, hr']⟩
  · cases h
    exact ⟨[], .absent, rfl⟩

theorem columnMark_sound {cursor after : Cursor} {mark : ColumnMark}
    (h : columnMark cursor = .ok mark after) (hs : cursor.sees opensColumnMark = true) :
    ∃ tokens, Mark tokens mark ∧ cursor.rest = tokens ++ after.rest := by
  obtain ⟨token, middle, hn, h⟩ := bind_eq_ok h
  have hr := next_eq_ok hn
  have ho : opensColumnMark token = true := by simpa [Cursor.sees, hr] using hs
  split at h
  next hnot =>
    obtain ⟨_, last, he, h⟩ := bind_eq_ok h
    obtain ⟨null, hnull, hr'⟩ := expect_eq_ok he
    cases h
    exact ⟨[token, null], .notNull hnot hnull, by simp [hr, hr']⟩
  next hnot =>
    split at h
    next hnull =>
      cases h
      exact ⟨[token], .null hnull, hr⟩
    next hnull =>
      split at h
      next hprimary =>
        obtain ⟨_, last, he, h⟩ := bind_eq_ok h
        obtain ⟨key, hkey, hr'⟩ := expect_eq_ok he
        cases h
        exact ⟨[token, key], .primaryKey hprimary hkey, by simp [hr, hr']⟩
      next hprimary =>
        split at h
        next hconstraint =>
          obtain ⟨name, last, ht, h⟩ := bind_eq_ok h
          obtain ⟨hk, hr'⟩ := take_eq_ok ht
          cases h
          exact ⟨[token, name], .named hconstraint hk, by simp [hr, hr']⟩
        next hconstraint =>
          cases h
          obtain ⟨word, hm, hw⟩ : ∃ word ∈ silentWords, token.isKeyword word = true := by
            simpa [opensColumnMark, hnot, hnull, hprimary, hconstraint] using ho
          exact ⟨[token], .silent hm hw, hr⟩

theorem kind_of_opensColumnMark {token : Token} (h : opensColumnMark token = true) :
    token.kind = .keyword := by
  simp only [opensColumnMark, Bool.or_eq_true, List.any_eq_true] at h
  obtain (((h | h) | h) | h) | ⟨word, -, h⟩ := h
  all_goals exact Token.kind_of_isKeyword h

theorem reads_columnMark {tokens : List Token} {mark : ColumnMark} (h : Mark tokens mark)
    (rest : List Token) : Reads columnMark (tokens ++ rest) mark rest := by
  cases h with
  | notNull ha hb =>
    refine (reads_next _ _).bind ?_
    rw [if_pos ha]
    exact (reads_expect hb rest).bind (reads_pure _ rest)
  | @null a ha =>
    have hnot : a.isKeyword "NOT" = false := Token.isKeyword_unique ha (by decide)
    refine (reads_next _ _).bind ?_
    rw [if_neg (by simp [hnot]), if_pos ha]
    exact reads_pure _ rest
  | @primaryKey a b ha hb =>
    have hnot : a.isKeyword "NOT" = false := Token.isKeyword_unique ha (by decide)
    have hnull : a.isKeyword "NULL" = false := Token.isKeyword_unique ha (by decide)
    refine (reads_next _ _).bind ?_
    rw [if_neg (by simp [hnot]), if_neg (by simp [hnull]), if_pos ha]
    exact (reads_expect hb rest).bind (reads_pure _ rest)
  | @named a b ha hb =>
    have hnot : a.isKeyword "NOT" = false := Token.isKeyword_unique ha (by decide)
    have hnull : a.isKeyword "NULL" = false := Token.isKeyword_unique ha (by decide)
    have hprimary : a.isKeyword "PRIMARY" = false := Token.isKeyword_unique ha (by decide)
    refine (reads_next _ _).bind ?_
    rw [if_neg (by simp [hnot]), if_neg (by simp [hnull]), if_neg (by simp [hprimary]), if_pos ha]
    exact (reads_take _ hb rest).bind (reads_pure _ rest)
  | @silent a word hm ha =>
    have hother : ∀ other ∈ ["NOT", "NULL", "PRIMARY", "CONSTRAINT"],
        a.isKeyword other = false := by
      intro other ho
      have hd : ∀ word ∈ silentWords, ∀ other ∈ ["NOT", "NULL", "PRIMARY", "CONSTRAINT"],
          Text.sameLetters word other = false := by decide
      exact Token.isKeyword_unique ha (hd word hm other ho)
    refine (reads_next _ _).bind ?_
    rw [if_neg (by simp [hother]), if_neg (by simp [hother]), if_neg (by simp [hother]),
      if_neg (by simp [hother])]
    exact reads_pure _ rest

theorem mark_headIn {tokens : List Token} {mark : ColumnMark} (h : Mark tokens mark)
    (rest : List Token) : HeadIn [] markWords (tokens ++ rest) := by
  cases h with
  | notNull ha _ => exact ⟨_, _, rfl, .inr ⟨"NOT", by simp [markWords], ha⟩⟩
  | null ha => exact ⟨_, _, rfl, .inr ⟨"NULL", by simp [markWords], ha⟩⟩
  | primaryKey ha _ => exact ⟨_, _, rfl, .inr ⟨"PRIMARY", by simp [markWords], ha⟩⟩
  | named ha _ => exact ⟨_, _, rfl, .inr ⟨"CONSTRAINT", by simp [markWords], ha⟩⟩
  | silent hm ha => exact ⟨_, _, rfl, .inr ⟨_, by simp [markWords, hm], ha⟩⟩

theorem marks_headIn {marks rest : List Token} {said : List ColumnMark}
    (h : Many Mark marks said) (hr : HeadIn [",", ")"] [] rest) :
    HeadIn [",", ")"] markWords (marks ++ rest) := by
  cases h with
  | nil => exact hr.mono (by simp) (by simp)
  | cons hfirst _ =>
    rw [List.append_assoc]
    exact (mark_headIn hfirst _).mono (by simp) (by simp)

theorem default_headIn {value rest : List Token} {text : Option String} (h : Default value text)
    (hr : HeadIn [",", ")"] markWords rest) :
    HeadIn [",", ")"] ("DEFAULT" :: markWords) (value ++ rest) := by
  cases h with
  | absent => exact hr.mono (by simp) (by simp)
  | literal hw _ _ _ => exact ⟨_, _, rfl, .inr ⟨"DEFAULT", by simp, hw⟩⟩
  | number hw _ => exact ⟨_, _, rfl, .inr ⟨"DEFAULT", by simp, hw⟩⟩
  | keyword hw _ => exact ⟨_, _, rfl, .inr ⟨"DEFAULT", by simp, hw⟩⟩

theorem opensColumnMark_of_mem {token : Token} {word : String} (hm : word ∈ markWords)
    (h : token.isKeyword word = true) : opensColumnMark token = true := by
  simp only [opensColumnMark, Bool.or_eq_true, List.any_eq_true]
  simp only [markWords, List.cons_append, List.nil_append, List.mem_cons] at hm
  rcases hm with rfl | rfl | rfl | rfl | hm
  · exact .inl (.inl (.inl (.inl h)))
  · exact .inl (.inl (.inl (.inr h)))
  · exact .inl (.inl (.inr h))
  · exact .inl (.inr h)
  · exact .inr ⟨word, hm, h⟩

theorem findsPieces_columnMark : FindsPieces opensColumnMark columnMark Mark fun _ => True where
  opens := by
    intro tokens mark h
    obtain ⟨token, rest, ht, ⟨_, hm, -⟩ | ⟨word, hm, hw⟩⟩ := mark_headIn h []
    · cases hm
    · rw [List.append_nil] at ht
      simpa [ht] using opensColumnMark_of_mem hm hw
  reads := fun _ _ rest h _ => reads_columnMark h rest
  follows := fun _ _ _ _ => trivial

theorem reads_columnMarks {tokens rest : List Token} {marks : List ColumnMark}
    (h : Many Mark tokens marks) (hr : HeadIn [",", ")"] [] rest) :
    Reads columnMarks (tokens ++ rest) marks rest := by
  refine reads_manyWhile findsPieces_columnMark h trivial ?_
  obtain ⟨token, others, rfl, ⟨text, _, ht⟩ | ⟨_, hm, _⟩⟩ := hr
  · have hk := Token.kind_of_isSymbol ht
    rw [List.head?_cons, Option.any_some, Bool.eq_false_iff]
    intro ho
    simp [kind_of_opensColumnMark ho] at hk
  · cases hm

theorem column_sound {cursor after : Cursor} {definition : Column}
    (h : column cursor = .ok definition after) :
    ∃ tokens, ColumnDefinition tokens definition ∧ cursor.rest = tokens ++ after.rest := by
  obtain ⟨name, second, hn, h⟩ := bind_eq_ok h
  obtain ⟨type, third, ht, h⟩ := bind_eq_ok h
  obtain ⟨value, fourth, hd, h⟩ := bind_eq_ok h
  obtain ⟨marks, fifth, hm, h⟩ := bind_eq_ok h
  obtain ⟨hk, hr⟩ := take_eq_ok hn
  obtain ⟨spelled, htype, hr1⟩ := dataType_sound (during_eq_ok ht)
  obtain ⟨default, hdefault, hr2⟩ := columnDefault_sound hd
  obtain ⟨⟨said, hsaid, hr3⟩, -⟩ :=
    manyWhile_sound (fun _ _ _ hc hs => columnMark_sound hc hs) (during_eq_ok hm)
  cases h
  exact ⟨name :: (spelled ++ (default ++ said)), .mk hk htype hdefault hsaid,
    by simp [hr, hr1, hr2, hr3]⟩

theorem reads_column {tokens rest : List Token} {definition : Column}
    (h : ColumnDefinition tokens definition) (hr : HeadIn [",", ")"] [] rest) :
    Reads column (tokens ++ rest) definition rest := by
  cases h with
  | @mk name type value marks spelled default said hk htype hdefault hsaid =>
    have hm := marks_headIn hsaid hr
    have hd := default_headIn hdefault hm
    rw [List.cons_append, List.append_assoc, List.append_assoc]
    refine (reads_take _ hk _).bind (((reads_dataType htype hd).during _).bind ?_)
    refine (reads_columnDefault hdefault hm).bind ?_
    exact ((reads_columnMarks hsaid hr).during _).bind (reads_pure _ rest)

end Grammar

end DdlCatalog
