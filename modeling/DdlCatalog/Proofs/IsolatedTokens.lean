import DdlCatalog.Proofs.MunchedPlaces

namespace DdlCatalog

theorem isPrefix_of_notMem {α : Type} {front span more : List α} {stop : α} (hf : stop ∉ front)
    (hp : front <+: span ++ stop :: more) : front <+: span := by
  have hinside : ∀ item ∈ front, item ≠ stop := fun _ hm he => hf (he ▸ hm)
  have hlength : front.length ≤ span.length := length_le_of_isPrefix hp hinside (by simp)
  exact List.prefix_of_prefix_length_le hp (List.prefix_append _ _) hlength

namespace Token

namespace Kind

variable {words : List String} {kind : Kind} {span rest more : List Char}

theorem Lexeme.newline_notMem (hw : ∀ word ∈ words, '\n' ∉ word.toList) {text : List Char}
    (h : kind.Lexeme words text) (hn : kind ≠ .newline) (hs : kind ≠ .string) : '\n' ∉ text := by
  intro hm
  have hdigits : ¬Char.isDigit '\n' = true := by decide
  cases kind with
  | newline => exact hn rfl
  | string => exact hs rfl
  | whitespace => simpa using h.2 _ hm
  | comment => exact h.2 _ hm (.inl rfl)
  | directive => exact h.2 _ hm (.inl rfl)
  | float =>
    obtain ⟨whole, places, hwhole, hplaces, rfl⟩ := h
    rcases List.mem_append.mp hm with hm | hm
    · exact hdigits (hwhole.2 _ hm)
    · rcases List.mem_cons.mp hm with hpoint | hm
      · cases hpoint
      · exact hdigits (hplaces.2 _ hm)
  | int => exact hdigits (h.2 _ hm)
  | symbol =>
    obtain ⟨c, hc, rfl⟩ := h
    obtain rfl := List.mem_singleton.mp hm
    simp at hc
  | keyword =>
    obtain ⟨word, hword, -, hsame⟩ := h
    have hlower := List.mem_map_of_mem (f := Char.toLower) hm
    rw [Text.sameLetters_iff, String.toList_ofList] at hsame
    rw [hsame] at hlower
    obtain ⟨c, hc, hcase⟩ := List.mem_map.mp hlower
    obtain rfl := (Text.toLower_eq_iff (by decide)).mp hcase
    exact hw word hword hc

theorem AppliesTo.of_lineEnd (hw : ∀ word ∈ words, '\n' ∉ word.toList) (hs : span ≠ [])
    (h : kind.AppliesTo words (span ++ '\n' :: more)) (rest : List Char) :
    kind.AppliesTo words (span ++ rest) := by
  have hfront : ∀ {front : List Char}, '\n' ∉ front → front <+: span ++ '\n' :: more →
      front <+: span ++ rest := fun hf hp =>
    (isPrefix_of_notMem hf hp).trans (List.prefix_append _ _)
  have hlexeme : kind ≠ .newline → kind ≠ .string →
      (∃ front, front <+: span ++ '\n' :: more ∧ kind.Lexeme words front) →
      ∃ front, front <+: span ++ rest ∧ kind.Lexeme words front := by
    rintro hn hq ⟨front, hp, hf⟩
    exact ⟨front, hfront (hf.newline_notMem hw hn hq) hp, hf⟩
  obtain ⟨c, cs, rfl⟩ := List.exists_cons_of_ne_nil hs
  cases kind with
  | newline =>
    obtain ⟨front, hp, hne, hbreaks⟩ := h
    obtain ⟨d, ds, rfl⟩ := List.exists_cons_of_ne_nil hne
    obtain ⟨rfl, -⟩ := List.cons_prefix_cons.mp hp
    exact ⟨[d], List.prefix_append [d] _, by simp, by simpa using hbreaks d List.mem_cons_self⟩
  | comment => exact hfront (by decide) h
  | directive => exact hfront (by decide) h
  | string => exact h
  | whitespace | float | int | symbol | keyword => exact hlexeme nofun nofun h

theorem LongestBefore.of_lineEnd (hw : ∀ word ∈ words, '\n' ∉ word.toList)
    (h : kind.LongestBefore words span rest) (hk : kind.isTrivia = false) (more : List Char) :
    kind.LongestBefore words span ('\n' :: more) := by
  by_cases hs : kind = .string
  · subst hs
    exact .of_string h.lexeme _
  · refine ⟨h.lexeme, fun front hp hf => ?_, fun _ => ⟨'\n', rfl, .inl rfl⟩⟩
    have hn : kind ≠ .newline := by
      rintro rfl
      cases hk
    exact (isPrefix_of_notMem (hf.newline_notMem hw hn hs) hp).length_le

end Kind

variable {words : List String} {token : Token} {before span rest : List Char}

def movedBehind (token : Token) (span behind : List Char) : Token :=
  .ofSpan token.kind span token.content.toList (Text.byteSize behind)
    (1 + .ofNat (Text.newlines behind))

theorem LiesOn.movedBehind (h : token.LiesOn before span) (behind : List Char) :
    (token.movedBehind span behind).LiesOn behind span where
  nonempty := h.nonempty
  start := rfl
  stop := rfl
  firstLine := rfl
  lastLine := rfl
  plain := fun hk => String.toList_ofList.trans (h.plain hk)
  quoted := fun hk => by
    obtain ⟨quote, hq, hspan⟩ := h.quoted hk
    exact ⟨quote, hq, hspan.trans (by rw [Token.movedBehind, ofSpan, String.toList_ofList])⟩

theorem Munched.of_lineEnd (hw : ∀ word ∈ words, '\n' ∉ word.toList)
    (h : token.Munched words before span rest) (hk : token.isTrivia = false)
    (behind more : List Char) :
    (token.movedBehind span behind).Munched words behind span ('\n' :: more) where
  lies := h.lies.movedBehind behind
  first := fun kind hlt happlies =>
    h.first kind hlt (happlies.of_lineEnd hw h.lies.nonempty rest)
  cut := h.cut.of_lineEnd hw hk more
  noPlaces := nofun

theorem munched_lineFeed (words : List String) (behind : List Char) {rest : List Char}
    (hr : ∀ c ∈ rest.head?, ¬Text.BreaksLine c) :
    (ofSpan .newline ['\n'] ['\n'] (Text.byteSize behind)
      (1 + .ofNat (Text.newlines behind))).Munched words behind ['\n'] rest where
  lies := ⟨by simp, rfl, rfl, rfl, rfl, fun _ => String.toList_ofList, nofun⟩
  first := by
    intro kind hlt happlies
    cases kind with
    | whitespace =>
      obtain ⟨front, hp, hne, hblank⟩ := happlies
      obtain ⟨c, cs, rfl⟩ := List.exists_cons_of_ne_nil hne
      obtain ⟨rfl, -⟩ := List.cons_prefix_cons.mp hp
      simpa using hblank _ List.mem_cons_self
    | _ => simp [ofSpan, Kind.rank] at hlt
  cut := ⟨by simp [ofSpan, Kind.Lexeme, Text.BreaksLine],
    fun front hp hf => length_le_of_isPrefix hp hf.2 hr, nofun⟩
  noPlaces := nofun

/-- The pieces of a source that its significant tokens cover, each with a line end behind it. -/
def onLines (source : List Char) (tokens : List Token) : List Char :=
  (tokens.filter (!·.isTrivia)).flatMap fun token =>
    Text.between token.start token.stop source ++ ['\n']

theorem onLines_cons_of_trivia (hk : token.isTrivia = true) (source : List Char)
    (tokens : List Token) : onLines source (token :: tokens) = onLines source tokens := by
  rw [onLines, List.filter_cons_of_neg (by simp [hk])]
  rfl

theorem onLines_cons_of_lies (hk : token.isTrivia = false) (h : token.LiesOn before span)
    (rest : List Char) (tokens : List Token) :
    onLines (before ++ (span ++ rest)) (token :: tokens) =
      span ++ '\n' :: onLines (before ++ (span ++ rest)) tokens := by
  have hspan : Text.between token.start token.stop (before ++ (span ++ rest)) = span := by
    rw [h.stop, h.start, ← Text.byteSize_append, Text.between_append]
  rw [onLines, List.filter_cons_of_pos (by simp [hk]), List.flatMap_cons, hspan,
    List.append_assoc, List.singleton_append]
  rfl

end Token

namespace Munching

open Token

variable {words : List String} {before text : List Char} {tokens : List Token}

theorem head_onLines (h : Munching words before text tokens) :
    ∀ c ∈ (onLines (before ++ text) tokens).head?, ¬Text.BreaksLine c := by
  induction h with
  | nil => simp [onLines]
  | @cons before span rest token tokens hmunched _ ih =>
    rw [List.append_assoc] at ih
    cases hk : token.isTrivia with
    | true => rwa [onLines_cons_of_trivia hk]
    | false =>
      rw [onLines_cons_of_lies hk hmunched.lies]
      obtain ⟨d, ds, rfl⟩ := List.exists_cons_of_ne_nil hmunched.lies.nonempty
      rintro c ⟨rfl⟩ hb
      refine hmunched.first .newline ?_ ⟨[d], by simp, by simp, by simpa using hb⟩
      cases hkind : token.kind <;> simp [isTrivia, hkind, Kind.isTrivia, Kind.rank] at hk ⊢

/-- The significant tokens of a text, on lines of their own behind any other text, are cut out with
the same kinds and contents. -/
theorem exists_onLines (hw : ∀ word ∈ words, '\n' ∉ word.toList)
    (h : Munching words before text tokens) (behind : List Char) :
    ∃ others, Munching words behind (onLines (before ++ text) tokens) others ∧
      (others.filter (!·.isTrivia)).map (fun token => (token.kind, token.content)) =
        (tokens.filter (!·.isTrivia)).map fun token => (token.kind, token.content) := by
  induction h generalizing behind with
  | nil => exact ⟨[], .nil, rfl⟩
  | @cons before span rest token tokens hmunched hrest ih =>
    have hhead := hrest.head_onLines
    rw [List.append_assoc] at ih hhead
    cases hk : token.isTrivia with
    | true =>
      rw [onLines_cons_of_trivia hk, List.filter_cons_of_neg (by simp [hk])]
      exact ih behind
    | false =>
      rw [onLines_cons_of_lies hk hmunched.lies]
      obtain ⟨others, hothers, hsame⟩ := ih (behind ++ span ++ ['\n'])
      have hmoved := hmunched.of_lineEnd hw hk behind (onLines (before ++ (span ++ rest)) tokens)
      have hline := munched_lineFeed words (behind ++ span) hhead
      refine ⟨_, .cons hmoved (.cons hline hothers), ?_⟩
      have hkept : (token.movedBehind span behind).isTrivia = false := hk
      rw [List.filter_cons_of_pos (by simp [hkept]), List.filter_cons_of_neg (by simp [isTrivia,
        ofSpan, Kind.isTrivia]), List.filter_cons_of_pos (by simp [hk]), List.map_cons,
        List.map_cons, hsame]
      simp [Token.movedBehind, ofSpan]

end Munching

/-- A script whose significant tokens are written out, each on a line of its own, has the same
significant tokens: none is split, merged with another or taken for something else. -/
theorem tokenize_onLines {source : String} {tokens : List Token}
    (h : tokenize source = .ok tokens) :
    ∃ others, tokenize (String.ofList (Token.onLines source.toList tokens)) = .ok others ∧
      (others.filter (!·.isTrivia)).map (fun token => (token.kind, token.content)) =
        (tokens.filter (!·.isTrivia)).map fun token => (token.kind, token.content) := by
  have hw : ∀ word ∈ Vocabulary.statementWords ++ Vocabulary.privilegeWords ++
      Vocabulary.typeWords ++ Vocabulary.columnWords ++ Vocabulary.storageWords,
      '\n' ∉ word.toList := by
    decide +kernel
  obtain ⟨others, hothers, hsame⟩ := (munching_tokenizeWith h).exists_onLines hw []
  rw [List.nil_append, ← String.toList_ofList (l := Token.onLines source.toList tokens)] at hothers
  exact ⟨others, tokenizeWith_eq_ok_iff.mpr hothers, hsame⟩

theorem tokenize_onLines_numbers :
    let source := "1.5.2'a'\"b\"--c\n@x.sql\n;"
    ∃ tokens, tokenize source = .ok tokens ∧
      Token.onLines source.toList tokens = "1.5\n.\n2\n'a'\n\"b\"\n@x.sql\n;\n".toList ∧
      ∃ others, tokenize (String.ofList (Token.onLines source.toList tokens)) = .ok others ∧
        (others.filter (!·.isTrivia)).map (fun token => (token.kind, token.content)) =
          (tokens.filter (!·.isTrivia)).map fun token => (token.kind, token.content) := by
  intro source
  have hlines : (tokenize source).toOption.map (Token.onLines source.toList) =
      some "1.5\n.\n2\n'a'\n\"b\"\n@x.sql\n;\n".toList := by
    decide +kernel
  cases h : tokenize source with
  | error e => rw [h] at hlines; cases hlines
  | ok tokens =>
    rw [h] at hlines
    exact ⟨tokens, rfl, Option.some.inj hlines, tokenize_onLines h⟩

end DdlCatalog
