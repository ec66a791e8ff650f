import DdlCatalog.Proofs.MaximalMunch

namespace DdlCatalog

namespace Token.Kind

theorem rank_injective : Function.Injective rank := by
  intro a b h
  cases a <;> cases b <;> first | rfl | cases h

theorem appliesTo_of_lexeme {words : List String} {kind : Kind} {span : List Char}
    (h : kind.Lexeme words span) (rest : List Char) : kind.AppliesTo words (span ++ rest) := by
  have hfront : ∃ front, front <+: span ++ rest ∧ kind.Lexeme words front :=
    ⟨span, List.prefix_append _ _, h⟩
  cases kind with
  | comment => exact h.1.trans (List.prefix_append _ _)
  | directive => exact h.1.trans (List.prefix_append _ _)
  | string =>
    obtain ⟨quote, inside, hquote, -, rfl⟩ := h
    rcases hquote with rfl | rfl
    · exact .inl rfl
    · exact .inr rfl
  | whitespace | newline | float | int | symbol | keyword => exact hfront

/-- A region that opens at the front of a text and has no end there, and how that is reported. -/
inductive Unended : Kind → Unfinished → List Char → Prop
  | comment {text} : (∀ c ∈ text, ¬Text.BreaksLine c) →
      Unended .comment (.openRegion "--" "\n\r") ('-' :: '-' :: text)
  | name {text} : '"' ∉ text → Unended .string (.delimited "\"") ('"' :: text)
  | literal {text} : '\'' ∉ text → Unended .string (.delimited "'") ('\'' :: text)
  | directive {text} : (∀ c ∈ text, ¬Text.BreaksLine c) →
      Unended .directive (.openRegion "@" "\n\r") ('@' :: text)

namespace Unended

variable {words : List String} {kind : Kind} {reason : Unfinished} {text : List Char}

theorem appliesTo (h : kind.Unended reason text) : kind.AppliesTo words text := by
  cases h with
  | @comment text => exact List.prefix_append ['-', '-'] text
  | name => exact .inl rfl
  | literal => exact .inr rfl
  | @directive text => exact List.prefix_append ['@'] text

theorem not_longestBefore {span rest : List Char} (h : kind.Unended reason (span ++ rest)) :
    ¬kind.LongestBefore words span rest := by
  intro hcut
  have hbreak : ∀ c ∈ rest.head?, c ∈ span ++ rest := fun c hc =>
    List.mem_append_right _ (List.mem_of_mem_head? hc)
  generalize htext : span ++ rest = text at h hbreak
  cases h with
  | comment hinside =>
    obtain ⟨c, hc, hb⟩ := hcut.lineEnd (.inl rfl)
    rcases List.mem_cons.mp (hbreak c hc) with rfl | hm
    · simp [Text.BreaksLine] at hb
    · rcases List.mem_cons.mp hm with rfl | hm
      · simp [Text.BreaksLine] at hb
      · exact hinside c hm hb
  | directive hinside =>
    obtain ⟨c, hc, hb⟩ := hcut.lineEnd (.inr rfl)
    rcases List.mem_cons.mp (hbreak c hc) with rfl | hm
    · simp [Text.BreaksLine] at hb
    · exact hinside c hm hb
  | name hopen =>
    obtain ⟨quote, inside, -, -, rfl⟩ := hcut.lexeme
    obtain ⟨rfl, rfl⟩ := List.cons.inj htext
    exact hopen (by simp)
  | literal hopen =>
    obtain ⟨quote, inside, -, -, rfl⟩ := hcut.lexeme
    obtain ⟨rfl, rfl⟩ := List.cons.inj htext
    exact hopen (by simp)

end Unended

end Token.Kind

namespace Recognizer

variable {text : List Char} {reason : Unfinished}

theorem Passes.anyWord {words : List String}
    (h : (anyWord (Vocabulary.ofList words).words true).Passes text) {front : List Char}
    (hp : front <+: text) : ¬Token.Kind.keyword.Lexeme words front := by
  rintro ⟨word, hm, hne, hsame⟩
  obtain ⟨extent, hr, hs⟩ := h
  have hlisted := Vocabulary.mem_words_ofList.mpr ⟨hm, hne⟩
  unfold Recognizer.anyWord at hr
  split at hr
  next found hfind =>
    cases hr
    have hfound := Vocabulary.mem_words_ofList.mp (List.mem_of_find?_eq_some hfind)
    have hfront := List.find?_some hfind
    have hfits := length_le_of_atFront hfront
    have hpos := List.length_pos_iff.mpr fun he => hfound.2 (String.toList_eq_nil_iff.mp he)
    have hlength := congrArg List.length hs
    simp only [Extent.span, List.length_take, List.length_nil] at hlength
    omega
  next hnone =>
    have hfail := List.find?_eq_none.mp hnone word hlisted
    exact hfail ((atFront_anyCase_iff hne).mpr ⟨front, hp, hsame⟩)

theorem openedUntil_eq_error {opening terminators : String} (ho : opening ≠ "") :
    openedUntil opening terminators text = .error reason ↔
      reason = .openRegion opening terminators ∧
        ∃ more, text = opening.toList ++ more ∧ ∀ c ∈ more, c ∉ terminators.toList := by
  unfold openedUntil
  constructor
  · intro h
    split at h
    next hf =>
      obtain ⟨more, rfl⟩ := (atFront_iff ho).mp hf
      rw [List.drop_left] at h
      split at h
      next => cases h
      next hnone =>
        cases h
        refine ⟨rfl, more, rfl, fun c hc => ?_⟩
        simpa using List.findIdx?_eq_none_iff.mp hnone c hc
    next => cases h
  · rintro ⟨rfl, more, rfl, hmore⟩
    have hnone : distanceTo? terminators more = none :=
      List.findIdx?_eq_none_iff.mpr fun c hc => by simpa using hmore c hc
    rw [if_pos ((atFront_iff ho).mpr ⟨more, rfl⟩), List.drop_left, hnone]

theorem delimited_eq_error {delimiter : String} {quote : Char} (hq : delimiter.toList = [quote]) :
    delimited delimiter false text = .error reason ↔
      reason = .delimited delimiter ∧ ∃ more, text = quote :: more ∧ quote ∉ more := by
  unfold delimited
  constructor
  · intro h
    split at h
    next hf =>
      obtain ⟨more, rfl⟩ := (atFront_singleton hq text).mp hf
      simp only [hq, List.length_singleton, List.drop_succ_cons, List.drop_zero] at h
      split at h
      next => cases h
      next hnone =>
        cases h
        refine ⟨rfl, more, rfl, fun hm => ?_⟩
        obtain ⟨front, back, rfl, hfront⟩ := List.eq_append_cons_of_mem hm
        rw [Text.find?_singleton_eq_some.mpr ⟨front, back, rfl, rfl, hfront⟩] at hnone
        cases hnone
    next => cases h
  · rintro ⟨rfl, more, rfl, hmore⟩
    rw [if_pos ((atFront_singleton hq _).mpr ⟨more, rfl⟩)]
    simp only [hq, List.length_singleton, List.drop_succ_cons, List.drop_zero]
    cases hfind : Text.find? [quote] more with
    | none => rfl
    | some n =>
      obtain ⟨inside, after, rfl, -⟩ := Text.find?_singleton_eq_some.mp hfind
      exact absurd (by simp) hmore

end Recognizer

namespace LexicalRule

open Recognizer Token.Kind

variable {text : List Char} {reason : Unfinished}

theorem unended_of_error {vocabulary : Vocabulary} {rule : LexicalRule}
    (hm : rule ∈ all vocabulary) (h : rule.recognize text = .error reason) :
    rule.kind.Unended reason text := by
  simp only [all, List.mem_cons, List.not_mem_nil, or_false] at hm
  rcases hm with rfl | rfl | rfl | rfl | rfl | rfl | rfl | rfl | rfl | rfl
  · cases h
  · cases h
  · obtain ⟨rfl, more, rfl, hmore⟩ := (openedUntil_eq_error (by decide)).mp h
    exact .comment fun c hc => by simpa [Text.BreaksLine] using hmore c hc
  · obtain ⟨rfl, more, rfl, hmore⟩ := (delimited_eq_error rfl).mp h
    exact .name hmore
  · obtain ⟨rfl, more, rfl, hmore⟩ := (delimited_eq_error rfl).mp h
    exact .literal hmore
  · cases h
  · cases h
  · dsimp only at h
    unfold oneOf at h
    split at h
    next => split at h <;> cases h
    next => cases h
  · obtain ⟨rfl, more, rfl, hmore⟩ := (openedUntil_eq_error (by decide)).mp h
    exact .directive fun c hc => by simpa [Text.BreaksLine] using hmore c hc
  · dsimp only at h
    unfold anyWord at h
    split at h <;> cases h

end LexicalRule

namespace Token

theorem LiesOn.unique {token other : Token} {before span : List Char}
    (h : token.LiesOn before span) (ho : other.LiesOn before span)
    (hk : token.kind = other.kind) : token = other := by
  have hcontent : token.content = other.content := by
    apply String.toList_inj.mp
    by_cases hs : token.kind = .string
    · obtain ⟨quote, -, hspan⟩ := h.quoted hs
      obtain ⟨quote', -, hspan'⟩ := ho.quoted (hk ▸ hs)
      exact List.append_inj_left' (List.cons.inj (hspan.symm.trans hspan')).2 rfl
    · exact (h.plain hs).trans (ho.plain (hk ▸ hs)).symm
  have hstart : token.start = other.start := h.start.trans ho.start.symm
  have hstop : token.stop = other.stop := by rw [h.stop, ho.stop, hstart]
  have hfirst : token.firstLine = other.firstLine := h.firstLine.trans ho.firstLine.symm
  have hlast : token.lastLine = other.lastLine := by rw [h.lastLine, ho.lastLine, hfirst]
  obtain ⟨content, kind, start, stop, firstLine, lastLine⟩ := token
  obtain ⟨content', kind', start', stop', firstLine', lastLine'⟩ := other
  simp only [mk.injEq] at *
  exact ⟨hcontent, hk, hstart, hstop, hfirst, hlast⟩

namespace Munched

variable {words : List String} {token other : Token} {before span rest : List Char}

theorem appliesTo (h : token.Munched words before span rest) :
    token.kind.AppliesTo words (span ++ rest) :=
  Kind.appliesTo_of_lexeme h.cut.lexeme rest

theorem kind_eq {kind : Kind} (h : token.Munched words before span rest)
    (happlies : kind.AppliesTo words (span ++ rest))
    (hfirst : ∀ earlier : Kind, earlier.rank < kind.rank →
      ¬earlier.AppliesTo words (span ++ rest)) : token.kind = kind := by
  apply Kind.rank_injective
  rcases Nat.lt_trichotomy token.kind.rank kind.rank with hlt | heq | hlt
  · exact absurd h.appliesTo (hfirst _ hlt)
  · exact heq
  · exact absurd happlies (h.first _ hlt)

theorem unique {span' rest' : List Char} (h : token.Munched words before span rest)
    (ho : other.Munched words before span' rest') (ht : span ++ rest = span' ++ rest') :
    token = other ∧ span = span' := by
  have hkind : token.kind = other.kind := h.kind_eq (ht ▸ ho.appliesTo) (ht ▸ ho.first)
  have hspan : span = span' := by
    have hle := ho.cut.longest span (ht ▸ List.prefix_append _ _) (hkind ▸ h.cut.lexeme)
    have hge := h.cut.longest span' (ht ▸ List.prefix_append _ _) (hkind ▸ ho.cut.lexeme)
    exact (List.append_inj ht (Nat.le_antisymm hle hge)).1
  subst hspan
  exact ⟨h.lies.unique ho.lies hkind, rfl⟩

theorem not_unended {kind : Kind} {reason : Unfinished} (h : token.Munched words before span rest)
    (hfirst : ∀ earlier : Kind, earlier.rank < kind.rank →
      ¬earlier.AppliesTo words (span ++ rest)) : ¬kind.Unended reason (span ++ rest) := by
  intro hopen
  have hkind := h.kind_eq hopen.appliesTo hfirst
  exact hopen.not_longestBefore (hkind ▸ h.cut)

end Munched

end Token

namespace Scanner

variable {words : List String} {scanner : Scanner}

def reached (before rest : List Char) (tokens : List Token) : Scanner where
  position := Text.byteSize before
  line := 1 + .ofNat (Text.newlines before)
  rest := rest
  behind := tokens.reverse

theorem at_reached (before rest : List Char) (tokens : List Token) :
    (reached before rest tokens).At before :=
  ⟨rfl, rfl⟩

theorem At.eq_reached {before : List Char} (h : scanner.At before) :
    scanner = reached before scanner.rest scanner.tokens := by
  obtain ⟨position, line, rest, behind⟩ := scanner
  obtain ⟨hposition, hline⟩ := h
  simp only at hposition hline
  subst hposition hline
  simp [reached, tokens]

theorem finish_reached_nil (before : List Char) (tokens : List Token)
    (rules : List LexicalRule) : (reached before [] tokens).finish rules = .ok tokens := by
  have hend : (reached before [] tokens).rest = [] := rfl
  rw [finish, if_pos hend]
  simp [reached, Scanner.tokens]

theorem passes_of_step_eq_none {rules : List LexicalRule} (h : scanner.step rules = .ok none) :
    ∀ rule ∈ rules, rule.recognize.Passes scanner.rest := by
  induction rules with
  | nil => simp
  | cons rule rules ih =>
    unfold step at h
    split at h
    next => cases h
    next => cases h
    next hpass => exact List.forall_mem_cons.mpr ⟨passes_of_scan_eq_none hpass, ih h⟩

theorem step_eq_error_append {rules : List LexicalRule} {e : LexicalError}
    (h : scanner.step rules = .error e) :
    ∃ front rule back reason, rules = front ++ rule :: back ∧
      (∀ earlier ∈ front, earlier.recognize.Passes scanner.rest) ∧
      rule.recognize scanner.rest = .error reason ∧ e = .unfinished rule.kind reason scanner := by
  induction rules with
  | nil => cases h
  | cons rule rules ih =>
    unfold step at h
    split at h
    next reason hscan =>
      cases h
      refine ⟨[], rule, rules, reason, rfl, by simp, ?_, rfl⟩
      unfold scan at hscan
      split at hscan
      next hr => rwa [← Except.error.inj hscan]
      next => split at hscan <;> cases hscan
    next => cases h
    next hpass =>
      obtain ⟨front, found, back, reason, rfl, hfront, hfound, he⟩ := ih h
      exact ⟨rule :: front, found, back, reason, rfl,
        List.forall_mem_cons.mpr ⟨passes_of_scan_eq_none hpass, hfront⟩, hfound, he⟩

theorem not_appliesTo_of_step_eq_none
    (h : scanner.step (LexicalRule.all (.ofList words)) = .ok none) (kind : Token.Kind) :
    ¬kind.AppliesTo words scanner.rest := by
  have hpasses := passes_of_step_eq_none h
  by_cases hk : kind = .keyword
  · subst hk
    have hword : (Recognizer.anyWord (Vocabulary.ofList words).words true).Passes scanner.rest :=
      hpasses ⟨.keyword, .anyWord (Vocabulary.ofList words).words true⟩
        (by simp [LexicalRule.all])
    rintro ⟨front, hp, hf⟩
    exact hword.anyWord hp hf
  · exact LexicalRule.not_appliesTo_of_passes hk fun rule hm _ => hpasses rule hm

theorem unended_of_step_eq_error {e : LexicalError}
    (h : scanner.step (LexicalRule.all (.ofList words)) = .error e) :
    ∃ (kind : Token.Kind) (reason : Unfinished), kind.Unended reason scanner.rest ∧
      (∀ earlier : Token.Kind, earlier.rank < kind.rank →
        ¬earlier.AppliesTo words scanner.rest) ∧ e = .unfinished kind reason scanner := by
  obtain ⟨front, rule, back, reason, hrules, hpasses, hfails, he⟩ := step_eq_error_append h
  have hm : rule ∈ LexicalRule.all (.ofList words) := by simp [hrules]
  exact ⟨rule.kind, reason, LexicalRule.unended_of_error hm hfails,
    fun _ hlt => LexicalRule.not_appliesTo_of_earlier hrules hpasses hlt, he⟩

theorem step_of_munched {token : Token} {before span rest : List Char}
    (h : token.Munched words before span rest) (tokens : List Token) :
    (reached before (span ++ rest) tokens).step (LexicalRule.all (.ofList words)) =
      .ok (some (reached (before ++ span) rest (tokens ++ [token]))) := by
  have hat := at_reached before (span ++ rest) tokens
  cases hstep : (reached before (span ++ rest) tokens).step
      (LexicalRule.all (.ofList words)) with
  | error e =>
    obtain ⟨kind, reason, hopen, hfirst, -⟩ := unended_of_step_eq_error hstep
    exact absurd hopen (h.not_unended hfirst)
  | ok result =>
    cases result with
    | none => exact absurd h.appliesTo (not_appliesTo_of_step_eq_none hstep token.kind)
    | some next =>
      obtain ⟨other, span', hbehind, hrest, hnext, hmunched⟩ := step_munches hat hstep
      obtain ⟨rfl, rfl⟩ := h.unique hmunched hrest
      have htokens : next.tokens = tokens ++ [token] := by
        rw [Scanner.tokens, hbehind]
        simp [reached]
      rw [hnext.eq_reached, htokens, ← List.append_cancel_left hrest]

end Scanner

theorem Cuts.finish_reached {vocabulary : Vocabulary} {kind : Token.Kind}
    {span content rest : List Char} (h : Cuts vocabulary kind span content rest)
    (hs : span ≠ []) (before : List Char) (tokens : List Token) :
    (Scanner.reached before (span ++ rest) tokens).finish (LexicalRule.all vocabulary) =
      (Scanner.reached (before ++ span) rest (tokens ++ [.ofSpan kind span content
        (Text.byteSize before) (1 + .ofNat (Text.newlines before))])).finish
          (LexicalRule.all vocabulary) := by
  have hat := Scanner.at_reached before (span ++ rest) tokens
  have hne : (Scanner.reached before (span ++ rest) tokens).rest ≠ [] := by
    simp [Scanner.reached, hs]
  obtain ⟨next, token, hstep, rfl, hbehind, -, -, hkind, hcontent⟩ :=
    h (Scanner.reached before (span ++ rest) tokens) rfl
  obtain ⟨same, piece, hbehind', hlies, hrest, hnext⟩ := Scanner.step_tiles hat hstep
  obtain rfl : span = piece := List.append_cancel_right hrest
  obtain rfl : token = same := (List.cons.inj (hbehind.symm.trans hbehind')).1
  have htoken : token = .ofSpan kind span content (Text.byteSize before)
      (1 + .ofNat (Text.newlines before)) := by
    rw [Token.ofSpan, ← hcontent, ← hkind, ← hlies.start, ← hlies.firstLine, ← hlies.stop,
      ← hlies.lastLine]
  have htokens : next.tokens = tokens ++ [token] := by
    rw [Scanner.tokens, hbehind]
    simp [Scanner.reached]
  rw [Scanner.finish_of_step hne hstep, ← htoken, ← htokens, ← hnext.eq_reached]

/-- Tokens that are munched one behind the other over a whole script are the tokens of the
script. -/
theorem tokenizeWith_eq_ok_iff {words : List String} {source : String} {tokens : List Token} :
    tokenizeWith (.ofList words) source = .ok tokens ↔
      Munching words [] source.toList tokens := by
  refine ⟨munching_tokenizeWith, fun h => ?_⟩
  have hfinish : ∀ {before text : List Char} {ahead : List Token},
      Munching words before text ahead → ∀ behind : List Token,
        (Scanner.reached before text behind).finish (LexicalRule.all (.ofList words)) =
          .ok (behind ++ ahead) := by
    intro before text ahead h
    induction h with
    | nil =>
      intro behind
      rw [Scanner.finish_reached_nil, List.append_nil]
    | @cons before span rest token ahead hmunched _ ih =>
      intro behind
      have hne : (Scanner.reached before (span ++ rest) behind).rest ≠ [] := by
        simp [Scanner.reached, hmunched.lies.nonempty]
      rw [Scanner.finish_of_step hne (Scanner.step_of_munched hmunched behind), ih]
      simp
  have hstart : Scanner.ofSource source = Scanner.reached [] source.toList [] :=
    (Scanner.at_ofSource source).eq_reached
  rw [tokenizeWith, hstart, hfinish h, List.nil_append]

end DdlCatalog
