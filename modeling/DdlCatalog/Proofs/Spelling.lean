import DdlCatalog.Proofs.Keywords
import DdlCatalog.Proofs.LiteralStrings

namespace DdlCatalog

/-- Before `rest`, the text is cut into tokens of which those that are no layout are as wanted. -/
def Spells (text : List Char) (Wanted : List Token → Prop) (rest : List Char) : Prop :=
  ∀ scanner : Scanner, scanner.rest = text ++ rest → ∃ (after : Scanner) (tokens : List Token),
    scanner.finish (LexicalRule.all .oracle) = after.finish (LexicalRule.all .oracle) ∧
      after.rest = rest ∧ after.tokens = scanner.tokens ++ tokens ∧
      Wanted (tokens.filter (!·.isTrivia))

def Single (kind : Token.Kind) (content : String) (tokens : List Token) : Prop :=
  ∃ token, tokens = [token] ∧ token.kind = kind ∧ token.content = content

def Then (First Second : List Token → Prop) (tokens : List Token) : Prop :=
  ∃ front back, tokens = front ++ back ∧ First front ∧ Second back

theorem Cuts.finish {kind : Token.Kind} {span content rest : List Char}
    (h : Cuts .oracle kind span content rest) (hs : span ≠ []) {scanner : Scanner}
    (hr : scanner.rest = span ++ rest) :
    ∃ (next : Scanner) (token : Token), scanner.finish (LexicalRule.all .oracle) =
        next.finish (LexicalRule.all .oracle) ∧
      next.rest = rest ∧ next.tokens = scanner.tokens ++ [token] ∧
      next.position = token.stop ∧ token.start = scanner.position ∧ token.kind = kind ∧
      token.content = String.ofList content := by
  obtain ⟨next, token, hstep, hrest, hbehind, hposition, hstart, hkind, hcontent⟩ := h scanner hr
  have hne : scanner.rest ≠ [] := by simp [hr, hs]
  refine ⟨next, token, Scanner.finish_of_step hne hstep, hrest, ?_, hposition, hstart, hkind,
    hcontent⟩
  simp [Scanner.tokens, hbehind]

namespace Spells

variable {text more rest : List Char} {Wanted Other : List Token → Prop}

theorem nil (h : Wanted []) : Spells [] Wanted rest :=
  fun scanner hr => ⟨scanner, [], rfl, hr, by simp, h⟩

theorem mono (h : Spells text Wanted rest) (hw : ∀ tokens, Wanted tokens → Other tokens) :
    Spells text Other rest := by
  intro scanner hr
  obtain ⟨after, tokens, hfinish, hrest, htokens, hwanted⟩ := h scanner hr
  exact ⟨after, tokens, hfinish, hrest, htokens, hw _ hwanted⟩

theorem append (h : Spells text Wanted (more ++ rest)) (h' : Spells more Other rest) :
    Spells (text ++ more) (Then Wanted Other) rest := by
  intro scanner hr
  rw [List.append_assoc] at hr
  obtain ⟨middle, front, hfinish, hrest, htokens, hfront⟩ := h scanner hr
  obtain ⟨after, back, hfinish', hrest', htokens', hback⟩ := h' middle hrest
  refine ⟨after, front ++ back, hfinish.trans hfinish', hrest', ?_, ?_⟩
  · rw [htokens', htokens, List.append_assoc]
  · rw [List.filter_append]
    exact ⟨_, _, rfl, hfront, hback⟩

theorem of_cuts {kind : Token.Kind} {span content : List Char}
    (h : Cuts .oracle kind span content rest) (hs : span ≠ []) (hk : kind.isTrivia = false) :
    Spells span (Single kind (String.ofList content)) rest := by
  intro scanner hr
  obtain ⟨next, token, hfinish, hrest, htokens, _, _, hkind, hcontent⟩ := h.finish hs hr
  refine ⟨next, [token], hfinish, hrest, htokens, token, ?_, hkind, hcontent⟩
  simp [Token.isTrivia, hkind, hk]

theorem layout {kind : Token.Kind} {span content : List Char}
    (h : Cuts .oracle kind span content rest) (hs : span ≠ []) (hk : kind.isTrivia = true) :
    Spells span (· = []) rest := by
  intro scanner hr
  obtain ⟨next, token, hfinish, hrest, htokens, _, _, hkind, _⟩ := h.finish hs hr
  refine ⟨next, [token], hfinish, hrest, htokens, ?_⟩
  simp [Token.isTrivia, hkind, hk]

/-- What follows a word or a number separates it from all letters and digits behind. -/
def Separated (rest : List Char) : Prop :=
  ∀ c ∈ rest.head?, c ∈ " (),;\n".toList

theorem separated_cons {c : Char} (hc : c ∈ " (),;\n".toList) (cs : List Char) :
    Separated (c :: cs) := by
  intro d hd
  cases hd
  exact hc

theorem keyword {word : String} (hw : word ∈ Vocabulary.oracle.words) (hr : Separated rest) :
    Spells word.toList (Single .keyword word) rest := by
  have hends : Vocabulary.Ends rest := by
    intro c hc
    have hall : " (),;\n".toList.all (!Vocabulary.wordChars.contains ·.toLower) = true := by decide
    simpa using List.all_eq_true.mp hall c (hr c hc)
  have hne : word.toList ≠ [] := by
    intro he
    exact (Vocabulary.mem_words_ofList.mp hw).2 (String.toList_eq_nil_iff.mp he)
  have hspells := of_cuts (Cuts.word hw hends) hne rfl
  rwa [String.ofList_toList] at hspells

theorem number {digits : List Char} (hne : digits ≠ []) (hd : ∀ c ∈ digits, c.isDigit = true)
    (hr : Separated rest) : Spells digits (Single .int (String.ofList digits)) rest := by
  have hend : ∀ c ∈ rest.head?, c.isDigit = false ∧ c ≠ '.' := by
    intro c hc
    have hall : " (),;\n".toList.all (fun c => !c.isDigit && c != '.') = true := by decide
    simpa using List.all_eq_true.mp hall c (hr c hc)
  cases digits with
  | nil => exact absurd rfl hne
  | cons c cs => exact of_cuts (Cuts.number hd hend) hne rfl

theorem symbol {c : Char} (hc : c ∈ ".,();*".toList) :
    Spells [c] (Single .symbol (String.ofList [c])) rest :=
  of_cuts (Cuts.symbol hc) (by simp) rfl

theorem name {inside : List Char} (hi : '"' ∉ inside) :
    Spells ('"' :: (inside ++ ['"'])) (Single .string (String.ofList inside)) rest :=
  of_cuts (Cuts.name hi) (by simp) rfl

theorem blank (hr : ∀ c ∈ rest.head?, c ∉ "\t ".toList) : Spells [' '] (· = []) rest :=
  layout (Cuts.whitespace (by simp) hr) (by simp) rfl

theorem lineEnd (hr : ∀ c ∈ rest.head?, c ∉ "\n\r".toList) : Spells ['\n'] (· = []) rest :=
  layout (Cuts.newline (by simp) hr) (by simp) rfl

def Word (word : String) (tokens : List Token) : Prop :=
  ∃ token, tokens = [token] ∧ token.isKeyword word = true

def Sign (text : String) (tokens : List Token) : Prop :=
  ∃ token, tokens = [token] ∧ token.isSymbol text = true

theorem head_not_blank {word : String} (hw : word ∈ Vocabulary.oracle.words) (rest : List Char) :
    ∀ c ∈ (word.toList ++ rest).head?, c ∉ "\t ".toList := by
  have hfirst := (Vocabulary.capital_of_mem hw).first
  have hall : Vocabulary.capitals.all (!"\t ".toList.contains ·) = true := by decide
  cases hword : word.toList with
  | nil => simp [hword] at hfirst
  | cons d ds =>
    rintro c ⟨rfl⟩
    have hcapital : d ∈ Vocabulary.capitals := by simpa [hword] using hfirst
    simpa using List.all_eq_true.mp hall d hcapital

theorem word {word : String} (hw : word ∈ Vocabulary.oracle.words) (hr : Separated rest) :
    Spells word.toList (Word word) rest := by
  refine (keyword hw hr).mono ?_
  rintro _ ⟨token, rfl, hk, hc⟩
  exact ⟨token, rfl, Token.isKeyword_iff.mpr ⟨hk, by rw [hc]⟩⟩

theorem blankKeyword {word : String} (hw : word ∈ Vocabulary.oracle.words)
    (hr : Separated rest) : Spells (' ' :: word.toList) (Single .keyword word) rest := by
  refine ((blank (head_not_blank hw rest)).append (keyword hw hr)).mono ?_
  rintro _ ⟨_, back, rfl, rfl, hback⟩
  exact hback

theorem blankWord {word : String} (hw : word ∈ Vocabulary.oracle.words) (hr : Separated rest) :
    Spells (' ' :: word.toList) (Word word) rest := by
  refine (blankKeyword hw hr).mono ?_
  rintro _ ⟨token, rfl, hk, hc⟩
  exact ⟨token, rfl, Token.isKeyword_iff.mpr ⟨hk, by rw [hc]⟩⟩

theorem sign {c : Char} (hc : c ∈ ".,();*".toList) :
    Spells [c] (Sign (String.ofList [c])) rest := by
  refine (symbol hc).mono ?_
  rintro _ ⟨token, rfl, hk, hcontent⟩
  exact ⟨token, rfl, by simp [Token.isSymbol, hk, hcontent]⟩

end Spells

open Syntax in
theorem Scanner.finish_literal (text part rest : List Char) (hp : '\'' ∉ part) {scanner : Scanner}
    (hr : scanner.rest = '\'' :: (part ++ (Text.doubled '\'' text ++ '\'' :: rest))) :
    ∃ (after : Scanner) (strings : List Token), scanner.finish (LexicalRule.all .oracle) =
        after.finish (LexicalRule.all .oracle) ∧
      after.rest = rest ∧ after.tokens = scanner.tokens ++ strings ∧ Touching strings ∧
      (∀ first ∈ strings.head?, first.start = scanner.position) ∧
      strings.length = text.count '\'' + 1 ∧
      Token.joined strings "'" = String.ofList (part ++ text) := by
  induction text generalizing part scanner with
  | nil =>
    have hcuts : Cuts .oracle .string ('\'' :: (part ++ ['\''])) part rest := Cuts.literal hp
    obtain ⟨next, token, hfinish, hrest, htokens, _, hstart, hkind, hcontent⟩ :=
      hcuts.finish (List.cons_ne_nil _ _) (by simpa [Text.doubled] using hr)
    refine ⟨next, [token], hfinish, hrest, htokens, ?_, ?_, rfl, ?_⟩
    · exact ⟨by simp [hkind], .singleton _⟩
    · rintro _ ⟨rfl⟩
      exact hstart
    · simp [Token.joined, hcontent]
  | cons c cs ih =>
    by_cases hc : c = '\''
    · subst hc
      have hsplit : scanner.rest = '\'' :: (part ++ ['\'']) ++
          '\'' :: ([] ++ (Text.doubled '\'' cs ++ '\'' :: rest)) := by
        simpa [Text.doubled] using hr
      obtain ⟨next, token, hfinish, hrest, htokens, hposition, hstart, hkind, hcontent⟩ :=
        (Cuts.literal hp).finish (List.cons_ne_nil _ _) hsplit
      obtain ⟨after, strings, hfinish', hrest', htokens', htouching, hhead, hlength, hjoined⟩ :=
        ih [] (by simp) hrest
      obtain ⟨first, others, rfl⟩ : ∃ first others, strings = first :: others :=
        List.exists_cons_of_length_eq_add_one hlength
      refine ⟨after, token :: first :: others, hfinish.trans hfinish', hrest', ?_, ?_, ?_, ?_, ?_⟩
      · simp [htokens', htokens]
      · exact Token.touching_cons_cons.mpr
          ⟨hkind, hposition.symm.trans (hhead first rfl).symm, htouching⟩
      · rintro _ ⟨rfl⟩
        exact hstart
      · simp [hlength]
      · rw [Token.joined_cons_cons, hjoined, hcontent, ← String.toList_inj]
        simp
    · have hsplit : scanner.rest = '\'' :: ((part ++ [c]) ++
          (Text.doubled '\'' cs ++ '\'' :: rest)) := by
        simpa [Text.doubled, hc] using hr
      have hpart : '\'' ∉ part ++ [c] := by simp [hp, Ne.symm hc]
      obtain ⟨after, strings, hfinish, hrest, htokens, htouching, hhead, hlength, hjoined⟩ :=
        ih (part ++ [c]) hpart hsplit
      refine ⟨after, strings, hfinish, hrest, htokens, htouching, hhead, ?_, ?_⟩
      · rw [hlength, List.count_cons_of_ne hc]
      · rw [hjoined, List.append_assoc, List.singleton_append]

theorem Spells.literal (text rest : List Char) :
    Spells ('\'' :: (Text.doubled '\'' text ++ ['\'']))
      (fun strings => strings.length = text.count '\'' + 1 ∧ Syntax.Touching strings ∧
        Token.joined strings "'" = String.ofList text) rest := by
  intro scanner hr
  have hscanner : scanner.rest =
      '\'' :: ([] ++ (Text.doubled '\'' text ++ '\'' :: rest)) := by simp [hr]
  obtain ⟨after, strings, hfinish, hrest, htokens, htouching, _, hlength, hjoined⟩ :=
    Scanner.finish_literal text [] rest (by simp) hscanner
  have hkeep : strings.filter (!·.isTrivia) = strings := by
    refine List.filter_eq_self.mpr fun token hm => ?_
    rw [Token.isTrivia, htouching.1 token hm]
    rfl
  refine ⟨after, strings, hfinish, hrest, htokens, ?_⟩
  rw [hkeep]
  exact ⟨hlength, htouching, hjoined⟩

theorem tokenize_of_spells {text : List Char} {Wanted : List Token → Prop}
    (h : Spells text Wanted []) :
    ∃ tokens, tokenize (String.ofList text) = .ok tokens ∧
      Wanted (tokens.filter (!·.isTrivia)) := by
  have hstart : (Scanner.ofSource (String.ofList text)).rest = text ++ [] := by
    simp [Scanner.ofSource]
  obtain ⟨after, tokens, hfinish, hrest, htokens, hwanted⟩ := h _ hstart
  refine ⟨tokens, ?_, hwanted⟩
  rw [tokenize, tokenizeWith, hfinish, Scanner.finish, if_pos hrest, htokens]
  rfl

end DdlCatalog
