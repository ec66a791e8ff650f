import DdlCatalog.Proofs.ColumnPlaces
import DdlCatalog.Proofs.Diagnosis
import DdlCatalog.Proofs.LiteralLimits
import DdlCatalog.Proofs.TokenConcatenation

namespace DdlCatalog

structure Digits where
  chars : List Char
  nonempty : chars ≠ []
  all : ∀ c ∈ chars, c.isDigit = true

namespace Digits

def text (digits : Digits) : String :=
  String.ofList digits.chars

def value (digits : Digits) : Nat :=
  Nat.ofDigitChars 10 digits.chars 0

def word (digits : Digits) : UInt32 :=
  .ofNat digits.value

theorem toNat_word {digits : Digits} (h : digits.value ≤ 4294967295) :
    digits.word.toNat = digits.value :=
  UInt32.toNat_ofNat_of_lt' (Nat.lt_succ_of_le h)

theorem number?_eq {digits : Digits} {token : Token} (h : token.content = digits.text) :
    DataType.number? token = if digits.value ≤ 4294967295 then some digits.word else none := by
  have hvalue : Text.decimalValue digits.chars = digits.value := by
    rw [Text.decimalValue, value, Nat.ofDigitChars_eq_foldl]
  have hsize : digits.value < UInt32.size ↔ digits.value ≤ 4294967295 := Nat.lt_succ_iff
  rw [DataType.number?, h, text, String.toList_ofList, Text.withoutPlus_of_digits digits.all,
    Text.word?, Text.decimal?_of_digits digits.nonempty digits.all, hvalue]
  simp only [hsize]
  rfl

end Digits

/-- The name of a type: one keyword, or two that belong together. -/
inductive TypeTitle where
  | word (keyword : String) (listed : keyword ∈ Vocabulary.oracle.words)
  | doublePrecision
  | longRaw

namespace TypeTitle

def text : TypeTitle → String
  | word keyword _ => keyword
  | doublePrecision => "DOUBLE PRECISION"
  | longRaw => "LONG RAW"

def lexemes : TypeTitle → List (Token.Kind × String)
  | word keyword _ => [(.keyword, keyword)]
  | doublePrecision => [(.keyword, "DOUBLE"), (.keyword, "PRECISION")]
  | longRaw => [(.keyword, "LONG"), (.keyword, "RAW")]

end TypeTitle

inductive LengthUnit where
  | byte
  | char

def LengthUnit.text : LengthUnit → String
  | byte => "BYTE"
  | char => "CHAR"

inductive WrittenParameters where
  | one (p : Digits)
  | counted (p : Digits) (unit : LengthUnit)
  | two (p s : Digits)
  | starred (s : Digits)

namespace WrittenParameters

def text : WrittenParameters → String
  | one p => p.text
  | counted p unit => p.text ++ (" " ++ unit.text)
  | two p s => p.text ++ ("," ++ s.text)
  | starred s => "*" ++ ("," ++ s.text)

def lexemes : WrittenParameters → List (Token.Kind × String)
  | one p => [(.int, p.text)]
  | counted p unit => [(.int, p.text), (.keyword, unit.text)]
  | two p s => [(.int, p.text), (.symbol, ","), (.int, s.text)]
  | starred s => [(.symbol, "*"), (.symbol, ","), (.int, s.text)]

theorem length_lexemes_le (parameters : WrittenParameters) : parameters.lexemes.length ≤ 3 := by
  cases parameters <;> simp [lexemes]

theorem closing_notMem_lexemes (parameters : WrittenParameters) :
    (.symbol, ")") ∉ parameters.lexemes := by
  cases parameters <;> simp [lexemes]

def lead : WrittenParameters → Option Digits
  | one p => some p
  | counted p _ => some p
  | two p _ => some p
  | starred _ => none

def scale : WrittenParameters → Option Digits
  | two _ s => some s
  | starred s => some s
  | _ => none

end WrittenParameters

structure WrittenType where
  title : TypeTitle
  parameters : WrittenParameters

namespace WrittenType

def text (written : WrittenType) : String :=
  written.title.text ++ ("(" ++ (written.parameters.text ++ ")"))

def lexemes (written : WrittenType) : List (Token.Kind × String) :=
  written.title.lexemes ++ (.symbol, "(") :: (written.parameters.lexemes ++ [(.symbol, ")")])

def length (written : WrittenType) : Option Digits :=
  if written.title.text ∈ DataType.characterTypes then written.parameters.lead else none

def precision (written : WrittenType) : Option Digits :=
  if written.title.text ∈ DataType.characterTypes then none else written.parameters.lead

def scale (written : WrittenType) : Option Digits :=
  if written.title.text ∈ DataType.characterTypes then none else written.parameters.scale

/-- The numbers that are to be kept, in the order in which they are read. -/
def kept (written : WrittenType) : List Digits :=
  written.length.toList ++ (written.precision.toList ++ written.scale.toList)

/-- The first number to be kept that 32 bits cannot hold. -/
def overflow? (written : WrittenType) : Option Digits :=
  written.kept.find? (4294967295 < ·.value)

def type (written : WrittenType) : DataType :=
  ⟨written.title.text, written.precision.map Digits.word, written.scale.map Digits.word,
    written.length.map Digits.word⟩

/-- A type that holds the numbers that are to be kept, each unchanged, and no others. -/
structure HeldBy (written : WrittenType) (type : DataType) : Prop where
  length : type.length.map UInt32.toNat = written.length.map Digits.value
  precision : type.precision.map UInt32.toNat = written.precision.map Digits.value
  scale : type.scale.map UInt32.toNat = written.scale.map Digits.value

theorem kept_of_mem {written : WrittenType}
    (h : written.title.text ∈ DataType.characterTypes) :
    written.kept = written.parameters.lead.toList := by
  simp [kept, length, precision, scale, h]

theorem kept_of_not_mem {written : WrittenType}
    (h : written.title.text ∉ DataType.characterTypes) :
    written.kept = written.parameters.lead.toList ++ written.parameters.scale.toList := by
  simp [kept, length, precision, scale, h]

theorem type_of_mem {written : WrittenType}
    (h : written.title.text ∈ DataType.characterTypes) :
    written.type = { DataType.plain written.title.text with
      length := written.parameters.lead.map Digits.word } := by
  simp [type, DataType.plain, length, precision, scale, h]

theorem type_of_not_mem {written : WrittenType}
    (h : written.title.text ∉ DataType.characterTypes) :
    written.type = { DataType.plain written.title.text with
      precision := written.parameters.lead.map Digits.word
      scale := written.parameters.scale.map Digits.word } := by
  simp [type, DataType.plain, length, precision, scale, h]

theorem value_le_of_overflow? {written : WrittenType} (h : written.overflow? = none)
    {digits : Digits} (hd : digits ∈ written.kept) : digits.value ≤ 4294967295 := by
  have hnot := List.find?_eq_none.mp h digits hd
  simpa using hnot

theorem heldBy_type {written : WrittenType} (h : written.overflow? = none) :
    written.HeldBy written.type := by
  have hword : ∀ {kept : Option Digits}, (∀ digits ∈ kept.toList, digits ∈ written.kept) →
      (kept.map Digits.word).map UInt32.toNat = kept.map Digits.value := by
    intro kept hkept
    cases kept with
    | none => rfl
    | some digits =>
      exact congrArg some (Digits.toNat_word (value_le_of_overflow? h (hkept digits (by simp))))
  constructor
  · exact hword fun digits hd => List.mem_append_left _ hd
  · exact hword fun digits hd => List.mem_append_right _ (List.mem_append_left _ hd)
  · exact hword fun digits hd => List.mem_append_right _ (List.mem_append_right _ hd)

theorem HeldBy.timeZone {written : WrittenType} {numbered type : DataType} {zone : List Token}
    (h : written.HeldBy numbered) (hz : Syntax.TimeZone numbered zone type) :
    written.HeldBy type := by
  obtain ⟨hlength, hprecision, hscale⟩ := h
  cases hz with
  | absent => exact ⟨hlength, hprecision, hscale⟩
  | zone => exact ⟨hlength, hprecision, hscale⟩
  | localZone => exact ⟨hlength, hprecision, hscale⟩

end WrittenType

def Faces (faces : List (Token.Kind × String)) (tokens : List Token) : Prop :=
  tokens.map (fun token => (token.kind, token.content)) = faces

section

variable {face : Token.Kind × String} {faces others : List (Token.Kind × String)}
  {tokens : List Token}

theorem faces_nil_iff : Faces [] tokens ↔ tokens = [] :=
  List.map_eq_nil_iff

theorem faces_cons_iff : Faces (face :: faces) tokens ↔ ∃ token rest, tokens = token :: rest ∧
    token.kind = face.1 ∧ token.content = face.2 ∧ Faces faces rest := by
  rw [Faces, List.map_eq_cons_iff]
  constructor
  · rintro ⟨token, rest, rfl, rfl, hrest⟩
    exact ⟨token, rest, rfl, rfl, rfl, hrest⟩
  · rintro ⟨token, rest, rfl, hk, hc, hrest⟩
    exact ⟨token, rest, rfl, by rw [hk, hc], hrest⟩

theorem faces_append_iff : Faces (faces ++ others) tokens ↔
    ∃ front back, tokens = front ++ back ∧ Faces faces front ∧ Faces others back :=
  List.map_eq_append_iff

theorem Faces.length_eq (h : Faces faces tokens) : tokens.length = faces.length := by
  rw [← h, List.length_map]

theorem Faces.not_isSymbol {text : String} (h : Faces faces tokens)
    (hn : (.symbol, text) ∉ faces) : ∀ token ∈ tokens, ¬token.isSymbol text = true := by
  intro token hm hs
  have hface : (token.kind, token.content) ∈ faces := h ▸ List.mem_map_of_mem hm
  obtain ⟨hk, hc⟩ : token.kind = .symbol ∧ token.content = text := by
    simpa [Token.isSymbol] using hs
  rw [hk, hc] at hface
  exact hn hface

theorem Faces.of_append {front back : List Token} (h : Faces (faces ++ others) (front ++ back))
    (hf : Faces faces front) : Faces others back := by
  unfold Faces at hf h ⊢
  rw [List.map_append, hf] at h
  exact List.append_cancel_left h

end

namespace Spells

variable {text more rest : List Char} {faces others : List (Token.Kind × String)}

theorem of_single {kind : Token.Kind} {content : String}
    (h : Spells text (Single kind content) rest) : Spells text (Faces [(kind, content)]) rest := by
  refine h.mono ?_
  rintro _ ⟨token, rfl, rfl, rfl⟩
  rfl

theorem append_faces (h : Spells text (Faces faces) (more ++ rest))
    (h' : Spells more (Faces others) rest) : Spells (text ++ more) (Faces (faces ++ others)) rest :=
  (h.append h').mono fun _ hwanted => faces_append_iff.mpr hwanted

end Spells

section

open Spells

variable {rest : List Char}

theorem TypeTitle.listed : ∀ word ∈ ["DOUBLE", "PRECISION", "LONG", "RAW", "BYTE", "CHAR"],
    word ∈ Vocabulary.oracle.words := by
  intro word hw
  have hall : ∀ word ∈ ["DOUBLE", "PRECISION", "LONG", "RAW", "BYTE", "CHAR"],
      word ∈ Vocabulary.typeWords ∧ word ≠ "" := by decide
  obtain ⟨hm, hne⟩ := hall word hw
  exact Vocabulary.mem_words_ofList.mpr ⟨by simp [hm], hne⟩

theorem spells_title (title : TypeTitle) (hr : Separated rest) :
    Spells title.text.toList (Faces title.lexemes) rest := by
  have hblank : ∀ cs, Separated (' ' :: cs) := fun cs => separated_cons (by decide) cs
  cases title with
  | word keyword listed => exact (Spells.keyword listed hr).of_single
  | doublePrecision =>
    exact (Spells.keyword (TypeTitle.listed "DOUBLE" (by simp)) (hblank _)).of_single.append_faces
      (blankKeyword (TypeTitle.listed "PRECISION" (by simp)) hr).of_single
  | longRaw =>
    exact (Spells.keyword (TypeTitle.listed "LONG" (by simp)) (hblank _)).of_single.append_faces
      (blankKeyword (TypeTitle.listed "RAW" (by simp)) hr).of_single

theorem spells_digits (digits : Digits) (hr : Separated rest) :
    Spells digits.text.toList (Faces [(.int, digits.text)]) rest := by
  rw [Digits.text, String.toList_ofList]
  exact (Spells.number digits.nonempty digits.all hr).of_single

theorem spells_parameters (parameters : WrittenParameters) :
    Spells parameters.text.toList (Faces parameters.lexemes) (')' :: rest) := by
  have hcloses : Separated (')' :: rest) := separated_cons (by decide) rest
  have hscale : ∀ s : Digits, Spells (',' :: s.text.toList)
      (Faces [(.symbol, ","), (.int, s.text)]) (')' :: rest) := by
    intro s
    have hcomma : Spells [','] (Faces [(.symbol, ",")]) (s.text.toList ++ ')' :: rest) :=
      (Spells.symbol (by decide)).of_single
    exact hcomma.append_faces (spells_digits s hcloses)
  cases parameters with
  | one p => exact spells_digits p hcloses
  | counted p unit =>
    have hunit : unit.text ∈ Vocabulary.oracle.words := by
      cases unit with
      | byte => exact TypeTitle.listed "BYTE" (by simp)
      | char => exact TypeTitle.listed "CHAR" (by simp)
    have hp : Spells p.text.toList (Faces [(.int, p.text)])
        ((' ' :: unit.text.toList) ++ ')' :: rest) := spells_digits p (separated_cons (by decide) _)
    have htext : (WrittenParameters.counted p unit).text.toList =
        p.text.toList ++ ' ' :: unit.text.toList := by simp [WrittenParameters.text]
    rw [htext]
    exact hp.append_faces (blankKeyword hunit hcloses).of_single
  | two p s =>
    have hp : Spells p.text.toList (Faces [(.int, p.text)])
        ((',' :: s.text.toList) ++ ')' :: rest) := spells_digits p (separated_cons (by decide) _)
    have htext : (WrittenParameters.two p s).text.toList =
        p.text.toList ++ ',' :: s.text.toList := by simp [WrittenParameters.text]
    rw [htext]
    exact hp.append_faces (hscale s)
  | starred s =>
    have hstar : Spells ['*'] (Faces [(.symbol, "*")]) ((',' :: s.text.toList) ++ ')' :: rest) :=
      (Spells.symbol (by decide)).of_single
    have htext : (WrittenParameters.starred s).text.toList = ['*'] ++ ',' :: s.text.toList := by
      simp [WrittenParameters.text]
    rw [htext]
    exact hstar.append_faces (hscale s)

theorem TypeTitle.exists_front (title : TypeTitle) :
    ∃ word ∈ Vocabulary.oracle.words, ∃ more, title.text.toList = word.toList ++ more := by
  cases title with
  | word keyword listed => exact ⟨keyword, listed, [], by simp [text]⟩
  | doublePrecision =>
    exact ⟨"DOUBLE", TypeTitle.listed "DOUBLE" (by simp), " PRECISION".toList, rfl⟩
  | longRaw => exact ⟨"LONG", TypeTitle.listed "LONG" (by simp), " RAW".toList, rfl⟩

theorem spells_written (written : WrittenType) :
    Spells (' ' :: written.text.toList) (Faces written.lexemes) rest := by
  have htext : written.text.toList =
      written.title.text.toList ++ (['('] ++ (written.parameters.text.toList ++ [')'])) := by
    simp [WrittenType.text]
  have hopening : Spells ['('] (Faces [(.symbol, "(")])
      ((written.parameters.text.toList ++ [')']) ++ rest) := (Spells.symbol (by decide)).of_single
  have hclosing : Spells [')'] (Faces [(.symbol, ")")]) rest :=
    (Spells.symbol (by decide)).of_single
  have hparameters := (spells_parameters written.parameters).append_faces hclosing
  have htitle := (spells_title written.title (separated_cons (by decide) _)).append_faces
    (hopening.append_faces hparameters)
  have hfront : ∀ c ∈ (written.text.toList ++ rest).head?, c ∉ "\t ".toList := by
    obtain ⟨word, hw, more, hmore⟩ := written.title.exists_front
    rw [htext, hmore, List.append_assoc, List.append_assoc]
    exact head_not_blank hw _
  rw [← htext] at htitle
  refine ((blank hfront).append htitle).mono ?_
  rintro _ ⟨_, back, rfl, rfl, hback⟩
  exact hback

end

namespace Grammar

open TokenReader Syntax

variable {title : TypeTitle} {parameters : WrittenParameters} {written : WrittenType}

theorem typeName_of_faces {tokens : List Token} (h : Faces title.lexemes tokens) :
    TypeName tokens title.text := by
  cases title with
  | word keyword listed =>
    obtain ⟨token, _, rfl, hk, hc, hrest⟩ := faces_cons_iff.mp h
    rw [faces_nil_iff.mp hrest]
    have hupper : Text.upper token.content = keyword := by
      rw [hc, (Vocabulary.capital_of_mem listed).upper]
    exact hupper ▸ .word hk
  | doublePrecision =>
    obtain ⟨a, _, rfl, ha, hca, hrest⟩ := faces_cons_iff.mp h
    obtain ⟨b, _, rfl, hb, hcb, hrest⟩ := faces_cons_iff.mp hrest
    rw [faces_nil_iff.mp hrest]
    exact .doublePrecision (Token.isKeyword_iff.mpr ⟨ha, by rw [hca]⟩)
      (Token.isKeyword_iff.mpr ⟨hb, by rw [hcb]⟩)
  | longRaw =>
    obtain ⟨a, _, rfl, ha, hca, hrest⟩ := faces_cons_iff.mp h
    obtain ⟨b, _, rfl, hb, hcb, hrest⟩ := faces_cons_iff.mp hrest
    rw [faces_nil_iff.mp hrest]
    exact .longRaw (Token.isKeyword_iff.mpr ⟨ha, by rw [hca]⟩)
      (Token.isKeyword_iff.mpr ⟨hb, by rw [hcb]⟩)

inductive LeadToken : Option Digits → Token → Prop
  | number {digits token} : token.kind = .int → token.content = digits.text →
      LeadToken (some digits) token
  | star {token} : token.isSymbol "*" → LeadToken none token

inductive ScaleTokens : Option Digits → List Token → Prop
  | number {digits comma token} : comma.isSymbol "," → token.kind = .int →
      token.content = digits.text → ScaleTokens (some digits) [comma, token]
  | absent {tokens} : tokens.length ≤ 1 → ScaleTokens none tokens

theorem isSymbol_of_face {token : Token} {text : String} (hk : token.kind = .symbol)
    (hc : token.content = text) : token.isSymbol text = true := by
  simp [Token.isSymbol, hk, hc]

theorem exists_lead_of_faces {tokens : List Token} (h : Faces parameters.lexemes tokens) :
    ∃ first others, tokens = first :: others ∧ LeadToken parameters.lead first ∧
      ScaleTokens parameters.scale others := by
  cases parameters with
  | one p =>
    obtain ⟨a, _, rfl, hk, hc, hrest⟩ := faces_cons_iff.mp h
    rw [faces_nil_iff.mp hrest]
    exact ⟨a, [], rfl, .number hk hc, .absent (Nat.zero_le 1)⟩
  | counted p unit =>
    obtain ⟨a, _, rfl, hk, hc, hrest⟩ := faces_cons_iff.mp h
    obtain ⟨b, _, rfl, -, -, hrest⟩ := faces_cons_iff.mp hrest
    rw [faces_nil_iff.mp hrest]
    exact ⟨a, [b], rfl, .number hk hc, .absent (Nat.le_refl 1)⟩
  | two p s =>
    obtain ⟨a, _, rfl, hk, hc, hrest⟩ := faces_cons_iff.mp h
    obtain ⟨b, _, rfl, hkb, hcb, hrest⟩ := faces_cons_iff.mp hrest
    obtain ⟨c, _, rfl, hkc, hcc, hrest⟩ := faces_cons_iff.mp hrest
    rw [faces_nil_iff.mp hrest]
    exact ⟨a, [b, c], rfl, .number hk hc, .number (isSymbol_of_face hkb hcb) hkc hcc⟩
  | starred s =>
    obtain ⟨a, _, rfl, hk, hc, hrest⟩ := faces_cons_iff.mp h
    obtain ⟨b, _, rfl, hkb, hcb, hrest⟩ := faces_cons_iff.mp hrest
    obtain ⟨c, _, rfl, hkc, hcc, hrest⟩ := faces_cons_iff.mp hrest
    rw [faces_nil_iff.mp hrest]
    exact ⟨a, [b, c], rfl, .star (isSymbol_of_face hk hc),
      .number (isSymbol_of_face hkb hcb) hkc hcc⟩

theorem LeadToken.lead {digits? : Option Digits} {token : Token} (h : LeadToken digits? token)
    (hfits : ∀ digits ∈ digits?, digits.value ≤ 4294967295) :
    Lead token (digits?.map Digits.word) := by
  cases h with
  | number hk hc =>
    refine .number hk ?_
    rw [Digits.number?_eq hc, if_pos (hfits _ rfl)]
  | star hs => exact .star hs

theorem LeadToken.kind_or_star {digits? : Option Digits} {token : Token}
    (h : LeadToken digits? token) : token.kind = .int ∨ token.isSymbol "*" = true := by
  cases h with
  | number hk _ => exact .inl hk
  | star hs => exact .inr hs

theorem ScaleTokens.scale {digits? : Option Digits} {tokens : List Token}
    (h : ScaleTokens digits? tokens)
    (hfits : ∀ digits ∈ digits?, digits.value ≤ 4294967295) :
    Scale tokens (digits?.map Digits.word) := by
  cases h with
  | number hcomma hk hc =>
    refine .number hcomma hk ?_
    rw [Digits.number?_eq hc, if_pos (hfits _ rfl)]
  | absent hlen =>
    refine .absent ?_
    rintro comma token more rfl
    simp at hlen

theorem stopsOn_number {digits : Digits} {token : Token} (hc : token.content = digits.text)
    (hlarge : 4294967295 < digits.value) (rest : List Token) :
    StopsOn (number token) rest (.number digits.text) := by
  unfold number
  rw [Digits.number?_eq hc, if_neg (by omega), hc]
  exact stopsOn_fail _ rest

theorem LeadToken.stopsOn {digits : Digits} {token : Token} (h : LeadToken (some digits) token)
    (hlarge : 4294967295 < digits.value) (rest : List Token) :
    StopsOn (Grammar.lead token) rest (.number digits.text) := by
  cases h with
  | number hk hc =>
    unfold Grammar.lead
    rw [if_pos hk]
    exact (stopsOn_number hc hlarge rest).map some

theorem ScaleTokens.stopsOn {digits : Digits} {others : List Token}
    (h : ScaleTokens (some digits) others) (hlarge : 4294967295 < digits.value) (first : Token)
    (rest : List Token) :
    StopsOn (Grammar.scale (first :: others)) rest (.number digits.text) := by
  cases h with
  | number hcomma hk hc =>
    unfold Grammar.scale
    dsimp only
    rw [if_pos ⟨hcomma, hk⟩]
    exact (stopsOn_number hc hlarge rest).map some

theorem numbers_of_tokens {first : Token} {others : List Token}
    (hlead : LeadToken written.parameters.lead first)
    (hscale : ScaleTokens written.parameters.scale others) (h : written.overflow? = none) :
    Numbers (.plain written.title.text) (first :: others) written.type := by
  by_cases hchar : written.title.text ∈ DataType.characterTypes
  · rw [WrittenType.type_of_mem hchar]
    refine .length (hlead.lead fun digits hd => WrittenType.value_le_of_overflow? h ?_) hchar
    rw [WrittenType.kept_of_mem hchar]
    exact Option.mem_toList.mpr hd
  · rw [WrittenType.type_of_not_mem hchar]
    refine .precision (hlead.lead fun digits hd => WrittenType.value_le_of_overflow? h ?_) hchar
      (hscale.scale fun digits hd => WrittenType.value_le_of_overflow? h ?_)
    · rw [WrittenType.kept_of_not_mem hchar]
      exact List.mem_append_left _ (Option.mem_toList.mpr hd)
    · rw [WrittenType.kept_of_not_mem hchar]
      exact List.mem_append_right _ (Option.mem_toList.mpr hd)

theorem find?_toList_eq_some_iff {digits? : Option Digits} {large : Digits} :
    digits?.toList.find? (4294967295 < ·.value) = some large ↔
      digits? = some large ∧ 4294967295 < large.value := by
  cases digits? with
  | none => simp
  | some digits =>
    simp only [Option.toList_some, List.find?_singleton, Option.some.injEq]
    split
    next hlarge => simpa using fun he => he ▸ of_decide_eq_true hlarge
    next hlarge => simpa using fun he => he ▸ Nat.le_of_not_lt (by simpa using hlarge)

theorem stopsOn_withParameters {first : Token} {others : List Token} {large : Digits}
    (hlead : LeadToken written.parameters.lead first)
    (hscale : ScaleTokens written.parameters.scale others) (h : written.overflow? = some large)
    (rest : List Token) :
    StopsOn (withParameters (.plain written.title.text) (first :: others)) rest
      (.number large.text) := by
  unfold withParameters
  dsimp only
  rw [if_pos hlead.kind_or_star]
  by_cases hchar : written.title.text ∈ DataType.characterTypes
  · rw [WrittenType.overflow?, WrittenType.kept_of_mem hchar] at h
    obtain ⟨hd, hlarge⟩ := find?_toList_eq_some_iff.mp h
    rw [hd] at hlead
    exact (hlead.stopsOn hlarge rest).bind _
  · rw [WrittenType.overflow?, WrittenType.kept_of_not_mem hchar, List.find?_append,
      Option.or_eq_some_iff] at h
    obtain h | ⟨hnone, h⟩ := h
    · obtain ⟨hd, hlarge⟩ := find?_toList_eq_some_iff.mp h
      rw [hd] at hlead
      exact (hlead.stopsOn hlarge rest).bind _
    · obtain ⟨hd, hlarge⟩ := find?_toList_eq_some_iff.mp h
      rw [hd] at hscale
      have hfits : ∀ digits ∈ written.parameters.lead, digits.value ≤ 4294967295 := by
        intro digits hm
        simpa using List.find?_eq_none.mp hnone digits (Option.mem_toList.mpr hm)
      refine (reads_lead (hlead.lead hfits) rest).bind_stopsOn ?_
      rw [if_neg (by simpa [DataType.plain] using hchar)]
      exact (hscale.stopsOn hlarge first rest).bind _

theorem exists_parts_of_faces {spelled : List Token} (h : Faces written.lexemes spelled) :
    ∃ name opening first others closing,
      spelled = name ++ opening :: ((first :: others) ++ [closing]) ∧
        TypeName name written.title.text ∧ opening.isSymbol "(" = true ∧
        LeadToken written.parameters.lead first ∧
        ScaleTokens written.parameters.scale others ∧ (first :: others).length ≤ 11 ∧
        (∀ token ∈ first :: others, ¬token.isSymbol ")" = true) ∧
        closing.isSymbol ")" = true := by
  obtain ⟨name, _, rfl, hname, hrest⟩ := faces_append_iff.mp h
  obtain ⟨opening, _, rfl, hko, hco, hrest⟩ := faces_cons_iff.mp hrest
  obtain ⟨inside, _, rfl, hinside, hrest⟩ := faces_append_iff.mp hrest
  obtain ⟨closing, _, rfl, hkc, hcc, hend⟩ := faces_cons_iff.mp hrest
  obtain ⟨first, others, rfl, hlead, hscale⟩ := exists_lead_of_faces hinside
  have hlen : (first :: others).length ≤ 11 := by
    have hle := written.parameters.length_lexemes_le
    rw [hinside.length_eq]
    omega
  rw [faces_nil_iff.mp hend]
  exact ⟨name, opening, first, others, closing, rfl, typeName_of_faces hname,
    isSymbol_of_face hko hco, hlead, hscale, hlen,
    hinside.not_isSymbol written.parameters.closing_notMem_lexemes, isSymbol_of_face hkc hcc⟩

theorem reads_typeName_opening {name : List Token} {text : String} {opening : Token}
    (h : TypeName name text) (ho : opening.isSymbol "(" = true) (rest : List Token) :
    Reads typeName (name ++ opening :: rest) text (opening :: rest) := by
  have hk := Token.kind_of_isSymbol ho
  have hnot : ∀ word, opening.is .keyword word = false := fun word =>
    Token.not_isKeyword (by simp [hk])
  exact reads_typeName h (by simp [hnot]) (by simp [hnot])

theorem stopsOn_dataType {spelled : List Token} {large : Digits}
    (h : Faces written.lexemes spelled) (hlarge : written.overflow? = some large)
    (back : List Token) : StopsOn dataType (spelled ++ back) (.number large.text) := by
  obtain ⟨name, opening, first, others, closing, rfl, hname, ho, hlead, hscale, hlen, hnot, hc⟩ :=
    exists_parts_of_faces h
  have hnot' : ∀ token ∈ first :: others, token.is .symbol ")" = false := by
    intro token hm
    rw [Bool.eq_false_iff]
    exact fun ht => hnot token hm ((Token.is_symbol_iff (by decide)).mp ht)
  have hc' : closing.is .symbol ")" = true := (Token.is_symbol_iff (by decide)).mpr hc
  rw [List.append_assoc, List.cons_append, List.append_assoc, List.singleton_append]
  refine (reads_typeName_opening hname ho _).bind_stopsOn (StopsOn.bind ?_ _)
  refine (reads_ignoreIf ((Token.is_symbol_iff (by decide)).mpr ho) _).bind_stopsOn ?_
  refine (reads_tokensBefore (Nat.lt_succ_of_le hlen) hnot' hc' back).bind_stopsOn ?_
  exact (stopsOn_withParameters hlead hscale hlarge _).bind _

theorem exists_dataType_eq {spelled : List Token} (h : Faces written.lexemes spelled)
    (hfits : written.overflow? = none) (back : List Token) (index : Nat) :
    ∃ reached, dataType ⟨index, spelled ++ back⟩ = timeZone written.type ⟨reached, back⟩ := by
  obtain ⟨name, opening, first, others, closing, rfl, hname, ho, hlead, hscale, hlen, hnot, hc⟩ :=
    exists_parts_of_faces h
  have hnumbers := numbers_of_tokens hlead hscale hfits
  rw [List.append_assoc, List.cons_append, List.append_assoc, List.singleton_append]
  obtain ⟨middle, hread⟩ := reads_typeName_opening hname ho _ index
  obtain ⟨reached, hread'⟩ := reads_listedParameters ho hlen hnot hnumbers hc back middle
  exact ⟨reached, (bind_of_ok hread _).trans (bind_of_ok hread' _)⟩

theorem columnType_of_timeZone {spelled zone : List Token} {type : DataType}
    (h : Faces written.lexemes spelled) (hfits : written.overflow? = none)
    (hz : TimeZone written.type zone type) : ColumnType (spelled ++ zone) type := by
  obtain ⟨name, opening, first, others, closing, rfl, hname, ho, hlead, hscale, hlen, hnot, hc⟩ :=
    exists_parts_of_faces h
  rw [List.append_assoc]
  exact .mk hname (.listed ho hlen hnot (numbers_of_tokens hlead hscale hfits) hc) hz

theorem timeZone_of_columnType {spelled back front rest : List Token} {type : DataType}
    (h : Faces written.lexemes spelled) (hfits : written.overflow? = none)
    (heq : spelled ++ back = front ++ rest) (ht : ColumnType front type)
    (hr : HeadIn [",", ")"] ("DEFAULT" :: markWords) rest) :
    ∃ zone, back = zone ++ rest ∧ TimeZone written.type zone type := by
  obtain ⟨last, hread⟩ := reads_dataType ht hr 0
  obtain ⟨reached, hsame⟩ := exists_dataType_eq h hfits back 0
  rw [← heq, hsame] at hread
  obtain ⟨zone, hzone, hrest⟩ := timeZone_sound hread
  exact ⟨zone, hrest, hzone⟩

end Grammar

namespace Syntax

open Grammar

theorem ToColumn.script_iff_of_faces {written : WrittenType} {front spelled back : List Token}
    {earlier statements : List Statement} {full : String} {items : List (Option Column)}
    {name : Token} (h : ToColumn front earlier full items name)
    (hs : Faces written.lexemes spelled) (hfits : written.overflow? = none) :
    Script (front ++ (spelled ++ back)) statements ↔ ∃ zone type behind column more later,
      back = zone ++ behind ∧ TimeZone written.type zone type ∧
        FromColumn name type behind column more later ∧
        statements = earlier ++ tableOf full items column more :: later := by
  rw [h.script_iff]
  constructor
  · rintro ⟨passed, type, behind, column, more, later, heq, htype, hbehind, rfl⟩
    obtain ⟨zone, hback, hzone⟩ := timeZone_of_columnType hs hfits heq htype hbehind.headIn
    exact ⟨zone, type, behind, column, more, later, hback, hzone, hbehind, rfl⟩
  · rintro ⟨zone, type, behind, column, more, later, rfl, hzone, hbehind, rfl⟩
    exact ⟨spelled ++ zone, type, behind, column, more, later, (List.append_assoc _ _ _).symm,
      columnType_of_timeZone hs hfits hzone, hbehind, rfl⟩

end Syntax

theorem Scanner.exists_ahead_of_finish {rules : List LexicalRule} {scanner : Scanner}
    {tokens : List Token} (h : scanner.finish rules = .ok tokens) :
    ∃ ahead, tokens = scanner.tokens ++ ahead := by
  fun_induction Scanner.finish rules scanner with
  | case1 scanner hr =>
    cases h
    exact ⟨[], by simp⟩
  | case2 => cases h
  | case3 => cases h
  | case4 scanner hr next hstep ih =>
    obtain ⟨ahead, rfl⟩ := ih h
    obtain ⟨rule, -, hscan⟩ := step_eq_some hstep
    obtain ⟨extent, -, -, rfl⟩ := scan_eq_some hscan
    exact ⟨scanner.token rule.kind extent :: ahead, by simp⟩

theorem tokenize_spelled {before after : String} {text : List Char} {opened tokens : List Token}
    {Wanted : List Token → Prop} (hopened : tokenize before = .ok opened)
    (hclosed : Text.Closed before.toList) (h : Spells text Wanted after.toList)
    (htokens : tokenize (before ++ (String.ofList text ++ after)) = .ok tokens) :
    ∃ spelled back, tokens.filter (!·.isTrivia) =
      opened.filter (!·.isTrivia) ++ (spelled ++ back) ∧ Wanted spelled := by
  obtain ⟨reached, -, hrest, hreached, hfinish⟩ :=
    Scanner.finish_followedBy (Scanner.at_ofSource before) (.inr hclosed) hopened
      (text ++ after.toList)
  obtain ⟨behind, spelled, hsame, -, hbehind, hwanted⟩ := h reached hrest
  have hsource : (Scanner.ofSource before).followedBy (text ++ after.toList) =
      .ofSource (before ++ (String.ofList text ++ after)) := by
    simp [Scanner.followedBy, Scanner.ofSource]
  rw [tokenize, tokenizeWith, ← hsource, hfinish, hsame] at htokens
  obtain ⟨ahead, rfl⟩ := Scanner.exists_ahead_of_finish htokens
  refine ⟨_, ahead.filter (!·.isTrivia), ?_, hwanted⟩
  rw [hbehind, hreached]
  simp

namespace Schema

open Syntax

/-- Type parameters are kept exactly. A column behind any front of a script has a type with
parameters. When 32 bits hold the numbers to be kept, the script is accepted as its rest allows,
and the column holds each number as the digits write it. Otherwise the script is refused because
of the first one that is too large, which is reported digit by digit. -/
theorem ofSource_typeParameters {before after full : String} {written : WrittenType}
    {opened tokens : List Token} {earlier : List Statement} {items : List (Option Column)}
    {name : Token} (hopened : tokenize before = .ok opened)
    (hclosed : Text.Closed before.toList)
    (hplace : ToColumn (opened.filter (!·.isTrivia)) earlier full items name)
    (htokens : tokenize (before ++ (" " ++ written.text ++ after)) = .ok tokens)
    (origin : Origin) :
    ∃ spelled back, Faces written.lexemes spelled ∧
      tokens.filter (!·.isTrivia) = opened.filter (!·.isTrivia) ++ (spelled ++ back) ∧
      (written.overflow? = none → ∀ schema,
        ofSource (before ++ (" " ++ written.text ++ after)) origin = .ok schema ↔
          ∃ zone type behind column more later, back = zone ++ behind ∧
            TimeZone written.type zone type ∧ FromColumn name type behind column more later ∧
            written.HeldBy column.type ∧
            ofStatements origin (earlier ++ tableOf full items column more :: later) = schema) ∧
      ∀ large, written.overflow? = some large → ∃ fault location,
        ofSource (before ++ (" " ++ written.text ++ after)) origin = .error fault ∧
          fault.rootCause = .invalidNumber large.text location := by
  have htext : " " ++ written.text = String.ofList (' ' :: written.text.toList) := by
    rw [← String.toList_inj]
    simp
  rw [htext] at htokens ⊢
  obtain ⟨spelled, back, hsplit, hspelled⟩ :=
    tokenize_spelled hopened hclosed (spells_written written) htokens
  refine ⟨spelled, back, hspelled, hsplit, fun hfits schema => ?_, fun large hlarge => ?_⟩
  · have haccepted : ofSource (before ++ (String.ofList (' ' :: written.text.toList) ++ after))
        origin = .ok schema ↔ ofTokens tokens origin = .ok schema := by
      rw [ofSource_of_tokenize htokens]
      cases ofTokens tokens origin <;> simp [Except.mapError]
    rw [haccepted, ofTokens, hsplit, ofSignificant_eq_ok_iff]
    constructor
    · rintro ⟨statements, hscript, rfl⟩
      obtain ⟨zone, type, behind, column, more, later, hback, hzone, hbehind, rfl⟩ :=
        (hplace.script_iff_of_faces hspelled hfits).mp hscript
      have hheld := (WrittenType.heldBy_type hfits).timeZone hzone
      exact ⟨zone, type, behind, column, more, later, hback, hzone, hbehind,
        hbehind.type_eq ▸ hheld, rfl⟩
    · rintro ⟨zone, type, behind, column, more, later, hback, hzone, hbehind, -, rfl⟩
      exact ⟨_, (hplace.script_iff_of_faces hspelled hfits).mpr
        ⟨zone, type, behind, column, more, later, hback, hzone, hbehind, rfl⟩, rfl⟩
  · obtain ⟨e, he, ho⟩ :=
      Grammar.script_of_stopsOn hplace (Grammar.stopsOn_dataType hspelled hlarge back)
    have hrefused : ofTokens tokens origin = .error e := by
      rw [ofTokens, hsplit, ofSignificant, he]
      rfl
    refine ⟨.within "failed to parse source" e.fault, e.place.location, ?_, ?_⟩
    · rw [ofSource_of_tokenize htokens, hrefused]
      rfl
    · rw [Fault.rootCause, ParseError.rootCause_fault, ho]
      rfl

def columnFront : String :=
  "CREATE TABLE \"T\" (\"A\""

def columnFrontFaces : List (Token.Kind × String) :=
  [(.keyword, "CREATE"), (.keyword, "TABLE"), (.string, "T"), (.symbol, "("), (.string, "A")]

open Spells in
theorem spells_columnFront (rest : List Char) :
    Spells columnFront.toList (Faces columnFrontFaces) rest := by
  let table : Declaration.Name := ⟨"T", by decide⟩
  let column : Declaration.Name := ⟨"A", by decide⟩
  have hopening : Spells ['('] (Faces [(.symbol, "(")]) (column.print ++ rest) :=
    (Spells.symbol (by decide)).of_single
  have hbracket := (blank (by rintro c ⟨rfl⟩; decide)).append
    (hopening.append_faces (Declaration.spells_name column).of_single)
  have hname := (blankName table).of_single.append_faces
    (hbracket.mono fun tokens h => by obtain ⟨_, back, rfl, rfl, hback⟩ := h; exact hback)
  have htable := (blankKeyword (Declaration.listed "TABLE" (by decide))
    (separated_cons (by decide) _)).of_single.append_faces hname
  have hcreate := (Spells.keyword (Declaration.listed "CREATE" (by decide))
    (separated_cons (by decide) _)).of_single.append_faces htable
  have htext : columnFront.toList = "CREATE".toList ++ (' ' :: "TABLE".toList ++
      (' ' :: table.print ++ ([' '] ++ (['('] ++ column.print)))) := by decide
  rw [htext]
  exact hcreate

theorem toColumn_of_columnFrontFaces {tokens : List Token} (h : Faces columnFrontFaces tokens) :
    ∃ name, name.content = "A" ∧ ToColumn tokens [] "T" [] name := by
  obtain ⟨create, _, rfl, hk, hc, h⟩ := faces_cons_iff.mp h
  obtain ⟨word, _, rfl, hkw, hcw, h⟩ := faces_cons_iff.mp h
  obtain ⟨table, _, rfl, hkt, hct, h⟩ := faces_cons_iff.mp h
  obtain ⟨opening, _, rfl, hko, hco, h⟩ := faces_cons_iff.mp h
  obtain ⟨name, _, rfl, hkn, hcn, h⟩ := faces_cons_iff.mp h
  rw [faces_nil_iff.mp h]
  have hplace := ToColumn.mk (.nil : Script [] [])
    (Token.isKeyword_iff.mpr ⟨hk, congrArg Text.upper hc⟩)
    (Token.isKeyword_iff.mpr ⟨hkw, congrArg Text.upper hcw⟩) (TableName.plain hkt)
    (Grammar.isSymbol_of_face hko hco) .none hkn
  rw [hct] at hplace
  exact ⟨name, hcn, hplace⟩

theorem exists_tokenize_columnFront (written : WrittenType) :
    ∃ tokens, tokenize (columnFront ++ (" " ++ written.text ++ ");")) = .ok tokens ∧
      Faces (columnFrontFaces ++ (written.lexemes ++ [(.symbol, ")"), (.symbol, ";")]))
        (tokens.filter (!·.isTrivia)) := by
  have hclosing : Spells [')'] (Faces [(.symbol, ")")]) ([';'] ++ []) :=
    (Spells.symbol (by decide)).of_single
  have hstop : Spells [';'] (Faces [(.symbol, ";")]) [] := (Spells.symbol (by decide)).of_single
  have hwhole := (spells_columnFront _).append_faces
    ((spells_written written).append_faces (hclosing.append_faces hstop))
  obtain ⟨tokens, htokens, hfaces⟩ := tokenize_of_spells hwhole
  have hsource : String.ofList (columnFront.toList ++
      (' ' :: written.text.toList ++ ([')'] ++ [';']))) =
      columnFront ++ (" " ++ written.text ++ ");") := by
    rw [← String.toList_inj]
    simp
  exact ⟨tokens, hsource ▸ htokens, hfaces⟩

theorem ofSource_typeParameters_one_column :
    (∃ schema, ofSource "CREATE TABLE \"T\" (\"A\" NUMBER(00010,2));" .oracle = .ok schema ∧
      ((schema.table? "T").bind (·.column? "A")).map Column.type =
        some ⟨"NUMBER", some 10, some 2, none⟩) ∧
    ∃ fault location,
      ofSource "CREATE TABLE \"T\" (\"A\" VARCHAR2(04294967296 BYTE));" .oracle = .error fault ∧
        fault.rootCause = .invalidNumber "04294967296" location := by
  let number : WrittenType := ⟨.word "NUMBER" (Vocabulary.mem_words_ofList.mpr (by decide)),
    .two ⟨"00010".toList, by simp, List.all_eq_true.mp (by decide)⟩
      ⟨"2".toList, by simp, List.all_eq_true.mp (by decide)⟩⟩
  let varchar : WrittenType := ⟨.word "VARCHAR2" (Vocabulary.mem_words_ofList.mpr (by decide)),
    .counted ⟨"04294967296".toList, by simp, List.all_eq_true.mp (by decide)⟩ .byte⟩
  have hclosed : Text.Closed columnFront.toList :=
    ⟨"CREATE TABLE \"T\" (\"A".toList, '"', by decide, by decide⟩
  obtain ⟨opened, hopened, hfront⟩ := tokenize_of_spells (spells_columnFront [])
  rw [String.ofList_toList] at hopened
  obtain ⟨name, hname, hplace⟩ := toColumn_of_columnFrontFaces hfront
  constructor
  · obtain ⟨tokens, htokens, hfaces⟩ := exists_tokenize_columnFront number
    obtain ⟨spelled, back, hspelled, hsplit, haccepted, -⟩ :=
      ofSource_typeParameters hopened hclosed hplace htokens .oracle
    rw [hsplit] at hfaces
    obtain ⟨closing, _, rfl, hkc, hcc, hrest⟩ :=
      faces_cons_iff.mp ((hfaces.of_append hfront).of_append hspelled)
    obtain ⟨stop, _, rfl, hks, hcs, hrest⟩ := faces_cons_iff.mp hrest
    obtain rfl := faces_nil_iff.mp hrest
    have hend : ColumnEnd name number.type ([] ++ [])
        ([].foldl Column.mark
          { Column.plain name.content number.type with defaultValue := none }) :=
      .mk .absent .nil
    have hcolumn := FromColumn.mk hend .nil (Grammar.isSymbol_of_face hkc hcc)
      (.bare (Grammar.isSymbol_of_face hks hcs)) (.nil : Script [] [])
    have hheld : number.HeldBy number.type := WrittenType.heldBy_type (by decide)
    refine ⟨_, (haccepted (by decide) _).mpr
      ⟨[], _, _, _, [], [], rfl, .absent, hcolumn, hheld, rfl⟩, ?_⟩
    rw [hname]
    rfl
  · obtain ⟨tokens, htokens, -⟩ := exists_tokenize_columnFront varchar
    obtain ⟨_, _, -, -, -, hrefused⟩ :=
      ofSource_typeParameters hopened hclosed hplace htokens .oracle
    exact hrefused _ rfl

end Schema

end DdlCatalog
