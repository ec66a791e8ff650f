import DdlCatalog.Proofs.ReaderOutcome
import DdlCatalog.Proofs.Syntax

namespace DdlCatalog

namespace Syntax

def markWords : List String :=
  ["NOT", "NULL", "PRIMARY", "CONSTRAINT"] ++ Grammar.silentWords

/-- The next token is one of some symbols or one of some keywords. -/
def HeadIn (symbols words : List String) (tokens : List Token) : Prop :=
  ∃ token rest, tokens = token :: rest ∧
    ((∃ text ∈ symbols, token.isSymbol text = true) ∨
      ∃ word ∈ words, token.isKeyword word = true)

theorem HeadIn.mono {symbols symbols' words words' : List String} {tokens : List Token}
    (h : HeadIn symbols words tokens) (hs : symbols ⊆ symbols') (hw : words ⊆ words') :
    HeadIn symbols' words' tokens := by
  obtain ⟨token, rest, rfl, ⟨text, hm, ht⟩ | ⟨word, hm, ht⟩⟩ := h
  · exact ⟨token, rest, rfl, .inl ⟨text, hs hm, ht⟩⟩
  · exact ⟨token, rest, rfl, .inr ⟨word, hw hm, ht⟩⟩

theorem HeadIn.no_keyword {symbols words : List String} {tokens : List Token} {other : String}
    (h : HeadIn symbols words tokens) (hd : ∀ word ∈ words, Text.sameLetters word other = false) :
    tokens.head?.any (·.is .keyword other) = false := by
  obtain ⟨token, rest, rfl, ⟨text, _, ht⟩ | ⟨word, hm, ht⟩⟩ := h
  · have hk := Token.kind_of_isSymbol ht
    exact Token.not_isKeyword (by simp [hk])
  · exact Token.isKeyword_unique ht (hd word hm)

theorem HeadIn.no_symbol {symbols words : List String} {tokens : List Token} {other : String}
    (h : HeadIn symbols words tokens) (hd : other ∉ symbols)
    (ho : other.toList.all (!·.isAlpha)) : tokens.head?.any (·.is .symbol other) = false := by
  obtain ⟨token, rest, rfl, ⟨text, hm, ht⟩ | ⟨word, _, ht⟩⟩ := h
  · have hn : token.isSymbol other = false := Token.isSymbol_unique ht fun he => hd (he ▸ hm)
    rw [← Bool.not_eq_true] at hn ⊢
    exact fun hs => hn ((Token.is_symbol_iff ho).mp hs)
  · have hk := Token.kind_of_isKeyword ht
    simp [Token.is, hk]

theorem HeadIn.no_string {symbols words : List String} {tokens : List Token}
    (h : HeadIn symbols words tokens) : tokens.head?.any (·.kind == .string) = false := by
  obtain ⟨token, rest, rfl, ⟨text, _, ht⟩ | ⟨word, _, ht⟩⟩ := h
  · simp [Token.kind_of_isSymbol ht]
  · simp [Token.kind_of_isKeyword ht]

theorem Lead.kind_or_star {token : Token} {n : Option UInt32} (h : Lead token n) :
    token.kind = .int ∨ token.isSymbol "*" = true := by
  cases h with
  | number hk _ => exact .inl hk
  | star hs => exact .inr hs

end Syntax

namespace Grammar

open TokenReader Syntax

theorem secondWord?_eq_some {name second : String} (h : DataType.secondWord? name = some second) :
    (name = "DOUBLE" ∧ second = "PRECISION") ∨ (name = "LONG" ∧ second = "RAW") := by
  unfold DataType.secondWord? at h
  split at h
  next => cases h; exact .inl ⟨rfl, rfl⟩
  next => cases h; exact .inr ⟨rfl, rfl⟩
  next => cases h

theorem typeName_sound {cursor after : Cursor} {name : String}
    (h : typeName cursor = .ok name after) :
    ∃ tokens, TypeName tokens name ∧ cursor.rest = tokens ++ after.rest := by
  obtain ⟨token, middle, ht, h⟩ := bind_eq_ok h
  obtain ⟨hk, hr⟩ := take_eq_ok ht
  cases hs : DataType.secondWord? (Text.upper token.content) with
  | none =>
    simp only [hs] at h
    cases h
    exact ⟨[token], .word hk, hr⟩
  | some second =>
    simp only [hs] at h
    obtain ⟨b, last, hi, h⟩ := bind_eq_ok h
    obtain ⟨rfl, other, ho, hr'⟩ | ⟨rfl, rfl⟩ := ignoreIf_eq_ok hi
    · cases h
      refine ⟨[token, other], ?_, by simp [hr, hr']⟩
      obtain ⟨hu, rfl⟩ | ⟨hu, rfl⟩ := secondWord?_eq_some hs
      · rw [hu]
        exact .doublePrecision (Token.isKeyword_iff.mpr ⟨hk, hu⟩) ho
      · rw [hu]
        exact .longRaw (Token.isKeyword_iff.mpr ⟨hk, hu⟩) ho
    · cases h
      exact ⟨[token], .word hk, hr⟩

theorem reads_typeName_pair {a b : Token} {first second : String} (ha : a.isKeyword first = true)
    (hs : DataType.secondWord? (Text.upper first) = some second)
    (hb : b.isKeyword second = true) (rest : List Token) :
    Reads typeName (a :: b :: rest) (Text.upper first ++ " " ++ second) rest := by
  obtain ⟨hk, hu⟩ := Token.isKeyword_iff.mp ha
  refine (reads_take _ hk (b :: rest)).bind ?_
  dsimp only
  rw [hu, hs]
  exact (reads_ignoreIf hb rest).bind (reads_pure _ _)

theorem reads_typeName {tokens rest : List Token} {name : String} (h : TypeName tokens name)
    (hp : rest.head?.any (·.is .keyword "PRECISION") = false)
    (hr : rest.head?.any (·.is .keyword "RAW") = false) :
    Reads typeName (tokens ++ rest) name rest := by
  cases h with
  | @word token hk =>
    refine (reads_take _ hk rest).bind ?_
    dsimp only
    cases hs : DataType.secondWord? (Text.upper token.content) with
    | none => exact reads_pure _ _
    | some second =>
      have ho : rest.head?.any (·.is .keyword second) = false := by
        obtain ⟨-, rfl⟩ | ⟨-, rfl⟩ := secondWord?_eq_some hs
        · exact hp
        · exact hr
      exact (reads_ignoreIf_other ho).bind (reads_pure _ _)
  | doublePrecision ha hb => exact reads_typeName_pair ha (by decide) hb rest
  | longRaw ha hb => exact reads_typeName_pair ha (by decide) hb rest

theorem number_eq_ok {token : Token} {cursor after : Cursor} {n : UInt32}
    (h : number token cursor = .ok n after) :
    cursor = after ∧ DataType.number? token = some n := by
  unfold number at h
  cases hn : DataType.number? token with
  | none => rw [hn] at h; cases h
  | some m => rw [hn] at h; cases h; exact ⟨rfl, rfl⟩

theorem reads_number {token : Token} {n : UInt32} (h : DataType.number? token = some n)
    (rest : List Token) : Reads (number token) rest n rest := by
  unfold number
  rw [h]
  exact reads_pure n rest

theorem lead_eq_ok {token : Token} {cursor after : Cursor} {n : Option UInt32}
    (ht : token.kind = .int ∨ token.isSymbol "*" = true)
    (h : lead token cursor = .ok n after) : cursor = after ∧ Lead token n := by
  unfold lead at h
  split at h
  next hk =>
    obtain ⟨m, hr, rfl⟩ := map_eq_ok h
    obtain ⟨rfl, hm⟩ := number_eq_ok hr
    exact ⟨rfl, .number hk hm⟩
  next hk => cases h; exact ⟨rfl, .star (ht.resolve_left hk)⟩

theorem reads_lead {token : Token} {n : Option UInt32} (h : Lead token n) (rest : List Token) :
    Reads (lead token) rest n rest := by
  unfold lead
  cases h with
  | number hk hn => rw [if_pos hk]; exact (reads_number hn rest).map some
  | star hs => rw [if_neg (by simp [Token.kind_of_isSymbol hs])]; exact reads_pure none rest

theorem scale_eq_ok {first : Token} {others : List Token} {cursor after : Cursor}
    {n : Option UInt32} (h : scale (first :: others) cursor = .ok n after) :
    cursor = after ∧ Scale others n := by
  rcases others with _ | ⟨comma, _ | ⟨token, more⟩⟩
  · cases h
    exact ⟨rfl, .absent (by rintro comma token more ⟨⟩)⟩
  · cases h
    exact ⟨rfl, .absent (by rintro comma token more ⟨⟩)⟩
  · simp only [scale] at h
    split at h
    next hc =>
      obtain ⟨m, hr, rfl⟩ := map_eq_ok h
      obtain ⟨rfl, hm⟩ := number_eq_ok hr
      exact ⟨rfl, .number hc.1 hc.2 hm⟩
    next hc =>
      cases h
      exact ⟨rfl, .absent (by rintro comma token more ⟨⟩; exact hc)⟩

theorem reads_scale (first : Token) {others : List Token} {n : Option UInt32}
    (h : Scale others n) (rest : List Token) :
    Reads (scale (first :: others)) rest n rest := by
  unfold scale
  cases h with
  | number hc hk hn =>
    dsimp only
    rw [if_pos ⟨hc, hk⟩]
    exact (reads_number hn rest).map some
  | absent ha =>
    split
    next comma token more hl =>
      cases hl
      rw [if_neg (ha comma token more rfl)]
      exact reads_pure none rest
    next => exact reads_pure none rest

theorem withParameters_eq_ok {type numbered : DataType} {parameters : List Token}
    {cursor after : Cursor} (h : withParameters type parameters cursor = .ok numbered after) :
    cursor = after ∧ Numbers type parameters numbered := by
  unfold withParameters at h
  split at h
  next => cases h; exact ⟨rfl, .none⟩
  next first others =>
    split at h
    next ht =>
      obtain ⟨n, middle, hl, h⟩ := bind_eq_ok h
      obtain ⟨rfl, hn⟩ := lead_eq_ok ht hl
      split at h
      next hc => cases h; exact ⟨rfl, .length hn (by simpa using hc)⟩
      next hc =>
        obtain ⟨s, last, hr, h⟩ := bind_eq_ok h
        obtain ⟨rfl, hs⟩ := scale_eq_ok hr
        cases h
        exact ⟨rfl, .precision hn (by simpa using hc) hs⟩
    next ht =>
      cases h
      obtain ⟨hk, hs⟩ := not_or.mp ht
      exact ⟨rfl, .obscure hk hs⟩

theorem reads_withParameters {type numbered : DataType} {parameters : List Token}
    (h : Numbers type parameters numbered) (rest : List Token) :
    Reads (withParameters type parameters) rest numbered rest := by
  unfold withParameters
  cases h with
  | none => exact reads_pure type rest
  | obscure hk hs =>
    dsimp only
    rw [if_neg (not_or.mpr ⟨hk, hs⟩)]
    exact reads_pure type rest
  | length hn hc =>
    dsimp only
    rw [if_pos hn.kind_or_star]
    refine (reads_lead hn rest).bind ?_
    rw [if_pos (by simpa using hc)]
    exact reads_pure _ rest
  | precision hn hc hs =>
    dsimp only
    rw [if_pos hn.kind_or_star]
    refine (reads_lead hn rest).bind ?_
    rw [if_neg (by simpa using hc)]
    exact (reads_scale _ hs rest).bind (reads_pure _ rest)

theorem typeParameters_sound {type numbered : DataType} {cursor after : Cursor}
    (h : typeParameters type cursor = .ok numbered after) :
    ∃ tokens, Parameters type tokens numbered ∧ cursor.rest = tokens ++ after.rest := by
  obtain ⟨b, middle, hi, h⟩ := bind_eq_ok h
  obtain ⟨rfl, opening, ho, hr⟩ | ⟨rfl, rfl⟩ := ignoreIf_eq_ok hi
  · obtain ⟨parameters, window, ht, h⟩ := bind_eq_ok h
    obtain ⟨rfl, hlen, hn, stop, back, -, hw⟩ := tokensBefore_eq_ok ht
    obtain ⟨found, place, hp, h⟩ := bind_eq_ok h
    obtain ⟨rfl, hnum⟩ := withParameters_eq_ok hp
    obtain ⟨_, last, hs, h⟩ := bind_eq_ok h
    obtain ⟨rfl, -⟩ := skip_eq_ok hs
    obtain ⟨_, final, he, h⟩ := bind_eq_ok h
    obtain ⟨closing, hc, hl⟩ := expect_eq_ok he
    cases h
    have hb : stop :: back = closing :: after.rest := by
      simpa [Cursor.moved, hw] using hl
    refine ⟨opening :: (parameters ++ [closing]), ?_, by simp [hr, hw, hb]⟩
    refine .listed ((Token.is_symbol_iff (by decide)).mp ho) (Nat.le_of_lt_succ hlen) ?_ hnum
      ((Token.is_symbol_iff (by decide)).mp hc)
    intro token hm hs
    have hf := hn token hm
    rw [(Token.is_symbol_iff (by decide)).mpr hs] at hf
    cases hf
  · cases h
    exact ⟨[], .absent, rfl⟩

theorem reads_listedParameters {type numbered : DataType} {opening closing : Token}
    {parameters : List Token} (ho : opening.isSymbol "(" = true) (hlen : parameters.length ≤ 11)
    (hn : ∀ token ∈ parameters, ¬token.isSymbol ")" = true)
    (hnum : Numbers type parameters numbered) (hc : closing.isSymbol ")" = true)
    (rest : List Token) :
    Reads (typeParameters type) (opening :: (parameters ++ closing :: rest)) numbered rest := by
  have hn' : ∀ token ∈ parameters, token.is .symbol ")" = false := by
    intro token hm
    rw [← Bool.not_eq_true]
    exact fun ht => hn token hm ((Token.is_symbol_iff (by decide)).mp ht)
  have hc' : closing.is .symbol ")" = true := (Token.is_symbol_iff (by decide)).mpr hc
  refine (reads_ignoreIf ((Token.is_symbol_iff (by decide)).mpr ho) _).bind ?_
  refine (reads_tokensBefore (Nat.lt_succ_of_le hlen) hn' hc' rest).bind ?_
  refine (reads_withParameters hnum _).bind ((reads_skip rfl _).bind ?_)
  exact (reads_expect hc' rest).bind (reads_pure _ _)

theorem reads_typeParameters {type numbered : DataType} {tokens rest : List Token}
    (h : Parameters type tokens numbered) (hr : rest.head?.any (·.is .symbol "(") = false) :
    Reads (typeParameters type) (tokens ++ rest) numbered rest := by
  cases h with
  | absent => exact (reads_ignoreIf_other hr).bind (reads_pure _ _)
  | listed ho hlen hn hnum hc =>
    rw [List.cons_append, List.append_assoc]
    exact reads_listedParameters ho hlen hn hnum hc rest

theorem timeZone_sound {type zoned : DataType} {cursor after : Cursor}
    (h : timeZone type cursor = .ok zoned after) :
    ∃ tokens, TimeZone type tokens zoned ∧ cursor.rest = tokens ++ after.rest := by
  unfold timeZone at h
  split at h
  next hn =>
    obtain ⟨b, middle, hw, h⟩ := bind_eq_ok h
    obtain ⟨rfl, a, ha, hr⟩ | ⟨rfl, rfl⟩ := ignoreIf_eq_ok hw
    · obtain ⟨isLocal, second, hl, h⟩ := bind_eq_ok h
      obtain ⟨_, third, ht, h⟩ := bind_eq_ok h
      obtain ⟨_, fourth, hz, h⟩ := bind_eq_ok h
      obtain ⟨time, htime, hr2⟩ := expect_eq_ok ht
      obtain ⟨zone, hzone, hr3⟩ := expect_eq_ok hz
      cases h
      obtain ⟨rfl, b, hb, hr1⟩ | ⟨rfl, rfl⟩ := ignoreIf_eq_ok hl
      · exact ⟨[a, b, time, zone], .localZone hn ha hb htime hzone, by simp [hr, hr1, hr2, hr3]⟩
      · exact ⟨[a, time, zone], .zone hn ha htime hzone, by simp [hr, hr2, hr3]⟩
    · cases h
      exact ⟨[], .absent, rfl⟩
  next => cases h; exact ⟨[], .absent, rfl⟩

theorem reads_timeZone {type zoned : DataType} {tokens rest : List Token}
    (h : TimeZone type tokens zoned) (hr : rest.head?.any (·.is .keyword "WITH") = false) :
    Reads (timeZone type) (tokens ++ rest) zoned rest := by
  unfold timeZone
  cases h with
  | absent =>
    split
    · exact (reads_ignoreIf_other hr).bind (reads_pure _ _)
    · exact reads_pure _ _
  | @zone a b c hn ha hb hc =>
    rw [if_pos hn]
    have hl : (b :: c :: rest).head?.any (·.is .keyword "LOCAL") = false :=
      Token.isKeyword_unique hb (by decide)
    refine (reads_ignoreIf ha _).bind ((reads_ignoreIf_other hl).bind ?_)
    exact (reads_expect hb _).bind ((reads_expect hc rest).bind (reads_pure _ _))
  | @localZone a b c d hn ha hb hc hd =>
    rw [if_pos hn]
    refine (reads_ignoreIf ha _).bind ((reads_ignoreIf hb _).bind ?_)
    exact (reads_expect hc _).bind ((reads_expect hd rest).bind (reads_pure _ _))

theorem dataType_sound {type : DataType} {cursor after : Cursor}
    (h : dataType cursor = .ok type after) :
    ∃ tokens, ColumnType tokens type ∧ cursor.rest = tokens ++ after.rest := by
  obtain ⟨name, second, hn, h⟩ := bind_eq_ok h
  obtain ⟨numbered, third, hp, hz⟩ := bind_eq_ok h
  obtain ⟨front, hname, hr⟩ := typeName_sound hn
  obtain ⟨parameters, hnum, hr1⟩ := typeParameters_sound hp
  obtain ⟨zone, hzone, hr2⟩ := timeZone_sound hz
  exact ⟨front ++ (parameters ++ zone), .mk hname hnum hzone, by simp [hr, hr1, hr2]⟩

theorem reads_dataType {type : DataType} {tokens rest : List Token} (h : ColumnType tokens type)
    (hr : HeadIn [",", ")"] ("DEFAULT" :: markWords) rest) :
    Reads dataType (tokens ++ rest) type rest := by
  cases h with
  | @mk name parameters zone spelled numbered _ hname hnum hzone =>
    have hz : HeadIn [",", ")"] ("WITH" :: "DEFAULT" :: markWords) (zone ++ rest) := by
      cases hzone with
      | absent => exact hr.mono (by simp) (by simp)
      | zone _ ha _ _ => exact ⟨_, _, rfl, .inr ⟨"WITH", by simp, ha⟩⟩
      | localZone _ ha _ _ _ => exact ⟨_, _, rfl, .inr ⟨"WITH", by simp, ha⟩⟩
    have hp : HeadIn ["(", ",", ")"] ("WITH" :: "DEFAULT" :: markWords)
        (parameters ++ (zone ++ rest)) := by
      cases hnum with
      | absent => exact hz.mono (by simp) (by simp)
      | listed ho _ _ _ _ => exact ⟨_, _, rfl, .inl ⟨"(", by simp, ho⟩⟩
    rw [List.append_assoc, List.append_assoc]
    refine (reads_typeName hname (hp.no_keyword (by decide)) (hp.no_keyword (by decide))).bind ?_
    refine (reads_typeParameters hnum (hz.no_symbol (by decide) (by decide))).bind ?_
    exact reads_timeZone hzone (hr.no_keyword (by decide))

end Grammar

end DdlCatalog
