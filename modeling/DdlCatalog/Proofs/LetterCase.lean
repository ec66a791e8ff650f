import DdlCatalog.Token

namespace DdlCatalog

namespace Text

theorem toLower_eq_iff {c d : Char} (hd : d.isAlpha = false) : c.toLower = d.toLower ↔ c = d := by
  refine ⟨fun h => ?_, fun h => by rw [h]⟩
  obtain ⟨hupper, hlower⟩ := Bool.or_eq_false_iff.mp (show (d.isUpper || d.isLower) = false from hd)
  have hl : ¬d.val ≥ 'a'.val ∨ ¬d.val ≤ 'z'.val :=
    (Bool.and_eq_false_iff.mp hlower).imp of_decide_eq_false of_decide_eq_false
  rw [show d.toLower = d from dif_neg (of_decide_eq_false hupper)] at h
  unfold Char.toLower at h
  split at h
  next hc =>
    subst h
    simp only [UInt32.le_iff_toNat_le, UInt32.toNat_add, ge_iff_le] at hc hl
    rw [show 'A'.val.toNat = 65 from rfl, show 'Z'.val.toNat = 90 from rfl] at hc
    rw [show ('a'.val - 'A'.val).toNat = 32 from rfl, show 'a'.val.toNat = 97 from rfl,
      show 'z'.val.toNat = 122 from rfl] at hl
    omega
  next => exact h

theorem sameLetters_iff_eq {a b : String} (hb : b.toList.all (!·.isAlpha)) :
    sameLetters a b = true ↔ a = b := by
  rw [sameLetters_iff, ← String.toList_inj]
  simp only [List.all_eq_true, Bool.not_eq_eq_eq_not, Bool.not_true] at hb
  generalize a.toList = as at *
  generalize b.toList = bs at *
  induction bs generalizing as with
  | nil => simp
  | cons b bs ih =>
    cases as with
    | nil => simp
    | cons a as =>
      simp only [List.map_cons, List.cons.injEq]
      rw [toLower_eq_iff (hb b (by simp)), ih as fun c hc => hb c (by simp [hc])]

theorem sameLetters_of_sameLetters {a b c : String} (hb : sameLetters a b = true)
    (hc : sameLetters a c = true) : sameLetters b c = true :=
  sameLetters_iff.mpr ((sameLetters_iff.mp hb).symm.trans (sameLetters_iff.mp hc))

theorem exists_ofNat_of_between {first last c : Char}
    (h : first.val ≤ c.val ∧ c.val ≤ last.val) :
    ∃ n ∈ List.range' first.toNat (last.toNat + 1 - first.toNat), Char.ofNat n = c := by
  refine ⟨c.toNat, ?_, Char.ofNat_toNat c⟩
  simp only [UInt32.le_iff_toNat_le, Char.toNat_val] at h
  rw [List.mem_range'_1]
  omega

theorem toLower_toUpper (c : Char) : c.toUpper.toLower = c.toLower := by
  by_cases h : 'a'.val ≤ c.val ∧ c.val ≤ 'z'.val
  · obtain ⟨n, hn, rfl⟩ := exists_ofNat_of_between h
    have hall : ∀ n ∈ List.range' 97 26,
        (Char.ofNat n).toUpper.toLower = (Char.ofNat n).toLower := by decide
    exact hall n hn
  · rw [show c.toUpper = c from dif_neg h]

theorem toUpper_toLower (c : Char) : c.toLower.toUpper = c.toUpper := by
  by_cases h : 'A'.val ≤ c.val ∧ c.val ≤ 'Z'.val
  · obtain ⟨n, hn, rfl⟩ := exists_ofNat_of_between h
    have hall : ∀ n ∈ List.range' 65 26,
        (Char.ofNat n).toLower.toUpper = (Char.ofNat n).toUpper := by decide
    exact hall n hn
  · rw [show c.toLower = c from dif_neg h]

theorem toUpper_eq (c : Char) :
    c.toUpper = if 'a' ≤ c ∧ c ≤ 'z' then Char.ofNat (c.toNat - 32) else c := by
  split
  next h =>
    obtain ⟨n, hn, rfl⟩ := exists_ofNat_of_between h
    have hall : ∀ n ∈ List.range' 97 26,
        (Char.ofNat n).toUpper = Char.ofNat ((Char.ofNat n).toNat - 32) := by decide
    exact hall n hn
  next h => exact dif_neg h

theorem isLower_toUpper (c : Char) : c.toUpper.isLower = false := by
  by_cases h : 'a'.val ≤ c.val ∧ c.val ≤ 'z'.val
  · obtain ⟨n, hn, rfl⟩ := exists_ofNat_of_between h
    have hall : ∀ n ∈ List.range' 97 26, (Char.ofNat n).toUpper.isLower = false := by decide
    exact hall n hn
  · rw [show c.toUpper = c from dif_neg h, Bool.eq_false_iff]
    intro hsmall
    obtain ⟨hfirst, hlast⟩ := Bool.and_eq_true_iff.mp hsmall
    exact h ⟨of_decide_eq_true hfirst, of_decide_eq_true hlast⟩

theorem upper_eq_upper_iff {a b : String} : upper a = upper b ↔ sameLetters a b = true := by
  rw [sameLetters_iff, ← String.toList_inj, toList_upper, toList_upper]
  constructor
  · intro h
    simpa [Function.comp_def, toLower_toUpper] using congrArg (List.map Char.toLower) h
  · intro h
    simpa [Function.comp_def, toUpper_toLower] using congrArg (List.map Char.toUpper) h

end Text

namespace Token

theorem is_symbol_iff {token : Token} {text : String} (h : text.toList.all (!·.isAlpha)) :
    token.is .symbol text = true ↔ token.isSymbol text = true := by
  simp [Token.is, isSymbol, Text.sameLetters_iff_eq h]

theorem is_iff {token : Token} {kind : Kind} {text : String} : token.is kind text = true ↔
    token.kind = kind ∧ Text.upper token.content = Text.upper text := by
  simp [Token.is, Text.upper_eq_upper_iff]

theorem isKeyword_iff {token : Token} {word : String} : token.isKeyword word = true ↔
    token.kind = .keyword ∧ Text.upper token.content = Text.upper word :=
  is_iff

theorem kind_of_isKeyword {token : Token} {word : String} (h : token.isKeyword word = true) :
    token.kind = .keyword :=
  (isKeyword_iff.mp h).1

theorem kind_of_isSymbol {token : Token} {text : String} (h : token.isSymbol text = true) :
    token.kind = .symbol := by
  simp only [isSymbol, Bool.and_eq_true, beq_iff_eq] at h
  exact h.1

theorem not_isKeyword {token : Token} {word : String} (h : token.kind ≠ .keyword) :
    token.isKeyword word = false := by
  simp [isKeyword, Token.is, h]

theorem not_isSymbol {token : Token} {text : String} (h : token.kind ≠ .symbol) :
    token.isSymbol text = false := by
  simp [isSymbol, h]

theorem isKeyword_unique {token : Token} {word other : String} (h : token.isKeyword word = true)
    (hd : Text.sameLetters word other = false) : token.isKeyword other = false := by
  rw [Bool.eq_false_iff]
  intro ho
  simp only [isKeyword, Token.is, Bool.and_eq_true, beq_iff_eq] at h ho
  simp [Text.sameLetters_of_sameLetters h.2 ho.2] at hd

theorem isSymbol_unique {token : Token} {text other : String} (h : token.isSymbol text = true)
    (hd : text ≠ other) : token.isSymbol other = false := by
  simp only [isSymbol, Bool.and_eq_true, beq_iff_eq] at h
  simp [isSymbol, h.2, hd]

end Token

end DdlCatalog
