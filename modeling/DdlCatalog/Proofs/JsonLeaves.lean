import DdlCatalog.Json.Decode
import DdlCatalog.Proofs.Numerals
import Mathlib.Data.List.TakeWhile

namespace DdlCatalog.Json

def escapeLetters : List Char := "\"\\/bfnrt".toList

def hexDigits : List Char := "0123456789abcdefABCDEF".toList

theorem escapeChar_cases (c : Char) :
    (∃ e ∈ escapeLetters, shortEscape? e = some c ∧ escapeChar c = ['\\', e]) ∨
    (∃ x ∈ hexDigits, ∃ y ∈ hexDigits, unit? '0' '0' x y = some c.toNat ∧ c.toNat < 0xd800 ∧
      escapeChar c = ['\\', 'u', '0', '0', x, y]) ∨
    (c ≠ '"' ∧ c ≠ '\\' ∧ 0x20 ≤ c.toNat ∧ escapeChar c = [c]) := by
  have hunit : ∀ n < 0x20, Nat.digitChar (n / 16) ∈ hexDigits ∧ Nat.digitChar (n % 16) ∈ hexDigits ∧
      unit? '0' '0' (Nat.digitChar (n / 16)) (Nat.digitChar (n % 16)) = some n := by
    decide
  by_cases h₁ : c = '"'
  · exact .inl ⟨'"', by subst h₁; decide⟩
  by_cases h₂ : c = '\\'
  · exact .inl ⟨'\\', by subst h₂; decide⟩
  by_cases h₃ : c = '\x08'
  · exact .inl ⟨'b', by subst h₃; decide⟩
  by_cases h₄ : c = '\x0c'
  · exact .inl ⟨'f', by subst h₄; decide⟩
  by_cases h₅ : c = '\n'
  · exact .inl ⟨'n', by subst h₅; decide⟩
  by_cases h₆ : c = '\r'
  · exact .inl ⟨'r', by subst h₆; decide⟩
  by_cases h₇ : c = '\t'
  · exact .inl ⟨'t', by subst h₇; decide⟩
  by_cases h₈ : c.toNat < 0x20
  · obtain ⟨hx, hy, hcode⟩ := hunit c.toNat h₈
    refine .inr (.inl ⟨_, hx, _, hy, hcode, by omega, ?_⟩)
    simp [escapeChar, h₁, h₂, h₃, h₄, h₅, h₆, h₇, h₈]
  · refine .inr (.inr ⟨h₁, h₂, by omega, ?_⟩)
    simp [escapeChar, h₁, h₂, h₃, h₄, h₅, h₆, h₇, h₈]

theorem shortEscape?_isSome {e : Char} (he : e ∈ escapeLetters) :
    (shortEscape? e).isSome = true :=
  List.all_eq_true.mp
    (show escapeLetters.all (fun e => (shortEscape? e).isSome) from by decide) e he

theorem ne_u_of_mem {e : Char} (he : e ∈ escapeLetters) : e ≠ 'u' := by
  rintro rfl
  exact absurd he (by decide)

theorem unit?_isSome {a b c d : Char} (h : ∀ x ∈ [a, b, c, d], x ∈ hexDigits) :
    (unit? a b c d).isSome = true := by
  have hdigits : hexDigits.all (fun x => (Text.hexValue? x).isSome) = true := by decide
  have hvalue : ∀ x ∈ [a, b, c, d], ∃ value, Text.hexValue? x = some value := fun x hx =>
    Option.isSome_iff_exists.mp (List.all_eq_true.mp hdigits x (h x hx))
  obtain ⟨_, ha⟩ := hvalue a (by simp)
  obtain ⟨_, hb⟩ := hvalue b (by simp)
  obtain ⟨_, hc⟩ := hvalue c (by simp)
  obtain ⟨_, hd⟩ := hvalue d (by simp)
  simp [unit?, ha, hb, hc, hd]

theorem escape_cons (c : Char) (cs : List Char) : escape (c :: cs) = escapeChar c ++ escape cs :=
  rfl

theorem unescape?_escapeChar (c : Char) (rest : List Char) :
    unescape? (escapeChar c ++ rest) = (unescape? rest).map (c :: ·) := by
  rcases escapeChar_cases c with
    ⟨e, hmem, he, hc⟩ | ⟨x, -, y, -, hxy, hlt, hc⟩ | ⟨-, hslash, -, hc⟩
  · rw [hc, List.cons_append, List.cons_append, List.nil_append, unescape?]
    · simp only [he]
      cases unescape? rest <;> rfl
    · rintro a b c d tail rfl -
      exact ne_u_of_mem hmem rfl
  · simp only [hc, List.cons_append, List.nil_append, unescape?, hxy]
    change (if c.toNat < 0xd800 ∨ 0xe000 ≤ c.toNat then _ else _) = _
    rw [if_pos (.inl hlt), Char.ofNat_toNat]
    cases unescape? rest <;> rfl
  · rw [hc, List.cons_append, List.nil_append, unescape?]
    · cases unescape? rest <;> rfl
    · exact fun _ _ _ _ _ h => absurd h hslash
    · exact fun _ _ h => absurd h hslash

theorem unescape?_escape (text : List Char) : unescape? (escape text) = some text := by
  induction text with
  | nil => rfl
  | cons c cs ih => rw [escape_cons, unescape?_escapeChar, ih, Option.map_some]

inductive Body : List Char → Prop
  | nil : Body []
  | plain {c : Char} {rest : List Char} :
      c ≠ '"' → c ≠ '\\' → 0x20 ≤ c.toNat → Body rest → Body (c :: rest)
  | short {e : Char} {rest : List Char} : e ∈ escapeLetters → Body rest → Body ('\\' :: e :: rest)
  | code {a b c d : Char} {rest : List Char} : (∀ x ∈ [a, b, c, d], x ∈ hexDigits) → Body rest →
      Body ('\\' :: 'u' :: a :: b :: c :: d :: rest)

theorem Body.append {body more : List Char} (h : Body body) (hm : Body more) :
    Body (body ++ more) := by
  induction h with
  | nil => exact hm
  | plain hquote hslash hlow _ ih => exact .plain hquote hslash hlow ih
  | short he _ ih => exact .short he ih
  | code hx _ ih => exact .code hx ih

theorem Body.printable {body : List Char} (h : Body body) : ∀ c ∈ body, 0x20 ≤ c.toNat := by
  have hknown : ∀ c ∈ '\\' :: 'u' :: (escapeLetters ++ hexDigits), 0x20 ≤ c.toNat := fun c hc =>
    of_decide_eq_true (List.all_eq_true.mp
      (show ('\\' :: 'u' :: (escapeLetters ++ hexDigits)).all (0x20 ≤ ·.toNat) from by decide) c hc)
  induction h with
  | nil => exact fun _ hc => absurd hc List.not_mem_nil
  | plain _ _ hlow _ ih => exact List.forall_mem_cons.mpr ⟨hlow, ih⟩
  | @short e rest he _ ih =>
    have hescape : ∀ c ∈ ['\\', e], 0x20 ≤ c.toNat := fun c hc => hknown c (by grind)
    exact List.forall_mem_append.mpr ⟨hescape, ih⟩
  | @code a b c d rest hx _ ih =>
    have hescape : ∀ x ∈ ['\\', 'u', a, b, c, d], 0x20 ≤ x.toNat := fun x hm =>
      hknown x (by grind)
    exact List.forall_mem_append.mpr ⟨hescape, ih⟩

theorem body_escapeChar (c : Char) : Body (escapeChar c) := by
  rcases escapeChar_cases c with
    ⟨e, he, -, hc⟩ | ⟨x, hx, y, hy, -, -, hc⟩ | ⟨hquote, hslash, hlow, hc⟩ <;> rw [hc]
  · exact .short he .nil
  · have hzero : '0' ∈ hexDigits := by decide
    exact .code (by simp [hx, hy, hzero]) .nil
  · exact .plain hquote hslash hlow .nil

theorem body_escape (text : List Char) : Body (escape text) := by
  induction text with
  | nil => exact .nil
  | cons c cs ih => exact (body_escapeChar c).append ih

def Digits (text : List Char) : Prop :=
  text ≠ [] ∧ ∀ c ∈ text, c.isDigit = true

def Whole (text : List Char) : Prop :=
  text = ['0'] ∨ Digits text ∧ text.head? ≠ some '0'

def Fraction (text : List Char) : Prop :=
  text = [] ∨ ∃ digits, Digits digits ∧ text = '.' :: digits

def Exponent (text : List Char) : Prop :=
  text = [] ∨ ∃ e sign digits, (e = 'e' ∨ e = 'E') ∧ (sign = [] ∨ sign = ['+'] ∨ sign = ['-']) ∧
    Digits digits ∧ text = e :: (sign ++ digits)

/-- The literals of numbers. Only the whole part has to be there. -/
def Numeral (literal : List Char) : Prop :=
  ∃ sign whole fraction exponent, (sign = [] ∨ sign = ['-']) ∧ Whole whole ∧ Fraction fraction ∧
    Exponent exponent ∧ literal = sign ++ (whole ++ (fraction ++ exponent))

namespace Piece

theorem stringBody?_body {body : List Char} (h : Body body) (rest : List Char) :
    stringBody? (body ++ '"' :: rest) = some (body, rest) := by
  induction h with
  | nil => rfl
  | plain hquote hslash hlow _ ih =>
    rw [List.cons_append, stringBody?, if_neg (by omega), ih, Option.map_some]
    · exact hquote
    · exact fun _ _ _ _ _ h => absurd h hslash
    · exact fun _ _ h => absurd h hslash
  | short he _ ih =>
    rw [List.cons_append, List.cons_append, stringBody?, if_pos (shortEscape?_isSome he), ih,
      Option.map_some]
    rintro a b c d tail rfl -
    exact ne_u_of_mem he rfl
  | code hx _ ih =>
    simp only [List.cons_append, stringBody?]
    rw [if_pos (unit?_isSome hx), ih, Option.map_some]

/-- What follows a number without becoming part of it. -/
def EndsNumber (rest : List Char) : Prop :=
  ∀ c ∈ rest.head?, c.isDigit = false ∧ c ≠ '.' ∧ c ≠ 'e' ∧ c ≠ 'E'

theorem digits?_append {digits rest : List Char} (hd : Digits digits)
    (hr : ∀ c ∈ rest.head?, c.isDigit = false) :
    digits? (digits ++ rest) = some (digits, rest) := by
  have htake : (digits ++ rest).takeWhile Char.isDigit = digits := by
    rw [List.takeWhile_append_of_pos hd.2]
    cases rest with
    | nil => simp
    | cons c cs => simp [hr c rfl]
  have hdrop : (digits ++ rest).dropWhile Char.isDigit = rest := by
    rw [List.dropWhile_append_of_pos hd.2]
    cases rest with
    | nil => rfl
    | cons c cs => simp [hr c rfl]
  unfold digits?
  rw [htake, hdrop]
  split
  next => exact absurd rfl hd.1
  next => rfl

variable {sign whole fraction exponent rest : List Char}

theorem digits_cons {digits : List Char} (h : Digits digits) :
    ∃ d ds, digits = d :: ds ∧ d.isDigit = true := by
  obtain ⟨d, ds, rfl⟩ := List.exists_cons_of_ne_nil h.1
  exact ⟨d, ds, rfl, h.2 d List.mem_cons_self⟩

theorem whole_cons (h : Whole whole) : ∃ d ds, whole = d :: ds ∧ d.isDigit = true := by
  rcases h with rfl | ⟨hd, -⟩
  · exact ⟨'0', [], rfl, rfl⟩
  · exact digits_cons hd

theorem minus_append (hs : sign = [] ∨ sign = ['-']) (hw : Whole whole) :
    minus (sign ++ (whole ++ rest)) = (sign, whole ++ rest) := by
  rcases hs with rfl | rfl
  · obtain ⟨d, ds, rfl, hd⟩ := whole_cons hw
    unfold minus
    split
    next heq =>
      obtain rfl : d = '-' := (List.cons.inj heq).1
      cases hd
    next => rfl
  · rfl

theorem whole?_append (hw : Whole whole) (hr : ∀ c ∈ rest.head?, c.isDigit = false) :
    whole? (whole ++ rest) = some (whole, rest) := by
  rcases hw with rfl | ⟨hd, hhead⟩
  · rfl
  · unfold whole?
    split
    next tail heq =>
      obtain ⟨d, ds, rfl, -⟩ := digits_cons hd
      obtain rfl : d = '0' := (List.cons.inj heq).1
      exact absurd rfl hhead
    next => exact digits?_append hd hr

theorem fraction?_append (hf : Fraction fraction)
    (hr : ∀ c ∈ rest.head?, c.isDigit = false ∧ c ≠ '.') :
    fraction? (fraction ++ rest) = some (fraction, rest) := by
  rcases hf with rfl | ⟨digits, hd, rfl⟩
  · rw [List.nil_append]
    unfold fraction?
    split
    next => exact absurd rfl (hr '.' rfl).2
    next => rfl
  · rw [List.cons_append, fraction?, digits?_append hd fun c hc => (hr c hc).1, Option.map_some]

theorem exponentSign_append {digits : List Char} (hs : sign = [] ∨ sign = ['+'] ∨ sign = ['-'])
    (hd : Digits digits) : exponentSign (sign ++ (digits ++ rest)) = (sign, digits ++ rest) := by
  rcases hs with rfl | rfl | rfl
  · obtain ⟨d, ds, rfl, hdigit⟩ := digits_cons hd
    unfold exponentSign
    split
    case h_3 => rfl
    all_goals
      next heq =>
        obtain rfl := (List.cons.inj heq).1
        cases hdigit
  · rfl
  · rfl

theorem exponent?_append (he : Exponent exponent) (hr : EndsNumber rest) :
    exponent? (exponent ++ rest) = some (exponent, rest) := by
  rcases he with rfl | ⟨e, sign, digits, hletter, hs, hd, rfl⟩
  · cases rest with
    | nil => rfl
    | cons c cs =>
      obtain ⟨-, -, hsmall, hlarge⟩ := hr c rfl
      rw [List.nil_append, exponent?, if_neg (not_or.mpr ⟨hsmall, hlarge⟩)]
  · rw [List.cons_append, List.append_assoc, exponent?, if_pos hletter, exponentSign_append hs hd,
      digits?_append hd fun c hc => (hr c hc).1]
    rfl

theorem number?_numeral {literal : List Char} (h : Numeral literal) (hr : EndsNumber rest) :
    number? (literal ++ rest) = some (literal, rest) := by
  obtain ⟨sign, whole, fraction, exponent, hs, hw, hf, he, rfl⟩ := h
  have hexponent : ∀ c ∈ (exponent ++ rest).head?, c.isDigit = false ∧ c ≠ '.' := by
    rcases he with rfl | ⟨e, _, _, rfl | rfl, _, _, rfl⟩
    · exact fun c hc => ⟨(hr c hc).1, (hr c hc).2.1⟩
    · simp
    · simp
  have hfraction : ∀ c ∈ (fraction ++ (exponent ++ rest)).head?, c.isDigit = false := by
    rcases hf with rfl | ⟨_, _, rfl⟩
    · exact fun c hc => (hexponent c hc).1
    · simp
  simp [number?, minus_append hs hw, whole?_append hw hfraction, fraction?_append hf hexponent,
    exponent?_append he hr]

end Piece

theorem head_decimal {n : Nat} (hn : 0 < n) : (Text.decimal n).head? ≠ some '0' := by
  induction n using Nat.strong_induction_on with
  | _ n ih =>
    unfold Text.decimal
    by_cases hlt : n < 10
    · rw [Nat.toDigits_of_lt_base hlt]
      have hall : ∀ d < 10, 0 < d → [Nat.digitChar d].head? ≠ some '0' := by decide
      exact hall n hlt hn
    · have hquotient := ih (n / 10) (by omega) (by omega)
      obtain ⟨d, ds, hds⟩ := List.exists_cons_of_ne_nil (Text.decimal_ne_nil (n / 10))
      rw [hds] at hquotient
      rw [Text.decimal] at hds
      rw [Nat.toDigits_of_base_le (by omega) (by omega), hds]
      exact hquotient

theorem numeral_decimal (n : Nat) : Numeral (Text.decimal n) := by
  refine ⟨[], Text.decimal n, [], [], .inl rfl, ?_, .inl rfl, .inl rfl, by simp⟩
  rcases Nat.eq_zero_or_pos n with rfl | hn
  · exact .inl rfl
  · exact .inr ⟨⟨Text.decimal_ne_nil n, fun _ hc => Text.isDigit_of_mem_decimal hc⟩,
      head_decimal hn⟩

end DdlCatalog.Json
