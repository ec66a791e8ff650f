import DdlCatalog.Text.Decimal

namespace DdlCatalog.Text

theorem isDigit_of_mem_decimal {n : Nat} {c : Char} (h : c ∈ decimal n) : c.isDigit = true :=
  Nat.isDigit_of_mem_toDigits (by omega) (by omega) h

theorem decimal_ne_nil (n : Nat) : decimal n ≠ [] :=
  Nat.toDigits_ne_nil

theorem decimalValue_decimal (n : Nat) : decimalValue (decimal n) = n := by
  rw [decimalValue, ← Nat.ofDigitChars_eq_foldl]
  exact Nat.ofDigitChars_ten_toDigits

theorem withoutPlus_of_digits {digits : List Char} (h : ∀ c ∈ digits, c.isDigit = true) :
    withoutPlus digits = digits := by
  unfold withoutPlus
  split
  next =>
    have hsign := h '+' List.mem_cons_self
    cases hsign
  next => rfl

theorem decimal?_of_digits {digits : List Char} (hne : digits ≠ [])
    (h : ∀ c ∈ digits, c.isDigit = true) : decimal? digits = some (decimalValue digits) := by
  have hempty : digits.isEmpty = false := by simp [hne]
  have hall : digits.all Char.isDigit = true := List.all_eq_true.mpr h
  rw [decimal?, hempty, hall]
  rfl

theorem word?_decimal (n : UInt32) : word? (withoutPlus (decimal n.toNat)) = some n := by
  have hdigits : ∀ c ∈ decimal n.toNat, c.isDigit = true := fun _ hc => isDigit_of_mem_decimal hc
  rw [withoutPlus_of_digits hdigits, word?,
    decimal?_of_digits (decimal_ne_nil _) hdigits, decimalValue_decimal]
  simp [UInt32.toNat_lt_size]

end DdlCatalog.Text
