import DdlCatalog.Text.Raw
import Mathlib.Data.List.Basic

namespace DdlCatalog.Text

theorem bytes_eq_toUTF8 (text : String) : bytes text = text.toUTF8.data.toList := by
  rw [String.toUTF8_eq_toByteArray, ← String.utf8Encode_toList, List.utf8Encode,
    List.data_toByteArray, bytes]

theorem toNat_eq_of_mem_utf8EncodeChar {c : Char} {byte : UInt8}
    (h : byte ∈ String.utf8EncodeChar c) (hbyte : byte.toNat < 128) :
    c.toNat = byte.toNat := by
  change c.val.toNat = byte.toNat
  simp only [String.utf8EncodeChar] at h
  generalize c.val.toNat = v at *
  split_ifs at h <;> simp only [List.mem_cons, List.not_mem_nil, or_false] at h
  · subst h
    simp
    omega
  · rcases h with rfl | rfl <;> simp at hbyte <;> omega
  · rcases h with rfl | rfl | rfl <;> simp at hbyte <;> omega
  · rcases h with rfl | rfl | rfl | rfl <;> simp at hbyte <;> omega

/-- At the first place where the lists differ, the first one has the smaller byte. -/
def DiffersBelow : List UInt8 → List UInt8 → Prop
  | a :: as, b :: bs => a < b ∨ a = b ∧ DiffersBelow as bs
  | _, _ => False

theorem DiffersBelow.append_lt {as bs : List UInt8} (h : DiffersBelow as bs)
    (xs ys : List UInt8) : as ++ xs < bs ++ ys := by
  induction as generalizing bs with
  | nil => cases h
  | cons a as ih =>
    cases bs with
    | nil => cases h
    | cons b bs =>
      rcases h with hlt | ⟨rfl, hrest⟩
      · exact .rel hlt
      · exact .cons (ih hrest)

theorem ofNat_lt_ofNat_iff {n m : Nat} (hn : n < 256) (hm : m < 256) :
    UInt8.ofNat n < UInt8.ofNat m ↔ n < m := by
  rw [UInt8.lt_iff_toNat_lt, UInt8.toNat_ofNat_of_lt' hn, UInt8.toNat_ofNat_of_lt' hm]

theorem ofNat_eq_ofNat_iff {n m : Nat} (hn : n < 256) (hm : m < 256) :
    UInt8.ofNat n = UInt8.ofNat m ↔ n = m := by
  rw [← UInt8.toNat_inj, UInt8.toNat_ofNat_of_lt' hn, UInt8.toNat_ofNat_of_lt' hm]

theorem differsBelow_of_lt {c d : Char} (h : c < d) :
    DiffersBelow (String.utf8EncodeChar c) (String.utf8EncodeChar d) := by
  have hlt : c.val.toNat < d.val.toNat := h
  have hbound : d.val.toNat < 1114112 := by
    rcases d.valid with hd | hd <;> omega
  -- The bytes carry the digits to the base 64, the first one apart.
  have hthird : ∀ n : Nat, n / 4096 = n / 64 / 64 := by omega
  have hfourth : ∀ n : Nat, n / 262144 = n / 64 / 64 / 64 := by omega
  simp only [String.utf8EncodeChar, hthird, hfourth]
  generalize c.val.toNat = v at *
  generalize d.val.toNat = w at *
  split_ifs <;>
    simp (disch := omega) only [DiffersBelow, ofNat_lt_ofNat_iff, ofNat_eq_ofNat_iff] <;> omega

theorem bytes_lt_of_lt {a b : String} (h : a < b) : bytes a < bytes b := by
  rw [bytes, bytes]
  change List.Lex (· < ·) a.toList b.toList at h
  generalize a.toList = cs at h ⊢
  generalize b.toList = ds at h ⊢
  induction h with
  | @nil d ds =>
    obtain ⟨first, others, hd⟩ :=
      List.exists_cons_of_ne_nil (String.utf8EncodeChar_ne_nil : String.utf8EncodeChar d ≠ [])
    rw [List.flatMap_nil, List.flatMap_cons, hd]
    exact .nil
  | @cons c cs ds _ ih =>
    rw [List.flatMap_cons, List.flatMap_cons]
    exact List.append_left_lt ih
  | @rel c cs d ds hlt =>
    rw [List.flatMap_cons, List.flatMap_cons]
    exact (differsBelow_of_lt hlt).append_lt _ _

/-- Texts are in the order of their bytes. -/
theorem bytes_lt_iff {a b : String} : bytes a < bytes b ↔ a < b := by
  refine ⟨fun h => ?_, bytes_lt_of_lt⟩
  rcases Decidable.em (a < b) with hlt | hge
  · exact hlt
  · rcases Decidable.em (b < a) with hgt | hle
    · exact absurd h (List.lt_asymm (bytes_lt_of_lt hgt))
    · have hsame : a = b := String.le_antisymm (String.not_lt.mp hle) (String.not_lt.mp hge)
      exact absurd h (hsame ▸ List.lt_irrefl _)

end DdlCatalog.Text
