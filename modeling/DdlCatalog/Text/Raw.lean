namespace DdlCatalog

/-- Text as an operating system hands it over: bytes that are mostly, but need not be, UTF-8. -/
abbrev RawText := List UInt8

namespace Text

def bytes (text : String) : RawText :=
  text.toList.flatMap String.utf8EncodeChar

instance : Coe String RawText := ⟨bytes⟩

/-- The character at the front of raw text. It takes up to four bytes. -/
def character? (raw : RawText) : Option Char :=
  (raw.take 4).toByteArray.utf8DecodeChar? 0

/-- The first and the last byte that may stand at each place behind the first byte of a
character. -/
def following (first : UInt8) : List (UInt8 × UInt8) :=
  if first < 0xC2 then []
  else if first < 0xE0 then [(0x80, 0xBF)]
  else if first = 0xE0 then [(0xA0, 0xBF), (0x80, 0xBF)]
  else if first = 0xED then [(0x80, 0x9F), (0x80, 0xBF)]
  else if first < 0xF0 then [(0x80, 0xBF), (0x80, 0xBF)]
  else if first = 0xF0 then [(0x90, 0xBF), (0x80, 0xBF), (0x80, 0xBF)]
  else if first < 0xF4 then [(0x80, 0xBF), (0x80, 0xBF), (0x80, 0xBF)]
  else if first = 0xF4 then [(0x80, 0x8F), (0x80, 0xBF), (0x80, 0xBF)]
  else []

def countWithin : List (UInt8 × UInt8) → RawText → Nat
  | range :: ranges, byte :: raw =>
    if range.1 ≤ byte ∧ byte ≤ range.2 then countWithin ranges raw + 1 else 0
  | _, _ => 0

def replacement : Char := '\uFFFD'

/-- The characters of raw text behind the bytes that are passed over. Bytes that begin a character
and do not complete it are replaced together, any other byte on its own. -/
def shownFrom : (passed : Nat) → RawText → List Char
  | _, [] => []
  | passed + 1, _ :: raw => shownFrom passed raw
  | 0, first :: raw =>
    match character? (first :: raw) with
    | some c => c :: shownFrom (c.utf8Size - 1) raw
    | none => replacement :: shownFrom (countWithin (following first) raw) raw

def shown (raw : RawText) : String :=
  String.ofList (shownFrom 0 raw)

theorem character?_eq_some_iff {raw : RawText} {c : Char} :
    character? raw = some c ↔ ∃ rest, raw = String.utf8EncodeChar c ++ rest := by
  have hsize : (String.utf8EncodeChar c).length ≤ 4 := by
    rw [String.length_utf8EncodeChar]
    exact c.utf8Size_le_four
  constructor
  · intro h
    obtain ⟨back, hback⟩ := ByteArray.exists_of_utf8DecodeChar?_eq_some h
    have hfront : raw.take 4 = String.utf8EncodeChar c ++ back.data.toList := by
      have hdata := congrArg (fun held : ByteArray => held.data.toList) hback
      simpa using hdata
    exact ⟨back.data.toList ++ raw.drop 4, by
      rw [← List.append_assoc, ← hfront, List.take_append_drop]⟩
  · rintro ⟨rest, rfl⟩
    rw [character?, List.take_append, List.take_of_length_le hsize, List.toByteArray_append]
    exact ByteArray.utf8DecodeChar?_utf8EncodeChar_append

theorem shownFrom_eq (passed : Nat) (raw : RawText) :
    shownFrom passed raw = shownFrom 0 (raw.drop passed) := by
  induction passed generalizing raw with
  | zero => rfl
  | succ passed ih =>
    cases raw with
    | nil => rfl
    | cons first raw => exact ih raw

theorem shownFrom_encode (c : Char) (rest : RawText) :
    shownFrom 0 (String.utf8EncodeChar c ++ rest) = c :: shownFrom 0 rest := by
  obtain ⟨first, more, hencode⟩ :=
    List.exists_cons_of_ne_nil (String.utf8EncodeChar_ne_nil : String.utf8EncodeChar c ≠ [])
  have hsize : c.utf8Size - 1 = more.length := by
    have hlength := congrArg List.length hencode
    rw [String.length_utf8EncodeChar, List.length_cons] at hlength
    omega
  have hcharacter : character? (first :: (more ++ rest)) = some c :=
    character?_eq_some_iff.mpr ⟨rest, by rw [hencode, List.cons_append]⟩
  have hrest : shownFrom (c.utf8Size - 1) (more ++ rest) = shownFrom 0 rest := by
    rw [hsize, shownFrom_eq, List.drop_left]
  rw [hencode, List.cons_append, shownFrom, hcharacter, ← hrest]

theorem bytes_append (a b : String) : bytes (a ++ b) = bytes a ++ bytes b := by
  rw [bytes, String.toList_append, List.flatMap_append, bytes, bytes]

theorem shown_bytes_append (text : String) (raw : RawText) :
    shown (bytes text ++ raw) = text ++ shown raw := by
  have hchars : ∀ chars : List Char, shownFrom 0 (chars.flatMap String.utf8EncodeChar ++ raw) =
      chars ++ shownFrom 0 raw := by
    intro chars
    induction chars with
    | nil => rfl
    | cons c chars ih =>
      rw [List.flatMap_cons, List.append_assoc, shownFrom_encode, ih, List.cons_append]
  rw [shown, bytes, hchars, String.ofList_append, String.ofList_toList, shown]

@[simp] theorem shown_bytes (text : String) : shown (bytes text) = text := by
  have happend := shown_bytes_append text []
  rw [List.append_nil] at happend
  rw [happend, shown, shownFrom]
  exact String.append_empty

theorem bytes_injective {a b : String} (h : bytes a = bytes b) : a = b := by
  rw [← shown_bytes a, h, shown_bytes]

theorem exists_of_mem_shown {raw : RawText} {c : Char} (h : c ∈ (shown raw).toList)
    (hc : c ≠ replacement) : ∃ front back, raw = front ++ String.utf8EncodeChar c ++ back := by
  rw [shown, String.toList_ofList] at h
  generalize 0 = passed at h
  fun_induction shownFrom passed raw with
  | case1 => cases h
  | case2 passed first raw ih =>
    obtain ⟨front, back, rfl⟩ := ih h
    exact ⟨first :: front, back, rfl⟩
  | case3 first raw found hfound ih =>
    rcases List.mem_cons.mp h with rfl | h
    · obtain ⟨rest, hraw⟩ := character?_eq_some_iff.mp hfound
      exact ⟨[], rest, hraw⟩
    · obtain ⟨front, back, rfl⟩ := ih h
      exact ⟨first :: front, back, rfl⟩
  | case4 first raw _ ih =>
    obtain ⟨front, back, rfl⟩ := ih ((List.mem_cons.mp h).resolve_left hc)
    exact ⟨first :: front, back, rfl⟩

/-- A byte on its own, a beginning without an end, and a surrogate. -/
example : shown [0x61, 0xFE, 0xE2, 0x82, 0x62, 0xED, 0xA0, 0x80] =
    "a\uFFFD\uFFFDb\uFFFD\uFFFD\uFFFD" := by decide

end Text

end DdlCatalog
