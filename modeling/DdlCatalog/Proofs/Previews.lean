import DdlCatalog.Proofs.CursorRuns
import DdlCatalog.Proofs.LexicalFailure
import DdlCatalog.Proofs.ScannerRuns

namespace DdlCatalog

namespace Text

/-- A byte offset at the end of a script, or before a byte that begins a character. -/
def IsBoundary (source : String) (offset : Nat) : Prop :=
  (⟨offset⟩ : String.Pos.Raw).isValid source = true

instance (source : String) (offset : Nat) : Decidable (IsBoundary source offset) :=
  inferInstanceAs (Decidable (_ = true))

/-- The last boundary up to an offset. The search begins there and goes back byte by byte. -/
def lastBoundary (source : String) : Nat → Nat
  | 0 => 0
  | offset + 1 => if IsBoundary source (offset + 1) then offset + 1 else lastBoundary source offset

structure IsSlice (source text : String) (start stop : Nat) : Prop where
  ordered : start ≤ stop
  first : IsBoundary source start
  last : IsBoundary source stop
  bytes : text.toUTF8 = source.toUTF8.extract start stop

variable {source : String} {offset floor : Nat}

theorem isBoundary_iff :
    IsBoundary source offset ↔ ∃ front, front <+: source.toList ∧ byteSize front = offset := by
  unfold IsBoundary
  rw [String.Pos.Raw.isValid_eq_true_iff, String.Pos.Raw.isValid_iff_exists_take_toList]
  constructor
  · rintro ⟨i, hi⟩
    exact ⟨_, List.take_prefix i _, (byteSize_eq_utf8ByteSize _).trans hi.symm⟩
  · rintro ⟨front, hfront, rfl⟩
    refine ⟨front.length, ?_⟩
    rw [← List.prefix_iff_eq_take.mp hfront]
    exact byteSize_eq_utf8ByteSize front

theorem lastBoundary_le (source : String) (offset : Nat) : lastBoundary source offset ≤ offset := by
  fun_induction lastBoundary source offset with
  | case1 => exact Nat.le_refl 0
  | case2 => exact Nat.le_refl _
  | case3 offset _ ih => omega

theorem le_lastBoundary (hf : IsBoundary source floor) (hle : floor ≤ offset) :
    floor ≤ lastBoundary source offset := by
  fun_induction lastBoundary source offset with
  | case1 => exact hle
  | case2 => exact hle
  | case3 offset hno ih =>
    have hne : floor ≠ offset + 1 := by
      rintro rfl
      exact hno hf
    exact ih (by omega)

theorem isBoundary_lastBoundary (source : String) (offset : Nat) :
    IsBoundary source (lastBoundary source offset) := by
  fun_induction lastBoundary source offset with
  | case1 => exact isBoundary_iff.mpr ⟨[], List.nil_prefix, rfl⟩
  | case2 _ hyes => exact hyes
  | case3 _ _ ih => exact ih

theorem lastBoundary_eq {stop : Nat} (hs : IsBoundary source stop) (hle : stop ≤ offset)
    (hlast : ∀ other, IsBoundary source other → other ≤ offset → other ≤ stop) :
    lastBoundary source offset = stop := by
  have hfound := isBoundary_lastBoundary source offset
  apply Nat.le_antisymm
  · exact hlast _ hfound (lastBoundary_le source offset)
  · exact le_lastBoundary hs hle

/-- The search goes back from inside a character to the byte that begins it. -/
example : lastBoundary "a😀b" 4 = 1 := by decide

theorem le_byteSize_takeBytes (n : Nat) (cs : List Char) :
    min n (byteSize cs) ≤ byteSize (takeBytes n cs) + 3 := by
  fun_induction takeBytes n cs with
  | case1 => simp
  | case2 n c cs hc ih =>
    simp only [byteSize_cons]
    omega
  | case3 n c cs hc =>
    have hfour := c.utf8Size_le_four
    omega

theorem byteSize_le_of_isPrefix {front text : List Char} (h : front <+: text) :
    byteSize front ≤ byteSize text := by
  obtain ⟨back, rfl⟩ := h
  rw [byteSize_append]
  exact Nat.le_add_right _ _

theorem isBoundary_takeBytes {before rest : List Char} (hsource : source.toList = before ++ rest)
    (n : Nat) : IsBoundary source (byteSize (before ++ takeBytes n rest)) := by
  refine isBoundary_iff.mpr ⟨_, ?_, rfl⟩
  rw [hsource]
  exact (List.prefix_append_right_inj before).mpr (longestWithin_takeBytes n rest).isPrefix

/-- From `n` bytes behind a place between two characters the search comes to the end of the longest
front that fits. -/
theorem lastBoundary_takeBytes {before rest : List Char} (hsource : source.toList = before ++ rest)
    (n : Nat) :
    lastBoundary source (min (byteSize before + n) (byteSize (before ++ rest))) =
      byteSize (before ++ takeBytes n rest) := by
  have hlongest := longestWithin_takeBytes n rest
  have hfits := hlongest.fits
  have hshort := byteSize_le_of_isPrefix hlongest.isPrefix
  apply lastBoundary_eq
  · exact isBoundary_takeBytes hsource n
  · simp only [byteSize_append]
    omega
  · intro other hother hle
    obtain ⟨front, hfront, rfl⟩ := isBoundary_iff.mp hother
    rw [hsource] at hfront
    rw [byteSize_append]
    by_cases hbehind : byteSize front ≤ byteSize before
    · omega
    · -- A boundary behind the place cuts the text ahead, and what it cuts off fits.
      have hlength := length_le_of_byteSize_le (List.prefix_append before rest) hfront (by omega)
      obtain ⟨more, rfl⟩ :=
        List.prefix_of_prefix_length_le (List.prefix_append before rest) hfront hlength
      have hmore : more <+: rest := (List.prefix_append_right_inj before).mp hfront
      rw [byteSize_append] at hle ⊢
      have hwithin := byteSize_le_of_isPrefix (hlongest.longest more hmore (by omega))
      omega

theorem toUTF8_eq_extract (before span after : String) :
    span.toUTF8 = (before ++ span ++ after).toUTF8.extract before.utf8ByteSize
      (before ++ span).utf8ByteSize := by
  simp only [String.toUTF8_eq_toByteArray, String.toByteArray_append]
  rw [ByteArray.extract_append, ByteArray.extract_append_eq_right]
  · simp
  · simp
  · simp

theorem isSlice_takeBytes {before rest : List Char} (hsource : source.toList = before ++ rest)
    (n : Nat) :
    IsSlice source (.ofList (takeBytes n rest)) (byteSize before)
      (byteSize (before ++ takeBytes n rest)) := by
  have hparts : source = .ofList before ++ .ofList (takeBytes n rest) ++
      .ofList (dropBytes n rest) := by
    rw [← String.ofList_append, ← String.ofList_append, List.append_assoc,
      takeBytes_append_dropBytes, ← hsource, String.ofList_toList]
  constructor
  · rw [byteSize_append]
    exact Nat.le_add_right _ _
  · refine isBoundary_iff.mpr ⟨before, ?_, rfl⟩
    rw [hsource]
    exact List.prefix_append before rest
  · exact isBoundary_takeBytes hsource n
  · rw [byteSize_eq_utf8ByteSize, byteSize_eq_utf8ByteSize, String.ofList_append, hparts]
    exact toUTF8_eq_extract _ _ _

end Text

namespace Scanner

/-- Whatever was asked for before: the scanner shows the longest front of the text ahead that takes
no more bytes than it is asked for, and it shows at most 3 bytes less than it could. What it shows
are the bytes of the script from where it stands to where the search backwards ends, which does not
pass the scanner. Computed on words of 64 bits the search begins at the same place, however many
bytes are asked for. -/
theorem longestWithin_peek (source : String) (requests : List (Token.Kind × Request))
    (n : UInt64) :
    let reached := (ofSource source).askAll requests
    let shown := reached.peek n.toNat
    let start := min (reached.position + n.toNat) source.utf8ByteSize
    let stop := Text.lastBoundary source start
    (∃ before : String, source = before ++ .ofList reached.rest ∧
      reached.position = before.utf8ByteSize) ∧
    Text.LongestWithin n.toNat shown.toList reached.rest ∧
    min n.toNat reached.available ≤ shown.utf8ByteSize + 3 ∧
    Text.IsSlice source shown reached.position stop ∧
    (stop ≤ start ∧ ∀ offset, stop < offset → offset ≤ start → ¬Text.IsBoundary source offset) ∧
    (source.utf8ByteSize < UInt64.size →
      (min (Cursor.saturatedSum (.ofNat reached.position) n)
        (.ofNat source.utf8ByteSize)).toNat = start) := by
  intro reached shown start stop
  obtain ⟨before, hsource, hpartitions⟩ := (partitions_ofSource source).askAll requests
  rw [List.nil_append] at hpartitions
  have hposition : reached.position = Text.byteSize before := hpartitions.place.position
  have hwhole : source.toList = before ++ reached.rest := hsource
  have hsize : source.utf8ByteSize = Text.byteSize (before ++ reached.rest) := by
    rw [← hwhole, Text.byteSize_eq_utf8ByteSize, String.ofList_toList]
  have hshown : shown.toList = Text.takeBytes n.toNat reached.rest := String.toList_ofList
  have hbytes : shown.utf8ByteSize = Text.byteSize (Text.takeBytes n.toNat reached.rest) :=
    (Text.byteSize_eq_utf8ByteSize _).symm
  have hstop : stop = Text.byteSize (before ++ Text.takeBytes n.toNat reached.rest) := by
    rw [← Text.lastBoundary_takeBytes hwhole, ← hsize, ← hposition]
  refine ⟨⟨.ofList before, ?_, ?_⟩, ?_, ?_, ?_, ⟨?_, ?_⟩, ?_⟩
  · rw [← String.ofList_append, ← hwhole, String.ofList_toList]
  · rw [hposition, Text.byteSize_eq_utf8ByteSize]
  · rw [hshown]
    exact Text.longestWithin_takeBytes n.toNat reached.rest
  · rw [hbytes]
    exact Text.le_byteSize_takeBytes n.toNat reached.rest
  · rw [hstop, hposition]
    exact Text.isSlice_takeBytes hwhole n.toNat
  · exact Text.lastBoundary_le source start
  · intro offset hbehind hle hboundary
    have hback := Text.le_lastBoundary hboundary hle
    omega
  · intro hwords
    apply Cursor.toNat_min_saturatedSum _ hwords
    rw [hposition, hsize, Text.byteSize_append]
    exact Nat.le_add_right _ _

/-- The sum of the largest count and a place is cut off at the largest word. -/
theorem longestWithin_peek_largest_count :
    "ON é!".utf8ByteSize < UInt64.size ∧
      ((ofSource "ON é!").askAll [(.keyword, .word "on" true)]).position = 2 ∧
      (min (Cursor.saturatedSum (.ofNat 2) 18446744073709551615) (.ofNat 6)).toNat = 6 := by
  have hsize : "ON é!".utf8ByteSize < UInt64.size := by decide
  have hplace : ((ofSource "ON é!").askAll [(.keyword, .word "on" true)]).position = 2 := by rfl
  obtain ⟨-, -, -, -, -, hword⟩ := longestWithin_peek "ON é!" [(.keyword, .word "on" true)]
    18446744073709551615
  refine ⟨hsize, hplace, ?_⟩
  have hstart := hword hsize
  rw [hplace] at hstart
  exact hstart

end Scanner

end DdlCatalog
