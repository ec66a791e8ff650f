import DdlCatalog.Proofs.ByteOrder
import DdlCatalog.Proofs.Keywords
import DdlCatalog.Proofs.TokenTiling
import Mathlib.Data.List.Destutter
import Mathlib.Data.List.Sort

namespace DdlCatalog

namespace Vocabulary

/-- Words of more bytes come first, words of equally many in the order of their bytes. -/
def Before (a b : String) : Prop :=
  (Text.bytes b).length < (Text.bytes a).length ∨
    (Text.bytes a).length = (Text.bytes b).length ∧ Text.bytes a < Text.bytes b

theorem wordSize_eq (word : String) : wordSize word = (Text.bytes word).length := by
  rw [wordSize, Text.byteSize_eq_utf8ByteSize, String.ofList_toList, Text.bytes_eq_toUTF8,
    Array.length_toList]
  rfl

theorem precedes_iff_before {a b : String} : precedes a b = true ↔ Before a b := by
  rw [precedes_iff, Before, Text.bytes_lt_iff, wordSize_eq, wordSize_eq]

instance : Std.Irrefl Before where
  irrefl a h := not_precedes_self a (precedes_iff_before.mpr h)

instance : IsTrans String Before where
  trans _ _ _ hab hbc := precedes_iff_before.mp
    (precedes_trans (precedes_iff_before.mpr hab) (precedes_iff_before.mpr hbc))

instance : Std.Asymm Before where
  asymm a _ hab hba := irrefl_of Before a (trans_of Before hab hba)

theorem eq_or_before (a b : String) : a = b ∨ Before a b ∨ Before b a := by
  simpa only [precedes_iff_before] using precedes_total a b

instance : Std.Antisymm fun a b => ¬Before b a where
  antisymm a b hba hab := (eq_or_before a b).resolve_right (not_or_intro hab hba)

theorem nodup_eraseDups (words : List String) : words.eraseDups.Nodup := by
  obtain ⟨n, hn⟩ : ∃ n, words.length = n := ⟨_, rfl⟩
  induction n using Nat.strong_induction_on generalizing words with
  | h n ih =>
    cases words with
    | nil => exact List.nodup_nil
    | cons word rest =>
      have hle := List.length_filter_le (fun other => !other == word) rest
      rw [List.length_cons] at hn
      rw [List.eraseDups_cons, List.nodup_cons]
      exact ⟨by simp [List.mem_eraseDups], ih _ (by omega) _ rfl⟩

theorem nodup_words_ofList (words : List String) : (ofList words).words.Nodup :=
  (List.mergeSort_perm _ _).nodup_iff.mpr (nodup_eraseDups _)

theorem pairwise_before_ofList (words : List String) : (ofList words).words.Pairwise Before := by
  refine ((pairwise_words_ofList words).and (nodup_words_ofList words)).imp ?_
  rintro a b ⟨hab, hne⟩
  exact precedes_iff_before.mp (hab.resolve_right hne)

theorem increasing_iff_isChain {words : List String} :
    increasing words = true ↔ words.IsChain Before := by
  fun_induction increasing words with
  | case1 a b rest ih => rw [Bool.and_eq_true, precedes_iff_before, ih, List.isChain_cons_cons]
  | case2 words hshort =>
    match words with
    | [] => simp
    | [_] => simp
    | a :: b :: rest => exact absurd rfl (hshort a b rest)

theorem isSorted_ofList (words : List String) : (ofList words).isSorted = true :=
  increasing_iff_isChain.mpr (List.isChain_iff_pairwise.mpr (pairwise_before_ofList words))

theorem ofList_eq_mk {words sorted : List String} (hsorted : sorted.Pairwise Before)
    (hmem : ∀ word, word ∈ sorted ↔ word ∈ words ∧ word ≠ "") : ofList words = ⟨sorted⟩ := by
  have hwords : (ofList words).words = sorted :=
    (pairwise_before_ofList words).eq_of_mem_iff hsorted fun word => by
      rw [mem_words_ofList, hmem]
  exact congrArg mk hwords

theorem ofList_eq_iff {words others : List String} : ofList words = ofList others ↔
    ∀ word, word ≠ "" → (word ∈ words ↔ word ∈ others) := by
  constructor
  · intro h word hword
    have hmem : word ∈ (ofList words).words ↔ word ∈ (ofList others).words := by rw [h]
    simpa [mem_words_ofList, hword] using hmem
  · intro h
    refine ofList_eq_mk (pairwise_before_ofList others) fun word => ?_
    change word ∈ (ofList others).words ↔ _
    rw [mem_words_ofList]
    exact and_congr_left fun hword => (h word hword).symm

/-- Whichever of two equal words a sort puts first, dropping repeated neighbours leaves the
vocabulary. -/
theorem ofList_eq_destutter {words sorted : List String}
    (hperm : sorted.Perm (words.filter (· ≠ "")))
    (hsorted : sorted.Pairwise fun a b => ¬Before b a) :
    ofList words = ⟨sorted.destutter (· ≠ ·)⟩ := by
  have hdedup : sorted.destutter (· ≠ ·) = sorted.dedup := hsorted.destutter_eq_dedup
  rw [hdedup]
  refine ofList_eq_mk ?_ fun word => ?_
  · refine ((hsorted.sublist sorted.dedup_sublist).and sorted.nodup_dedup).imp ?_
    rintro a b ⟨hba, hne⟩
    exact ((eq_or_before a b).resolve_left hne).resolve_right hba
  · rw [List.mem_dedup, hperm.mem_iff]
    simp

theorem before_of_isPrefix {word longer : String} (h : word.toList <+: longer.toList)
    (hne : word ≠ longer) : Before longer word := by
  obtain ⟨rest, hrest⟩ := h
  have hmore : rest ≠ [] := by
    rintro rfl
    exact hne (String.toList_inj.mp ((List.append_nil _).symm.trans hrest))
  have hsize := Text.byteSize_pos hmore
  left
  rw [← wordSize_eq, ← wordSize_eq, wordSize, wordSize, ← hrest, Text.byteSize_append]
  omega

/-- A vocabulary is the one list in trying order of the distinct words that it was made of, without
the empty one, however these were listed. A word never stands before one that it begins. -/
theorem ofList_canonical (words : List String) :
    (ofList words).words.Pairwise Before ∧ (ofList words).isSorted = true ∧
      (ofList words).words.Nodup ∧
      (∀ word, word ∈ (ofList words).words ↔ word ∈ words ∧ word ≠ "") ∧
      (∀ others, ofList words = ofList others ↔
        ∀ word, word ≠ "" → (word ∈ words ↔ word ∈ others)) ∧
      ofList (ofList words).words = ofList words ∧
      (∀ sorted : List String, sorted.Perm (words.filter (· ≠ "")) →
        (sorted.Pairwise fun a b => ¬Before b a) →
          ofList words = ⟨sorted.destutter (· ≠ ·)⟩) ∧
      ∀ (i j : Nat) (word longer : String), (ofList words).words[i]? = some word →
        (ofList words).words[j]? = some longer → word.toList <+: longer.toList →
          word ≠ longer → j < i := by
  have hpairwise := pairwise_before_ofList words
  refine ⟨hpairwise, isSorted_ofList words, nodup_words_ofList words, fun word => mem_words_ofList,
    fun others => ofList_eq_iff, ?_, fun sorted => ofList_eq_destutter,
    fun i j word longer hi hj hfront hne => ?_⟩
  · refine ofList_eq_mk hpairwise fun word => ?_
    exact (and_iff_left_of_imp fun hm => (mem_words_ofList.mp hm).2).symm
  · obtain ⟨hilt, rfl⟩ := List.getElem?_eq_some_iff.mp hi
    obtain ⟨hjlt, rfl⟩ := List.getElem?_eq_some_iff.mp hj
    rcases Nat.lt_trichotomy i j with hlt | rfl | hlt
    · have hbefore := List.pairwise_iff_getElem.mp hpairwise i j hilt hjlt hlt
      exact absurd (before_of_isPrefix hfront hne) (asymm_of Before hbefore)
    · exact absurd rfl hne
    · exact hlt

end Vocabulary

end DdlCatalog
