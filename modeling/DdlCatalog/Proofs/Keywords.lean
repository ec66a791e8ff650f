import DdlCatalog.Proofs.LetterCase
import DdlCatalog.Proofs.LexicalSteps

namespace DdlCatalog

namespace Vocabulary

theorem precedes_iff {a b : String} :
    precedes a b = true ↔ wordSize b < wordSize a ∨ wordSize a = wordSize b ∧ a < b := by
  simp [precedes]

theorem not_precedes_self (a : String) : ¬precedes a a = true := by
  intro h
  rcases precedes_iff.mp h with h | ⟨_, h⟩
  · exact Nat.lt_irrefl _ h
  · exact String.lt_irrefl a h

theorem precedes_trans {a b c : String} (hab : precedes a b = true) (hbc : precedes b c = true) :
    precedes a c = true := by
  rw [precedes_iff] at hab hbc ⊢
  rcases hab with hab | ⟨hab, hlt⟩ <;> rcases hbc with hbc | ⟨hbc, hlt'⟩
  · exact .inl (by omega)
  · exact .inl (by omega)
  · exact .inl (by omega)
  · exact .inr ⟨by omega, String.lt_trans hlt hlt'⟩

theorem precedes_total (a b : String) : a = b ∨ precedes a b = true ∨ precedes b a = true := by
  rw [precedes_iff, precedes_iff]
  by_cases hsize : wordSize a = wordSize b
  · by_cases hab : a < b
    · exact .inr (.inl (.inr ⟨hsize, hab⟩))
    · by_cases hba : b < a
      · exact .inr (.inr (.inr ⟨hsize.symm, hba⟩))
      · exact .inl (String.le_antisymm (String.not_lt.mp hba) (String.not_lt.mp hab))
  · exact .inr (by omega)

theorem mem_words_ofList {words : List String} {word : String} :
    word ∈ (ofList words).words ↔ word ∈ words ∧ word ≠ "" := by
  simp [ofList, List.mem_eraseDups]

theorem pairwise_words_ofList (words : List String) :
    (ofList words).words.Pairwise fun a b => precedes a b = true ∨ a = b := by
  have htrans : ∀ a b c : String, (precedes a b || a == b) = true →
      (precedes b c || b == c) = true → (precedes a c || a == c) = true := by
    intro a b c hab hbc
    simp only [Bool.or_eq_true, beq_iff_eq] at hab hbc ⊢
    rcases hab with hab | rfl
    · rcases hbc with hbc | rfl
      · exact .inl (precedes_trans hab hbc)
      · exact .inl hab
    · exact hbc
  have htotal : ∀ a b : String,
      ((precedes a b || a == b) || (precedes b a || b == a)) = true := by
    intro a b
    simp only [Bool.or_eq_true, beq_iff_eq]
    rcases precedes_total a b with h | h | h
    · exact .inl (.inr h)
    · exact .inl (.inl h)
    · exact .inr (.inl h)
  have hsorted := List.pairwise_mergeSort htrans htotal (words.filter (· != "")).eraseDups
  simpa [ofList] using hsorted

theorem find?_eq_some_of_precedes {words : List String}
    (hsorted : words.Pairwise fun a b => precedes a b = true ∨ a = b) {test : String → Bool}
    {word : String} (hm : word ∈ words) (ht : test word = true)
    (hall : ∀ other ∈ words, test other = true → other = word ∨ precedes word other = true) :
    words.find? test = some word := by
  obtain ⟨front, back, rfl, hnot⟩ := List.eq_append_cons_of_mem hm
  refine List.find?_eq_some_iff_append.mpr ⟨ht, front, back, rfl, fun other ho => ?_⟩
  have hbefore := (List.pairwise_append.mp hsorted).2.2 other ho word List.mem_cons_self
  rw [Bool.not_eq_true', Bool.eq_false_iff]
  intro hother
  have hne : other ≠ word := fun h => hnot (h ▸ ho)
  rcases hall other (List.mem_append_left _ ho) hother with h | hafter
  · exact hne h
  · rcases hbefore with hbefore | h
    · exact not_precedes_self other (precedes_trans hbefore hafter)
    · exact hne h

def wordChars : List Char :=
  "abcdefghijklmnopqrstuvwxyz0123456789_".toList

def capitals : List Char :=
  "ABCDEFGHIJKLMNOPQRSTUVWXYZ".toList

structure Capital (word : String) : Prop where
  first : word.toList.head?.any (capitals.contains ·) = true
  chars : ∀ c ∈ word.toList, c.toUpper = c ∧ c.toLower ∈ wordChars
  size : wordSize word = word.toList.length

theorem capital_of_mem {word : String} (h : word ∈ oracle.words) : Capital word := by
  have hall : ∀ word ∈ statementWords ++ privilegeWords ++ typeWords ++ columnWords ++ storageWords,
      word.toList.head?.any (capitals.contains ·) = true ∧
        word.toList.all (fun c => c.toUpper == c && wordChars.contains c.toLower) = true ∧
        wordSize word = word.toList.length := by
    decide +kernel
  obtain ⟨hfirst, hchars, hsize⟩ := hall word (mem_words_ofList.mp h).1
  refine ⟨hfirst, fun c hc => ?_, hsize⟩
  simpa using List.all_eq_true.mp hchars c hc

theorem Capital.upper {word : String} (h : Capital word) : Text.upper word = word := by
  have hmap : word.toList.map Char.toUpper = word.toList.map id :=
    List.map_congr_left fun c hc => (h.chars c hc).1
  rw [Text.upper, hmap, List.map_id, String.ofList_toList]

open Recognizer

/-- No keyword goes on with what follows. -/
def Ends (rest : List Char) : Prop :=
  ∀ c ∈ rest.head?, c.toLower ∉ wordChars

theorem length_le_of_startsWithLetters {word other : String} {rest : List Char}
    (ho : Capital other) (hr : Ends rest)
    (h : Text.startsWithLetters other.toList (word.toList ++ rest) = true) :
    other.toList.length ≤ word.toList.length := by
  by_contra hlong
  rw [Text.startsWithLetters, beq_iff_eq] at h
  have hlength := congrArg List.length h
  cases rest with
  | nil =>
    rw [List.append_nil, List.length_map, List.length_map, List.length_take] at hlength
    omega
  | cons c cs =>
    have hin : c ∈ (word.toList ++ c :: cs).take other.toList.length := by
      rw [List.take_append, List.mem_append]
      obtain ⟨n, hn⟩ : ∃ n, other.toList.length - word.toList.length = n + 1 :=
        ⟨other.toList.length - word.toList.length - 1, by omega⟩
      rw [hn, List.take_succ_cons]
      exact .inr List.mem_cons_self
    have hlower := List.mem_map_of_mem (f := Char.toLower) hin
    rw [h] at hlower
    obtain ⟨d, hd, hsame⟩ := List.mem_map.mp hlower
    exact hr c rfl (hsame ▸ (ho.chars d hd).2)

theorem find?_oracle {word : String} (hw : word ∈ oracle.words) {rest : List Char}
    (hr : Ends rest) :
    oracle.words.find? (atFront · true (word.toList ++ rest)) = some word := by
  have hcapital := capital_of_mem hw
  have hne : ∀ other ∈ oracle.words, (other != "") = true := fun other ho =>
    bne_iff_ne.mpr (mem_words_ofList.mp ho).2
  refine find?_eq_some_of_precedes (pairwise_words_ofList _) hw ?_ fun other ho hfront => ?_
  · have hstart : Text.startsWith word.toList (word.toList ++ rest) = true :=
      Text.startsWith_iff.mpr ⟨rest, rfl⟩
    simp [atFront, hne word hw, Text.startsWithLetters_of_startsWith hstart]
  · have hletters : Text.startsWithLetters other.toList (word.toList ++ rest) = true := by
      simpa [atFront, hne other ho] using hfront
    have hother := capital_of_mem ho
    have hle := length_le_of_startsWithLetters hother hr hletters
    rw [precedes_iff, hcapital.size, hother.size]
    rcases Nat.lt_or_eq_of_le hle with hlt | heq
    · exact .inr (.inl hlt)
    · left
      rw [Text.startsWithLetters, heq, List.take_left, beq_iff_eq] at hletters
      have hsame : Text.sameLetters other word = true := Text.sameLetters_iff.mpr hletters.symm
      rw [← hother.upper, ← hcapital.upper, Text.upper_eq_upper_iff]
      exact hsame

end Vocabulary

theorem Cuts.word {word : String} (hw : word ∈ Vocabulary.oracle.words) {rest : List Char}
    (hr : Vocabulary.Ends rest) : Cuts .oracle .keyword word.toList word.toList rest := by
  have hcapital := (Vocabulary.capital_of_mem hw).first
  have hfind : Recognizer.anyWord Vocabulary.oracle.words true (word.toList ++ rest) =
      .ok ⟨word.toList.length, 0⟩ := by
    rw [Recognizer.anyWord, Vocabulary.find?_oracle hw hr]
  cases hword : word.toList with
  | nil => simp [hword] at hcapital
  | cons c cs =>
    have hc : c ∈ Vocabulary.capitals := by simpa [hword] using hcapital
    rw [hword] at hfind
    have hfirst := LexicalRule.not_mem_openers 9 (by decide) hc
    exact of_rule 9 rfl hfirst (by omega) hfind rfl (content_plain _ _)

theorem Cuts.word_blank {word : String} (hw : word ∈ Vocabulary.oracle.words) (rest : List Char) :
    Cuts .oracle .keyword word.toList word.toList (' ' :: rest) :=
  Cuts.word hw (by rintro _ ⟨rfl⟩; decide)

end DdlCatalog
