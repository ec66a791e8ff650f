import DdlCatalog.Proofs.MunchedPlaces
import Mathlib.Data.Finset.Dedup

namespace DdlCatalog

namespace Vocabulary

/-- The words of a list without their letter case; the empty word is none. -/
def keywords (words : List String) : Finset (List Char) :=
  ((words.filter (· ≠ "")).map fun word => word.toList.map Char.toLower).toFinset

theorem mem_keywords_iff {words : List String} {text : List Char} :
    text.map Char.toLower ∈ keywords words ↔ Token.Kind.keyword.Lexeme words text := by
  simp only [keywords, List.mem_toFinset, List.mem_map, List.mem_filter, decide_eq_true_eq,
    Token.Kind.Lexeme, Text.sameLetters_iff, String.toList_ofList, and_assoc]
  exact exists_congr fun word => and_congr_right fun _ => and_congr_right fun _ => eq_comm

end Vocabulary

namespace Recognizer

theorem exists_anyWord_eq_ok (words : List String) (anyCase : Bool) (text : List Char) :
    ∃ extent, anyWord words anyCase text = .ok extent := by
  unfold anyWord
  split <;> exact ⟨_, rfl⟩

variable {words others : List String} {text : List Char} {extent other : Extent}

/-- With more keywords to choose from, no shorter one is found. -/
theorem length_le_of_anyWord_ofList
    (h : ∀ front, Token.Kind.keyword.Lexeme words front → Token.Kind.keyword.Lexeme others front)
    (he : anyWord (Vocabulary.ofList words).words true text = .ok extent)
    (ho : anyWord (Vocabulary.ofList others).words true text = .ok other) :
    extent.length ≤ other.length := by
  have hfits : extent.length ≤ text.length := fits_anyWord _ _ he
  have hlength : (extent.span text).length = extent.length := by
    rw [Extent.span, List.length_take]
    omega
  by_cases hs : extent.span text = []
  · rw [hs, List.length_nil] at hlength
    omega
  · obtain ⟨hword, -⟩ := anyWord_ofList_eq_ok he hs
    have hfront : extent.span text <+: text := List.take_prefix _ _
    have hlisted := h _ hword
    have hfound : other.span text ≠ [] := fun hnone =>
      Passes.anyWord ⟨other, ho, hnone⟩ hfront hlisted
    obtain ⟨word, hm, hne, hsame⟩ := hlisted
    have hle := (anyWord_ofList_eq_ok ho hfound).2 _ hfront word hm hne hsame
    rw [hlength] at hle
    exact hle.trans (List.length_take_le _ _)

theorem anyWord_ofList_eq (h : Vocabulary.keywords words = Vocabulary.keywords others) :
    anyWord (Vocabulary.ofList words).words true =
      anyWord (Vocabulary.ofList others).words true := by
  have hlexeme : ∀ front, Token.Kind.keyword.Lexeme words front ↔
      Token.Kind.keyword.Lexeme others front := fun front => by
    rw [← Vocabulary.mem_keywords_iff, h, Vocabulary.mem_keywords_iff]
  funext text
  obtain ⟨extent, he⟩ := exists_anyWord_eq_ok (Vocabulary.ofList words).words true text
  obtain ⟨other, ho⟩ := exists_anyWord_eq_ok (Vocabulary.ofList others).words true text
  have hle := length_le_of_anyWord_ofList (fun front => (hlexeme front).mp) he ho
  have hge := length_le_of_anyWord_ofList (fun front => (hlexeme front).mpr) ho he
  have hmargin : extent.margin = other.margin :=
    (plain_anyWord _ _ he).trans (plain_anyWord _ _ ho).symm
  obtain ⟨length, margin⟩ := extent
  obtain ⟨length', margin'⟩ := other
  simp only at hle hge hmargin
  rw [he, ho, hmargin, Nat.le_antisymm hle hge]

end Recognizer

/-- Lists of the same keywords cut every script into the same tokens, or find the same fault in
it. -/
theorem tokenizeWith_eq_of_keywords_eq {words others : List String}
    (h : Vocabulary.keywords words = Vocabulary.keywords others) (source : String) :
    tokenizeWith (.ofList words) source = tokenizeWith (.ofList others) source := by
  have hrules : LexicalRule.all (.ofList words) = LexicalRule.all (.ofList others) := by
    rw [LexicalRule.all, LexicalRule.all, Recognizer.anyWord_ofList_eq h]
  rw [tokenizeWith, tokenizeWith, hrules]

/-- The tables of the two lists have different sizes, since words are told apart by their case
there. -/
theorem tokenizeWith_eq_of_keywords_eq_integer :
    let words := ["INT", "", "INTEGER", "INT"]
    let others := ["int", "integer", "Int"]
    Vocabulary.keywords words = Vocabulary.keywords others ∧
      (Vocabulary.ofList words).size = 2 ∧ (Vocabulary.ofList others).size = 3 ∧
      tokenizeWith (.ofList words) "Integer?" = tokenizeWith (.ofList others) "Integer?" := by
  intro words others
  have hsame : Vocabulary.keywords words = Vocabulary.keywords others := by decide
  have hsize : ∀ list : List String,
      (Vocabulary.ofList list).size = (list.filter (· != "")).eraseDups.length := fun list =>
    List.length_mergeSort _
  exact ⟨hsame, (hsize words).trans (by decide), (hsize others).trans (by decide),
    tokenizeWith_eq_of_keywords_eq hsame "Integer?"⟩

end DdlCatalog
