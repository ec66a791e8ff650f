namespace DdlCatalog.Text

def upper (s : String) : String :=
  String.ofList (s.toList.map Char.toUpper)

def sameLetters (a b : String) : Bool :=
  a.toList.map Char.toLower == b.toList.map Char.toLower

def startsWith (word text : List Char) : Bool :=
  text.take word.length == word

def startsWithLetters (word text : List Char) : Bool :=
  (text.take word.length).map Char.toLower == word.map Char.toLower

/-- How many characters stand before the first occurrence of `word`. -/
def find? (word : List Char) : List Char → Option Nat
  | [] => if word = [] then some 0 else none
  | c :: cs => if startsWith word (c :: cs) then some 0 else (find? word cs).map (· + 1)

theorem toList_upper (s : String) : (upper s).toList = s.toList.map Char.toUpper :=
  String.toList_ofList

theorem sameLetters_iff {a b : String} :
    sameLetters a b = true ↔ a.toList.map Char.toLower = b.toList.map Char.toLower := by
  simp [sameLetters]

theorem sameLetters_self (a : String) : sameLetters a a = true :=
  sameLetters_iff.mpr rfl

theorem startsWith_iff {word text : List Char} :
    startsWith word text = true ↔ ∃ rest, text = word ++ rest := by
  rw [startsWith, beq_iff_eq]
  constructor
  · intro h
    exact ⟨text.drop word.length, by rw [← h, List.length_take, List.take_eq_take_min]; simp⟩
  · rintro ⟨rest, rfl⟩
    simp

theorem startsWithLetters_of_startsWith {word text : List Char} (h : startsWith word text = true) :
    startsWithLetters word text = true := by
  simp_all [startsWith, startsWithLetters]

end DdlCatalog.Text
