import DdlCatalog.Proofs.Syntax

namespace DdlCatalog

namespace Text

def doubled (quote : Char) (text : List Char) : List Char :=
  text.flatMap fun c => if c = quote then [quote, quote] else [c]

theorem doubled_append (quote : Char) (xs ys : List Char) :
    doubled quote (xs ++ ys) = doubled quote xs ++ doubled quote ys :=
  List.flatMap_append

theorem doubled_cons (quote c : Char) (cs : List Char) :
    doubled quote (c :: cs) =
      if c = quote then quote :: quote :: doubled quote cs else c :: doubled quote cs := by
  unfold doubled
  rw [List.flatMap_cons]
  split <;> rfl

theorem doubled_of_not_mem {quote : Char} {text : List Char} (h : quote ∉ text) :
    doubled quote text = text := by
  induction text with
  | nil => rfl
  | cons c cs ih =>
    have hc : c ≠ quote := fun he => h (he ▸ List.mem_cons_self)
    rw [doubled_cons, if_neg hc, ih fun hm => h (List.mem_cons_of_mem c hm)]

theorem doubled_injective (quote : Char) : Function.Injective (doubled quote) := by
  intro xs ys h
  induction xs generalizing ys with
  | nil =>
    cases ys with
    | nil => rfl
    | cons d ds =>
      rw [doubled_cons] at h
      split at h <;> cases h
  | cons c cs ih =>
    cases ys with
    | nil =>
      rw [doubled_cons] at h
      split at h <;> cases h
    | cons d ds =>
      rw [doubled_cons, doubled_cons] at h
      split at h
      next hc =>
        split at h
        next hd =>
          rw [hc, hd, ih (by simpa using h)]
        next hd => exact absurd (List.cons.inj h).1.symm hd
      next hc =>
        split at h
        next hd => exact absurd (List.cons.inj h).1 hc
        next hd =>
          obtain ⟨hhead, htail⟩ := List.cons.inj h
          rw [hhead, ih htail]

/-- A text between two quotes, with each quote of its own written twice. -/
def enclosed (quote : Char) (text : List Char) : List Char :=
  quote :: (doubled quote text ++ [quote])

theorem enclosed_of_not_mem {quote : Char} {text : List Char} (h : quote ∉ text) :
    enclosed quote text = quote :: (text ++ [quote]) := by
  rw [enclosed, doubled_of_not_mem h]

theorem enclosed_append_quote (quote : Char) (front back : List Char) :
    enclosed quote (front ++ quote :: back) = enclosed quote front ++ enclosed quote back := by
  simp [enclosed, doubled_append, doubled_cons]

theorem enclosed_injective (quote : Char) : Function.Injective (enclosed quote) := fun _ _ h =>
  doubled_injective quote (List.append_inj' (List.cons.inj h).2 rfl).1

end Text

namespace Token

open Syntax

theorem joined_cons_cons (first second : Token) (rest : List Token) (separator : String) :
    joined (first :: second :: rest) separator =
      first.content ++ separator ++ joined (second :: rest) separator := by
  simp [joined, String.intercalate_cons_cons]

theorem touching_cons_cons {first second : Token} {rest : List Token} :
    Touching (first :: second :: rest) ↔
      first.kind = .string ∧ first.stop = second.start ∧ Touching (second :: rest) := by
  simp only [Touching, List.forall_mem_cons, List.isChain_cons_cons]
  tauto

theorem touching_of_append {front back : List Token} (h : Touching (front ++ back)) :
    Touching front ∧ Touching back := by
  obtain ⟨hkind, hchain⟩ := h
  obtain ⟨hfront, hback, -⟩ := List.isChain_append.mp hchain
  exact ⟨⟨fun token hm => hkind token (List.mem_append_left back hm), hfront⟩,
    ⟨fun token hm => hkind token (List.mem_append_right front hm), hback⟩⟩

theorem literal?_cons_cons (first second : Token) (rest : List Token) :
    literal? (first :: second :: rest) =
      if first.kind = .string ∧ first.stop = second.start then
        (literal? (second :: rest)).map (first.content ++ "'" ++ ·)
      else none := by
  simp only [literal?, continued?]
  by_cases hf : first.kind = .string <;> by_cases hs : second.kind = .string <;>
    by_cases ht : second.start = first.stop <;>
    simp [hf, hs, ht, Function.comp_def, String.append_assoc, eq_comm]

theorem literal?_eq_some_iff {tokens : List Token} {text : String} :
    literal? tokens = some text ↔ tokens ≠ [] ∧ Touching tokens ∧ joined tokens "'" = text := by
  induction tokens generalizing text with
  | nil => simp [literal?]
  | cons first tokens ih =>
    cases tokens with
    | nil => simp [literal?, continued?, Touching, joined]
    | cons second rest =>
      rw [literal?_cons_cons, touching_cons_cons, joined_cons_cons]
      by_cases h : first.kind = .string ∧ first.stop = second.start
      · rw [if_pos h, Option.map_eq_some_iff]
        constructor
        · rintro ⟨tail, hl, rfl⟩
          obtain ⟨-, ht, rfl⟩ := ih.mp hl
          exact ⟨by simp, ⟨h.1, h.2, ht⟩, rfl⟩
        · rintro ⟨-, ⟨-, -, ht⟩, rfl⟩
          exact ⟨_, ih.mpr ⟨by simp, ht, rfl⟩, rfl⟩
      · rw [if_neg h]
        constructor
        · intro hn
          cases hn
        · rintro ⟨-, ⟨hf, hs, -⟩, -⟩
          exact absurd ⟨hf, hs⟩ h

theorem touchingFrom_le (stop : Nat) (tokens : List Token) :
    touchingFrom stop tokens ≤ tokens.length := by
  induction tokens generalizing stop with
  | nil => simp [touchingFrom]
  | cons token rest ih =>
    unfold touchingFrom
    split
    · have := ih token.stop
      simp only [List.length_cons]
      omega
    · omega

theorem touchingStrings_le (tokens : List Token) : touchingStrings tokens ≤ tokens.length := by
  cases tokens with
  | nil => simp [touchingStrings]
  | cons first rest =>
    have hle := touchingFrom_le first.stop rest
    simp only [touchingStrings, List.length_cons]
    split
    · omega
    · omega

theorem touchingStrings_cons_cons (first second : Token) (rest : List Token) :
    touchingStrings (first :: second :: rest) =
      if first.kind = .string then
        if second.kind = .string ∧ first.stop = second.start then
          touchingStrings (second :: rest) + 1
        else 1
      else 0 := by
  simp only [touchingStrings, touchingFrom]
  by_cases hf : first.kind = .string <;> by_cases hs : second.kind = .string <;>
    by_cases ht : second.start = first.stop <;> simp [hf, hs, ht, eq_comm]

theorem touchingStrings_cons_pos_iff {first : Token} {rest : List Token} :
    1 ≤ touchingStrings (first :: rest) ↔ first.kind = .string := by
  by_cases hf : first.kind = .string <;> simp [touchingStrings, hf]

/-- The tokens counted are those at the front that touch, and no more of them do. -/
theorem touching_take_iff {tokens : List Token} {n : Nat} (hn : n ≤ tokens.length) :
    Touching (tokens.take n) ↔ n ≤ touchingStrings tokens := by
  induction tokens generalizing n with
  | nil =>
    obtain rfl := Nat.le_zero.mp hn
    simp [Touching]
  | cons first tokens ih =>
    cases n with
    | zero => simp [Touching]
    | succ n =>
      cases tokens with
      | nil =>
        obtain rfl : n = 0 := by simpa using hn
        simp [touchingStrings_cons_pos_iff, Touching]
      | cons second rest =>
        cases n with
        | zero => simp [touchingStrings_cons_pos_iff, Touching]
        | succ n =>
          have hrest := ih (n := n + 1) (by simpa using hn)
          have hkind : n + 1 ≤ touchingStrings (second :: rest) → second.kind = .string := fun h =>
            touchingStrings_cons_pos_iff.mp (Nat.le_trans (Nat.le_add_left 1 n) h)
          rw [List.take_succ_cons] at hrest
          rw [List.take_succ_cons, List.take_succ_cons, touching_cons_cons, hrest,
            touchingStrings_cons_cons]
          split
          next hf =>
            split
            next hs => simp [hf, hs.2]
            next hs => exact ⟨fun h => absurd ⟨hkind h.2.2, h.2.1⟩ hs, fun h => by omega⟩
          next hf => simp [hf]

theorem touchingStrings_append {strings rest : List Token} (ht : Touching strings)
    (hr : rest.head?.any (·.kind == .string) = false) :
    touchingStrings (strings ++ rest) = strings.length := by
  have hle := touchingStrings_le (strings ++ rest)
  rw [List.length_append] at hle
  have hge : strings.length ≤ touchingStrings (strings ++ rest) :=
    (touching_take_iff (by simp)).mp (by rwa [List.take_left])
  cases rest with
  | nil => exact Nat.le_antisymm hle hge
  | cons token rest =>
    have hk : token.kind ≠ .string := by simpa using hr
    have hstop : ¬strings.length + 1 ≤ touchingStrings (strings ++ token :: rest) := by
      intro h
      have htaken := (touching_take_iff (by simp)).mpr h
      rw [List.take_length_add_append, List.take_succ_cons, List.take_zero] at htaken
      exact hk (htaken.1 token (by simp))
    omega

theorem touchingStrings_append_of_lt {tokens : List Token}
    (h : touchingStrings tokens < tokens.length) (more : List Token) :
    touchingStrings (tokens ++ more) = touchingStrings tokens := by
  have hlength : (tokens ++ more).length = tokens.length + more.length := List.length_append
  have hsame : ∀ n ≤ tokens.length,
      n ≤ touchingStrings (tokens ++ more) ↔ n ≤ touchingStrings tokens := by
    intro n hn
    rw [← touching_take_iff hn, ← touching_take_iff (by omega), List.take_append_of_le_length hn]
  have hnext := hsame (touchingStrings tokens + 1) h
  have hrun := hsame (touchingStrings tokens) (Nat.le_of_lt h)
  omega

theorem literal?_take_eq_some_iff {tokens : List Token} {n : Nat} (hn : n ≤ tokens.length)
    {text : String} : literal? (tokens.take n) = some text ↔
      (1 ≤ n ∧ n ≤ touchingStrings tokens) ∧ joined (tokens.take n) "'" = text := by
  have hne : tokens.take n ≠ [] ↔ 1 ≤ n := by
    rw [← List.length_pos_iff, List.length_take, Nat.min_eq_left hn, Nat.lt_iff_add_one_le]
  rw [literal?_eq_some_iff, hne, touching_take_iff hn, and_assoc]

end Token

end DdlCatalog
