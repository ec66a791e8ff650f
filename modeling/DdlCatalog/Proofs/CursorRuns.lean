import DdlCatalog.Proofs.SteadyReaders
import Mathlib.Data.List.TakeWhile

namespace DdlCatalog

namespace TokenReader

variable {α β : Type}

structure Stays (read : TokenReader α) : Prop where
  looks : Looks read
  fails : ∀ ⦃cursor e after⦄, read cursor = .error e after → after = cursor

theorem stays_pure (a : α) : Stays (pure a : TokenReader α) :=
  ⟨looks_pure a, nofun⟩

theorem stays_fail (obstacle : Obstacle) : Stays (fail obstacle : TokenReader α) where
  looks := looks_fail obstacle
  fails := by
    intro cursor e after h
    cases h
    rfl

theorem stays_peek : Stays peek where
  looks := looks_peek
  fails := by
    intro cursor e after h
    unfold peek at h
    split at h
    next => cases h; rfl
    next => cases h

theorem stays_peekMany (n : Nat) : Stays (peekMany n) where
  looks := fun _ _ _ h => (peekMany_eq_ok h).1.symm
  fails := by
    intro cursor e after h
    unfold peekMany at h
    split at h
    next => cases h
    next => cases h; rfl

theorem stays_lookahead (n : Nat) : Stays (lookahead n) where
  looks := by
    intro cursor a after h
    cases h
    rfl
  fails := nofun

theorem stays_sees (test : Token → Bool) : Stays (sees test) where
  looks := by
    intro cursor a after h
    cases h
    rfl
  fails := nofun

theorem Stays.bind {read : TokenReader α} {follow : α → TokenReader β} (hr : Stays read)
    (hf : ∀ a, Stays (follow a)) : Stays (read >>= follow) where
  looks := hr.looks.bind fun a => (hf a).looks
  fails := by
    intro cursor e after h
    obtain hread | ⟨a, middle, hread, h⟩ := bind_eq_error h
    · exact hr.fails hread
    · exact ((hf a).fails h).trans (hr.looks hread)

theorem Stays.map {read : TokenReader α} (h : Stays read) (f : α → β) : Stays (f <$> read) :=
  Stays.bind h fun a => stays_pure (f a)

theorem stays_question (ask : Token → Bool) :
    Stays (peek >>= fun token => pure (ask token)) :=
  stays_peek.bind fun _ => stays_pure _

theorem stays_tokensBefore (kind : Token.Kind) (text : String) (limit : Nat) :
    Stays (tokensBefore kind text limit) := by
  refine (stays_lookahead limit).bind fun window => ?_
  split
  · exact stays_pure _
  · exact stays_fail _

theorem manyWhile_next (test : Token → Bool) (cursor : Cursor) :
    manyWhile test next consumes_next cursor =
      .ok (cursor.rest.takeWhile test) (cursor.moved (cursor.rest.takeWhile test).length) := by
  obtain ⟨index, rest⟩ := cursor
  induction rest generalizing index with
  | nil => exact manyWhile_of_not_sees rfl
  | cons token rest ih =>
    cases ht : test token with
    | false =>
      have hsees : Cursor.sees ⟨index, token :: rest⟩ test = false := ht
      rw [manyWhile_of_not_sees hsees, List.takeWhile_cons_of_neg (by simp [ht])]
      rfl
    | true =>
      have hsees : Cursor.sees ⟨index, token :: rest⟩ test = true := ht
      have hnext : next ⟨index, token :: rest⟩ = .ok token ⟨index + 1, rest⟩ := rfl
      rw [manyWhile_of_read hsees hnext, map_of_ok (ih _), List.takeWhile_cons_of_pos ht]
      simp [Cursor.moved, Nat.add_comm, Nat.add_left_comm]

theorem ignoreRun_eq (kind : Token.Kind) (cursor : Cursor) :
    ignoreRun kind cursor =
      let run := cursor.rest.takeWhile (·.kind == kind)
      .ok run.length (cursor.moved run.length) :=
  map_of_ok (manyWhile_next (·.kind == kind) cursor) List.length

end TokenReader

namespace Cursor

/-- What can be asked of a cursor or done with it. To advance it by one token is to skip one. -/
inductive Operation where
  | peek
  | peekMany (n : Nat)
  | lookahead (n : Nat)
  | hasKind (kind : Token.Kind)
  | hasKindIn (kinds : List Token.Kind)
  | hasText (kind : Token.Kind) (text : String) (anyCase : Bool)
  | seesText (kind : Token.Kind) (text : String)
  | skip (n : Nat)
  | next
  | ignoreKind (kind : Token.Kind)
  | ignoreText (kind : Token.Kind) (text : String)
  | ignoreRun (kind : Token.Kind)
  | tokensBefore (kind : Token.Kind) (text : String) (limit : Nat)

inductive Answer where
  | done
  | holds (yes : Bool)
  | count (n : Nat)
  | token (token : Token)
  | tokens (tokens : List Token)

namespace Operation

def read : Operation → TokenReader Answer
  | peek => .token <$> TokenReader.peek
  | peekMany n => .tokens <$> TokenReader.peekMany n
  | lookahead n => .tokens <$> TokenReader.lookahead n
  | hasKind kind => .holds <$> TokenReader.hasKind kind
  | hasKindIn kinds => .holds <$> TokenReader.hasKindIn kinds
  | hasText kind text anyCase => .holds <$> TokenReader.hasText kind text anyCase
  | seesText kind text => .holds <$> TokenReader.sees (·.is kind text)
  | skip n => (fun _ => .done) <$> TokenReader.skip n
  | next => .token <$> TokenReader.next
  | ignoreKind kind => .holds <$> TokenReader.ignoreKind kind
  | ignoreText kind text => .holds <$> TokenReader.ignoreText kind text
  | ignoreRun kind => .count <$> TokenReader.ignoreRun kind
  | tokensBefore kind text limit => .tokens <$> TokenReader.tokensBefore kind text limit

end Operation

/-- What an operation answers, or on what it fails, and where it leaves the cursor. -/
def perform (cursor : Cursor) (operation : Operation) : Except Obstacle Answer × Cursor :=
  match operation.read cursor with
  | .ok answer after => (.ok answer, after)
  | .error e after => (.error e.obstacle, after)

def performAll (cursor : Cursor) (operations : List Operation) : Cursor :=
  operations.foldl (fun reached operation => (reached.perform operation).2) cursor

/-- An operation failed, or the answer is no. -/
def Refused : Except Obstacle Answer → Prop
  | .error _ => True
  | .ok answer => answer = .holds false

variable {cursor : Cursor} {operation : Operation} {tokens : List Token}

theorem perform_of_stays (h : TokenReader.Stays operation.read) :
    (cursor.perform operation).2 = cursor := by
  unfold perform
  split
  next hread => exact h.looks hread
  next hread => exact h.fails hread

section

variable {α : Type} {read : TokenReader α} {f : α → Answer}

theorem perform_of_ok {a : α} {after : Cursor} (ho : operation.read = f <$> read)
    (hr : read cursor = .ok a after) : cursor.perform operation = (.ok (f a), after) := by
  rw [perform, ho, TokenReader.map_of_ok hr]

theorem perform_of_error {e : ParseError} {after : Cursor} (ho : operation.read = f <$> read)
    (hr : read cursor = .error e after) :
    cursor.perform operation = (.error e.obstacle, after) := by
  rw [perform, ho, TokenReader.map_of_error hr]

end

theorem perform_peek (cursor : Cursor) :
    cursor.perform .peek =
      match cursor.rest.head? with
      | some token => (.ok (.token token), cursor)
      | none => (.error (.endOfTokens 1), cursor) := by
  obtain ⟨index, _ | ⟨token, rest⟩⟩ := cursor <;> rfl

theorem perform_next (cursor : Cursor) :
    cursor.perform .next =
      match cursor.rest.head? with
      | some token => (.ok (.token token), cursor.moved 1)
      | none => (.error (.endOfTokens 1), cursor) := by
  obtain ⟨index, _ | ⟨token, rest⟩⟩ := cursor <;> rfl

theorem perform_skip (cursor : Cursor) (n : Nat) :
    cursor.perform (.skip n) =
      if n ≤ cursor.available then (.ok .done, cursor.moved n)
      else (.error (.endOfTokens n), cursor) := by
  have ho : (Operation.skip n).read = (fun _ => .done) <$> TokenReader.skip n := rfl
  split
  next hn =>
    have hskip : TokenReader.skip n cursor = .ok () (cursor.moved n) := if_pos (has_iff.mpr hn)
    exact perform_of_ok ho hskip
  next hn =>
    have hskip : TokenReader.skip n cursor = .error ⟨.endOfTokens n, [], cursor⟩ cursor :=
      if_neg (has_iff.not.mpr hn)
    exact perform_of_error ho hskip

theorem perform_peekMany (cursor : Cursor) (n : Nat) :
    cursor.perform (.peekMany n) =
      if n ≤ cursor.available then (.ok (.tokens (cursor.upTo n)), cursor)
      else (.error (.endOfTokens n), cursor) := by
  split
  next hn =>
    have hpeek : TokenReader.peekMany n cursor = .ok (cursor.upTo n) cursor :=
      if_pos (has_iff.mpr hn)
    exact perform_of_ok rfl hpeek
  next hn =>
    have hpeek : TokenReader.peekMany n cursor = .error ⟨.endOfTokens n, [], cursor⟩ cursor :=
      if_neg (has_iff.not.mpr hn)
    exact perform_of_error rfl hpeek

theorem rest_moved_takeWhile (cursor : Cursor) (test : Token → Bool) :
    (cursor.moved (cursor.rest.takeWhile test).length).rest = cursor.rest.dropWhile test := by
  have hall := List.takeWhile_append_dropWhile (p := test) (l := cursor.rest)
  calc cursor.rest.drop (cursor.rest.takeWhile test).length
      = (cursor.rest.takeWhile test ++ cursor.rest.dropWhile test).drop
          (cursor.rest.takeWhile test).length := by rw [hall]
    _ = cursor.rest.dropWhile test := List.drop_left

theorem perform_ignoreRun (cursor : Cursor) (kind : Token.Kind) :
    cursor.perform (.ignoreRun kind) =
      let run := cursor.rest.takeWhile (·.kind == kind)
      (.ok (.count run.length), cursor.moved run.length) :=
  perform_of_ok rfl (TokenReader.ignoreRun_eq kind cursor)

theorem perform_ignoreIf {test : Token → Bool}
    (ho : operation.read = .holds <$> TokenReader.ignoreIf test) :
    cursor.perform operation =
      (.ok (.holds (cursor.sees test)), if cursor.sees test then cursor.moved 1 else cursor) := by
  cases hs : cursor.sees test with
  | true =>
    obtain ⟨index, _ | ⟨token, rest⟩⟩ := cursor
    · cases hs
    · refine perform_of_ok ho ?_
      change (if Cursor.sees _ test then _ else _ : TokenReader Bool) _ = _
      rw [hs]
      rfl
  | false =>
    refine perform_of_ok ho ?_
    change (if cursor.sees test then _ else _ : TokenReader Bool) _ = _
    rw [hs]
    rfl

theorem perform_moves (cursor : Cursor) (operation : Operation) :
    ∃ n ≤ cursor.available, (cursor.perform operation).2 = cursor.moved n ∧
      (Refused (cursor.perform operation).1 → n = 0) := by
  have hstays : TokenReader.Stays operation.read → ∃ n ≤ cursor.available,
      (cursor.perform operation).2 = cursor.moved n ∧
        (Refused (cursor.perform operation).1 → n = 0) := fun h =>
    ⟨0, Nat.zero_le _, perform_of_stays h, fun _ => rfl⟩
  have haccepted : ∀ {answer : Answer} {n : Nat}, answer ≠ .holds false →
      Refused (.ok answer) → n = 0 := fun hne hr => absurd hr hne
  have hone : ∀ {test}, cursor.sees test = true → 1 ≤ cursor.available := by
    intro test hs
    obtain ⟨index, _ | ⟨token, rest⟩⟩ := cursor
    · cases hs
    · exact Nat.succ_le_succ (Nat.zero_le _)
  have hignore : ∀ {test}, operation.read = .holds <$> TokenReader.ignoreIf test →
      ∃ n ≤ cursor.available, (cursor.perform operation).2 = cursor.moved n ∧
        (Refused (cursor.perform operation).1 → n = 0) := by
    intro test ho
    rw [perform_ignoreIf ho]
    cases hs : cursor.sees test with
    | true => exact ⟨1, hone hs, rfl, haccepted (by simp)⟩
    | false => exact ⟨0, Nat.zero_le _, rfl, fun _ => rfl⟩
  cases operation with
  | peek => exact hstays (TokenReader.stays_peek.map _)
  | peekMany n => exact hstays ((TokenReader.stays_peekMany n).map _)
  | lookahead n => exact hstays ((TokenReader.stays_lookahead n).map _)
  | hasKind kind => exact hstays ((TokenReader.stays_question _).map _)
  | hasKindIn kinds => exact hstays ((TokenReader.stays_question _).map _)
  | hasText kind text anyCase => exact hstays ((TokenReader.stays_question _).map _)
  | seesText kind text => exact hstays ((TokenReader.stays_sees _).map _)
  | tokensBefore kind text limit =>
    exact hstays ((TokenReader.stays_tokensBefore kind text limit).map _)
  | ignoreKind kind => exact hignore rfl
  | ignoreText kind text => exact hignore rfl
  | skip n =>
    rw [perform_skip]
    split
    next hn => exact ⟨n, hn, rfl, haccepted (by simp)⟩
    next => exact ⟨0, Nat.zero_le _, rfl, fun _ => rfl⟩
  | next =>
    rw [perform_next]
    cases hr : cursor.rest with
    | nil => exact ⟨0, Nat.zero_le _, rfl, fun _ => rfl⟩
    | cons token rest => exact ⟨1, by simp [available, hr], rfl, haccepted (by simp)⟩
  | ignoreRun kind =>
    rw [perform_ignoreRun]
    exact ⟨_, (List.takeWhile_prefix _).length_le, rfl, haccepted (by simp)⟩

theorem perform_tokensBefore (cursor : Cursor) (kind : Token.Kind) (text : String) (limit : Nat) :
    cursor.perform (.tokensBefore kind text limit) =
      match (cursor.upTo limit).findIdx? (·.is kind text) with
      | some n => (.ok (.tokens ((cursor.upTo limit).take n)), cursor)
      | none => (.error (.unclosed text limit), cursor) := by
  have hread := TokenReader.tokensBefore_eq kind text limit cursor
  cases hn : (cursor.upTo limit).findIdx? (·.is kind text) with
  | some n =>
    rw [hn] at hread
    exact perform_of_ok rfl hread
  | none =>
    rw [hn] at hread
    exact perform_of_error rfl hread

theorem perform_tokensBefore_eq_ok_iff {kind : Token.Kind} {text : String} {limit : Nat}
    {found : List Token} :
    (cursor.perform (.tokensBefore kind text limit)).1 = .ok (.tokens found) ↔
      ∃ stop back, cursor.upTo limit = found ++ stop :: back ∧
        (∀ token ∈ found, token.is kind text = false) ∧ stop.is kind text = true := by
  rw [perform_tokensBefore]
  cases hn : (cursor.upTo limit).findIdx? (·.is kind text) with
  | some n =>
    obtain ⟨front, stop, back, hsplit, rfl, hfront, hstop⟩ := findIdx?_eq_some_iff_split.mp hn
    simp only [hsplit, List.take_left, Except.ok.injEq, Answer.tokens.injEq]
    constructor
    · rintro rfl
      exact ⟨stop, back, rfl, hfront, hstop⟩
    · rintro ⟨stop', back', hsplit', hfound, hstop'⟩
      have hn' := findIdx?_eq_some_iff_split.mpr ⟨found, stop', back', rfl, rfl, hfound, hstop'⟩
      rw [← hsplit', ← hsplit, hn, Option.some.injEq] at hn'
      exact (List.append_inj hsplit' hn').1
  | none =>
    refine ⟨nofun, ?_⟩
    rintro ⟨stop, back, hsplit, -, hstop⟩
    have hnone := List.findIdx?_eq_none_iff.mp hn stop (by simp [hsplit])
    rw [hstop] at hnone
    cases hnone

/-- The cursor has as many tokens of the list behind it as its index says, and all others ahead. -/
structure StandsIn (cursor : Cursor) (tokens : List Token) : Prop where
  total : cursor.index + cursor.available = tokens.length
  ahead : cursor.rest = tokens.drop cursor.index

theorem standsIn_start (tokens : List Token) : (start tokens).StandsIn tokens :=
  ⟨Nat.zero_add _, rfl⟩

theorem StandsIn.moved (h : cursor.StandsIn tokens) {n : Nat} (hn : n ≤ cursor.available) :
    (cursor.moved n).StandsIn tokens := by
  have htotal := h.total
  constructor
  · simp only [Cursor.moved, available, List.length_drop] at hn htotal ⊢
    omega
  · simp only [Cursor.moved, h.ahead, List.drop_drop]

theorem StandsIn.perform (h : cursor.StandsIn tokens) (operation : Operation) :
    (cursor.perform operation).2.StandsIn tokens := by
  obtain ⟨n, hn, hmoved, -⟩ := cursor.perform_moves operation
  rw [hmoved]
  exact h.moved hn

theorem StandsIn.performAll (h : cursor.StandsIn tokens) (operations : List Operation) :
    (cursor.performAll operations).StandsIn tokens := by
  induction operations generalizing cursor with
  | nil => exact h
  | cons operation operations ih => exact ih (h.perform operation)

/-- The sum of two words of 64 bits, or the largest word where the sum does not fit. -/
def saturatedSum (a b : UInt64) : UInt64 :=
  if a ≤ a + b then a + b else .ofNat (UInt64.size - 1)

theorem toNat_saturatedSum (a b : UInt64) :
    (saturatedSum a b).toNat = min (a.toNat + b.toNat) (UInt64.size - 1) := by
  have ha := a.toNat_lt
  have hb := b.toNat_lt
  have hsum := UInt64.toNat_add a b
  have hsize : UInt64.size = 18446744073709551616 := rfl
  unfold saturatedSum
  split
  next h =>
    rw [UInt64.le_iff_toNat_le] at h
    omega
  next h =>
    rw [UInt64.le_iff_toNat_le] at h
    rw [UInt64.toNat_ofNat_of_lt' (by decide)]
    omega

/-- Where a window of a text or list of some size ends that begins inside it, computed on words. -/
theorem toNat_min_saturatedSum {place size : Nat} (hp : place ≤ size) (hs : size < UInt64.size)
    (n : UInt64) :
    (min (saturatedSum (.ofNat place) n) (.ofNat size)).toNat = min (place + n.toNat) size := by
  have hplace : (UInt64.ofNat place).toNat = place := UInt64.toNat_ofNat_of_lt' (by omega)
  have hsize : (UInt64.ofNat size).toNat = size := UInt64.toNat_ofNat_of_lt' hs
  rw [UInt64.toNat_min, toNat_saturatedSum, hplace, hsize]
  omega

/-- Computed on words of 64 bits, what is ahead of a cursor, where it moves to and where a window
ends are the same numbers, however large the count. -/
structure FitsWords (cursor : Cursor) (tokens : List Token) : Prop where
  available : (UInt64.ofNat tokens.length - UInt64.ofNat cursor.index).toNat = cursor.available
  moved : ∀ n : UInt64, n.toNat ≤ cursor.available →
    (UInt64.ofNat cursor.index + n).toNat = (cursor.moved n.toNat).index
  window : ∀ n : UInt64,
    let stop := min (saturatedSum (.ofNat cursor.index) n) (.ofNat tokens.length)
    cursor.upTo n.toNat = (tokens.take stop.toNat).drop cursor.index

theorem StandsIn.fitsWords (h : cursor.StandsIn tokens) (hl : tokens.length < UInt64.size) :
    cursor.FitsWords tokens := by
  have htotal := h.total
  have hsize : UInt64.size = 18446744073709551616 := rfl
  have hlength : (UInt64.ofNat tokens.length).toNat = tokens.length :=
    UInt64.toNat_ofNat_of_lt' hl
  have hindex : (UInt64.ofNat cursor.index).toNat = cursor.index :=
    UInt64.toNat_ofNat_of_lt' (by rw [UInt64.size]; omega)
  constructor
  · rw [UInt64.toNat_sub_of_le, hlength, hindex]
    · omega
    · rw [UInt64.le_iff_toNat_le, hlength, hindex]
      omega
  · intro n hn
    rw [UInt64.toNat_add, hindex]
    exact Nat.mod_eq_of_lt (by omega)
  · intro n stop
    have hstop : stop.toNat = min (cursor.index + n.toNat) tokens.length :=
      toNat_min_saturatedSum (by omega) hl n
    rw [hstop, List.drop_take, upTo, h.ahead]
    have hn : min (cursor.index + n.toNat) tokens.length - cursor.index =
        min n.toNat cursor.available := by
      omega
    have hdrop : (tokens.drop cursor.index).length = cursor.available := by
      rw [← h.ahead, Cursor.available]
    rw [hn, ← hdrop, ← List.take_eq_take_min]

/-- Whatever is asked of a cursor or done with it, in whatever order and with whatever counts: it
stands in its list, and words of 64 bits are enough for it. The next operation does not take it back
and leaves it where it is when it fails or is answered with no. A count of tokens is passed over or
shown just when so many are ahead, a run is passed over whole, and the search for a text answers
with the tokens before the first one in the window that shows it. -/
theorem performAll_standsIn (tokens : List Token) (operations : List Operation) :
    let reached := (start tokens).performAll operations
    reached.StandsIn tokens ∧ (tokens.length < UInt64.size → reached.FitsWords tokens) ∧
    (∀ operation, reached.index ≤ (reached.perform operation).2.index ∧
      (reached.perform operation).2.StandsIn tokens ∧
      (Refused (reached.perform operation).1 → (reached.perform operation).2 = reached)) ∧
    (∀ token, (reached.perform .peek).1 = .ok (.token token) ↔
      tokens[reached.index]? = some token) ∧
    (∀ n, reached.perform (.skip n) =
      if n ≤ reached.available then (.ok .done, reached.moved n)
      else (.error (.endOfTokens n), reached)) ∧
    (∀ n, reached.perform (.peekMany n) =
      if n ≤ reached.available then (.ok (.tokens (reached.upTo n)), reached)
      else (.error (.endOfTokens n), reached)) ∧
    (∀ kind, ∃ n ≤ reached.available,
      reached.perform (.ignoreRun kind) = (.ok (.count n), reached.moved n) ∧
      (∀ token ∈ reached.upTo n, token.kind = kind) ∧
      ∀ token ∈ (reached.moved n).rest.head?, token.kind ≠ kind) ∧
    ∀ kind text limit,
      (reached.perform (.tokensBefore kind text limit)).2 = reached ∧
      (∀ found, (reached.perform (.tokensBefore kind text limit)).1 = .ok (.tokens found) ↔
        ∃ stop back, reached.upTo limit = found ++ stop :: back ∧
          (∀ token ∈ found, token.is kind text = false) ∧ stop.is kind text = true) ∧
      ((∃ answer, (reached.perform (.tokensBefore kind text limit)).1 = .ok answer) ↔
        ∃ token ∈ reached.rest.take (min limit reached.available), token.is kind text = true) := by
  intro reached
  have hstands : reached.StandsIn tokens := (standsIn_start tokens).performAll operations
  refine ⟨hstands, hstands.fitsWords, fun operation => ?_, fun token => ?_, perform_skip reached,
    perform_peekMany reached, fun kind => ?_, fun kind text limit => ⟨?_, ?_, ?_⟩⟩
  · obtain ⟨n, hn, hmoved, hrefused⟩ := reached.perform_moves operation
    refine ⟨?_, hstands.perform operation, fun h => ?_⟩
    · rw [hmoved]
      exact Nat.le_add_right _ _
    · rw [hmoved, hrefused h]
      rfl
  · rw [perform_peek, ← List.head?_drop, ← hstands.ahead]
    cases reached.rest.head? <;> simp
  · refine ⟨_, (List.takeWhile_prefix _).length_le, perform_ignoreRun reached kind, ?_, ?_⟩
    · intro token hm
      rw [upTo, ← List.prefix_iff_eq_take.mp (List.takeWhile_prefix _)] at hm
      simpa using List.mem_takeWhile_imp hm
    · intro token hm
      rw [rest_moved_takeWhile] at hm
      have hstop := List.head?_dropWhile_not (·.kind == kind) reached.rest
      rw [Option.mem_def.mp hm] at hstop
      simpa using hstop
  · exact perform_of_stays ((TokenReader.stays_tokensBefore kind text limit).map _)
  · exact fun found => perform_tokensBefore_eq_ok_iff
  · rw [perform_tokensBefore, available, ← List.take_eq_take_min, ← List.any_eq_true,
      ← List.findIdx?_isSome, upTo]
    cases (reached.rest.take limit).findIdx? (·.is kind text) <;> simp

end Cursor

end DdlCatalog
