import DdlCatalog.Proofs.ReaderOutcome
import Mathlib.Data.List.Chain

namespace DdlCatalog

namespace Cursor

/-- The other place is this one or lies ahead of it, at the end of the tokens at the latest. -/
def Reaches (cursor after : Cursor) : Prop :=
  ∃ n ≤ cursor.available, cursor.moved n = after

theorem Reaches.refl (cursor : Cursor) : cursor.Reaches cursor :=
  ⟨0, Nat.zero_le _, rfl⟩

theorem Reaches.trans {cursor middle after : Cursor} (h : cursor.Reaches middle)
    (h' : middle.Reaches after) : cursor.Reaches after := by
  obtain ⟨n, hn, rfl⟩ := h
  obtain ⟨m, hm, rfl⟩ := h'
  simp only [available, moved, List.length_drop] at hn hm
  refine ⟨n + m, ?_, ?_⟩
  · rw [available]
    omega
  · simp [moved, Nat.add_assoc]

theorem reaches_moved {cursor : Cursor} {n : Nat} (h : cursor.has n = true) :
    cursor.Reaches (cursor.moved n) :=
  ⟨n, has_iff.mp h, rfl⟩

end Cursor

namespace GrammarRule

/-- The rules that are read as parts of a rule. -/
def parts : GrammarRule → List GrammarRule
  | createStatement => [createTable]
  | createTable => [tableName, columnList, tableOptions]
  | columnList => [tableConstraint, columnDefinition]
  | columnDefinition => [columnType, columnDefault, columnConstraints]
  | _ => []

def roots : List GrammarRule :=
  [createStatement, grantStatement, commentStatement]

/-- What a rule asks for, apart from its parts. -/
def expectations : GrammarRule → List Expectation
  | createStatement => [.tableKeyword]
  | tableName => [.tableName, .qualifiedName]
  | columnList => [.token .symbol "(", .token .symbol ")"]
  | columnDefinition => [.columnName]
  | columnType =>
    [.columnType, .token .symbol ")", .token .keyword "TIME", .token .keyword "ZONE"]
  | columnDefault => [.stringDefault, .defaultValue]
  | columnConstraints => [.token .keyword "NULL", .token .keyword "KEY", .constraintName]
  | _ => []

/-- The ends that a rule looks out for, and how far. -/
def limits : GrammarRule → List (String × Nat)
  | grantStatement => [(";", 256)]
  | commentStatement => [(";", 256)]
  | tableConstraint => [(", or )", 256)]
  | columnType => [(")", 12)]
  | tableOptions => [(";", 256)]
  | _ => []

/-- The obstacles that a rule can meet, apart from its parts. -/
inductive Meets (rule : GrammarRule) : Obstacle → Prop
  | shortage (needed : Nat) : Meets rule (.endOfTokens needed)
  | unexpected {expected} : expected ∈ rule.expectations → Meets rule (.unexpected expected)
  | unclosed {terminator limit} : (terminator, limit) ∈ rule.limits →
      Meets rule (.unclosed terminator limit)
  | number (text : String) : rule = .columnType → Meets rule (.number text)

/-- The obstacles that stop a rule, with the parts that were at work, from the outermost inwards. -/
inductive Stops : GrammarRule → List GrammarRule → Obstacle → Prop
  | here {rule obstacle} : rule.Meets obstacle → Stops rule [] obstacle
  | inside {rule part rules obstacle} : part ∈ rule.parts → Stops part rules obstacle →
      Stops rule (part :: rules) obstacle

/-- What stops a script: a statement of another kind, or an obstacle within one. -/
inductive StopsScript : List GrammarRule → Obstacle → Prop
  | between : StopsScript [] (.unexpected .statement)
  | inside {root rules obstacle} : root ∈ roots → root.Stops rules obstacle →
      StopsScript (root :: rules) obstacle

theorem Stops.isChain {rule : GrammarRule} {rules : List GrammarRule} {obstacle : Obstacle}
    (h : rule.Stops rules obstacle) :
    (rule :: rules).IsChain fun outer inner => inner ∈ outer.parts := by
  induction h with
  | here => exact .singleton _
  | inside hpart _ ih => exact .cons_cons hpart ih

theorem Stops.exists_meets {rule : GrammarRule} {rules : List GrammarRule} {obstacle : Obstacle}
    (h : rule.Stops rules obstacle) :
    ∃ last : GrammarRule, (rule :: rules).getLast? = some last ∧ last.Meets obstacle := by
  induction h with
  | @here rule obstacle hmeets => exact ⟨rule, rfl, hmeets⟩
  | inside _ _ ih =>
    obtain ⟨last, hlast, hmeets⟩ := ih
    exact ⟨last, by rw [List.getLast?_cons_cons, hlast], hmeets⟩

end GrammarRule

/-- The obstacle was met at a place, and the cursor was still there whenever a rule was given up. -/
structure ParseError.IsAt (error : ParseError) (place : Cursor) : Prop where
  met : error.place = place
  left : ∀ entry ∈ error.contexts, entry.2 = place

namespace TokenReader

variable {α β : Type} {Allowed Inner : List GrammarRule → Obstacle → Prop}

/-- A reading from a place ends there or further on. Where it fails, it does so on what is allowed,
and leaves the cursor at the obstacle. -/
inductive Ends (Allowed : List GrammarRule → Obstacle → Prop) (cursor : Cursor) :
    EStateM.Result ParseError Cursor α → Prop
  | ok {a after} : cursor.Reaches after → Ends Allowed cursor (.ok a after)
  | error {e after} : cursor.Reaches after → e.IsAt after → Allowed e.rules e.obstacle →
      Ends Allowed cursor (.error e after)

theorem ends_error_self {obstacle : Obstacle} (cursor : Cursor) (h : Allowed [] obstacle) :
    Ends Allowed cursor (.error ⟨obstacle, [], cursor⟩ cursor : EStateM.Result _ _ α) :=
  .error (.refl cursor) ⟨rfl, nofun⟩ h

theorem Ends.of_reaches {cursor middle : Cursor} {outcome : EStateM.Result ParseError Cursor α}
    (h : Ends Allowed middle outcome) (hm : cursor.Reaches middle) :
    Ends Allowed cursor outcome := by
  cases h with
  | ok ha => exact .ok (hm.trans ha)
  | error ha hat hallowed => exact .error (hm.trans ha) hat hallowed

theorem Ends.bind {read : TokenReader α} {follow : α → TokenReader β} {cursor : Cursor}
    (h : Ends Allowed cursor (read cursor))
    (hf : ∀ a after, Ends Allowed after (follow a after)) :
    Ends Allowed cursor ((read >>= follow) cursor) := by
  generalize hread : read cursor = outcome at h
  cases h with
  | ok ha =>
    rw [bind_of_ok hread]
    exact (hf _ _).of_reaches ha
  | error ha hat hallowed =>
    rw [bind_of_error hread]
    exact .error ha hat hallowed

theorem Ends.map {read : TokenReader α} {cursor : Cursor} (h : Ends Allowed cursor (read cursor))
    (f : α → β) : Ends Allowed cursor ((f <$> read) cursor) := by
  change Ends Allowed cursor ((read >>= fun a => pure (f a)) cursor)
  exact h.bind fun _ after => .ok (.refl after)

theorem Ends.during {rule : GrammarRule} {read : TokenReader α} {cursor : Cursor}
    (h : Ends Inner cursor (read cursor))
    (hrule : ∀ rules obstacle, Inner rules obstacle → Allowed (rule :: rules) obstacle) :
    Ends Allowed cursor (during rule read cursor) := by
  unfold TokenReader.during
  generalize read cursor = outcome at h ⊢
  cases h with
  | ok ha => exact .ok ha
  | @error e after ha hat hinner =>
    refine .error ha ⟨hat.met, fun entry hm => ?_⟩ (hrule _ _ hinner)
    obtain rfl | hm := List.mem_cons.mp hm
    · rfl
    · exact hat.left entry hm

theorem ends_manyWhile {test : Token → Bool} {read : TokenReader α} {consumes : Consumes read}
    (h : ∀ cursor, cursor.sees test = true → Ends Allowed cursor (read cursor)) (cursor : Cursor) :
    Ends Allowed cursor (manyWhile test read consumes cursor) := by
  fun_induction manyWhile test read consumes cursor with
  | case1 cursor hs e after he =>
    have hfirst := h cursor hs
    rw [he] at hfirst
    cases hfirst with
    | error ha hat hallowed => exact .error ha hat hallowed
  | case2 cursor hs a middle he e final hm ih =>
    have hfirst := h cursor hs
    rw [he] at hfirst
    cases hfirst with
    | ok hmiddle => exact (hm ▸ ih).of_reaches hmiddle
  | case3 cursor hs a middle he others final hm ih =>
    have hfirst := h cursor hs
    rw [he] at hfirst
    cases hfirst with
    | ok hmiddle =>
      rw [hm] at ih
      cases ih with
      | ok hfinal => exact .ok (hmiddle.trans hfinal)
  | case4 cursor => exact .ok (.refl cursor)

/-- The reader is part of a rule: wherever it fails, that is what stops the rule. -/
def Within (rule : GrammarRule) (read : TokenReader α) : Prop :=
  ∀ cursor, Ends rule.Stops cursor (read cursor)

section

variable {rule : GrammarRule}

theorem within_pure (a : α) : Within rule (pure a) :=
  fun cursor => .ok (.refl cursor)

theorem within_fail {obstacle : Obstacle} (h : rule.Meets obstacle) :
    Within rule (fail obstacle : TokenReader α) :=
  fun cursor => ends_error_self cursor (.here h)

theorem Within.bind {read : TokenReader α} {follow : α → TokenReader β} (hr : Within rule read)
    (hf : ∀ a, Within rule (follow a)) : Within rule (read >>= follow) :=
  fun cursor => Ends.bind (hr cursor) fun a after => hf a after

theorem Within.map {read : TokenReader α} (h : Within rule read) (f : α → β) :
    Within rule (f <$> read) :=
  fun cursor => Ends.map (h cursor) f

theorem Within.ite {p : Prop} [Decidable p] {read other : TokenReader α} (hr : Within rule read)
    (ho : Within rule other) : Within rule (if p then read else other) := by
  split
  · exact hr
  · exact ho

theorem Within.during {part : GrammarRule} {read : TokenReader α} (h : Within part read)
    (hpart : part ∈ rule.parts) : Within rule (during part read) :=
  fun cursor => Ends.during (h cursor) fun _ _ => .inside hpart

theorem Within.manyWhile {test : Token → Bool} {read : TokenReader α} (h : Within rule read)
    (consumes : Consumes read) : Within rule (manyWhile test read consumes) :=
  ends_manyWhile fun cursor _ => h cursor

theorem within_lookahead (n : Nat) : Within rule (lookahead n) :=
  fun cursor => .ok (.refl cursor)

theorem within_sees (test : Token → Bool) : Within rule (sees test) :=
  fun cursor => .ok (.refl cursor)

theorem within_peek : Within rule peek := by
  intro cursor
  unfold peek
  split
  · exact ends_error_self cursor (.here (.shortage 1))
  · exact .ok (.refl cursor)

theorem within_peekMany (n : Nat) : Within rule (peekMany n) := by
  intro cursor
  unfold peekMany
  split
  · exact .ok (.refl cursor)
  · exact ends_error_self cursor (.here (.shortage n))

theorem within_skip (n : Nat) : Within rule (skip n) := by
  intro cursor
  unfold skip
  split
  next h => exact .ok (Cursor.reaches_moved h)
  next => exact ends_error_self cursor (.here (.shortage n))

theorem within_next : Within rule next :=
  within_peek.bind fun token => (within_skip 1).bind fun _ => within_pure token

theorem within_ignoreIf (test : Token → Bool) : Within rule (ignoreIf test) :=
  (within_sees test).bind fun _ =>
    .ite ((within_skip 1).bind fun _ => within_pure true) (within_pure false)

theorem within_hasKind (kind : Token.Kind) : Within rule (hasKind kind) :=
  within_peek.bind fun _ => within_pure _

theorem within_hasKindIn (kinds : List Token.Kind) : Within rule (hasKindIn kinds) :=
  within_peek.bind fun _ => within_pure _

theorem within_hasText (kind : Token.Kind) (text : String) (anyCase : Bool) :
    Within rule (hasText kind text anyCase) :=
  within_peek.bind fun _ => within_pure _

theorem within_tokensBefore (kind : Token.Kind) {text : String} {limit : Nat}
    (h : (text, limit) ∈ rule.limits) : Within rule (tokensBefore kind text limit) := by
  refine (within_lookahead limit).bind fun window => ?_
  split
  · exact within_pure _
  · exact within_fail (.unclosed h)

theorem within_take (kind : Token.Kind) {expected : Expectation}
    (h : expected ∈ rule.expectations) : Within rule (take kind expected) :=
  (within_hasKind kind).bind fun _ => .ite within_next (within_fail (.unexpected h))

theorem within_expect {kind : Token.Kind} {text : String}
    (h : .token kind text ∈ rule.expectations) : Within rule (expect kind text) :=
  (within_hasText kind text true).bind fun _ => .ite (within_skip 1) (within_fail (.unexpected h))

end

end TokenReader

end DdlCatalog
