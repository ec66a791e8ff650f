import DdlCatalog.ParseError

namespace DdlCatalog

/-- Causes of one class, whatever their messages show. -/
def Cause.SameVariant (a b : Cause) : Prop :=
  a.ctorIdx = b.ctorIdx

theorem Obstacle.sameVariant_cause (obstacle : Obstacle) (place other : Cursor) :
    (obstacle.cause place).SameVariant (obstacle.cause other) := by
  cases obstacle <;> rfl

/-- Causes that say the same, but for the places and counts of the tokens that they show. -/
inductive Cause.SameButPlace : Cause → Cause → Prop
  | unexpectedEnd (detail detail') : SameButPlace (.unexpectedEnd detail) (.unexpectedEnd detail')
  | unexpectedToken (expected place place') :
      SameButPlace (.unexpectedToken expected place) (.unexpectedToken expected place')
  | lookaheadExceeded (terminator limit place place') :
      SameButPlace (.lookaheadExceeded terminator limit place)
        (.lookaheadExceeded terminator limit place')
  | invalidNumber (text place place') :
      SameButPlace (.invalidNumber text place) (.invalidNumber text place')

theorem Obstacle.sameButPlace_cause (obstacle : Obstacle) (place other : Cursor) :
    (obstacle.cause place).SameButPlace (obstacle.cause other) := by
  cases obstacle <;> constructor

namespace ParseError

theorem rootCause_fault (error : ParseError) :
    error.fault.rootCause = error.obstacle.cause error.place := by
  obtain ⟨obstacle, contexts, place⟩ := error
  unfold fault
  induction contexts with
  | nil => rfl
  | cons entry contexts ih => exact ih

theorem contexts_fault (error : ParseError) :
    error.fault.contexts = error.contexts.map fun entry => context entry.1 entry.2 := by
  obtain ⟨obstacle, contexts, place⟩ := error
  unfold fault
  induction contexts with
  | nil => rfl
  | cons entry contexts ih => exact congrArg (context entry.1 entry.2 :: ·) ih

theorem length_contexts_fault (error : ParseError) :
    error.fault.contexts.length = error.rules.length := by
  rw [contexts_fault, rules, List.length_map, List.length_map]

end ParseError

end DdlCatalog
