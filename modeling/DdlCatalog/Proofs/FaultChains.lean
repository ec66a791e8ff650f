import DdlCatalog.Proofs.Diagnosis

namespace DdlCatalog

namespace Fault

theorem rootCause_wrap (fault : Fault) (contexts : List String) :
    (fault.wrap contexts).rootCause = fault.rootCause := by
  induction contexts generalizing fault with
  | nil => rfl
  | cons first others ih => exact ih (within first fault)

theorem contexts_wrap (fault : Fault) (contexts : List String) :
    (fault.wrap contexts).contexts = contexts.reverse ++ fault.contexts := by
  induction contexts generalizing fault with
  | nil => rfl
  | cons first others ih =>
    have hothers := ih (within first fault)
    rw [List.reverse_cons, List.append_assoc]
    exact hothers

theorem chain_wrap (fault : Fault) (contexts : List String) :
    (fault.wrap contexts).chain = contexts.reverse ++ fault.chain := by
  induction contexts generalizing fault with
  | nil => rfl
  | cons first others ih =>
    have hothers := ih (within first fault)
    rw [List.reverse_cons, List.append_assoc]
    exact hothers

/-- The answers to the four questions for the class of a fault. -/
def classes (fault : Fault) : List Bool :=
  [fault.isUnexpectedEnd, fault.isUnexpectedToken, fault.isUnhandledInput,
    fault.isLookaheadExceeded]

theorem classes_eq_root (fault : Fault) : fault.classes = (root fault.rootCause).classes :=
  rfl

theorem count_classes_le (fault : Fault) : fault.classes.count true ≤ 1 := by
  rw [classes_eq_root]
  cases fault.rootCause <;> exact of_decide_eq_true rfl

theorem isUnexpectedEnd_iff {fault : Fault} :
    fault.isUnexpectedEnd = true ↔ ∃ detail, fault.rootCause = .unexpectedEnd detail := by
  unfold isUnexpectedEnd
  cases fault.rootCause <;> simp

theorem isUnexpectedToken_iff {fault : Fault} :
    fault.isUnexpectedToken = true ↔
      ∃ expected location, fault.rootCause = .unexpectedToken expected location := by
  unfold isUnexpectedToken
  cases fault.rootCause <;> simp

theorem isUnhandledInput_iff {fault : Fault} :
    fault.isUnhandledInput = true ↔
      ∃ line preview tokensRead recent,
        fault.rootCause = .unhandledInput line preview tokensRead recent := by
  unfold isUnhandledInput
  cases fault.rootCause <;> simp

theorem isLookaheadExceeded_iff {fault : Fault} :
    fault.isLookaheadExceeded = true ↔
      ∃ terminator limit location,
        fault.rootCause = .lookaheadExceeded terminator limit location := by
  unfold isLookaheadExceeded
  cases fault.rootCause <;> simp

def causedBy (entries : List String) : String :=
  String.join (entries.map fun entry => "  caused by: " ++ entry ++ "\n")

theorem report_of_chain {fault : Fault} {first : String} {others : List String}
    (h : fault.chain = first :: others) :
    fault.report = "error: " ++ first ++ "\n" ++ causedBy others := by
  unfold report
  rw [h]
  rfl

theorem report_wrap_concat (cause : Cause) (first : List String) (last : String) :
    ((root cause).wrap (first ++ [last])).report =
      "error: " ++ last ++ "\n" ++
        causedBy (first.reverse ++ [cause.message] ++ cause.underlying) := by
  apply report_of_chain
  rw [chain_wrap, List.reverse_concat, List.append_assoc]
  rfl

end Fault

theorem Cause.exitCode_eq_io_iff {cause : Cause} :
    cause.exitCode = 74 ↔ ∃ error, cause = .io error := by
  cases cause <;> simp [exitCode]

theorem Cause.exitCode_eq_internal_iff {cause : Cause} :
    cause.exitCode = 70 ↔ ∃ text, cause = .invalidPattern text ∨ cause = .serialization text := by
  cases cause <;> simp [exitCode]

theorem Cause.exitCode_eq_script_iff {cause : Cause} :
    cause.exitCode = 65 ↔ (∀ error, cause ≠ .io error) ∧
      ∀ text, cause ≠ .invalidPattern text ∧ cause ≠ .serialization text := by
  cases cause <;> simp [exitCode]

theorem Cause.underlying_eq_nil {cause : Cause} (h : ∀ error, cause ≠ .io error) :
    cause.underlying = [] := by
  cases cause with
  | io error => exact absurd rfl (h error)
  | _ => rfl

namespace Fault

/-- What is told by a fault that is a cause inside contexts, the last of them outermost. Behind the
cause a report tells the `rest`. -/
structure Tells (fault : Fault) (cause : Cause) (around rest : List String) : Prop where
  rootCause : fault.rootCause = cause
  contexts : fault.contexts = around.reverse
  classes : fault.classes = (root cause).classes
  unexpectedEnd : fault.isUnexpectedEnd = true ↔ ∃ detail, cause = .unexpectedEnd detail
  unexpectedToken : fault.isUnexpectedToken = true ↔
    ∃ expected location, cause = .unexpectedToken expected location
  unhandledInput : fault.isUnhandledInput = true ↔
    ∃ line preview tokensRead recent, cause = .unhandledInput line preview tokensRead recent
  lookaheadExceeded : fault.isLookaheadExceeded = true ↔
    ∃ terminator limit location, cause = .lookaheadExceeded terminator limit location
  oneClass : fault.classes.count true ≤ 1
  exitCode : fault.exitCode = (root cause).exitCode
  exitCode_io : fault.exitCode = 74 ↔ ∃ error, cause = .io error
  exitCode_internal : fault.exitCode = 70 ↔
    ∃ text, cause = .invalidPattern text ∨ cause = .serialization text
  exitCode_script : fault.exitCode = 65 ↔ (∀ error, cause ≠ .io error) ∧
    ∀ text, cause ≠ .invalidPattern text ∧ cause ≠ .serialization text
  report_bare : around = [] →
    fault.report = "error: " ++ cause.message ++ "\n" ++ causedBy rest
  report_within : ∀ first last, around = first ++ [last] →
    fault.report = "error: " ++ last ++ "\n" ++ causedBy (first.reverse ++ [cause.message] ++ rest)
  rest_io : ∀ error, cause = .io error → rest = error.text :: error.sources
  rest_other : (∀ error, cause ≠ .io error) → rest = []

/-- Contexts around a fault change neither its class nor its exit code; the report tells them from
the outermost to the innermost, then the cause, and for an error of the system its text once more,
with all that it rests on itself. -/
theorem tells_wrap_root (cause : Cause) (contexts : List String) :
    ∃ rest, ((root cause).wrap contexts).Tells cause contexts rest := by
  have hcause : ((root cause).wrap contexts).rootCause = cause := rootCause_wrap _ contexts
  have hclasses := classes_eq_root ((root cause).wrap contexts)
  have hcode : ((root cause).wrap contexts).exitCode = cause.exitCode :=
    congrArg Cause.exitCode hcause
  refine ⟨cause.underlying,
    { rootCause := hcause
      contexts := ?contexts
      classes := ?classes
      unexpectedEnd := ?unexpectedEnd
      unexpectedToken := ?unexpectedToken
      unhandledInput := ?unhandledInput
      lookaheadExceeded := ?lookaheadExceeded
      oneClass := count_classes_le _
      exitCode := hcode
      exitCode_io := ?exitCode_io
      exitCode_internal := ?exitCode_internal
      exitCode_script := ?exitCode_script
      report_bare := ?report_bare
      report_within := ?report_within
      rest_io := ?rest_io
      rest_other := Cause.underlying_eq_nil }⟩
  case contexts => exact (contexts_wrap _ contexts).trans (List.append_nil _)
  case classes => rw [hclasses, hcause]
  case unexpectedEnd => rw [isUnexpectedEnd_iff, hcause]
  case unexpectedToken => rw [isUnexpectedToken_iff, hcause]
  case unhandledInput => rw [isUnhandledInput_iff, hcause]
  case lookaheadExceeded => rw [isLookaheadExceeded_iff, hcause]
  case exitCode_io => rw [hcode, Cause.exitCode_eq_io_iff]
  case exitCode_internal => rw [hcode, Cause.exitCode_eq_internal_iff]
  case exitCode_script => rw [hcode, Cause.exitCode_eq_script_iff]
  case report_bare =>
    rintro rfl
    exact report_of_chain rfl
  case report_within =>
    rintro first last rfl
    exact report_wrap_concat cause first last
  case rest_io =>
    rintro error rfl
    rfl

/-- An error of the system that rests on another has more than its own text told, and a cause
without contexts is told once. -/
theorem report_of_sources :
    ((root (.io ⟨"disk lost", ["cable out"]⟩)).wrap ["failed to read a.sql"]).report =
        "error: failed to read a.sql\n  caused by: I/O error: disk lost\n" ++
          "  caused by: disk lost\n  caused by: cable out\n" ∧
      ((root (.invalidPattern "a(")).wrap []).report = "error: invalid lexer pattern: a(\n" := by
  decide

end Fault

end DdlCatalog
