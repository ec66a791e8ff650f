import DdlCatalog.Fault
import DdlCatalog.Scanner
import DdlCatalog.Vocabulary

namespace DdlCatalog

structure LexicalRule where
  kind : Token.Kind
  recognize : Recognizer

namespace LexicalRule

/-- The rules of a dialect with the given keywords, in the order in which they are tried. -/
def all (vocabulary : Vocabulary) : List LexicalRule :=
  [⟨.whitespace, .run "\t "⟩,
   ⟨.newline, .run "\n\r"⟩,
   ⟨.comment, .openedUntil "--" "\n\r"⟩,
   ⟨.string, .delimited "\"" false⟩,
   ⟨.string, .delimited "'" false⟩,
   ⟨.float, .shape .decimal⟩,
   ⟨.int, .run "0123456789"⟩,
   ⟨.symbol, .oneOf ".,();*"⟩,
   ⟨.directive, .openedUntil "@" "\n\r"⟩,
   ⟨.keyword, .anyWord vocabulary.words true⟩]

end LexicalRule

inductive LexicalError where
  | unhandled (place : Scanner)
  | unfinished (kind : Token.Kind) (reason : Unfinished) (place : Scanner)

namespace LexicalError

def recentTokens : Nat := 8

def fault : LexicalError → Fault
  | unhandled place =>
    let recent := (place.behind.take recentTokens).reverse
    .root (.unhandledInput place.line place.preview place.behind.length (recent.map (·.content)))
  | unfinished kind reason place =>
    .within ("error while reading " ++ kind.name ++ " at " ++ place.location)
      (.root (.unexpectedEnd reason.message))

end LexicalError

namespace Scanner

def step (scanner : Scanner) : List LexicalRule → Except LexicalError (Option Scanner)
  | [] => .ok none
  | rule :: rules =>
    match scanner.scan rule.kind rule.recognize with
    | .error reason => .error (.unfinished rule.kind reason scanner)
    | .ok (some next) => .ok (some next)
    | .ok none => scanner.step rules

theorem step_eq_some {scanner next : Scanner} {rules : List LexicalRule}
    (h : scanner.step rules = .ok (some next)) :
    ∃ rule ∈ rules, scanner.scan rule.kind rule.recognize = .ok (some next) := by
  induction rules with
  | nil => simp [step] at h
  | cons rule rules ih =>
    unfold step at h
    split at h
    next => simp at h
    next other hs =>
      obtain rfl : other = next := by simpa using h
      exact ⟨rule, List.mem_cons_self, hs⟩
    next =>
      obtain ⟨found, hm, hs⟩ := ih h
      exact ⟨found, List.mem_cons_of_mem _ hm, hs⟩

theorem step_rest_length {scanner next : Scanner} {rules : List LexicalRule}
    (h : scanner.step rules = .ok (some next)) : next.rest.length < scanner.rest.length := by
  obtain ⟨_, _, hs⟩ := step_eq_some h
  exact scan_rest_length hs

def finish (rules : List LexicalRule) (scanner : Scanner) : Except LexicalError (List Token) :=
  if scanner.rest = [] then .ok scanner.tokens
  else
    match _ : scanner.step rules with
    | .error e => .error e
    | .ok none => .error (.unhandled scanner)
    | .ok (some next) => finish rules next
termination_by scanner.rest.length
decreasing_by exact step_rest_length ‹_›

theorem finish_of_step {rules : List LexicalRule} {scanner next : Scanner}
    (hr : scanner.rest ≠ []) (h : scanner.step rules = .ok (some next)) :
    scanner.finish rules = next.finish rules := by
  rw [finish, if_neg hr]
  split
  next he => rw [h] at he; cases he
  next he => rw [h] at he; cases he
  next he => rw [h] at he; cases he; rfl

theorem finish_of_step_none {rules : List LexicalRule} {scanner : Scanner}
    (hr : scanner.rest ≠ []) (h : scanner.step rules = .ok none) :
    scanner.finish rules = .error (.unhandled scanner) := by
  rw [finish, if_neg hr]
  split
  next he => rw [h] at he; cases he
  next => rfl
  next he => rw [h] at he; cases he

theorem finish_of_step_error {rules : List LexicalRule} {scanner : Scanner} {e : LexicalError}
    (hr : scanner.rest ≠ []) (h : scanner.step rules = .error e) :
    scanner.finish rules = .error e := by
  rw [finish, if_neg hr]
  split
  next he => rw [h] at he; cases he; rfl
  next he => rw [h] at he; cases he
  next he => rw [h] at he; cases he

end Scanner

def tokenizeWith (vocabulary : Vocabulary) (source : String) : Except LexicalError (List Token) :=
  (Scanner.ofSource source).finish (LexicalRule.all vocabulary)

def tokenize (source : String) : Except LexicalError (List Token) :=
  tokenizeWith .oracle source

end DdlCatalog
