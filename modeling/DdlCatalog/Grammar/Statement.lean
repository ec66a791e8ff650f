import DdlCatalog.Grammar.Column
import DdlCatalog.Statement

namespace DdlCatalog

namespace Grammar

open TokenReader

/-- The tokens up to the end of the statement; the end itself is passed over too. -/
def body : TokenReader (List Token) := do
  let tokens ← tokensBefore .symbol ";" statementLimit
  skip (tokens.length + 1)
  return tokens

def qualifiedName : TokenReader String := do
  let first ← take .string .tableName
  if ← ignoreText .symbol "." then
    let second ← take .string .qualifiedName
    return first.content ++ "." ++ second.content
  else return first.content

def tableDefinition : TokenReader Table := do
  skip 1
  let name ← during .tableName qualifiedName
  let columns ← during .columnList columnList
  let _ ← during .tableOptions body
  return (Table.named name).pushAll columns

def creation : TokenReader Table := do
  skip 1
  if ← hasText .keyword "TABLE" true then during .createTable tableDefinition
  else fail (.unexpected .tableKeyword)

def statement : TokenReader Statement := do
  let token ← peek
  if token.isKeyword "CREATE" then .table <$> during .createStatement creation
  else if token.isKeyword "GRANT" then .grant <$> during .grantStatement (skip 1 >>= fun _ => body)
  else if token.isKeyword "COMMENT" then
    .comment <$> during .commentStatement (skip 1 >>= fun _ => body)
  else if token.kind = .directive then return .directive (← next).content
  else fail (.unexpected .statement)

theorem forward_body : Forward body :=
  (forward_tokensBefore _ _ _).bind fun _ => (forward_skip _).bind fun _ => forward_pure _

theorem forward_qualifiedName : Forward qualifiedName := by
  refine (consumes_take _ _).forward.bind fun first => (forward_ignoreIf _).bind fun _ => ?_
  exact .ite ((consumes_take _ _).forward.bind fun _ => forward_pure _) (forward_pure _)

theorem forward_tableDefinition : Forward tableDefinition := by
  refine (forward_skip _).bind fun _ => (forward_qualifiedName.during _).bind fun name => ?_
  refine (forward_columnList.during _).bind fun columns => ?_
  exact (forward_body.during _).bind fun _ => forward_pure _

theorem consumes_creation : Consumes creation := by
  refine (consumes_skip_succ 0).bind fun _ => (forward_hasText _ _ _).bind fun _ => ?_
  exact .ite (forward_tableDefinition.during _) (forward_fail _)

theorem consumes_statement : Consumes statement := by
  refine forward_peek.bind_consumes fun token => ?_
  refine .ite ((consumes_creation.during _).map _) ?_
  refine .ite ((Consumes.during _ ((consumes_skip_succ 0).bind fun _ => forward_body)).map _) ?_
  refine .ite ((Consumes.during _ ((consumes_skip_succ 0).bind fun _ => forward_body)).map _) ?_
  refine .ite (consumes_next.bind fun _ => forward_pure _) ?_
  intro cursor a after h
  cases h

def statements : TokenReader (List Statement) :=
  manyWhile (fun _ => true) statement consumes_statement

def script (tokens : List Token) : Except ParseError (List Statement) :=
  match statements (.start tokens) with
  | .ok found _ => .ok found
  | .error e _ => .error e

theorem script_of_ok {tokens : List Token} {found : List Statement} {after : Cursor}
    (h : statements (.start tokens) = .ok found after) : script tokens = .ok found := by
  rw [script, h]

theorem script_of_error {tokens : List Token} {e : ParseError} {after : Cursor}
    (h : statements (.start tokens) = .error e after) : script tokens = .error e := by
  rw [script, h]

theorem exists_of_script_eq_ok {tokens : List Token} {found : List Statement}
    (h : script tokens = .ok found) : ∃ after, statements (.start tokens) = .ok found after := by
  unfold script at h
  split at h
  next others after hs => cases h; exact ⟨after, hs⟩
  next => cases h

theorem exists_of_script_eq_error {tokens : List Token} {e : ParseError}
    (h : script tokens = .error e) : ∃ after, statements (.start tokens) = .error e after := by
  unfold script at h
  split at h
  next => cases h
  next e' after hs => cases h; exact ⟨after, hs⟩

end Grammar

end DdlCatalog
