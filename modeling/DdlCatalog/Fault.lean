import DdlCatalog.Text.Quoted

namespace DdlCatalog

/-- An error of input or output: its text, and the texts of the errors that it rests on itself, from
the outermost inwards. The errors of an operating system rest on nothing else. -/
structure SystemError where
  text : String
  sources : List String
  deriving DecidableEq

inductive Cause where
  | unexpectedEnd (detail : String)
  | unhandledInput (line : UInt32) (preview : String) (tokensRead : Nat) (recent : List String)
  | invalidPattern (text : String)
  | unexpectedToken (expected location : String)
  | lookaheadExceeded (terminator : String) (limit : Nat) (location : String)
  | invalidNumber (text location : String)
  | io (error : SystemError)
  | serialization (text : String)
  deriving DecidableEq

namespace Cause

def message : Cause → String
  | unexpectedEnd detail => "unexpected end of input: " ++ detail
  | unhandledInput line preview tokensRead _ =>
    "unhandled input at line " ++ toString line.toNat ++ " " ++ Text.quoted preview ++
      " [..] after " ++ toString tokensRead ++ " tokens"
  | invalidPattern text => "invalid lexer pattern: " ++ text
  | unexpectedToken expected location => "expected " ++ expected ++ " at " ++ location
  | lookaheadExceeded terminator limit location =>
    "no " ++ Text.quoted terminator ++ " within " ++ toString limit ++ " tokens at " ++ location
  | invalidNumber text location => "invalid number " ++ Text.quoted text ++ " at " ++ location
  | io error => "I/O error: " ++ error.text
  | serialization text => "failed to serialize output: " ++ text

def underlying : Cause → List String
  | io error => error.text :: error.sources
  | _ => []

def exitCode : Cause → Nat
  | io _ => 74
  | invalidPattern _ => 70
  | serialization _ => 70
  | _ => 65

end Cause

/-- A cause, or a fault met during a larger activity that the context names. -/
inductive Fault where
  | root (cause : Cause)
  | within (context : String) (inner : Fault)
  deriving DecidableEq

namespace Fault

def rootCause : Fault → Cause
  | root cause => cause
  | within _ inner => inner.rootCause

def contexts : Fault → List String
  | root _ => []
  | within context inner => context :: inner.contexts

/-- Puts the contexts around a fault one after the other, so that the last is outermost. -/
def wrap (fault : Fault) (contexts : List String) : Fault :=
  contexts.foldl (fun inner context => within context inner) fault

def message : Fault → String
  | root cause => cause.message
  | within context _ => context

def chain : Fault → List String
  | root cause => cause.message :: cause.underlying
  | within context inner => context :: inner.chain

def isUnexpectedEnd (fault : Fault) : Bool :=
  match fault.rootCause with
  | .unexpectedEnd _ => true
  | _ => false

def isUnexpectedToken (fault : Fault) : Bool :=
  match fault.rootCause with
  | .unexpectedToken _ _ => true
  | _ => false

def isUnhandledInput (fault : Fault) : Bool :=
  match fault.rootCause with
  | .unhandledInput _ _ _ _ => true
  | _ => false

def isLookaheadExceeded (fault : Fault) : Bool :=
  match fault.rootCause with
  | .lookaheadExceeded _ _ _ => true
  | _ => false

def exitCode (fault : Fault) : Nat :=
  fault.rootCause.exitCode

def report (fault : Fault) : String :=
  match fault.chain with
  | [] => ""
  | message :: causes =>
    "error: " ++ message ++ "\n" ++ String.join (causes.map fun c => "  caused by: " ++ c ++ "\n")

end Fault

end DdlCatalog
