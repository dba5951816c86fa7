import Scriptlet.Value

/-!
# Faults

The causes for which evaluation fails, with the message of each.
-/

namespace Scriptlet

/-- Why evaluation fails. -/
inductive Fault where
  /-- No operator with this text stands before a value of this kind. -/
  | unknownUnary (operator : String) (operand : ValueKind)
  /-- No operator with this text stands between two values of these kinds, which are equal or both numbers. -/
  | unknownBinary (left : ValueKind) (operator : String) (right : ValueKind)
  /-- No operator stands between two values of these different kinds. -/
  | mismatch (left : ValueKind) (operator : String) (right : ValueKind)
  | divisionByZero
  /-- A name is bound in no scope around it. -/
  | unbound (name : String)
  /-- A value that is no function is called. -/
  | notFunction (found : ValueKind)
  /-- A function is called with another number of arguments than it has parameters. -/
  | wrongArity (want got : Nat)
  deriving DecidableEq

/-- The text of a fault. -/
def Fault.message : Fault → String
  | unknownUnary op k => "unknown operator: " ++ op ++ k.name
  | unknownBinary l op r => "unknown operator: " ++ l.name ++ " " ++ op ++ " " ++ r.name
  | mismatch l op r => "type mismatch: " ++ l.name ++ " " ++ op ++ " " ++ r.name
  | divisionByZero => "division by zero"
  | unbound name => "identifier not found: " ++ name
  | notFunction k => "not a function: " ++ k.name
  | wrongArity want got => "wrong number of arguments: want=" ++ toString want ++ ", got=" ++ toString got

end Scriptlet
