import Scriptlet.Tree

/-!
# Values

What expressions evaluate to. A function is a `Closure`: its parameters and body with the scope it was made in, and a number of
its own, so that two functions are equal only if they are copies of one.

Two kinds of value are never the result of an expression by themselves: an error, which stands for the failure of a whole
program, and a returned value. A host may still bind them to names, and then they are values like any other.
-/

namespace Scriptlet

/-- The number of a scope. -/
abbrev ScopeId := Nat

/-- A function: what it does, and the scope it was made in. -/
structure Closure where
  /-- Tells functions apart that were not made by the same evaluation of the same literal. -/
  id : Nat
  parameters : List Identifier
  body : Block
  scope : ScopeId

namespace Closure

/-- The number of parameters. -/
def arity (f : Closure) : Nat := f.parameters.length

/-- The names of the parameters. -/
def names (f : Closure) : List String := f.parameters.map Identifier.name

end Closure

/-- Values. -/
inductive Value where
  | int (value : Int64)
  | float (value : Float)
  | bool (value : Bool)
  | string (value : String)
  | null
  | function (function : Closure)
  | error (message : String)
  | returned (value : Value)

instance : Inhabited Value := ⟨.null⟩

/-- The kinds of value. -/
inductive ValueKind where
  | integer | float | boolean | null | string | error | function | returned
  deriving DecidableEq

/-- The name a kind is shown under. -/
def ValueKind.name : ValueKind → String
  | integer => "INTEGER"
  | float => "FLOAT"
  | boolean => "BOOLEAN"
  | null => "NULL"
  | string => "STRING"
  | error => "ERROR"
  | function => "FUNCTION"
  | returned => "RETURN_VALUE"

namespace Value

/-- The kind of a value. -/
def kind : Value → ValueKind
  | int _ => .integer
  | float _ => .float
  | bool _ => .boolean
  | string _ => .string
  | null => .null
  | function _ => .function
  | error _ => .error
  | returned _ => .returned

/-- A value is an error. -/
def isError : Value → Bool
  | error _ => true
  | _ => false

/-- A condition holds: every value does but `null` and `false`. -/
def truthy : Value → Bool
  | null | bool false => false
  | _ => true

/-- Sameness of two values: the same kind and the same content. Floats are compared as numbers, functions by identity. -/
def same : Value → Value → Bool
  | int a, int b => a == b
  | float a, float b => a == b
  | bool a, bool b => a == b
  | string a, string b => a == b
  | null, null => true
  | function f, function g => f.id == g.id
  | error a, error b => a == b
  | returned a, returned b => a.same b
  | _, _ => false

instance : BEq Value := ⟨same⟩

end Value

end Scriptlet
