import Scriptlet.Fault

/-!
# Operators

A tree keeps an operator as text; `UnaryOp.ofText?` and `BinaryOp.ofText?` give it a meaning. Integers are computed modulo 2^64
and read between -2^63 and 2^63 - 1, and division goes toward zero. An integer beside a float is first made the nearest float.
Truth values can be tested for equality only, strings can also be joined. All other pairs fail: two values of different kinds
because they do not match, two of one kind because the operator is unknown for it.
-/

namespace Scriptlet

/-- The operators before an operand. -/
inductive UnaryOp where
  | not | neg
  deriving DecidableEq

/-- The operator with a text. -/
def UnaryOp.ofText? : String → Option UnaryOp
  | "!" => some .not
  | "-" => some .neg
  | _ => none

/-- The operators between two operands. -/
inductive BinaryOp where
  | add | sub | mul | div | lt | gt | le | ge | eq | ne
  deriving DecidableEq

namespace BinaryOp

/-- The operator with a text. -/
def ofText? : String → Option BinaryOp
  | "+" => some add
  | "-" => some sub
  | "*" => some mul
  | "/" => some div
  | "<" => some lt
  | ">" => some gt
  | "<=" => some le
  | ">=" => some ge
  | "==" => some eq
  | "!=" => some ne
  | _ => none

/-- An operator between integers; division by zero has no value. -/
def onIntegers? (l r : Int64) : BinaryOp → Option Value
  | add => some (.int (l + r))
  | sub => some (.int (l - r))
  | mul => some (.int (l * r))
  | div => if r = 0 then none else some (.int (l / r))
  | lt => some (.bool (l < r))
  | gt => some (.bool (r < l))
  | le => some (.bool (l ≤ r))
  | ge => some (.bool (r ≤ l))
  | eq => some (.bool (l == r))
  | ne => some (.bool (l != r))

/-- An operator between floats. -/
def onFloats (l r : Float) : BinaryOp → Value
  | add => .float (l + r)
  | sub => .float (l - r)
  | mul => .float (l * r)
  | div => .float (l / r)
  | lt => .bool (l < r)
  | gt => .bool (r < l)
  | le => .bool (l ≤ r)
  | ge => .bool (r ≤ l)
  | eq => .bool (l == r)
  | ne => .bool (l != r)

/-- An operator between truth values, if there is one. -/
def onBooleans? (l r : Bool) : BinaryOp → Option Value
  | eq => some (.bool (l == r))
  | ne => some (.bool (l != r))
  | _ => none

/-- An operator between strings, if there is one. -/
def onStrings? (l r : String) : BinaryOp → Option Value
  | add => some (.string (l ++ r))
  | eq => some (.bool (l == r))
  | ne => some (.bool (l != r))
  | _ => none

end BinaryOp

/-- The float nearest to an integer, a tie going to the even neighbour. -/
def nearestFloat (n : Int64) : Float := Float.ofInt n.toInt

namespace Value

/-- The value of an operator, or the fault that there is no such operator between the two operands. -/
def orUnknown (operator : String) (left right : Value) : Option Value → Except Fault Value
  | some v => .ok v
  | none => .error (.unknownBinary left.kind operator right.kind)

/-- The value of an operator before its operand. -/
def unary (operator : String) (operand : Value) : Except Fault Value :=
  match UnaryOp.ofText? operator, operand with
  | some .not, v => .ok (.bool (!v.truthy))
  | some .neg, .int n => .ok (.int (-n))
  | some .neg, .float x => .ok (.float (-x))
  | _, v => .error (.unknownUnary operator v.kind)

/-- The value of an operator between its operands. -/
def binary (operator : String) (left right : Value) : Except Fault Value :=
  let op? := BinaryOp.ofText? operator
  match left, right with
  | .int l, .int r =>
    match op? with
    | some op =>
      match op.onIntegers? l r with
      | some v => .ok v
      | none => .error .divisionByZero
    | none => .error (.unknownBinary .integer operator .integer)
  | .int l, .float r => orUnknown operator left right (op?.map (BinaryOp.onFloats (nearestFloat l) r))
  | .float l, .int r => orUnknown operator left right (op?.map (BinaryOp.onFloats l (nearestFloat r)))
  | .float l, .float r => orUnknown operator left right (op?.map (BinaryOp.onFloats l r))
  | .bool l, .bool r => orUnknown operator left right (op?.bind (BinaryOp.onBooleans? l r))
  | .string l, .string r => orUnknown operator left right (op?.bind (BinaryOp.onStrings? l r))
  | _, _ =>
    if left.kind = right.kind then .error (.unknownBinary left.kind operator right.kind)
    else .error (.mismatch left.kind operator right.kind)

end Value

end Scriptlet
