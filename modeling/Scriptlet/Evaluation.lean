import Scriptlet.Journal
import Scriptlet.Operator

/-!
# Evaluation

A tree is evaluated in a scope. A list of statements has the value of its last one, and `null` if there is none; a binding has
the value `null`. A block and a choice use the scope they stand in; a call makes a scope of its own inside the one its function
was made in. A fault ends everything (`Unwind.fault`), a return ends the function it stands in, or else the program
(`Unwind.returned`).

The tree alone bounds evaluation but for calls. How a function is applied is therefore handed to the rules for trees as `apply`,
and `applyWithin` closes the circle with a limit on the calls that are open at once; when that is used up there is no result at
all.
-/

namespace Scriptlet

/-- Why evaluation leaves the place where it is. -/
inductive Unwind where
  /-- It fails. -/
  | fault (fault : Fault)
  /-- A function, or the program, is left with a value. -/
  | returned (value : Value)

/-- A part of evaluation: it changes the world, and has a value or leaves; it has no result if the limit on calls is used up. -/
abbrev Eval := ExceptT Unwind (StateT World Option)

namespace Eval

/-- The limit is used up. -/
def exhausted {α : Type} : Eval α := fun _ => none

/-- Fails. -/
def raise {α : Type} (f : Fault) : Eval α := do
  modify fun w => w.note (.raised f)
  throw (.fault f)

/-- The value of an operator, or its fault. -/
def settle : Except Fault Value → Eval Value
  | .ok v => return v
  | .error f => raise f

/-- The value of a name. -/
def lookup (scope : ScopeId) (name : String) : Eval Value := do
  match (← get).store.get? scope name with
  | some v => return v
  | none => raise (.unbound name)

/-- Binds a name. -/
def bindName (scope : ScopeId) (name : String) (v : Value) : Eval Unit :=
  modify fun w => { w with store := w.store.set scope name v }.note (.bound scope name)

/-- Binds names to values in their order, as far as there are both. -/
def bindAll (scope : ScopeId) : List String → List Value → Eval Unit
  | name :: names, v :: vs => do
    bindName scope name v
    bindAll scope names vs
  | _, _ => return ()

/-- Makes a scope for a call, inside the scope its function was made in. -/
def openScope (outer : ScopeId) : Eval ScopeId :=
  modifyGet fun w =>
    let (id, store) := w.store.addInside outer
    (id, { w with store := store }.note (.opened id))

/-- Makes a function. -/
def makeFunction (scope : ScopeId) (parameters : List Identifier) (body : Block) : Eval Value :=
  modifyGet fun w =>
    let (f, store) := w.store.addFunction parameters body scope
    (.function f, { w with store := store })

/-- The function that is called; any other value cannot be. -/
def callee : Value → Eval Closure
  | .function f => return f
  | v => raise (.notFunction v.kind)

/-- What is left of leaving a function: a returned value is the value of the call. -/
def atCall : Except Unwind Value → Except Unwind Value
  | .error (.returned v) => .ok v
  | r => r

/-- Enters a function and leaves it again, in whatever way. -/
def call (arity : Nat) (body : Eval Value) : Eval Value := ExceptT.mk do
  modify fun w => w.note (.entered arity)
  let r ← body.run
  modify fun w => w.note (.exited arity)
  return atCall r

end Eval

section

variable (apply : Closure → List Value → Eval Value)

mutual

/-- The value of an expression. -/
def Expr.eval (scope : ScopeId) : Expr → Eval Value
  | .ident id => Eval.lookup scope id.name
  | .int _ n => return .int n
  | .float _ x => return .float x
  | .bool _ b => return .bool b
  | .string _ s => return .string s
  | .unary _ op e => do
    let v ← e.eval scope
    Eval.settle (Value.unary op v)
  | .binary _ l op r => do
    let a ← l.eval scope
    let b ← r.eval scope
    Eval.settle (Value.binary op a b)
  | .cond _ c a none => do
    let v ← c.eval scope
    if v.truthy then a.eval scope else return .null
  | .cond _ c a (some b) => do
    let v ← c.eval scope
    if v.truthy then a.eval scope else b.eval scope
  | .function _ ps b => Eval.makeFunction scope ps b
  | .call _ f as => do
    let v ← f.eval scope
    let g ← Eval.callee v
    let vs ← Expr.evalAll scope as
    apply g vs

/-- The values of a list of expressions, from left to right. -/
def Expr.evalAll (scope : ScopeId) : List Expr → Eval (List Value)
  | [] => return []
  | e :: es => do
    let v ← e.eval scope
    let vs ← Expr.evalAll scope es
    return v :: vs

/-- The value of a statement. -/
def Stmt.eval (scope : ScopeId) : Stmt → Eval Value
  | .bind _ id e => do
    let v ← e.eval scope
    Eval.bindName scope id.name v
    return .null
  | .ret _ e => do
    let v ← e.eval scope
    throw (.returned v)
  | .expr _ e => e.eval scope
  | .block b => b.eval scope

/-- The value of a block. -/
def Block.eval (scope : ScopeId) : Block → Eval Value
  | ⟨_, ss⟩ => Stmt.evalAll scope .null ss

/-- The value of a list of statements, `last` being the value of the one before. -/
def Stmt.evalAll (scope : ScopeId) (last : Value) : List Stmt → Eval Value
  | [] => return last
  | s :: ss => do
    let v ← s.eval scope
    Stmt.evalAll scope v ss

end

/-- The value of a function's body, in a scope where its parameters are bound to the arguments. -/
def Closure.enter (f : Closure) (args : List Value) : Eval Value := do
  if args.length = f.arity then
    let scope ← Eval.openScope f.scope
    Eval.bindAll scope f.names args
    f.body.eval apply scope
  else Eval.raise (.wrongArity f.arity args.length)

end

/-- Applies a function, with a limit on the calls that are open at once. -/
def applyWithin : Nat → Closure → List Value → Eval Value
  | 0, _, _ => Eval.exhausted
  | n + 1, f, args => Eval.call f.arity (f.enter (applyWithin n) args)

/-- The value of a program: a return leaves the program with its value, and a fault is an error. -/
def Unwind.value : Unwind → Value
  | .returned v => v
  | .fault f => .error f.message

/-- Evaluates a program in a scope, with a limit on the calls that are open at once. -/
def Program.eval (limit : Nat) (scope : ScopeId) (p : Program) (w : World) : Option (Value × World) :=
  match (Stmt.evalAll (applyWithin limit) scope .null p.statements).run.run w with
  | some (.ok v, w) => some (v, w)
  | some (.error u, w) => some (u.value, w)
  | none => none

end Scriptlet
