import Scriptlet.Token
import Scriptlet.Text.Quoted

/-!
# Diagnostics

A diagnostic is a mistake found while a program is read: a `Problem` and the place where it stands. Reading goes on after a
mistake, so a text can have several; a text with at least one of them is not run, and its `Rejection` lists them all.
-/

namespace Scriptlet

/-- A mistake in the text of a program. -/
inductive Problem where
  /-- A token of one kind was needed, and one of another kind follows. -/
  | unexpected (expected got : Kind)
  /-- A token of this kind cannot start an expression. -/
  | noOperand (kind : Kind)
  /-- A numeral without a point is too large. -/
  | badInteger (literal : String)
  /-- A numeral with a point has no value. -/
  | badFloat (literal : String)
  deriving DecidableEq

/-- A mistake and its place. -/
structure Diagnostic where
  problem : Problem
  pos : Pos
  deriving DecidableEq

/-- The place as it is named in messages. -/
def Pos.phrase (p : Pos) : String := "line " ++ toString p.line ++ ", column " ++ toString p.column

namespace Diagnostic

/-- The text of a diagnostic. -/
def message (d : Diagnostic) : String :=
  match d.problem with
  | .unexpected e g =>
    "expected next token to be " ++ e.name ++ ", got " ++ g.name ++ " instead at " ++ d.pos.phrase
  | .noOperand k => "no prefix parse function for " ++ k.name ++ " found at " ++ d.pos.phrase
  | .badInteger s => "could not parse " ++ quoted s ++ " as integer at " ++ d.pos.phrase
  | .badFloat s => "could not parse " ++ quoted s ++ " as float at " ++ d.pos.phrase

end Diagnostic

/-- A text that is not run because of the mistakes in it. -/
structure Rejection where
  diagnostics : List Diagnostic
  deriving DecidableEq

/-- The text of a rejection: the number of mistakes, and a line for each. -/
def Rejection.message (r : Rejection) : String :=
  toString r.diagnostics.length ++ " parse error(s):\n" ++
    "\n".intercalate (r.diagnostics.map fun d => "\t" ++ d.message)

end Scriptlet
