import Scriptlet.Tree

/-!
# The text of a tree

Every operator is written with parentheses around it, so the grouping can be seen; statements follow each other without a
separator of their own, and a binding or a return ends with a semicolon. A literal is written as its token, except a string,
which is written between quotes.
-/

namespace Scriptlet

namespace Identifier

/-- The names of a list, with a comma between two of them. -/
def renderAll (ids : List Identifier) : String := ", ".intercalate (ids.map Identifier.name)

end Identifier

mutual

/-- The text of an expression. -/
def Expr.render : Expr → String
  | .ident id => id.name
  | .int t _ | .float t _ | .bool t _ => t.literal
  | .string _ v => "\"" ++ v ++ "\""
  | .unary _ op e => "(" ++ op ++ e.render ++ ")"
  | .binary _ l op r => "(" ++ l.render ++ " " ++ op ++ " " ++ r.render ++ ")"
  | .cond _ c a none => "if" ++ c.render ++ " " ++ a.render
  | .cond _ c a (some b) => "if" ++ c.render ++ " " ++ a.render ++ "else " ++ b.render
  | .function t ps b => t.literal ++ "(" ++ Identifier.renderAll ps ++ ") " ++ b.render
  | .call _ f as => f.render ++ "(" ++ ", ".intercalate (Expr.renderAll as) ++ ")"

/-- The texts of a list of expressions. -/
def Expr.renderAll : List Expr → List String
  | [] => []
  | e :: es => e.render :: Expr.renderAll es

/-- The text of a statement. -/
def Stmt.render : Stmt → String
  | .bind t id v => t.literal ++ " " ++ id.name ++ " = " ++ v.render ++ ";"
  | .ret t v => t.literal ++ " " ++ v.render ++ ";"
  | .expr _ e => e.render
  | .block b => b.render

/-- The text of the statements between the braces of a block, without the braces. -/
def Block.render : Block → String
  | ⟨_, ss⟩ => Stmt.renderAll ss

/-- The texts of a list of statements, one after the other. -/
def Stmt.renderAll : List Stmt → String
  | [] => ""
  | s :: ss => s.render ++ Stmt.renderAll ss

end

/-- The text of a program. -/
def Program.render (p : Program) : String := Stmt.renderAll p.statements

end Scriptlet
