import Scriptlet.Token

/-!
# Program trees

A program is a list of statements. Every node keeps the token it was read from, so that a tree can be shown and located without
its text. An operator is kept as its text: a tree may be built by hand with any text there, and only evaluation gives it a
meaning.

The `literal` of a node is the text of the token it keeps; that of a program is the one of its first statement.
-/

namespace Scriptlet

/-- A name with the token it stands in. -/
structure Identifier where
  token : Token
  name : String
  deriving DecidableEq, Inhabited

mutual

/-- Expressions. -/
inductive Expr where
  | ident (id : Identifier)
  | int (token : Token) (value : Int64)
  | float (token : Token) (value : Float)
  | bool (token : Token) (value : Bool)
  | string (token : Token) (value : String)
  | unary (token : Token) (operator : String) (operand : Expr)
  | binary (token : Token) (left : Expr) (operator : String) (right : Expr)
  /-- A choice between two blocks, of which the second may be missing. -/
  | cond (token : Token) (condition : Expr) (consequence : Block) (alternative : Option Block)
  | function (token : Token) (parameters : List Identifier) (body : Block)
  /-- A call; its token is the opening parenthesis. -/
  | call (token : Token) (callee : Expr) (arguments : List Expr)

/-- Statements. -/
inductive Stmt where
  /-- Binds a name to a value. -/
  | bind (token : Token) (id : Identifier) (value : Expr)
  /-- Leaves the function, or the program, with a value. -/
  | ret (token : Token) (value : Expr)
  /-- An expression used as a statement; its token is the first one of the expression's text. -/
  | expr (token : Token) (expression : Expr)
  | block (block : Block)

/-- Statements between braces; the token is the opening brace. -/
structure Block where
  token : Token
  statements : List Stmt

end

/-- A program. -/
structure Program where
  statements : List Stmt

instance : Inhabited Expr := ⟨.ident default⟩
instance : Inhabited Block := ⟨⟨default, []⟩⟩
instance : Inhabited Stmt := ⟨.block default⟩
instance : Inhabited Program := ⟨⟨[]⟩⟩

namespace Expr

/-- The token a node keeps. -/
def token : Expr → Token
  | ident id => id.token
  | int t _ | float t _ | bool t _ | string t _ => t
  | unary t _ _ | binary t _ _ _ | cond t _ _ _ | function t _ _ | call t _ _ => t

/-- The text of the token a node keeps. -/
def literal (e : Expr) : String := e.token.literal

end Expr

namespace Stmt

/-- The token a node keeps. -/
def token : Stmt → Token
  | bind t _ _ | ret t _ | expr t _ => t
  | block b => b.token

/-- The text of the token a node keeps. -/
def literal (s : Stmt) : String := s.token.literal

end Stmt

/-- The text of the first statement's token; nothing for the empty program. -/
def Program.literal (p : Program) : String := (p.statements.head?.map Stmt.literal).getD ""

end Scriptlet
