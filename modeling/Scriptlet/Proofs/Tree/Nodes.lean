import Scriptlet.Proofs.Token.Numeral
import Scriptlet.Tree

/-!
# The nodes of a tree

The nodes of a tree in the order of its text: an operator between two operands comes behind the left one, a call behind what is called,
and every other node in front of its parts (`Program.nodes`). Each node but an expression statement has a token of its own, so the nodes
give the tokens of the tree in the order of the text (`Program.tokens`).

A node agrees with its token if the token has the kind that the node is written with, and the literal that its name, its value or its
operator is read from (`Node.Agrees`).
-/

namespace Scriptlet

/-- A node of a tree. A variable is its name, and a block used as a statement is the block. -/
inductive Node where
  | name (id : Identifier)
  | expr (e : Expr)
  | stmt (s : Stmt)
  | block (b : Block)

namespace Node

/-- The token that a node keeps. -/
def token : Node → Token
  | name id => id.token
  | expr e => e.token
  | stmt s => s.token
  | block b => b.token

/-- The token of a node. An expression statement has none of its own: the token that it keeps is one of its expression's text. -/
def token? : Node → Option Token
  | stmt (.expr _ _) => none
  | n => some n.token

/-- A node is what its token says. -/
def Agrees : Node → Prop
  | name id => id.token.kind = .ident ∧ id.name = id.token.literal
  | expr (.ident id) => id.token.kind = .ident ∧ id.name = id.token.literal
  | expr (.int t n) => t.kind = .int ∧ n.toInt = Numeral.decimal t.literal
  | expr (.float t x) => t.kind = .float ∧ Numeral.float? t.literal = some x
  | expr (.bool t b) => t.kind = if b then .kwTrue else .kwFalse
  | expr (.string t v) => t.kind = .string ∧ v = t.literal
  | expr (.unary t op _) => t.kind ∈ [Kind.bang, .minus] ∧ op = t.literal
  | expr (.binary t _ op _) =>
    t.kind ∈ [Kind.plus, .minus, .star, .slash, .lt, .gt, .le, .ge, .eq, .ne] ∧ op = t.literal
  | expr (.cond t _ _ _) => t.kind = .kwIf
  | expr (.function t _ _) => t.kind = .kwFn
  | expr (.call t _ _) => t.kind = .lparen
  | stmt (.bind t _ _) => t.kind = .kwLet
  | stmt (.ret t _) => t.kind = .kwReturn
  | stmt (.expr _ _) => True
  | stmt (.block b) => b.token.kind = .lbrace
  | block b => b.token.kind = .lbrace

end Node

mutual

/-- The nodes of an expression in the order of its text. -/
def Expr.nodes : Expr → List Node
  | .ident id => [.name id]
  | .int t n => [.expr (.int t n)]
  | .float t x => [.expr (.float t x)]
  | .bool t b => [.expr (.bool t b)]
  | .string t v => [.expr (.string t v)]
  | .unary t op e => .expr (.unary t op e) :: e.nodes
  | .binary t l op r => l.nodes ++ .expr (.binary t l op r) :: r.nodes
  | .cond t c a none => .expr (.cond t c a none) :: (c.nodes ++ a.nodes)
  | .cond t c a (some b) => .expr (.cond t c a (some b)) :: (c.nodes ++ (a.nodes ++ b.nodes))
  | .function t ps b => .expr (.function t ps b) :: (ps.map .name ++ b.nodes)
  | .call t e as => e.nodes ++ .expr (.call t e as) :: Expr.nodesAll as

/-- The nodes of expressions, one after the other. -/
def Expr.nodesAll : List Expr → List Node
  | [] => []
  | e :: es => e.nodes ++ Expr.nodesAll es

/-- The nodes of a statement in the order of its text. -/
def Stmt.nodes : Stmt → List Node
  | .bind t id e => .stmt (.bind t id e) :: .name id :: e.nodes
  | .ret t e => .stmt (.ret t e) :: e.nodes
  | .expr t e => .stmt (.expr t e) :: e.nodes
  | .block b => b.nodes

/-- The nodes of a block in the order of its text. -/
def Block.nodes : Block → List Node
  | ⟨t, ss⟩ => .block ⟨t, ss⟩ :: Stmt.nodesAll ss

/-- The nodes of statements, one after the other. -/
def Stmt.nodesAll : List Stmt → List Node
  | [] => []
  | s :: ss => s.nodes ++ Stmt.nodesAll ss

end

/-- The nodes of a program in the order of its text. -/
def Program.nodes (p : Program) : List Node := Stmt.nodesAll p.statements

/-- The tokens of an expression's nodes in the order of its text. -/
def Expr.tokens (e : Expr) : List Token := e.nodes.filterMap Node.token?

/-- The tokens of a program's nodes in the order of its text. -/
def Program.tokens (p : Program) : List Token := p.nodes.filterMap Node.token?

theorem Expr.nodes_cond (t : Token) (c : Expr) (a : Block) (b? : Option Block) :
    (Expr.cond t c a b?).nodes = .expr (.cond t c a b?) :: (c.nodes ++ (a.nodes ++ b?.elim [] Block.nodes)) := by
  cases b? <;> simp [Expr.nodes]

end Scriptlet
