import Scriptlet.Tree

/-!
# Sameness of trees

Two trees are the same if they have the same shape, the same tokens with the same positions, and the same values. Floats are
compared as numbers, so a tree with a NaN in it differs from itself.
-/

namespace Scriptlet

mutual

/-- Sameness of two expressions. -/
def Expr.same : Expr → Expr → Bool
  | .ident a, .ident b => a == b
  | .int t a, .int u b => t == u && a == b
  | .float t a, .float u b => t == u && a == b
  | .bool t a, .bool u b => t == u && a == b
  | .string t a, .string u b => t == u && a == b
  | .unary t o a, .unary u p b => t == u && o == p && a.same b
  | .binary t a o b, .binary u c p d => t == u && a.same c && o == p && b.same d
  | .cond t c a none, .cond u d b none => t == u && c.same d && a.same b
  | .cond t c a (some x), .cond u d b (some y) => t == u && c.same d && a.same b && x.same y
  | .function t ps a, .function u qs b => t == u && ps == qs && a.same b
  | .call t f as, .call u g bs => t == u && f.same g && Expr.sameAll as bs
  | _, _ => false

/-- Sameness of two lists of expressions. -/
def Expr.sameAll : List Expr → List Expr → Bool
  | [], [] => true
  | a :: as, b :: bs => a.same b && Expr.sameAll as bs
  | _, _ => false

/-- Sameness of two statements. -/
def Stmt.same : Stmt → Stmt → Bool
  | .bind t i a, .bind u j b => t == u && i == j && a.same b
  | .ret t a, .ret u b => t == u && a.same b
  | .expr t a, .expr u b => t == u && a.same b
  | .block a, .block b => a.same b
  | _, _ => false

/-- Sameness of two blocks. -/
def Block.same : Block → Block → Bool
  | ⟨t, as⟩, ⟨u, bs⟩ => t == u && Stmt.sameAll as bs

/-- Sameness of two lists of statements. -/
def Stmt.sameAll : List Stmt → List Stmt → Bool
  | [], [] => true
  | a :: as, b :: bs => a.same b && Stmt.sameAll as bs
  | _, _ => false

end

instance : BEq Program := ⟨fun p q => Stmt.sameAll p.statements q.statements⟩

end Scriptlet
