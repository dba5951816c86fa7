import Scriptlet.Grammar.Precedence
import Scriptlet.Numeral.Digits
import Scriptlet.Tree

/-!
# The grammar

The grammar of the language, as relations between a list of tokens and the tree that the tokens spell. Nothing of the way a text
is read is in them: no limit, no place in the text, no state.

    program   = statement*
    statement = `let` name `=` expr end | `return` expr end | expr end | block
    block     = `{` statement* `}`
    expr      = equality
    equality  = order    | equality (`==` | `!=`) order
    order     = sum      | order (`<` | `>` | `<=` | `>=`) sum
    sum       = product  | sum (`+` | `-`) product
    product   = unary    | product (`*` | `/`) unary
    unary     = call     | (`!` | `-`) unary
    call      = primary  | call `(` [expr (`,` expr)*] `)`
    primary   = name | integer | float | string | `true` | `false` | `(` expr `)`
              | `if` `(` expr `)` block [`else` block] | `fn` `(` [name (`,` name)*] `)` block

`Expr.Spelled p ts e` says that `ts` is derived from the level `p`, the level `lowest` being that of all expressions; the operators
of a level are listed in `Kind.infixLevel?`, apart from the table that reading uses. What may end a statement is a parameter of
the relations: a semicolon (`Semicolon`), or a semicolon or nothing (`OptionalSemicolon`). Every node keeps the token that the
grammar names for it, and parentheses around an expression leave no node.
-/

namespace Scriptlet

/-- The level of an operator between two operands. -/
def Kind.infixLevel? : Kind → Option Precedence
  | .eq | .ne => some .equality
  | .lt | .gt | .le | .ge => some .order
  | .plus | .minus => some .sum
  | .star | .slash => some .product
  | _ => none

/-- The operators before an operand. -/
def Kind.isUnary : Kind → Bool
  | .bang | .minus => true
  | _ => false

/-- A semicolon. -/
def Semicolon (ts : List Token) : Prop := ∃ t : Token, t.kind = .semicolon ∧ ts = [t]

/-- A semicolon, or nothing. -/
def OptionalSemicolon (ts : List Token) : Prop := ts = [] ∨ Semicolon ts

namespace Identifier

/-- Names, each after a comma. -/
inductive SpelledMore : List Token → List Identifier → Prop where
  | nil : SpelledMore [] []
  | cons {c t : Token} {ts : List Token} {ids : List Identifier} : c.kind = .comma → t.kind = .ident →
      SpelledMore ts ids → SpelledMore (c :: t :: ts) (⟨t, t.literal⟩ :: ids)

/-- Names with a comma between two of them. -/
inductive SpelledAll : List Token → List Identifier → Prop where
  | nil : SpelledAll [] []
  | cons {t : Token} {ts : List Token} {ids : List Identifier} : t.kind = .ident → SpelledMore ts ids →
      SpelledAll (t :: ts) (⟨t, t.literal⟩ :: ids)

end Identifier

section

variable (End : List Token → Prop)

mutual

/-- The tokens of an expression of a level. -/
inductive Expr.Spelled : Precedence → List Token → Expr → Prop where
  | stronger {p q : Precedence} {ts : List Token} {e : Expr} : p < q → Expr.Spelled q ts e → Expr.Spelled p ts e
  | ident {t : Token} : t.kind = .ident → Expr.Spelled .call [t] (.ident ⟨t, t.literal⟩)
  /-- An integer numeral has to be in range. -/
  | int {t : Token} {n : Int64} : t.kind = .int → Numeral.integer? t.literal = some n → Expr.Spelled .call [t] (.int t n)
  | float {t : Token} {x : Float} : t.kind = .float → Numeral.float? t.literal = some x →
      Expr.Spelled .call [t] (.float t x)
  | string {t : Token} : t.kind = .string → Expr.Spelled .call [t] (.string t t.literal)
  | true {t : Token} : t.kind = .kwTrue → Expr.Spelled .call [t] (.bool t true)
  | false {t : Token} : t.kind = .kwFalse → Expr.Spelled .call [t] (.bool t false)
  | group {o c : Token} {ts : List Token} {e : Expr} : o.kind = .lparen → Expr.Spelled .lowest ts e → c.kind = .rparen →
      Expr.Spelled .call (o :: (ts ++ [c])) e
  | unary {t : Token} {ts : List Token} {e : Expr} : t.kind.isUnary = true → Expr.Spelled .unary ts e →
      Expr.Spelled .unary (t :: ts) (.unary t t.literal e)
  /-- Equal operators group to the left: the right operand is of a stronger level. -/
  | binary {p q : Precedence} {t : Token} {ls rs : List Token} {l r : Expr} : t.kind.infixLevel? = some p →
      Expr.Spelled p ls l → p < q → Expr.Spelled q rs r → Expr.Spelled p (ls ++ t :: rs) (.binary t l t.literal r)
  | cond {t o c : Token} {cs as bs : List Token} {e : Expr} {a : Block} {b? : Option Block} : t.kind = .kwIf →
      o.kind = .lparen → Expr.Spelled .lowest cs e → c.kind = .rparen → Block.Spelled as a →
      Block.SpelledElse bs b? → Expr.Spelled .call (t :: o :: (cs ++ c :: (as ++ bs))) (.cond t e a b?)
  | function {t o c : Token} {is bs : List Token} {ids : List Identifier} {b : Block} : t.kind = .kwFn →
      o.kind = .lparen → Identifier.SpelledAll is ids → c.kind = .rparen → Block.Spelled bs b →
      Expr.Spelled .call (t :: o :: (is ++ c :: bs)) (.function t ids b)
  | call {o c : Token} {fs as : List Token} {f : Expr} {args : List Expr} : Expr.Spelled .call fs f →
      o.kind = .lparen → Expr.SpelledAll as args → c.kind = .rparen →
      Expr.Spelled .call (fs ++ o :: (as ++ [c])) (.call o f args)

/-- Expressions with a comma between two of them. -/
inductive Expr.SpelledAll : List Token → List Expr → Prop where
  | nil : Expr.SpelledAll [] []
  | cons {ts us : List Token} {e : Expr} {es : List Expr} : Expr.Spelled .lowest ts e → Expr.SpelledMore us es →
      Expr.SpelledAll (ts ++ us) (e :: es)

/-- Expressions, each after a comma. -/
inductive Expr.SpelledMore : List Token → List Expr → Prop where
  | nil : Expr.SpelledMore [] []
  | cons {c : Token} {ts us : List Token} {e : Expr} {es : List Expr} : c.kind = .comma → Expr.Spelled .lowest ts e →
      Expr.SpelledMore us es → Expr.SpelledMore (c :: (ts ++ us)) (e :: es)

/-- The tokens of a statement. -/
inductive Stmt.Spelled : List Token → Stmt → Prop where
  | bind {t i a : Token} {ts us : List Token} {e : Expr} : t.kind = .kwLet → i.kind = .ident → a.kind = .assign →
      Expr.Spelled .lowest ts e → End us → Stmt.Spelled (t :: i :: a :: (ts ++ us)) (.bind t ⟨i, i.literal⟩ e)
  | ret {t : Token} {ts us : List Token} {e : Expr} : t.kind = .kwReturn → Expr.Spelled .lowest ts e → End us →
      Stmt.Spelled (t :: (ts ++ us)) (.ret t e)
  /-- An expression used as a statement keeps its first token. -/
  | expr {t : Token} {ts us : List Token} {e : Expr} : Expr.Spelled .lowest (t :: ts) e → End us →
      Stmt.Spelled (t :: (ts ++ us)) (.expr t e)
  | block {ts : List Token} {b : Block} : Block.Spelled ts b → Stmt.Spelled ts (.block b)

/-- Statements one after the other. -/
inductive Stmt.SpelledAll : List Token → List Stmt → Prop where
  | nil : Stmt.SpelledAll [] []
  | cons {ts us : List Token} {s : Stmt} {ss : List Stmt} : Stmt.Spelled ts s → Stmt.SpelledAll us ss →
      Stmt.SpelledAll (ts ++ us) (s :: ss)

/-- The tokens of a block. -/
inductive Block.Spelled : List Token → Block → Prop where
  | mk {o c : Token} {ts : List Token} {ss : List Stmt} : o.kind = .lbrace → Stmt.SpelledAll ts ss →
      c.kind = .rbrace → Block.Spelled (o :: (ts ++ [c])) ⟨o, ss⟩

/-- The tokens of the block after `else`, or none. -/
inductive Block.SpelledElse : List Token → Option Block → Prop where
  | none : Block.SpelledElse [] none
  | some {t : Token} {ts : List Token} {b : Block} : t.kind = .kwElse → Block.Spelled ts b →
      Block.SpelledElse (t :: ts) (some b)

end

/-- The tokens of a program. -/
def Program.Spelled (ts : List Token) (p : Program) : Prop := Stmt.SpelledAll End ts p.statements

end

/-! ## Levels -/

/-- The table that reading uses lists the operators between two operands at the same levels, and the call beside them. -/
theorem Kind.infixLevel?_eq_some_iff {k : Kind} {p : Precedence} :
    k.infixLevel? = some p ↔ k.precedence = p ∧ p ≠ .lowest ∧ k ≠ .lparen := by
  cases k <;> cases p <;> decide

namespace Precedence

/-- An operator between two operands binds less than an operator before its operand. -/
theorem lt_unary_of_infixLevel? {k : Kind} {p : Precedence} (h : k.infixLevel? = some p) : p < unary := by
  cases k <;> cases p <;> first | decide | cases h

/-- The weakest level that binds more than the place where an expression stands; behind an operator before its operand, that is
its own level. -/
def operandLevel : Precedence → Precedence
  | lowest => equality
  | equality => order
  | order => sum
  | sum => product
  | product | unary | call => unary

theorem operandLevel_le_unary (p : Precedence) : p.operandLevel ≤ unary := by cases p <;> decide

theorem operandLevel_le_of_lt {p q : Precedence} (h : p < q) : p.operandLevel ≤ q := by
  revert h
  cases p <;> cases q <;> decide

theorem lt_operandLevel {p : Precedence} (h : p < unary) : p < p.operandLevel := by
  revert h
  cases p <;> decide

end Precedence

/-- The kinds of the tokens that an expression can start with. -/
def Kind.startsExpr : Kind → Bool
  | .ident | .int | .float | .string | .kwTrue | .kwFalse | .bang | .minus | .lparen | .kwIf | .kwFn => true
  | _ => false

theorem Kind.startsExpr_of_isUnary {k : Kind} (h : k.isUnary = true) : k.startsExpr = true := by
  cases k <;> first | rfl | cases h

variable {End : List Token → Prop}

namespace Expr

/-- What is derived from a level is derived from every weaker one. -/
theorem Spelled.weaken {p q : Precedence} {ts : List Token} {e : Expr} (h : Spelled End q ts e) (hpq : p ≤ q) :
    Spelled End p ts e := by
  rcases Precedence.eq_or_lt_of_le hpq with rfl | hlt
  · exact h
  · exact .stronger hlt h

theorem Spelled.lowest {p : Precedence} {ts : List Token} {e : Expr} (h : Spelled End p ts e) :
    Spelled End .lowest ts e :=
  h.weaken (Precedence.lowest_le p)

/-- An expression has a first token, and it is one that an expression can start with. -/
theorem Spelled.first {p : Precedence} {e : Expr} :
    ∀ {ts : List Token}, Spelled End p ts e → ∃ t ts', ts = t :: ts' ∧ t.kind.startsExpr
  | _, .stronger _ h => h.first
  | _, .ident hk | _, .int hk _ | _, .float hk _ | _, .string hk | _, .true hk | _, .false hk | _, .group hk _ _
  | _, .cond hk _ _ _ _ _ | _, .function hk _ _ _ _ => ⟨_, _, rfl, by rw [hk]; rfl⟩
  | _, .unary hk _ => ⟨_, _, rfl, Kind.startsExpr_of_isUnary hk⟩
  | _, .binary _ h _ _ => by
    obtain ⟨t, ts', rfl, ht⟩ := h.first
    exact ⟨t, _, List.cons_append, ht⟩
  | _, .call h _ _ _ => by
    obtain ⟨t, ts', rfl, ht⟩ := h.first
    exact ⟨t, _, List.cons_append, ht⟩

end Expr

/-- A block has a first token, its opening brace. -/
theorem Block.Spelled.first {b : Block} {ts : List Token} (h : Block.Spelled End ts b) :
    ∃ t ts', ts = t :: ts' ∧ t.kind = .lbrace := by
  cases h with
  | mk hk _ _ => exact ⟨_, _, rfl, hk⟩

/-- A statement has a first token, and it is not the end of a block. -/
theorem Stmt.Spelled.first {s : Stmt} {ts : List Token} (h : Stmt.Spelled End ts s) :
    ∃ t ts', ts = t :: ts' ∧ t.kind ≠ .rbrace ∧ t.kind ≠ .eof := by
  cases h with
  | bind hk _ _ _ _ => exact ⟨_, _, rfl, by rw [hk]; decide, by rw [hk]; decide⟩
  | ret hk _ _ => exact ⟨_, _, rfl, by rw [hk]; decide, by rw [hk]; decide⟩
  | expr he _ =>
    obtain ⟨t, ts', heq, ht⟩ := he.first
    cases heq
    exact ⟨_, _, rfl, fun hk => (by rw [hk] at ht; cases ht), fun hk => (by rw [hk] at ht; cases ht)⟩
  | block hb =>
    cases hb with
    | mk hk _ _ => exact ⟨_, _, rfl, by rw [hk]; decide, by rw [hk]; decide⟩

end Scriptlet
