import Scriptlet.Grammar.Precedence
import Scriptlet.Grammar.Reading
import Scriptlet.Numeral.Digits

/-!
# The grammar

Each rule starts at the first token of its phrase and, if it finds the phrase, stops at the last one.

* A statement is a binding, a return, a block or an expression; the first two and the last may end with a semicolon.
* An expression is an operand, followed by operators that bind more strongly than the place where it stands. An operator takes
  what binds more strongly than itself as its right operand, so equal operators group to the left (`climb`).
* A block reads statements up to its closing brace. A statement that is not read is skipped and the block goes on, so a block is
  always found (`items`); so is a program (`program`).

The rules that contain each other take a limit on how deeply they may do so; the others take the rules for their parts.
-/

namespace Scriptlet

namespace Grammar

variable {σ : Type} (tr : Tracer σ)

/-! ### Phrases without parts -/

/-- A variable. -/
def variableName : Parse σ Expr := traced tr .identifier do
  let id ← identifier
  return .ident id

/-- A literal for the value of a numeral; a numeral without a value is refused. -/
def numeralLiteral {ν : Type} (phrase : Phrase) (value? : String → Option ν) (literal : Token → ν → Expr) (problem : String → Problem) :
    Parse σ Expr := traced tr phrase do
  let t := (← get).current
  match value? t.literal with
  | some v => return literal t v
  | none => refuse (problem t.literal) t.pos

/-- An integer literal; one that is too large is refused. -/
def integerLiteral : Parse σ Expr := numeralLiteral tr .integerLiteral Numeral.integer? .int .badInteger

/-- A float literal. -/
def floatLiteral : Parse σ Expr := numeralLiteral tr .floatLiteral Numeral.float? .float .badFloat

/-- A string literal. -/
def stringLiteral : Parse σ Expr := do
  let t := (← get).current
  return .string t t.literal

/-- One of the two truth values. -/
def boolean : Parse σ Expr := traced tr .boolean do
  let t := (← get).current
  return .bool t (t.kind == .kwTrue)

/-- The parameters of a function after the first one. -/
def moreParameters : Nat → Parse σ (List Identifier)
  | 0 => exhausted
  | n + 1 => do
    let t := (← get).following
    if t.kind = .comma then
      modify Reading.advance
      expect .ident
      let id ← identifier
      let ids ← moreParameters n
      return id :: ids
    else return []

/-- The parameters of a function, from the opening parenthesis to the closing one. -/
def parameters (limit : Nat) : Parse σ (List Identifier) := traced tr .functionParameters do
  let t := (← get).following
  if t.kind = .rparen then
    modify Reading.advance
    return []
  else
    expect .ident
    let id ← identifier
    let ids ← moreParameters limit
    expect .rparen
    return id :: ids

/-! ### Phrases with parts -/

section

variable (expression : Precedence → Parse σ Expr) (block : Step σ Block)

/-- A binding. -/
def letStatement : Parse σ Stmt := traced tr .letStatement do
  let t := (← get).current
  expect .ident
  let id ← identifier
  expect .assign
  modify Reading.advance
  let value ← expression .lowest
  skipOver .semicolon
  return .bind t id value

/-- A return. -/
def returnStatement : Parse σ Stmt := traced tr .returnStatement do
  let t := (← get).current
  modify Reading.advance
  let value ← expression .lowest
  skipOver .semicolon
  return .ret t value

/-- An expression used as a statement. -/
def expressionStatement : Parse σ Stmt := traced tr .expressionStatement do
  let t := (← get).current
  let e ← expression .lowest
  skipOver .semicolon
  return .expr t e

/-- An operator before its operand. -/
def unaryExpression : Parse σ Expr := traced tr .prefixExpression do
  let t := (← get).current
  modify Reading.advance
  let e ← expression .unary
  return .unary t t.literal e

/-- An operator after its left operand. -/
def binaryExpression (left : Expr) : Parse σ Expr := traced tr .infixExpression do
  let t := (← get).current
  modify Reading.advance
  let right ← expression t.kind.precedence
  return .binary t left t.literal right

/-- An expression between parentheses. -/
def groupedExpression : Parse σ Expr := do
  modify Reading.advance
  let e ← expression .lowest
  expect .rparen
  return e

/-- The block after `else`, if there is one. -/
def alternative : Parse σ (Option Block) := do
  let t := (← get).following
  if t.kind = .kwElse then
    modify Reading.advance
    expect .lbrace
    let b ← block
    return some b
  else return none

/-- A choice between two blocks. -/
def conditional : Parse σ Expr := traced tr .ifExpression do
  let t := (← get).current
  expect .lparen
  modify Reading.advance
  let condition ← expression .lowest
  expect .rparen
  expect .lbrace
  let consequence ← block
  let other ← alternative block
  return .cond t condition consequence other

/-- A function. -/
def functionLiteral (limit : Nat) : Parse σ Expr := traced tr .functionLiteral do
  let t := (← get).current
  expect .lparen
  let ps ← parameters tr limit
  expect .lbrace
  let body ← block
  return .function t ps body

/-- A call, after the expression that is called. -/
def callExpression (arguments : Parse σ (List Expr)) (callee : Expr) : Parse σ Expr := traced tr .callExpression do
  let t := (← get).current
  let args ← arguments
  return .call t callee args

end

/-! ### Phrases that contain each other -/

mutual

/-- An expression, as far as its operators bind more strongly than the place where it stands. -/
def expression : Nat → Precedence → Parse σ Expr
  | 0, _ => exhausted
  | n + 1, p => traced tr .expression do
    let e ← operand n
    climb n p e

/-- An expression up to its first operator. -/
def operand : Nat → Parse σ Expr
  | 0 => exhausted
  | n + 1 => do
    let t := (← get).current
    match t.kind with
    | .ident => variableName tr
    | .int => integerLiteral tr
    | .float => floatLiteral tr
    | .string => stringLiteral
    | .kwTrue | .kwFalse => boolean tr
    | .bang | .minus => unaryExpression tr (expression n)
    | .lparen => groupedExpression (expression n)
    | .kwIf => conditional tr (expression n) (block n)
    | .kwFn => functionLiteral tr (block n) n
    | k => refuse (.noOperand k) t.pos

/-- The operators after an expression, as far as they bind more strongly than the place where it stands. -/
def climb : Nat → Precedence → Expr → Parse σ Expr
  | 0, _, _ => exhausted
  | n + 1, p, left => do
    let t := (← get).following
    if p < t.kind.precedence then
      modify Reading.advance
      let e ← extension n t.kind left
      climb n p e
    else return left

/-- One operator after an expression, or a call of it. -/
def extension : Nat → Kind → Expr → Parse σ Expr
  | 0, _, _ => exhausted
  | n + 1, k, left =>
    if k = .lparen then callExpression tr (arguments n) left else binaryExpression tr (expression n) left

/-- The arguments of a call, from the opening parenthesis to the closing one. -/
def arguments : Nat → Parse σ (List Expr)
  | 0 => exhausted
  | n + 1 => do
    let t := (← get).following
    if t.kind = .rparen then
      modify Reading.advance
      return []
    else
      modify Reading.advance
      let e ← expression n .lowest
      let es ← moreArguments n
      expect .rparen
      return e :: es

/-- The arguments of a call after the first one. -/
def moreArguments : Nat → Parse σ (List Expr)
  | 0 => exhausted
  | n + 1 => do
    let t := (← get).following
    if t.kind = .comma then
      modify Reading.advance
      modify Reading.advance
      let e ← expression n .lowest
      let es ← moreArguments n
      return e :: es
    else return []

/-- A statement. -/
def statement : Nat → Parse σ Stmt
  | 0 => exhausted
  | n + 1 => do
    let t := (← get).current
    match t.kind with
    | .kwLet => letStatement tr (expression n)
    | .kwReturn => returnStatement tr (expression n)
    | .lbrace => do
      let b ← block n
      return .block b
    | _ => expressionStatement tr (expression n)

/-- A block: its statements up to the closing brace, or to the end of the text. -/
def block : Nat → Step σ Block
  | 0 => exhausted
  | n + 1 => announced tr .blockStatement do
    let t := (← get).current
    modify Reading.openBlock
    let ss ← items n
    modify Reading.closeBlock
    return ⟨t, ss⟩

/-- The statements of a block from the current token on. A statement that is not read is skipped; if that ends at the closing
brace, the block ends there. -/
def items : Nat → Step σ (List Stmt)
  | 0 => exhausted
  | n + 1 => do
    let t := (← get).current
    if t.kind = .rbrace ∨ t.kind = .eof then return []
    else
      let s? ← (statement n).run
      match s? with
      | some s =>
        modify Reading.advance
        let ss ← items n
        return s :: ss
      | none =>
        modify Reading.resync
        let t := (← get).current
        if t.kind = .rbrace then return []
        else
          modify Reading.advance
          items n

end

/-- The statements of a program from the current token on. A statement that is not read is skipped. -/
def program : Nat → Step σ (List Stmt)
  | 0 => exhausted
  | n + 1 => do
    let t := (← get).current
    if t.kind = .eof then return []
    else
      let s? ← (statement tr n).run
      match s? with
      | some s =>
        modify Reading.advance
        let ss ← program n
        return s :: ss
      | none =>
        modify Reading.resync
        modify Reading.advance
        program n

end Grammar

end Scriptlet
