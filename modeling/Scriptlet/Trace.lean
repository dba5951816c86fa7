import Scriptlet.Record

/-!
# Watching a reading

While a program is read, a `Tracer` is told the name of each phrase that is started and, whether the phrase is found or not,
that it has ended. A tracer has a state of its own and no other way to act, so it cannot change what is read.

There are three: one that keeps nothing, one that writes a text with a line per call, indented by the phrases still open, and one
that makes a log record per call, with the number of phrases still open.
-/

namespace Scriptlet

/-- The phrases of the grammar that are announced. -/
inductive Phrase where
  | letStatement | returnStatement | expressionStatement | blockStatement
  | expression | identifier | integerLiteral | floatLiteral | boolean
  | prefixExpression | infixExpression | ifExpression | functionLiteral | functionParameters | callExpression
  deriving DecidableEq

/-- The name a phrase is announced under. -/
def Phrase.name : Phrase → String
  | letStatement => "parse_let_statement"
  | returnStatement => "parse_return_statement"
  | expressionStatement => "parse_expression_statement"
  | blockStatement => "parse_block_statement"
  | expression => "parse_expression"
  | identifier => "parse_identifier"
  | integerLiteral => "parse_integer_literal"
  | floatLiteral => "parse_float_literal"
  | boolean => "parse_boolean"
  | prefixExpression => "parse_prefix_expression"
  | infixExpression => "parse_infix_expression"
  | ifExpression => "parse_if_expression"
  | functionLiteral => "parse_function_literal"
  | functionParameters => "parse_function_parameters"
  | callExpression => "parse_call_expression"

/-- A listener with a state. -/
structure Tracer (σ : Type) where
  /-- What the start of something with this name does to the state. -/
  enter : String → σ → σ
  /-- What its end does to the state. -/
  leave : String → σ → σ

/-- The line that announces a start. -/
def beginText (name : String) : String := "BEGIN " ++ name

/-- The line that announces an end. -/
def endText (name : String) : String := "END " ++ name

namespace Tracer

/-- Keeps nothing. -/
def silent : Tracer Unit where
  enter _ s := s
  leave _ s := s

end Tracer

/-- Lines of starts and ends, and the number of starts that have no end yet. -/
structure IndentTrace where
  level : Nat
  lines : Array String
  deriving DecidableEq

namespace IndentTrace

/-- Nothing is started. -/
def empty : IndentTrace := ⟨0, #[]⟩

/-- A line at a level: a tab for each start still open but one, and a text. -/
def line (level : Nat) (text : String) : String := String.ofList (List.replicate (level - 1) '\t') ++ text

/-- Writes a line for each start, which it counts, and each end, which counts as still open; an end without a start is written
as on the lowest level. -/
def tracer : Tracer IndentTrace where
  enter name s := ⟨s.level + 1, s.lines.push (line (s.level + 1) (beginText name))⟩
  leave name s := ⟨s.level - 1, s.lines.push (line s.level (endText name))⟩

/-- The text of the lines, each with a newline at its end. -/
def output (s : IndentTrace) : String := s.lines.foldl (fun text l => text ++ l ++ "\n") ""

end IndentTrace

/-- Log records of starts and ends, and the number of starts that have no end yet. -/
structure LogTrace where
  depth : Nat
  records : Array Record
  deriving DecidableEq

namespace LogTrace

/-- Nothing is started. -/
def empty : LogTrace := ⟨0, #[]⟩

/-- The record of a text at a depth. -/
def record (depth : Nat) (text : String) : Record := ⟨.trace, "event", [("message", text), ("depth", toString depth)]⟩

/-- Makes a record for each start, which it counts, and each end, which counts as still open. -/
def tracer : Tracer LogTrace where
  enter name s := ⟨s.depth + 1, s.records.push (record (s.depth + 1) (beginText name))⟩
  leave name s := ⟨s.depth - 1, s.records.push (record s.depth (endText name))⟩

end LogTrace

end Scriptlet
