import Scriptlet.Grammar.Rules

/-!
# Reading a program

`Lexer.parse` reads the tokens from a place in a text to its end and gives the program, with every diagnostic in the order in
which they were noted. A program is given in any case; only one without diagnostics is what the text says.

The limit given to the rules is four for each token and eight more. On the way to a token the rules contain each other at most
four deep, so the limit is never used up.
-/

namespace Scriptlet

/-- What reading a text gives. -/
structure Parsed (σ : Type) where
  program : Program
  diagnostics : List Diagnostic
  /-- The number of statements that are missing from the program because they could not be read. -/
  dropped : Nat
  /-- The number of blocks that are not closed. -/
  unclosed : Nat
  /-- The last state of the tracer. -/
  trace : σ

/-- Reading from a place in a text, with a tracer in a given state. -/
def Lexer.reading {σ : Type} (l : Lexer) (trace : σ) : Reading σ where
  rest := l.tokens
  eof := l.finish.eof
  depth := 0
  diagnostics := #[]
  dropped := 0
  unclosed := 0
  trace := trace

/-- A limit on how deeply rules contain each other that is enough for the tokens left. -/
def Reading.limit {σ : Type} (r : Reading σ) : Nat := 4 * r.rest.length + 8

/-- Reads the statements from a place to the end of the text. -/
def Reading.readAll {σ : Type} (tr : Tracer σ) (r : Reading σ) : List Stmt × Reading σ :=
  ((Grammar.program tr r.limit).run r).getD ([], r)

/-- Reads a program from a place in a text, watched by a tracer. -/
def Lexer.parse {σ : Type} (tr : Tracer σ) (trace : σ) (l : Lexer) : Parsed σ :=
  let (ss, r) := (l.reading trace).readAll tr
  ⟨⟨ss⟩, r.diagnostics.toList, r.dropped, r.unclosed, r.trace⟩

/-- Reads a program from a text, watched by a tracer. -/
def parseTraced {σ : Type} (tr : Tracer σ) (trace : σ) (text : String) : Parsed σ := (Lexer.ofText text).parse tr trace

/-- Reads a program from a text. -/
def parse (text : String) : Parsed Unit := parseTraced Tracer.silent () text

end Scriptlet
