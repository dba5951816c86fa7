import Scriptlet.Diagnostic
import Scriptlet.Token.Lexer
import Scriptlet.Trace
import Scriptlet.Tree

/-!
# Reading tokens

A `Reading` is a place in the tokens of a text, with what has been noted on the way there. It looks at two tokens, the current
one and the one after it, and moves on one token at a time; past the last token it stays at the token of kind `eof`.

A `Step` is a part of reading that always has a result, a `Parse` one that may find no phrase, always after noting a
diagnostic. Either one gives nothing at all when its limit is used up before it is done (`exhausted`); the limit that a whole
text is read with is large enough for that never to happen.

After a statement that is not read, `resync` skips the rest of it.
-/

namespace Scriptlet

/-- A place in the tokens of a text, with what has been noted so far. -/
structure Reading (σ : Type) where
  /-- The tokens from the current one on. -/
  rest : List Token
  /-- The token at the end of the text. -/
  eof : Token
  /-- The number of blocks that are being read. -/
  depth : Nat
  diagnostics : Array Diagnostic
  /-- The number of statements that were not read. -/
  dropped : Nat
  /-- The number of blocks that were not closed. -/
  unclosed : Nat
  /-- The state of the tracer. -/
  trace : σ

namespace Reading

variable {σ : Type}

/-- The current token. -/
def current (r : Reading σ) : Token := r.rest.headD r.eof

/-- The token after the current one. -/
def following (r : Reading σ) : Token := r.rest.tail.headD r.eof

/-- The next token becomes the current one. -/
def advance (r : Reading σ) : Reading σ := { r with rest := r.rest.tail }

/-- Notes a diagnostic. -/
def report (r : Reading σ) (d : Diagnostic) : Reading σ := { r with diagnostics := r.diagnostics.push d }

/-- Skips tokens of a statement that was not read: up to its semicolon, or the last token of the text. Inside a block it goes no
further than the closing brace, and stops before it if it can. -/
def resyncTokens (inBlock : Bool) : List Token → List Token
  | t :: u :: rest =>
    if t.kind = .semicolon ∨ (inBlock ∧ (t.kind = .rbrace ∨ u.kind = .rbrace)) then t :: u :: rest
    else resyncTokens inBlock (u :: rest)
  | ts => ts

/-- Skips the rest of a statement that was not read, and counts the statement. -/
def resync (r : Reading σ) : Reading σ :=
  { r with rest := resyncTokens (0 < r.depth) r.rest, dropped := r.dropped + 1 }

/-- The first token of a block becomes the current one. -/
def openBlock (r : Reading σ) : Reading σ := { r.advance with depth := r.depth + 1 }

/-- A block ends at the current token, which is its closing brace unless the text ends too early. -/
def closeBlock (r : Reading σ) : Reading σ :=
  let r := { r with depth := r.depth - 1 }
  if r.current.kind = .eof then
    { r.report ⟨.unexpected .rbrace .eof, r.current.pos⟩ with unclosed := r.unclosed + 1 }
  else r

end Reading

/-- A part of reading that has a result, unless its limit is used up. -/
abbrev Step (σ : Type) := StateT (Reading σ) Option

/-- A part of reading that may find no phrase, after noting a diagnostic. -/
abbrev Parse (σ : Type) := OptionT (Step σ)

namespace Grammar

variable {σ : Type} {α : Type}

/-- The limit is used up. -/
def exhausted : Step σ α := fun _ => none

/-- Notes a diagnostic: no phrase is found. -/
def refuse (problem : Problem) (pos : Pos) : Parse σ α := do
  modify fun r => r.report ⟨problem, pos⟩
  failure

/-- The current token as an identifier. -/
def identifier : Parse σ Identifier := do
  let t := (← get).current
  return ⟨t, t.literal⟩

/-- Moves on to a token of the kind that has to follow; no phrase is found if another one follows. -/
def expect (kind : Kind) : Parse σ Unit := do
  let t := (← get).following
  if t.kind = kind then modify Reading.advance else refuse (.unexpected kind t.kind) t.pos

/-- Moves on to the next token if it is of a kind. -/
def skipOver (kind : Kind) : Parse σ Unit := do
  if (← get).following.kind = kind then modify Reading.advance else pure ()

/-- Announces a phrase before it is read and after it. -/
def announced (tr : Tracer σ) (phrase : Phrase) (step : Step σ α) : Step σ α := do
  modify fun r => { r with trace := tr.enter phrase.name r.trace }
  let a ← step
  modify fun r => { r with trace := tr.leave phrase.name r.trace }
  pure a

/-- Announces a phrase before it is read and after it, found or not. -/
def traced (tr : Tracer σ) (phrase : Phrase) (parse : Parse σ α) : Parse σ α :=
  OptionT.mk (announced tr phrase parse.run)

end Grammar

end Scriptlet
