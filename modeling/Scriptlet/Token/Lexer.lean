import Scriptlet.Token.Lexeme

/-!
# Cutting a text into tokens

A `Lexer` is a place of reading in a text: what is left of the text and the position of its first character. `Lexer.next` skips
blanks and takes one token. At the end of the text it gives the token of kind `eof` and stays where it is, so that asking again
gives the same token.

`Lexer.drain` takes all tokens before the end. It ends because every token leaves less of the text
(`Lexer.length_rest_lt`).
-/

namespace Scriptlet

/-- A place of reading in a text: what is left of the text, and the position of its first character. -/
structure Lexer where
  rest : List Char
  pos : Pos
  deriving DecidableEq

namespace Lexer

/-- Reading starts at the first character of a text. -/
def ofText (s : String) : Lexer := ⟨s.toList, Pos.start⟩

/-- Reading goes on after the blanks at the front. -/
def skipBlanks (l : Lexer) : Lexer := ⟨l.rest.dropWhile isBlank, l.pos.skip (l.rest.takeWhile isBlank)⟩

/-- Skipping blanks leaves no more than there was. -/
theorem length_skipBlanks_le (l : Lexer) : l.skipBlanks.rest.length ≤ l.rest.length :=
  (List.dropWhile_sublist isBlank).length_le

/-- The next token and the place after it; there is none at the end of the text. -/
def next? (l : Lexer) : Option (Token × Lexer) :=
  (Lexeme.ofText? l.skipBlanks.rest).map fun x =>
    (⟨x.kind, x.literal, l.skipBlanks.pos⟩, ⟨x.rest, l.skipBlanks.pos.skip x.spelling⟩)

/-- A token leaves less of the text than there was. -/
theorem length_rest_lt {l : Lexer} {t : Token} {l' : Lexer} (h : l.next? = some (t, l')) :
    l'.rest.length < l.rest.length := by
  simp only [next?, Option.map_eq_some_iff, Prod.mk.injEq] at h
  obtain ⟨x, hx, -, rfl⟩ := h
  exact Nat.lt_of_lt_of_le (Lexeme.length_rest_lt hx) l.length_skipBlanks_le

/-- The token of kind `eof` at a place. -/
def eof (l : Lexer) : Token := ⟨.eof, "", l.pos⟩

/-- The next token and the place after it; at the end of the text the token of kind `eof`, and the place where the text ends. -/
def next (l : Lexer) : Token × Lexer := l.next?.getD (l.skipBlanks.eof, l.skipBlanks)

/-- The place after `n` tokens. -/
def skip : Nat → Lexer → Lexer
  | 0, l => l
  | n + 1, l => skip n l.next.2

/-- All tokens before the end of the text, and the place where the text ends. -/
def drain (l : Lexer) : List Token × Lexer :=
  match _h : l.next? with
  | some (t, l') => let r := drain l'; (t :: r.1, r.2)
  | none => ([], l.skipBlanks)
termination_by l.rest.length
decreasing_by exact length_rest_lt _h

/-- The tokens before the end of the text. -/
def tokens (l : Lexer) : List Token := l.drain.1

/-- The place where the text ends, after the blanks there. -/
def finish (l : Lexer) : Lexer := l.drain.2

end Lexer

end Scriptlet
