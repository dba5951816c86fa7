import Scriptlet.Token

/-!
# Lexemes

A lexeme is a piece cut off the front of a text: its kind, the characters it is spelled with and the text after it.
`Lexeme.ofText?` cuts off the first lexeme of a text that does not start with a blank, and always takes as much as the forms
below allow:

* a word: letters and underscores, a keyword or an identifier;
* a numeral: digits, with at most one point, which has a digit on at least one side;
* a string: everything from a quote to the next one; without a next one the rest of the text is illegal;
* one of the operators and delimiters, two characters long where that is possible;
* any other single character, which is illegal.

Letters and digits are those of ASCII: every other character is illegal outside a string. A lexeme is never empty, and the text is
its spelling followed by the rest (`Lexeme.spelling_append_rest`).
-/

namespace Scriptlet

/-- A blank: space, tab, newline or carriage return. -/
def isBlank (c : Char) : Bool := c == ' ' || c == '\t' || c == '\n' || c == '\r'

/-- A character of a word: an ASCII letter or an underscore. -/
def isLetter (c : Char) : Bool := c.isAlpha || c == '_'

/-- A text starts with an ASCII digit. -/
def startsWithDigit : List Char → Bool
  | c :: _ => c.isDigit
  | [] => false

/-- A piece cut off the front of a text. -/
structure Lexeme where
  kind : Kind
  /-- The characters of the piece, quotes included. -/
  spelling : List Char
  /-- The text after the piece. -/
  rest : List Char
  deriving DecidableEq

namespace Lexeme

/-- The text a lexeme stands for: its spelling, and for a string the spelling without its two quotes. -/
def literal (x : Lexeme) : String :=
  String.ofList (if x.kind = .string then x.spelling.tail.dropLast else x.spelling)

/-- The word at the front of a text that starts with a letter. -/
def word (text : List Char) : Lexeme :=
  let spelling := text.takeWhile isLetter
  ⟨Kind.ofWord (String.ofList spelling), spelling, text.dropWhile isLetter⟩

/-- The numeral at the front of a text that starts with a digit, or with a point before a digit. -/
def numeral (text : List Char) : Lexeme :=
  let whole := text.takeWhile Char.isDigit
  match text.dropWhile Char.isDigit with
  | '.' :: rest =>
    let spelling := whole ++ '.' :: rest.takeWhile Char.isDigit
    ⟨Kind.ofNumeral (String.ofList spelling), spelling, rest.dropWhile Char.isDigit⟩
  | rest => ⟨Kind.ofNumeral (String.ofList whole), whole, rest⟩

/-- The string whose opening quote stands before `text`; if no quote closes it, all that is left is illegal. -/
def quotation (text : List Char) : Lexeme :=
  let body := text.takeWhile (· != '"')
  match text.dropWhile (· != '"') with
  | close :: rest => ⟨.string, '"' :: (body ++ [close]), rest⟩
  | [] => ⟨.illegal, '"' :: body, []⟩

/-- The kind of two characters that are one operator together. -/
def pairKind? : Char → Char → Option Kind
  | '=', '=' => some .eq
  | '!', '=' => some .ne
  | '<', '=' => some .le
  | '>', '=' => some .ge
  | _, _ => none

/-- The kind of a character that stands alone. -/
def singleKind : Char → Kind
  | '=' => .assign
  | '+' => .plus
  | '-' => .minus
  | '!' => .bang
  | '*' => .star
  | '/' => .slash
  | '<' => .lt
  | '>' => .gt
  | ',' => .comma
  | ';' => .semicolon
  | '.' => .dot
  | '(' => .lparen
  | ')' => .rparen
  | '\x7b' => .lbrace
  | '\x7d' => .rbrace
  | _ => .illegal

/-- The operator, delimiter or illegal character `c` at the front of a text, `text` being what follows it. -/
def symbol (c : Char) : List Char → Lexeme
  | d :: rest =>
    match pairKind? c d with
    | some k => ⟨k, [c, d], rest⟩
    | none => ⟨singleKind c, [c], d :: rest⟩
  | [] => ⟨singleKind c, [c], []⟩

/-- The first lexeme of a text that does not start with a blank; there is none at the end of the text. -/
def ofText? : List Char → Option Lexeme
  | [] => none
  | c :: rest =>
    if isLetter c then some (word (c :: rest))
    else if c.isDigit || (c == '.' && startsWithDigit rest) then some (numeral (c :: rest))
    else if c == '"' then some (quotation rest)
    else some (symbol c rest)

/-- A lexeme leaves the rest of the text: its spelling is not empty, and the text is the spelling followed by the rest. -/
theorem spelling_append_rest {text : List Char} {x : Lexeme} (h : ofText? text = some x) :
    x.spelling ≠ [] ∧ x.spelling ++ x.rest = text := by
  cases text with
  | nil => simp [ofText?] at h
  | cons c rest =>
    simp only [ofText?] at h
    split at h
    next hc =>
      cases h
      simp [word, hc, List.takeWhile_append_dropWhile]
    next =>
      split at h
      next hc =>
        cases h
        unfold numeral
        simp only
        split
        next r hr =>
          refine ⟨by simp, ?_⟩
          have hd := List.takeWhile_append_dropWhile (p := Char.isDigit) (l := c :: rest)
          rw [hr] at hd
          simp only [List.append_assoc, List.cons_append, List.takeWhile_append_dropWhile]
          exact hd
        next hr =>
          refine ⟨?_, List.takeWhile_append_dropWhile⟩
          cases hd : c.isDigit with
          | true => simp [hd]
          | false =>
            simp only [hd, Bool.false_or, Bool.and_eq_true, beq_iff_eq] at hc
            exact absurd (by simp [hc.1]) (hr rest)
      next =>
        split at h
        next hq =>
          cases h
          have hq : c = '"' := by simpa using hq
          subst hq
          have hd := List.takeWhile_append_dropWhile (p := (· != '"')) (l := rest)
          unfold quotation
          simp only
          split
          next close r hr =>
            rw [hr] at hd
            refine ⟨by simp, ?_⟩
            simpa using hd
          next hr =>
            rw [hr] at hd
            refine ⟨by simp, ?_⟩
            simpa using hd
        next =>
          cases h
          unfold symbol
          split
          next d r =>
            split
            · exact ⟨by simp, rfl⟩
            · exact ⟨by simp, rfl⟩
          next => exact ⟨by simp, rfl⟩

/-- A lexeme leaves less of the text than there was. -/
theorem length_rest_lt {text : List Char} {x : Lexeme} (h : ofText? text = some x) : x.rest.length < text.length := by
  obtain ⟨hne, heq⟩ := spelling_append_rest h
  rw [← heq, List.length_append]
  have := List.length_pos_iff.mpr hne
  omega

end Lexeme

end Scriptlet
