/-!
# Tokens

The language is written with 32 kinds of token. This file holds the kinds with the names they are shown under, the place of a
character in a text (`Pos`), and a token: a kind, the text it stands for and the place where it starts.

A word is a keyword or an identifier (`Kind.ofWord`), and a numeral is a float exactly when it has a point (`Kind.ofNumeral`).
-/

namespace Scriptlet

/-- The place of a character in a text: its line and its column, both counted from one, the column in characters. -/
structure Pos where
  line : Nat
  column : Nat
  deriving DecidableEq, Inhabited

namespace Pos

/-- The place of the first character of a text. -/
def start : Pos := ⟨1, 1⟩

/-- The place after a character: a newline starts the next line, every other character takes one column. -/
def next (p : Pos) (c : Char) : Pos := if c = '\n' then ⟨p.line + 1, 1⟩ else ⟨p.line, p.column + 1⟩

/-- The place after a piece of text. -/
def skip (p : Pos) (cs : List Char) : Pos := cs.foldl next p

@[simp] theorem skip_nil (p : Pos) : p.skip [] = p := rfl

@[simp] theorem skip_cons (p : Pos) (c : Char) (cs : List Char) : p.skip (c :: cs) = (p.next c).skip cs := rfl

theorem skip_append (p : Pos) (cs ds : List Char) : p.skip (cs ++ ds) = (p.skip cs).skip ds := by
  simp [skip, List.foldl_append]

end Pos

/-- The kinds of token. -/
inductive Kind where
  /-- A character that starts no token, or a string that is not closed. -/
  | illegal
  /-- The end of the text. -/
  | eof
  | ident | int | float | string
  | assign | plus | minus | bang | star | slash | lt | gt | le | ge | eq | ne
  | comma | semicolon | dot | lparen | rparen | lbrace | rbrace
  | kwFn | kwLet | kwTrue | kwFalse | kwIf | kwElse | kwReturn
  deriving DecidableEq, Inhabited

namespace Kind

/-- The name a kind is shown under. -/
def name : Kind → String
  | illegal => "ILLEGAL"
  | eof => "EOF"
  | ident => "IDENT"
  | int => "INT"
  | float => "FLOAT"
  | string => "STRING"
  | assign => "="
  | plus => "+"
  | minus => "-"
  | bang => "!"
  | star => "*"
  | slash => "/"
  | lt => "<"
  | gt => ">"
  | le => "<="
  | ge => ">="
  | eq => "=="
  | ne => "!="
  | comma => ","
  | semicolon => ";"
  | dot => "."
  | lparen => "("
  | rparen => ")"
  | lbrace => "\x7b"
  | rbrace => "\x7d"
  | kwFn => "FUNCTION"
  | kwLet => "LET"
  | kwTrue => "TRUE"
  | kwFalse => "FALSE"
  | kwIf => "IF"
  | kwElse => "ELSE"
  | kwReturn => "RETURN"

/-- All kinds. -/
def all : List Kind :=
  [illegal, eof, ident, int, float, string, assign, plus, minus, bang, star, slash, lt, gt, le, ge, eq, ne, comma, semicolon, dot,
    lparen, rparen, lbrace, rbrace, kwFn, kwLet, kwTrue, kwFalse, kwIf, kwElse, kwReturn]

/-- The kind shown under a name. -/
def ofName? (s : String) : Option Kind := all.find? (fun k => k.name == s)

/-- The kind of a word: a keyword, or else an identifier. -/
def ofWord : String → Kind
  | "fn" => kwFn
  | "let" => kwLet
  | "true" => kwTrue
  | "false" => kwFalse
  | "if" => kwIf
  | "else" => kwElse
  | "return" => kwReturn
  | _ => ident

/-- The kind of a numeral: a float if there is a point in it, or else an integer. -/
def ofNumeral (s : String) : Kind := if s.toList.contains '.' then float else int

end Kind

/-- A token: its kind, the text it stands for (for a string, what is between the quotes) and the place where it starts. -/
structure Token where
  kind : Kind
  literal : String
  pos : Pos
  deriving DecidableEq, Inhabited

end Scriptlet
