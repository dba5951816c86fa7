import Scriptlet.Text.Unprintable

/-!
# Quoted text

A text is quoted inside a message between double quotes. A quote and a backslash get a backslash before them; newline, carriage
return, tab and NUL have a letter or a digit after a backslash; any other character without a picture of its own is written as
its code point, in lower-case hexadecimal digits without padding, as in `\u{1b}`. Every other character, an apostrophe and a
letter beyond ASCII included, stands for itself.
-/

namespace Scriptlet

/-- The characters that stand for one character inside quotes. -/
def quotedChar (c : Char) : List Char :=
  if c = '"' then ['\\', '"']
  else if c = '\\' then ['\\', '\\']
  else if c = '\n' then ['\\', 'n']
  else if c = '\r' then ['\\', 'r']
  else if c = '\t' then ['\\', 't']
  else if c.toNat = 0 then ['\\', '0']
  else if isUnprintable c then '\\' :: 'u' :: '\x7b' :: (Nat.toDigits 16 c.toNat ++ ['\x7d'])
  else [c]

/-- A text between double quotes. -/
def quoted (s : String) : String := String.ofList ('"' :: (s.toList.flatMap quotedChar ++ ['"']))

end Scriptlet
