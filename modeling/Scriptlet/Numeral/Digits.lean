/-!
# Reading numerals

An integer numeral is a run of digits and is read if its value is below 2^63. A float numeral is a run of digits with one point
before, inside or after it, and is read as the float nearest to its value, a tie going to the even neighbour.
-/

namespace Scriptlet

namespace Numeral

/-- The value of a run of decimal digits. -/
def value (digits : List Char) : Nat := digits.foldl (fun n d => 10 * n + (d.toNat - '0'.toNat)) 0

/-- The least number above all integers of the language, 2^63. -/
def integerBound : Nat := 0x8000000000000000

/-- The integer that a numeral stands for, if it is one: digits only, at least one of them, and a value below 2^63. -/
def integer? (s : String) : Option Int64 :=
  let digits := s.toList
  if digits ≠ [] ∧ digits.all Char.isDigit ∧ value digits < integerBound then some (Int64.ofNat (value digits)) else none

/-- The float that a numeral stands for, if it is one: digits with one point among them, at least one digit in all. -/
def float? (s : String) : Option Float :=
  let whole := s.toList.takeWhile Char.isDigit
  match s.toList.dropWhile Char.isDigit with
  | '.' :: fraction =>
    if fraction.all Char.isDigit ∧ whole ++ fraction ≠ [] then
      some (Float.ofScientific (value (whole ++ fraction)) true fraction.length)
    else none
  | _ => none

end Numeral

end Scriptlet
