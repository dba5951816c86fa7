/-!
# Floats with a fixed number of places

A float is shown with six places after the point and never with an exponent. A finite float is a fraction, and its exact value is
rounded to a multiple of 10^-6, a tie going to the even neighbour (`roundDiv`). The sign is shown even where all digits are
zero.
-/

namespace Scriptlet

/-- The integer nearest to `num / den`; of two that are equally near, the even one. -/
def roundDiv (num den : Nat) : Nat :=
  let q := num / den
  let r := num % den
  if 2 * r < den ∨ (2 * r = den ∧ q % 2 = 0) then q else q + 1

/-- The number of places after the point. -/
def shownPlaces : Nat := 6

/-- Decimal digits, with zeros before them up to a least width. -/
def paddedDigits (width n : Nat) : String :=
  let digits := Nat.toDigits 10 n
  String.ofList (List.replicate (width - digits.length) '0' ++ digits)

/-- The number `units / 10^places`, written with a point. -/
def pointed (places units : Nat) : String :=
  toString (units / Nat.pow 10 places) ++ "." ++ paddedDigits places (units % Nat.pow 10 places)

/-- The size of a finite float in units of 10^-`places`, rounded; its exact size is the significand times 2^(exponent - 1075). -/
def roundedUnits (places significand exponent : Nat) : Nat :=
  if 1075 ≤ exponent then significand * Nat.pow 2 (exponent - 1075) * Nat.pow 10 places
  else roundDiv (significand * Nat.pow 10 places) (Nat.pow 2 (1075 - exponent))

/-- The fraction field of a float is a number below this one, 2^52, which is the hidden bit of its significand. -/
def hiddenBit : Nat := 0x10000000000000

/-- The size of a float without its sign: the exponent field is zero for the smallest floats, all ones for what is not finite. -/
def sizeText (field fraction : Nat) : String :=
  if field = 0 then pointed shownPlaces (roundedUnits shownPlaces fraction 1)
  else if field = 0x7ff then "inf"
  else pointed shownPlaces (roundedUnits shownPlaces (hiddenBit + fraction) field)

/-- The text of a float: six places, `inf` or `-inf`, or `NaN` without a sign. The sign is the first of its 64 bits, and the
exponent field the next eleven. -/
def fixedText (x : Float) : String :=
  let bits := x.toBits.toNat
  if x.isNaN then "NaN"
  else
    let sign := if 0x8000000000000000 ≤ bits then "-" else ""
    sign ++ sizeText (bits / hiddenBit % 0x800) (bits % hiddenBit)

end Scriptlet
