/-!
# Binary floating-point numbers in exact arithmetic

The numbers of the 64-bit binary format as exact values: a sign, a mantissa and a power of two. A
quotient of natural numbers is rounded to the nearest such number, a tie going to the even mantissa
(`ofRatio`); all else is exact arithmetic on naturals, so nothing here depends on the machine.

`text` writes a number with the fewest digits that read back as the same number, and of those the
nearest.
-/

namespace SourceScan

/-- A number of the 64-bit binary format. A finite one is `mantissa * 2 ^ exponent`. -/
inductive Binary64
  | nan
  | infinite (negative : Bool)
  | finite (negative : Bool) (mantissa : Nat) (exponent : Int)
  deriving Repr, DecidableEq

namespace Binary64

/-- A power of two. -/
def pow2 (e : Nat) : Nat := Nat.pow 2 e

/-- A power of ten. -/
def pow10 (e : Nat) : Nat := Nat.pow 10 e

/-- `num / den` rounded to the nearest natural, a tie to the even one. -/
def divEven (num den : Nat) : Nat :=
  let q := num / den
  let r := num % den
  if 2 * r < den then q
  else if den < 2 * r then q + 1
  else q + q % 2

/-- `num / den` with numerator or denominator multiplied by the power of two that brings the quotient
to units of `2 ^ exponent`. -/
def scaled (num den : Nat) (exponent : Int) : Nat × Nat :=
  if 0 ≤ exponent then (num, den * pow2 exponent.toNat) else (num * pow2 (-exponent).toNat, den)

/-- The least exponent of the format. -/
def minExponent : Int := -1074

/-- The exponent of the units in which the quotient of two positive naturals has a mantissa of 53
bits, but no less than the least one. -/
def unitExponent (num den : Nat) : Int :=
  let guess : Int := num.log2 - den.log2 - 52
  let (n, d) := scaled num den guess
  max minExponent (if n < d * pow2 52 then guess - 1 else guess)

/-- The number `mantissa * 2 ^ exponent`, where the mantissa may have come to one bit more by rounding;
infinite if it is too large. -/
def ofParts (negative : Bool) (mantissa : Nat) (exponent : Int) : Binary64 :=
  if mantissa == pow2 53 then
    if 971 < exponent + 1 then infinite negative else finite negative (pow2 52) (exponent + 1)
  else if 971 < exponent then infinite negative else finite negative mantissa exponent

/-- The nearest number to `num / den`, of the sign given. -/
def ofRatio (negative : Bool) (num den : Nat) : Binary64 :=
  if num == 0 then finite negative 0 0
  else
    let exponent := unitExponent num den
    let parts := scaled num den exponent
    ofParts negative (divEven parts.1 parts.2) exponent

/-- The nearest number to `digits * 10 ^ exponent`. Beyond four hundred decimal places the answer is
known without computing the power. -/
def ofDecimal (negative : Bool) (digits : Nat) (exponent : Int) : Binary64 :=
  if digits == 0 then finite negative 0 0
  else
    let places : Int := (Nat.toDigits 10 digits).length + exponent
    if 400 < places then infinite negative
    else if places < -400 then finite negative 0 0
    else if 0 ≤ exponent then ofRatio negative (digits * pow10 exponent.toNat) 1
    else ofRatio negative digits (pow10 (-exponent).toNat)

/-- The natural nearest to `mantissa * 2 ^ exponent`, a tie to the even one. -/
def roundMagnitude (mantissa : Nat) (exponent : Int) : Nat :=
  if 0 ≤ exponent then mantissa * pow2 exponent.toNat
  else divEven mantissa (pow2 (-exponent).toNat)

/-- The integer nearest to a finite number, a tie to the even one. -/
def round? : Binary64 → Option Int
  | finite negative mantissa exponent =>
    let n : Int := roundMagnitude mantissa exponent
    some (if negative then -n else n)
  | _ => none

/-- The value of a finite number that is an integer. -/
def toInt? : Binary64 → Option Int
  | finite negative mantissa exponent =>
    let n : Int :=
      if 0 ≤ exponent then mantissa * pow2 exponent.toNat else mantissa / pow2 (-exponent).toNat
    if 0 ≤ exponent || mantissa % pow2 (-exponent).toNat == 0 then
      some (if negative then -n else n)
    else none
  | _ => none

/-! ## The shortest text -/

/-- How many decimal digits the integer part of `num / den` has, or minus the number of zeros after
the point if that part is zero: the place of the point in `0.d₁d₂… * 10 ^ place`. -/
def decimalPlace (num den : Nat) : Int :=
  if den ≤ num then (Nat.toDigits 10 (num / den)).length
  else
    let guess := (Nat.toDigits 10 (den / num)).length - 1
    if den ≤ num * pow10 guess then 1 - (guess : Int) else -(guess : Int)

/-- `num / den` with numerator or denominator multiplied by the power of ten that brings the quotient
to units of `10 ^ unit`. -/
def scaledTen (num den : Nat) (unit : Int) : Nat × Nat :=
  if 0 ≤ unit then (num, den * pow10 unit.toNat) else (num * pow10 (-unit).toNat, den)

/-- The naturals on either side of `num / den`, the nearer one first; of two that are equally near,
the even one. -/
def neighbours (num den : Nat) : List Nat :=
  let near := divEven num den
  let below := num / den
  [near, if near == below then below + 1 else below]

/-- The fewest digits of `num / den`, the value of `x`, that read back as `x`, with the exponent of
their unit. They are looked for among the two neighbours of the value with one digit, with two, and
so on; `fuel` is how many digits more may be tried. -/
def shortestFrom (x : Binary64) (num den : Nat) (place : Int) : (fuel count : Nat) → Nat × Int
  | 0, count => (divEven (scaledTen num den (place - count)).1 (scaledTen num den (place - count)).2,
      place - count)
  | fuel + 1, count =>
    let unit := place - count
    let (n, d) := scaledTen num den unit
    match (neighbours n d).find? fun digits => ofDecimal false digits unit == x with
    | some digits => (digits, unit)
    | none => shortestFrom x num den place fuel (count + 1)

/-- The characters of a natural number in base ten. -/
def natChars (n : Nat) : List Char := Nat.toDigits 10 n

/-- The digits as a decimal number: positional from `0.0001` to below `10 ^ 16`, with at least one
digit on each side of the point, and otherwise with an exponent of at least two digits. -/
def layOut (digits : List Char) (place : Int) : List Char :=
  if -4 < place && place ≤ 16 then
    if place ≤ 0 then '0' :: '.' :: List.replicate (-place).toNat '0' ++ digits
    else
      let whole := place.toNat
      if digits.length ≤ whole then
        digits ++ List.replicate (whole - digits.length) '0' ++ ['.', '0']
      else digits.take whole ++ '.' :: digits.drop whole
  else
    let exponent := place - 1
    let mantissa :=
      match digits with
      | [d] => [d]
      | d :: rest => d :: '.' :: rest
      | [] => []
    let size := natChars exponent.natAbs
    mantissa ++ ['e', if exponent < 0 then '-' else '+'] ++
      (if size.length < 2 then '0' :: size else size)

/-- The text of a number: the fewest digits that read back as it. -/
def text : Binary64 → String
  | nan => "nan"
  | infinite negative => if negative then "-inf" else "inf"
  | finite negative mantissa exponent =>
    let sign := if negative then ['-'] else []
    if mantissa == 0 then String.ofList (sign ++ ['0', '.', '0'])
    else
      let (num, den) := if 0 ≤ exponent then (mantissa * pow2 exponent.toNat, 1)
        else (mantissa, pow2 (-exponent).toNat)
      let (digits, unit) :=
        shortestFrom (finite false mantissa exponent) num den (decimalPlace num den) 16 1
      let chars := natChars digits
      let kept := (chars.reverse.dropWhile (· == '0')).reverse
      String.ofList (sign ++ layOut kept (chars.length + unit))

end Binary64

end SourceScan
