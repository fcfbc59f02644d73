/-!
# Decimal numerals and doubles

Reads a text as a number and gives the double nearest to it, a tie going to
the even neighbour. The rounding is done on exact integers, so it is right for
any number of digits and any exponent.
-/

namespace FilterQuery.Text

inductive Numeral where
  | finite (negative : Bool) (coefficient : Nat) (exponent : Int)
  | infinite (negative : Bool)
  | undefined
  deriving BEq, DecidableEq, Repr

def digitsValue (digits : List Char) : Nat :=
  digits.foldl (fun n d => n * 10 + (d.toNat - '0'.toNat)) 0

/-- Takes an optional sign off a text; the answer says whether it was a
minus. -/
def sign : List Char → Bool × List Char
  | '-' :: rest => (true, rest)
  | '+' :: rest => (false, rest)
  | text => (false, text)

theorem length_sign (text : List Char) : (sign text).2.length ≤ text.length := by
  unfold sign
  split <;> simp

def signed (negative : Bool) (n : Nat) : Int :=
  if negative then -n else n

namespace Numeral

def exponent? : List Char → Option Int
  | [] => some 0
  | 'e' :: rest | 'E' :: rest =>
    let (negative, digits) := sign rest
    if digits.isEmpty || !digits.all Char.isDigit then none
    else some (signed negative (digitsValue digits))
  | _ => none

/-- A numeral without sign: digits with at most one point, then perhaps an
exponent. One digit is enough, on either side of the point. -/
def decimal? (negative : Bool) (text : List Char) : Option Numeral :=
  let whole := text.takeWhile Char.isDigit
  let rest := text.dropWhile Char.isDigit
  let (fraction, rest) :=
    match rest with
    | '.' :: rest => (rest.takeWhile Char.isDigit, rest.dropWhile Char.isDigit)
    | rest => ([], rest)
  if whole.isEmpty && fraction.isEmpty then none
  else (exponent? rest).map fun e =>
    .finite negative (digitsValue (whole ++ fraction)) (e - fraction.length)

/-- A numeral without sign, or one of the words for infinity and for no
number, in any mixture of ASCII cases. -/
def unsigned? (negative : Bool) (text : List Char) : Option Numeral :=
  let word := String.ofList (text.map Char.toLower)
  if word = "inf" || word = "infinity" then some (.infinite negative)
  else if word = "nan" then some .undefined
  else decimal? negative text

def ofList? (text : List Char) : Option Numeral :=
  unsigned? (sign text).1 (sign text).2

end Numeral

/-- The bits of the double nearest to `num / den`. The quotient is scaled to
53 bits, or fewer where doubles are spaced by `2 ^ -1074`, and rounded; a carry
out of the mantissa moves into the exponent by itself. -/
def nearestBits (num den : Nat) : Nat :=
  if num = 0 then 0
  else
    let guess : Int := (num.log2 : Int) - den.log2 - 53
    let exact := if 1 <<< 53 ≤ (scaled guess).1 / (scaled guess).2 then guess + 1 else guess
    let power := if exact < -1074 then -1074 else exact
    let (n, d) := scaled power
    let floor := n / d
    let twice := 2 * (n % d)
    let mantissa := if d < twice || (d = twice && floor % 2 = 1) then floor + 1 else floor
    let bits := ((power + 1074).toNat <<< 52) + mantissa
    if bits < infinity then bits else infinity
where
  scaled (power : Int) : Nat × Nat :=
    (num <<< (-power).toNat, den <<< power.toNat)
  infinity : Nat :=
    0x7ff0000000000000

namespace Numeral

/-- The magnitude `coefficient · 10 ^ exponent` as a double. Far outside the
range of doubles the answer needs no computation. -/
def magnitude (coefficient : Nat) (exponent : Int) : Float :=
  if coefficient = 0 then 0.0
  else if 400 < exponent then Float.ofBits 0x7ff0000000000000
  else if exponent + coefficient.log2 < -400 then 0.0
  else
    let num := coefficient * Nat.pow 10 exponent.toNat
    let den := Nat.pow 10 (-exponent).toNat
    Float.ofBits (nearestBits num den).toUInt64

def toFloat : Numeral → Float
  | .finite false coefficient exponent => magnitude coefficient exponent
  | .finite true coefficient exponent => -magnitude coefficient exponent
  | .infinite false => Float.ofBits 0x7ff0000000000000
  | .infinite true => Float.ofBits 0xfff0000000000000
  | .undefined => Float.ofBits 0x7ff8000000000000

end Numeral

end FilterQuery.Text
