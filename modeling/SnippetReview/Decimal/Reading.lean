import SnippetReview.Decimal.Binary
import SnippetReview.Decimal.Digits

set_option autoImplicit false

namespace SnippetReview.Decimal

def digitsValue (digits : List Char) : Nat := joined 10 (digits.reverse.map fun c => c.toNat - 48)

def isDigitText (s : List Char) : Bool := !s.isEmpty && s.all Char.isDigit

def splitSign : List Char → Bool × List Char
  | '-' :: rest => (true, rest)
  | '+' :: rest => (false, rest)
  | s => (false, s)

-- The number nearest to `n * 10 ^ exponent`, as bits. Beyond the range of the format the power is not
-- computed.
def nearestDecimalBits (n : Nat) (digits : Nat) (exponent : Int) : Nat :=
  if n = 0 ∨ (digits : Int) + exponent < -330 then 0
  else if 330 < (digits : Int) + exponent then infinityBits
  else
    let (num, den) := scaled n 10 exponent
    nearestBits num den

def exponentLimit : Nat := 65536

-- The value of the digits of an exponent. Once it has reached the limit, the digits after that do not count.
def exponentValue (digits : List Char) : Nat :=
  digits.foldl (fun n c => if n < exponentLimit then 10 * n + (c.toNat - 48) else n) 0

def readExponent? : List Char → Option Int
  | [] => some 0
  | c :: rest =>
    if c == 'e' || c == 'E' then
      let (negative, digits) := splitSign rest
      if isDigitText digits then
        let n : Int := exponentValue digits
        some (if negative then -n else n)
      else none
    else none

def readMagnitude? (s : List Char) : Option Nat :=
  let whole := s.takeWhile Char.isDigit
  let afterWhole := s.dropWhile Char.isDigit
  let (fraction, rest) :=
    match afterWhole with
    | '.' :: tail => (tail.takeWhile Char.isDigit, tail.dropWhile Char.isDigit)
    | _ => ([], afterWhole)
  if whole.isEmpty && fraction.isEmpty then none
  else
    (readExponent? rest).map fun exponent =>
      let digits := (whole ++ fraction).dropWhile (· == '0')
      nearestDecimalBits (digitsValue digits) digits.length (exponent - fraction.length)

def nanBits : Nat := 0x7FF8000000000000

def read? (s : String) : Option Float :=
  let (negative, rest) := splitSign s.toList
  let name := rest.map Char.toLower
  if name == "inf".toList || name == "infinity".toList then some (ofBits negative infinityBits)
  else if name == "nan".toList then some (ofBits negative nanBits)
  else (readMagnitude? rest).map (ofBits negative)

end SnippetReview.Decimal
