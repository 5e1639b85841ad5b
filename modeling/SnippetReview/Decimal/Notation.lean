import SnippetReview.Decimal.Shortest

set_option autoImplicit false

namespace SnippetReview.Decimal

def zeros (n : Nat) : String := String.ofList (List.replicate n '0')

def pointAfter (whole : Nat) (digits : String) : String :=
  String.ofList (digits.toList.take whole) ++ "." ++ String.ofList (digits.toList.drop whole)

def positional (d : Digits) : String :=
  let digits := toString d.digits
  let whole := d.exponent + digits.length
  if 0 ≤ d.exponent then digits ++ zeros d.exponent.toNat
  else if 0 < whole then pointAfter whole.toNat digits
  else "0." ++ zeros (-whole).toNat ++ digits

def signed (x : Float) (text : String) : String := if isNegative x then "-" ++ text else text

def plain (x : Float) : String :=
  if x.isNaN then "NaN"
  else if !isFinite x then signed x "inf"
  else signed x (positional (shortest .up (Binary.ofFloat x)))

-- Digits as a document writes them: positional for magnitudes from 1e-5 up to 1e16, else with an exponent,
-- which has the sign `plus` unless it is negative.
def documentDigits (plus : String) (d : Digits) : String :=
  let digits := toString d.digits
  let whole := d.exponent + digits.length
  if d.digits = 0 then "0.0"
  else if 0 ≤ d.exponent ∧ whole ≤ 16 then digits ++ zeros d.exponent.toNat ++ ".0"
  else if 0 < whole ∧ whole ≤ 16 then pointAfter whole.toNat digits
  else if -5 < whole ∧ whole ≤ 0 then "0." ++ zeros (-whole).toNat ++ digits
  else
    let head := if digits.length = 1 then digits else pointAfter 1 digits
    if 0 < whole then s!"{head}e{plus}{whole - 1}" else s!"{head}e{whole - 1}"

def document (plus : String) (x : Float) : String :=
  signed x (documentDigits plus (shortest .toEven (Binary.ofFloat x)))

def withDecimal (x : Float) : String :=
  let b := Binary.ofFloat x
  let (num, den) := scaled b.mantissa 2 b.exponent
  if isFinite x ∧ num % den = 0 then signed x (toString (num / den) ++ ".0") else plain x

end SnippetReview.Decimal
