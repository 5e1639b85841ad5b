set_option autoImplicit false

namespace SnippetReview.Decimal

structure Binary where
  mantissa : Nat
  exponent : Int
deriving DecidableEq, Repr

def leadingBit : Nat := 0x10000000000000

def signBit : Nat := 0x8000000000000000

def infinityBits : Nat := 0x7FF0000000000000

def biasedExponent (bits : Nat) : Nat := bits / leadingBit % 2048

def Binary.ofFloat (x : Float) : Binary :=
  let bits := x.toBits.toNat
  let biased := biasedExponent bits
  let fraction := bits % leadingBit
  if biased = 0 then ⟨fraction, -1074⟩ else ⟨leadingBit + fraction, (biased : Int) - 1075⟩

def isNegative (x : Float) : Bool := signBit ≤ x.toBits.toNat

def isFinite (x : Float) : Bool := biasedExponent x.toBits.toNat != 2047

def scaled (n base : Nat) (exponent : Int) : Nat × Nat :=
  if 0 ≤ exponent then (n * Nat.pow base exponent.toNat, 1) else (n, Nat.pow base (-exponent).toNat)

def roundedQuotient (num den : Nat) : Nat :=
  let quotient := num / den
  let rest := 2 * (num % den)
  if rest < den then quotient
  else if den < rest then quotient + 1
  else if quotient % 2 = 0 then quotient else quotient + 1

def exponentFor (num den : Nat) : Int :=
  let guess : Int := (num.log2 : Int) - den.log2 - 52
  let (unitNum, unitDen) := scaled 1 2 guess
  let shifted := num * unitDen / (den * unitNum)
  max (if shifted < leadingBit then guess - 1 else guess) (-1074)

-- The bits of the nonnegative number nearest to `num / den`.
def nearestBits (num den : Nat) : Nat :=
  if num = 0 then 0
  else
    let exponent := exponentFor num den
    let (unitNum, unitDen) := scaled 1 2 exponent
    let mantissa := roundedQuotient (num * unitDen) (den * unitNum)
    if 971 < exponent then infinityBits
    else if mantissa < leadingBit then mantissa
    else (exponent + 1074).toNat * leadingBit + mantissa

def ofBits (negative : Bool) (bits : Nat) : Float :=
  Float.ofBits (UInt64.ofNat (if negative then signBit + bits else bits))

end SnippetReview.Decimal
