import SnippetReview.Decimal.Binary

/- The decimal with the fewest digits that reads back as the same binary number, and the nearest to it of
   those. A number reads back from the decimals between the midpoints to its neighbours; the midpoints belong
   to it when its mantissa is even. -/

set_option autoImplicit false

namespace SnippetReview.Decimal

structure Digits where
  digits : Nat
  exponent : Int
deriving DecidableEq, Repr

inductive TieRule where
  | up
  | toEven
deriving DecidableEq

structure Interval where
  low : Nat
  value : Nat
  high : Nat
  den : Nat
  closed : Bool

def Interval.of (b : Binary) : Interval :=
  let atEdge := b.mantissa = leadingBit ∧ -1074 < b.exponent
  let (unit, den) := scaled 1 2 (b.exponent - 2)
  ⟨(4 * b.mantissa - if atEdge then 1 else 2) * unit, 4 * b.mantissa * unit, (4 * b.mantissa + 2) * unit,
    den, b.mantissa % 2 = 0⟩

-- Whether `n * unitNum / unitDen` reads back as the number.
def Interval.holds (i : Interval) (n unitNum unitDen : Nat) : Bool :=
  let point := n * unitNum * i.den
  let low := i.low * unitDen
  let high := i.high * unitDen
  if i.closed then low ≤ point && point ≤ high else low < point && point < high

-- Of the two neighbours of the value on the grid of multiples of `10 ^ exponent`, the one that reads back, or
-- the nearer if both do.
def Interval.onGrid (i : Interval) (tie : TieRule) (exponent : Int) : Option Nat :=
  let (unitNum, unitDen) := scaled 1 10 exponent
  let step := unitNum * i.den
  let target := i.value * unitDen
  let below := target / step
  let lowHolds := 0 < below && i.holds below unitNum unitDen
  let highHolds := i.holds (below + 1) unitNum unitDen
  let rest := 2 * (target % step)
  match lowHolds, highHolds with
  | true, true =>
    if rest < step then some below
    else if step < rest then some (below + 1)
    else if tie = .toEven ∧ below % 2 = 0 then some below
    else some (below + 1)
  | true, false => some below
  | false, true => some (below + 1)
  | false, false => none

def digitCount (n : Nat) : Nat := (Nat.toDigits 10 n).length

def magnitude (num den : Nat) : Int :=
  let guess : Int := (digitCount num : Int) - digitCount den
  let (unitNum, unitDen) := scaled 1 10 guess
  if num * unitDen < unitNum * den then guess else guess + 1

-- Tries grids from one digit on, each ten times finer than the last.
def Interval.search (i : Interval) (tie : TieRule) : Nat → Int → Digits
  | 0, exponent => ⟨0, exponent⟩
  | tries + 1, exponent =>
    match i.onGrid tie exponent with
    | some n => ⟨n, exponent⟩
    | none => search i tie tries (exponent - 1)

def Digits.normalized : Nat → Digits → Digits
  | 0, d => d
  | tries + 1, d =>
    if d.digits ≠ 0 ∧ d.digits % 10 = 0 then normalized tries ⟨d.digits / 10, d.exponent + 1⟩ else d

def shortest (tie : TieRule) (b : Binary) : Digits :=
  if b.mantissa = 0 then ⟨0, 0⟩
  else
    let interval := Interval.of b
    let first := magnitude interval.value interval.den - 1
    (interval.search tie 18 first).normalized 20

end SnippetReview.Decimal
