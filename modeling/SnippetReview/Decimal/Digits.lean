/- The number that digits write. Neighbouring digits are joined until one is left, which is fast where there
   are many digits; `joined_eq_ofDigits` says that this is the sum of the digits by their places. -/

set_option autoImplicit false

namespace SnippetReview.Decimal

def ofDigits (base : Nat) (digits : List Nat) : Nat := digits.foldr (fun digit n => digit + base * n) 0

def pairedOnto (base : Nat) (done : List Nat) : List Nat → List Nat
  | low :: high :: rest => pairedOnto base ((low + base * high) :: done) rest
  | [last] => (last :: done).reverse
  | [] => done.reverse

theorem length_pairedOnto (base : Nat) (done digits : List Nat) :
    (pairedOnto base done digits).length = done.length + (digits.length + 1) / 2 := by
  fun_induction pairedOnto base done digits with
  | case1 done low high rest ih =>
    rw [ih]
    simp only [List.length_cons]
    omega
  | case2 => simp
  | case3 => simp

theorem ofDigits_pairedOnto (base : Nat) (done digits : List Nat) :
    ofDigits (base * base) (pairedOnto base done digits) =
      done.reverse.foldr (fun digit n => digit + base * base * n) (ofDigits base digits) := by
  fun_induction pairedOnto base done digits with
  | case1 done low high rest ih =>
    rw [ih]
    simp only [List.reverse_cons, List.foldr_append, List.foldr_cons, List.foldr_nil, ofDigits]
    rw [Nat.mul_add, Nat.mul_assoc, Nat.add_assoc]
  | case2 => simp [ofDigits]
  | case3 => simp [ofDigits]

-- The number that digits of a base write, the least digit first, computed by joining neighbours until one
-- digit is left.
def joined (base : Nat) : List Nat → Nat
  | [] => 0
  | [digit] => digit
  | low :: high :: rest => joined (base * base) (pairedOnto base [] (low :: high :: rest))
termination_by digits => digits.length
decreasing_by
  rw [length_pairedOnto]
  simp only [List.length_nil, List.length_cons]
  omega

theorem joined_eq_ofDigits (base : Nat) (digits : List Nat) : joined base digits = ofDigits base digits := by
  fun_induction joined base digits with
  | case1 => rfl
  | case2 => simp [ofDigits]
  | case3 base low high rest ih => rw [ih, ofDigits_pairedOnto]; rfl

end SnippetReview.Decimal
