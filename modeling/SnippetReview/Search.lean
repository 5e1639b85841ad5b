set_option autoImplicit false

namespace SnippetReview.Search

universe u

variable {α : Type u}

def boundaryWithin (before : α → Bool) (xs : Array α) (low high : Nat) (bound : high ≤ xs.size) : Nat :=
  if inside : low < high then
    let middle := low + (high - low) / 2
    if before (xs[middle]) then
      boundaryWithin before xs (middle + 1) high bound
    else
      boundaryWithin before xs low middle (by omega)
  else
    low
termination_by high - low

-- The number of leading elements that satisfy `before`, where those that do come first.
def boundary (before : α → Bool) (xs : Array α) : Nat :=
  boundaryWithin before xs 0 xs.size (Nat.le_refl _)

end SnippetReview.Search
