/- Similarity of two words, from zero to one. Equal characters match where they stand no further apart than
   half of the longer word; matches in another order count half. A common beginning of up to four characters
   raises the similarity of words that are alike already. -/

set_option autoImplicit false

namespace SnippetReview.Similarity

def takeEqual (c : Char) (low high index : Nat) (passed : List (Char × Bool)) :
    List (Char × Bool) → Option (List (Char × Bool))
  | [] => none
  | (d, taken) :: rest =>
    if high ≤ index then none
    else if low ≤ index && c == d && !taken then some (passed.reverseAux ((d, true) :: rest))
    else takeEqual c low high (index + 1) ((d, taken) :: passed) rest

def pairUp (reach : Nat) (matched : List Char) (index : Nat) (second : List (Char × Bool)) :
    List Char → List Char × List (Char × Bool)
  | [] => (matched.reverse, second)
  | c :: rest =>
    match takeEqual c (index - reach) (index + reach + 1) 0 [] second with
    | some second => pairUp reach (c :: matched) (index + 1) second rest
    | none => pairUp reach matched (index + 1) second rest

def matching (a b : List Char) : Float :=
  if a.isEmpty && b.isEmpty then 1.0
  else if a.isEmpty || b.isEmpty then 0.0
  else
    let reach := max a.length b.length / 2 - 1
    let (first, marked) := pairUp reach [] 0 (b.map fun c => (c, false)) a
    let second := (marked.filter (·.2)).map (·.1)
    let moved := ((first.zip second).filter fun pair => pair.1 != pair.2).length / 2
    let count := Float.ofNat first.length
    if first.isEmpty then 0.0
    else
      (count / Float.ofNat a.length + count / Float.ofNat b.length + Float.ofNat (first.length - moved) / count) / 3.0

def similarity (a b : List Char) : Float :=
  let share := matching a b
  if 0.7 < share then
    let common := (((a.take 4).zip b).takeWhile fun pair => pair.1 == pair.2).length
    share + 0.1 * Float.ofNat common * (1.0 - share)
  else share

end SnippetReview.Similarity
