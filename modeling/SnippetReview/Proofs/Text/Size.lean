import SnippetReview.Text.Blank

set_option autoImplicit false

namespace SnippetReview.Text

-- A bound over a list of characters is decided by running through the list; trying every character would never end.
instance decidableForallMem (p : Char → Prop) [DecidablePred p] (s : List Char) : Decidable (∀ c ∈ s, p c) :=
  List.decidableBAll p s

instance decidableForallSome (p : Char → Prop) [DecidablePred p] (c? : Option Char) : Decidable (∀ c ∈ c?, p c) :=
  Option.decidableForallMem c?

theorem size_from_eq (sum : Nat) (s : List Char) : sizeFrom sum s = sum + size s := by
  induction s generalizing sum with
  | nil => rfl
  | cons c rest ih =>
    simp only [size, sizeFrom]
    rw [ih, ih (0 + c.utf8Size)]
    omega

@[simp]
theorem size_nil : size [] = 0 := rfl

@[simp]
theorem size_cons (c : Char) (rest : List Char) : size (c :: rest) = c.utf8Size + size rest := by
  rw [size, sizeFrom, size_from_eq]
  omega

@[simp]
theorem size_append (s t : List Char) : size (s ++ t) = size s + size t := by
  induction s with
  | nil => simp
  | cons c rest ih =>
    rw [List.cons_append, size_cons, size_cons, ih]
    omega

theorem size_singleton (c : Char) : size [c] = c.utf8Size := by simp

theorem size_eq_zero_iff {s : List Char} : size s = 0 ↔ s = [] := by
  cases s with
  | nil => simp
  | cons c rest =>
    have positive := Char.utf8Size_pos c
    simp only [size_cons, reduceCtorEq, iff_false]
    omega

theorem size_replicate_blank (n : Nat) : size (List.replicate n ' ') = n := by
  induction n with
  | zero => rfl
  | succ n ih =>
    rw [List.replicate_succ, size_cons, ih]
    have one : ' '.utf8Size = 1 := by decide
    omega

theorem chars_within_from_eq (count bytes : Nat) (s : List Char) :
    charsWithinFrom count bytes s = count + charsWithin bytes s := by
  induction s generalizing count bytes with
  | nil => rfl
  | cons c rest ih =>
    simp only [charsWithin, charsWithinFrom]
    split
    · rw [ih, ih 1]
      omega
    · rfl

theorem chars_within_cons (bytes : Nat) (c : Char) (rest : List Char) :
    charsWithin bytes (c :: rest) =
      if c.utf8Size ≤ bytes then charsWithin (bytes - c.utf8Size) rest + 1 else 0 := by
  rw [charsWithin, charsWithinFrom]
  split
  · rw [chars_within_from_eq]
    omega
  · rfl

-- A whole prefix is within its own size.
@[simp]
theorem chars_within_append (s t : List Char) : charsWithin (size s) (s ++ t) = s.length + charsWithin 0 t := by
  induction s with
  | nil => simp
  | cons c rest ih =>
    rw [List.cons_append, size_cons, chars_within_cons, if_pos (by omega)]
    rw [show c.utf8Size + size rest - c.utf8Size = size rest by omega, ih, List.length_cons]
    omega

@[simp]
theorem chars_within_zero (s : List Char) : charsWithin 0 s = 0 := by
  cases s with
  | nil => rfl
  | cons c rest =>
    have positive := Char.utf8Size_pos c
    rw [chars_within_cons, if_neg (by omega)]

@[simp]
theorem take_bytes_append (s t : List Char) : takeBytes (size s) (s ++ t) = s := by simp [takeBytes]

@[simp]
theorem drop_bytes_append (s t : List Char) : dropBytes (size s) (s ++ t) = t := by simp [dropBytes]

@[simp]
theorem take_bytes_all (s : List Char) : takeBytes (size s) s = s := by simpa using take_bytes_append s []

theorem append_inj_of_size {s t s' t' : List Char} (same : s ++ s' = t ++ t') (sizes : size s = size t) :
    s = t ∧ s' = t' := by
  constructor
  · rw [← take_bytes_append s s', same, sizes, take_bytes_append]
  · rw [← drop_bytes_append s s', same, sizes, drop_bytes_append]

end SnippetReview.Text
