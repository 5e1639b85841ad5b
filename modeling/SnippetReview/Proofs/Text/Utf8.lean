import SnippetReview.Proofs.Text.Size

set_option autoImplicit false

namespace SnippetReview.Text

def bytes (s : List Char) : List UInt8 := s.flatMap String.utf8EncodeChar

@[simp]
theorem bytes_nil : bytes [] = [] := rfl

@[simp]
theorem bytes_cons (c : Char) (rest : List Char) : bytes (c :: rest) = String.utf8EncodeChar c ++ bytes rest := by
  simp [bytes]

@[simp]
theorem bytes_append (s t : List Char) : bytes (s ++ t) = bytes s ++ bytes t := by simp [bytes]

@[simp]
theorem length_bytes (s : List Char) : (bytes s).length = size s := by
  induction s with
  | nil => rfl
  | cons c rest ih => simp [ih]

theorem encode_ascii {c : Char} (ascii : c.toNat < 128) : String.utf8EncodeChar c = [UInt8.ofNat c.toNat] := by
  have small : c.toNat ≤ 127 := Nat.le_of_lt_succ ascii
  rw [String.utf8EncodeChar]
  simp only [Char.toNat_val, small, if_true]

theorem utf8_size_ascii {c : Char} (ascii : c.toNat < 128) : c.utf8Size = 1 := by
  rw [← String.length_utf8EncodeChar, encode_ascii ascii]
  rfl

theorem ascii_of_alphanum {c : Char} (alphanum : c.isAlphanum = true) : c.toNat < 128 := by
  unfold Char.isAlphanum Char.isAlpha Char.isUpper Char.isLower Char.isDigit at alphanum
  simp only [Bool.or_eq_true, Bool.and_eq_true, decide_eq_true_eq, ge_iff_le, UInt32.le_iff_toNat_le] at alphanum
  change c.val.toNat < 128
  rcases alphanum with (⟨_, high⟩ | ⟨_, high⟩) | ⟨_, high⟩
  · exact Nat.lt_of_le_of_lt high (by decide)
  · exact Nat.lt_of_le_of_lt high (by decide)
  · exact Nat.lt_of_le_of_lt high (by decide)

theorem encode_high {c : Char} (high : 128 ≤ c.toNat) : ∀ b ∈ String.utf8EncodeChar c, 128 ≤ b.toNat := by
  have large : ¬ c.val.toNat ≤ 127 := Nat.not_le.mpr high
  have bound : c.val.toNat < 1114112 := by
    have valid := c.valid
    simp only [UInt32.isValidChar, Nat.isValidChar] at valid
    omega
  intro b member
  simp only [String.utf8EncodeChar, large, if_false] at member
  split at member
  · simp only [List.mem_cons, List.not_mem_nil, or_false] at member
    rcases member with rfl | rfl <;> rw [UInt8.toNat_ofNat'] <;> omega
  · split at member
    · simp only [List.mem_cons, List.not_mem_nil, or_false] at member
      rcases member with rfl | rfl | rfl <;> rw [UInt8.toNat_ofNat'] <;> omega
    · simp only [List.mem_cons, List.not_mem_nil, or_false] at member
      rcases member with rfl | rfl | rfl | rfl <;> rw [UInt8.toNat_ofNat'] <;> omega

theorem feed_mem_encode {c : Char} (member : (10 : UInt8) ∈ String.utf8EncodeChar c) : c = '\n' := by
  by_cases ascii : c.toNat < 128
  · rw [encode_ascii ascii, List.mem_singleton] at member
    have same := congrArg UInt8.toNat member
    rw [UInt8.toNat_ofNat_of_lt' (Nat.lt_trans ascii (by decide))] at same
    exact Char.toNat_inj.mp same.symm
  · have high := encode_high (Nat.le_of_not_lt ascii) 10 member
    exact absurd high (by decide)

theorem bytes_inj {s t : List Char} (same : bytes s = bytes t) : s = t := by
  have encoded : (String.ofList s).toByteArray = (String.ofList t).toByteArray := congrArg List.toByteArray same
  exact String.ofList_inj.mp (String.toByteArray_inj.mp encoded)

theorem eq_of_bytes {s t : List Char} (sizes : size s = size t) (each : ∀ i < size s, (bytes s)[i]? = (bytes t)[i]?) :
    s = t := by
  apply bytes_inj
  apply List.ext_getElem?
  intro i
  by_cases inside : i < size s
  · exact each i inside
  · have beyond : size s ≤ i := Nat.le_of_not_lt inside
    rw [List.getElem?_eq_none (by rwa [length_bytes]), List.getElem?_eq_none (by rwa [length_bytes, ← sizes])]

end SnippetReview.Text
