import SnippetReview.Proofs.Text.Size

set_option autoImplicit false

namespace SnippetReview.Text

def blankCodes : List Nat :=
  [9, 10, 11, 12, 13, 32, 0x85, 0xA0, 0x1680, 0x2000, 0x2001, 0x2002, 0x2003, 0x2004, 0x2005, 0x2006, 0x2007, 0x2008,
    0x2009, 0x200A, 0x2028, 0x2029, 0x202F, 0x205F, 0x3000]

theorem code_of_blank {c : Char} (blank : isBlank c = true) : c.toNat ∈ blankCodes := by
  simp only [isBlank] at blank
  simp only [blankCodes, List.mem_cons, List.not_mem_nil, or_false]
  by_cases low : c.toNat < 128
  · simp only [low, if_true, Bool.or_eq_true, Bool.and_eq_true, decide_eq_true_eq, beq_iff_eq] at blank
    omega
  · simp only [low, if_false, Bool.or_eq_true, Bool.and_eq_true, decide_eq_true_eq, beq_iff_eq] at blank
    omega

theorem not_of_blank {p : Char → Bool} (fails : ∀ n ∈ blankCodes, p (Char.ofNat n) = false) {c : Char}
    (blank : isBlank c = true) : p c = false := by
  have holds := fails c.toNat (code_of_blank blank)
  rwa [Char.ofNat_toNat] at holds

theorem not_alpha_of_blank {c : Char} (blank : isBlank c = true) : c.isAlpha = false :=
  not_of_blank (p := Char.isAlpha) (by decide +kernel) blank

structure Inked (s : List Char) : Prop where
  nonempty : s ≠ []
  first : ∀ c ∈ s.head?, isBlank c = false
  last : ∀ c ∈ s.getLast?, isBlank c = false

theorem trim_start_blanks {blanks : List Char} (blank : ∀ c ∈ blanks, isBlank c = true) (s : List Char) :
    trimStart (blanks ++ s) = trimStart s := List.dropWhile_append_of_pos blank

theorem trim_start_inked {s : List Char} (first : ∀ c ∈ s.head?, isBlank c = false) : trimStart s = s := by
  cases s with
  | nil => rfl
  | cons c rest =>
    have ink : isBlank c = false := first c rfl
    simp [trimStart, ink]

theorem trim_end_blanks {blanks : List Char} (blank : ∀ c ∈ blanks, isBlank c = true) (s : List Char) :
    trimEnd (s ++ blanks) = trimEnd s := by
  unfold trimEnd dropEndWhile
  rw [List.reverse_append, List.dropWhile_append_of_pos fun c member => blank c (List.mem_reverse.mp member)]

theorem trim_end_inked {s : List Char} (last : ∀ c ∈ s.getLast?, isBlank c = false) : trimEnd s = s := by
  unfold trimEnd dropEndWhile
  cases shape : s.reverse with
  | nil => rw [List.dropWhile_nil, List.reverse_nil, List.reverse_eq_nil_iff.mp shape]
  | cons c rest =>
    have ink : isBlank c = false := last c (by rw [List.getLast?_eq_head?_reverse, shape]; rfl)
    rw [List.dropWhile_cons_of_neg (by simp [ink]), ← shape, List.reverse_reverse]

theorem trim_inked {s : List Char} (inked : Inked s) : trim s = s := by
  rw [trim, trim_start_inked inked.first, trim_end_inked inked.last]

theorem trim_blanks {blanks : List Char} (blank : ∀ c ∈ blanks, isBlank c = true) : trim blanks = [] := by
  have start := trim_start_blanks blank []
  rw [List.append_nil] at start
  rw [trim, start]
  rfl

theorem blank_of_ascii_blank {c : Char} (blank : isAsciiBlank c = true) : isBlank c = true := by
  unfold isAsciiBlank at blank
  simp only [Bool.or_eq_true, beq_iff_eq] at blank
  rcases blank with (((rfl | rfl) | rfl) | rfl) | rfl <;> decide

theorem ascii_ink {c : Char} (ink : isBlank c = false) : isAsciiBlank c = false := by
  cases blank : isAsciiBlank c with
  | false => rfl
  | true => exact absurd (blank_of_ascii_blank blank) (by rw [ink]; exact Bool.false_ne_true)

namespace Slice

def place (start : Nat) (text later : List Char) : Slice := ⟨start, Text.size text, text ++ later⟩

@[simp]
theorem text_place (start : Nat) (text later : List Char) : (place start text later).text = text :=
  take_bytes_append text later

@[simp]
theorem start_place (start : Nat) (text later : List Char) : (place start text later).start = start := rfl

@[simp]
theorem size_place (start : Nat) (text later : List Char) : (place start text later).size = Text.size text := rfl

theorem trim_place {lead body trail : List Char} (leading : ∀ c ∈ lead, isBlank c = true)
    (trailing : ∀ c ∈ trail, isBlank c = true) (inked : Inked body) (start : Nat) (later : List Char) :
    (place start (lead ++ body ++ trail) later).trim = place (start + Text.size lead) body (trail ++ later) := by
  have inner : trimStart (lead ++ body ++ trail) = body ++ trail := by
    have first : ∀ c ∈ (body ++ trail).head?, isBlank c = false := by
      obtain ⟨b, rest, rfl⟩ := List.exists_cons_of_ne_nil inked.nonempty
      exact inked.first
    rw [List.append_assoc, trim_start_blanks leading, trim_start_inked first]
  unfold Slice.trim
  simp only [text_place, inner, start_place]
  rw [trim_end_blanks trailing, trim_end_inked inked.last]
  unfold place
  congr 1
  · simp only [size_append]
    omega
  · have count : (lead ++ body ++ trail).length - (body ++ trail).length = lead.length := by
      simp only [List.length_append]
      omega
    rw [count, List.append_assoc, List.append_assoc, List.drop_left, List.append_assoc]

theorem trim_place_blanks {blanks : List Char} (blank : ∀ c ∈ blanks, isBlank c = true) (start : Nat)
    (later : List Char) : (place start blanks later).trim.size = 0 := by
  have trimmed := trim_blanks blank
  unfold trim Text.trim at *
  simp only [text_place]
  rw [trimmed]
  rfl

end Slice

end SnippetReview.Text
