import SnippetReview.Proofs.Lexing.Restripping
import SnippetReview.Proofs.Snippet.Binding
import SnippetReview.Proofs.Snippet.Expressions

set_option autoImplicit false

namespace SnippetReview

open Text

namespace Python

abbrev grammar : Grammar := Host.python.grammar

def isItem (c : Char) : Bool := c != ',' && !isClosing c

def isParameter (c : Char) : Bool := isItem c && c != ':'

def Blanks (s : List Char) : Prop := ∀ c ∈ s, isAsciiBlank c = true

instance (s : List Char) : Decidable (Blanks s) := inferInstanceAs (Decidable (∀ c ∈ s, isAsciiBlank c = true))

theorem contextless : grammar.Contextless where
  blind := ⟨rfl, rfl⟩
  slashless := rfl
  plain := by decide
  closes := by decide
  joined := by decide

theorem legible : grammar.Legible := Host.python.grammar_legible

def signs : List Char := "#\"'/()[]\x7b\x7d<".toList

theorem avoids_of_test {test : Char → Bool} {avoided : List Char} (fails : ∀ s ∈ avoided, test s = false) {c : Char}
    (holds : test c = true) : c ∉ avoided := by
  intro member
  rw [fails c member] at holds
  contradiction

theorem silent_of_unsigned {cs : List Char} (unsigned : ∀ c ∈ cs, c ∉ signs) : grammar.silent cs = true := by
  have heads : ∀ marker ∈ grammar.markers, marker.head?.any signs.contains = true := by decide
  induction cs with
  | nil => rfl
  | cons c rest ih =>
    have avoids := unsigned c List.mem_cons_self
    have slash : c ≠ '/' := by
      rintro rfl
      exact avoids (by decide)
    have clear : grammar.clearAt (c :: rest) = true := by
      rw [Grammar.clearAt, Bool.and_eq_true, List.all_eq_true]
      refine ⟨by simpa using slash, fun marker known => ?_⟩
      obtain ⟨m, first, sign⟩ := Option.any_eq_true _ _ |>.mp (heads marker known)
      have other : m ≠ c := by
        rintro rfl
        exact avoids (List.contains_iff_mem.mp sign)
      cases marker with
      | nil => exact nomatch first
      | cons d marker =>
        obtain rfl : d = m := Option.some.inj first
        rw [List.isPrefixOf_cons_cons, List.isPrefixOf_cons_cons, beq_eq_false_iff_ne.mpr other,
          beq_eq_false_iff_ne.mpr other.symm]
        rfl
    rw [Grammar.silent, clear, ih fun d member => unsigned d (List.mem_cons_of_mem c member)]
    rfl

theorem flat_of_unsigned {c : Char} (avoids : c ∉ signs) : grammar.isFlat c = true := by
  have opens : isOpening c = false := by
    cases opens : isOpening c with
    | false => rfl
    | true =>
      simp only [isOpening, Bool.or_eq_true, beq_iff_eq] at opens
      rcases opens with (rfl | rfl) | rfl <;> exact absurd (by decide) avoids
  have closes : isClosing c = false := by
    cases closes : isClosing c with
    | false => rfl
    | true =>
      simp only [isClosing, Bool.or_eq_true, beq_iff_eq] at closes
      rcases closes with (rfl | rfl) | rfl <;> exact absurd (by decide) avoids
  have less : c ≠ '<' := by
    rintro rfl
    exact avoids (by decide)
  have wordless : grammar.blockWords = none := rfl
  simp [Grammar.isFlat, opens, closes, less, wordless]

theorem passes_unsigned {base : Char → Bool} {cs : List Char} (plain : ∀ c ∈ cs, c ∉ signs ∧ base c = true) :
    Passes grammar base true cs :=
  passes_signs (silent_of_unsigned fun c member => (plain c member).1)
    (List.all_eq_true.mpr fun c member => flat_of_unsigned (plain c member).1)
    (List.all_eq_true.mpr fun c member => (plain c member).2)

def tokenSigns : List Char := ['=', ':', ',', '*', ')', ']', '\x7d']

def Admits (base : Char → Bool) : Prop := ∀ c, c ∉ tokenSigns → base c = true

theorem admits_item : Admits isItem := by
  intro c avoids
  have other : ∀ d ∈ tokenSigns, c ≠ d := by
    rintro d sign rfl
    exact avoids sign
  simp [isItem, isClosing, other _ (show ',' ∈ tokenSigns by decide), other _ (show ')' ∈ tokenSigns by decide),
    other _ (show ']' ∈ tokenSigns by decide), other _ (show '\x7d' ∈ tokenSigns by decide)]

theorem admits_colon : Admits (· != ':') := by
  intro c avoids
  have other : c ≠ ':' := by
    rintro rfl
    exact avoids (by decide)
  simp [other]

theorem admits_equals : Admits (· != '=') := by
  intro c avoids
  have other : c ≠ '=' := by
    rintro rfl
    exact avoids (by decide)
  simp [other]

theorem Blanks.blank {s : List Char} (blanks : Blanks s) : ∀ c ∈ s, isBlank c = true :=
  fun c member => blank_of_ascii_blank (blanks c member)

theorem passes_blanks {base : Char → Bool} (admits : Admits base) {s : List Char} (blanks : Blanks s) :
    Passes grammar base true s :=
  passes_unsigned fun c member =>
    ⟨avoids_of_test (by decide) (blanks c member), admits c (avoids_of_test (by decide) (blanks c member))⟩

theorem passes_trailing {base : Char → Bool} (admits : Admits base) {s trail : List Char}
    (passes : Passes grammar base false s) (blanks : Blanks trail) : Passes grammar base false (s ++ trail) := by
  cases trail with
  | nil => rwa [List.append_nil]
  | cons c rest =>
    have breaks := break_of_blank (blanks c List.mem_cons_self)
    exact passes.append ((passes_blanks admits blanks).restrict false) (.inr ⟨c, rfl, breaks⟩)

theorem passes_names {base : Char → Bool} (admits : Admits base) {cs : List Char}
    (named : ∀ c ∈ cs, Pattern.isNameChar c = true) : Passes grammar base true cs :=
  passes_unsigned fun c member =>
    ⟨avoids_of_test (by decide) (named c member), admits c (avoids_of_test (by decide) (named c member))⟩

section

variable {key : List Char}

theorem clean_key_name (name : isName key = true) {blanks : List Char} (blank : Blanks blanks) :
    cleanKey? (key ++ blanks) = some (String.ofList key) := by
  have inked := inked_of_name name
  have trimmed : trim (key ++ blanks) = key := by
    obtain ⟨c, rest, rfl⟩ := List.exists_cons_of_ne_nil inked.nonempty
    have first : trimStart (c :: rest ++ blanks) = c :: rest ++ blanks :=
      trim_start_inked fun d head => inked.first d (by simpa using head)
    rw [trim, first, trim_end_blanks blank.blank, trim_end_inked inked.last]
  have whole := is_key_of_name name
  unfold cleanKey?
  simp only [trimmed]
  cases key with
  | nil => contradiction
  | cons c rest =>
    have named := all_of_name name c List.mem_cons_self
    have sign : (c == '"' || c == '\'' || c == '`') = false := by
      have other : c ∉ ['"', '\'', '`'] := avoids_of_test (by decide) named
      simpa [not_or, and_assoc] using other
    cases rest with
    | nil => simp [whole]
    | cons d rest => simp [sign, whole]

end

end Python

end SnippetReview
