import Mathlib.Data.List.Forall2
import SnippetReview.Proofs.Bytewise.Segments
import SnippetReview.Proofs.Lexing.Partition
import SnippetReview.Proofs.Lexing.Stripping
import SnippetReview.Proofs.Text.Trimming
import SnippetReview.Proofs.Text.Utf8

set_option autoImplicit false

namespace SnippetReview

open Text

-- A first character of opening delimiters: it is no blank, belongs to no sign of more than one character, and
-- where words matter it goes on none.
def Grammar.veils (g : Grammar) (c : Char) : Bool :=
  !isBlank c && c != ':' && c != '>' && !(g.blockWords.isSome && isIdentChar c)

def Grammar.Opens (g : Grammar) (opening : List Char) : Prop := ∃ c rest, opening = c :: rest ∧ g.veils c = true

def Closes (closing : List Char) : Prop := ∃ front c, closing = front ++ [c] ∧ isBlank c = false

-- Texts that differ in contents between delimiters, where these have the same size.
inductive Veiled (g : Grammar) : List Char → List Char → Prop where
  | nil : Veiled g [] []
  | char {a b : List Char} (c : Char) (rest : Veiled g a b) : Veiled g (c :: a) (c :: b)
  | content {opening x y closing a b : List Char} (opens : g.Opens opening) (closes : Closes closing)
      (same : size x = size y) (rest : Veiled g a b) :
      Veiled g (opening ++ x ++ closing ++ a) (opening ++ y ++ closing ++ b)

namespace Veiled

variable {g : Grammar} {a b c d : List Char}

theorem refl (s : List Char) : Veiled g s s := by
  induction s with
  | nil => exact .nil
  | cons c rest ih => exact ih.char c

theorem append (front : Veiled g a b) (back : Veiled g c d) : Veiled g (a ++ c) (b ++ d) := by
  induction front with
  | nil => exact back
  | char e _ ih => exact ih.char e
  | content opens closes same _ ih =>
    have joined := ih.content opens closes same
    simp only [List.append_assoc] at joined ⊢
    exact joined

theorem size_eq (veiled : Veiled g a b) : size a = size b := by
  induction veiled with
  | nil => rfl
  | char e _ ih => rw [size_cons, size_cons, ih]
  | content _ _ same _ ih => simp only [size_append, same, ih]

theorem head_eq (veiled : Veiled g a b) : a.head? = b.head? := by
  cases veiled with
  | nil => rfl
  | char e _ => rfl
  | content opens _ _ _ =>
    obtain ⟨e, rest, rfl, -⟩ := opens
    rfl

theorem cons_of_plain {e : Char} (veiled : Veiled g (e :: a) b) (plain : g.veils e = false) :
    ∃ rest, b = e :: rest ∧ Veiled g a rest := by
  generalize whole : e :: a = s at veiled
  cases veiled with
  | nil => contradiction
  | char e' rest =>
    obtain ⟨rfl, rfl⟩ := List.cons.inj whole
    exact ⟨_, rfl, rest⟩
  | content opens _ _ _ =>
    -- A content would begin with a character that opens it.
    obtain ⟨e', rest, rfl, veils⟩ := opens
    rw [(List.cons.inj whole).1, veils] at plain
    contradiction

theorem stretch {p : Char → Bool} (veiled : Veiled g a b) (plain : ∀ e, p e = true → g.veils e = false) :
    a.takeWhile p = b.takeWhile p ∧ Veiled g (a.dropWhile p) (b.dropWhile p) := by
  induction veiled with
  | nil => exact ⟨rfl, .nil⟩
  | char e rest ih =>
    cases further : p e with
    | true =>
      rw [List.takeWhile_cons_of_pos further, List.takeWhile_cons_of_pos further, List.dropWhile_cons_of_pos further,
        List.dropWhile_cons_of_pos further, ih.1]
      exact ⟨rfl, ih.2⟩
    | false =>
      have stops : ¬ p e = true := by simp [further]
      rw [List.takeWhile_cons_of_neg stops, List.takeWhile_cons_of_neg stops, List.dropWhile_cons_of_neg stops,
        List.dropWhile_cons_of_neg stops]
      exact ⟨rfl, rest.char e⟩
  | content opens closes same rest _ =>
    have whole := rest.content opens closes same
    -- The stretch ends before the opening delimiter.
    obtain ⟨e, more, rfl, veils⟩ := opens
    have stops : ¬ p e = true := fun further => by simp [plain e further] at veils
    simp only [List.cons_append] at whole ⊢
    rw [List.takeWhile_cons_of_neg stops, List.takeWhile_cons_of_neg stops, List.dropWhile_cons_of_neg stops,
      List.dropWhile_cons_of_neg stops]
    exact ⟨rfl, whole⟩

theorem trim_start (veiled : Veiled g a b) : Veiled g (trimStart a) (trimStart b) := by
  refine (veiled.stretch fun e blank => ?_).2
  rw [Grammar.veils, blank]
  rfl

end Veiled

theorem trim_end_append (front back : List Char) :
    trimEnd (front ++ back) = if trimEnd back = [] then trimEnd front else front ++ trimEnd back := by
  unfold trimEnd dropEndWhile
  rw [List.reverse_append, List.dropWhile_append]
  cases List.dropWhile isBlank back.reverse with
  | nil => rfl
  | cons c rest => simp

namespace Veiled

variable {g : Grammar} {a b : List Char}

theorem trim_end (veiled : Veiled g a b) : Veiled g (trimEnd a) (trimEnd b) := by
  -- How far blanks are cut off depends on whether anything is left behind them, in either text.
  have empty {s t : List Char} (alike : Veiled g s t) : s = [] ↔ t = [] := by
    rw [← size_eq_zero_iff, alike.size_eq, size_eq_zero_iff]
  induction veiled with
  | nil => exact .nil
  | @char a b e rest ih =>
    have split := empty ih
    rw [← List.singleton_append, trim_end_append, ← List.singleton_append (l := b), trim_end_append]
    by_cases none : trimEnd a = []
    · rw [if_pos none, if_pos (split.mp none)]
      exact refl _
    · rw [if_neg none, if_neg (mt split.mpr none)]
      exact ih.char e
  | @content opening x y closing a b opens closes same rest ih =>
    have split := empty ih
    -- The closing delimiter ends in a sign, which keeps the content whole.
    have whole {s : List Char} : trimEnd (opening ++ s ++ closing) = opening ++ s ++ closing := by
      obtain ⟨front, e, rfl, ink⟩ := closes
      apply trim_end_inked
      intro d last
      rw [← List.append_assoc, List.getLast?_concat] at last
      rwa [← Option.some.inj last]
    rw [trim_end_append _ a, trim_end_append _ b]
    by_cases none : trimEnd a = []
    · rw [if_pos none, if_pos (split.mp none), whole, whole]
      have alone := Veiled.nil.content opens closes same
      rwa [List.append_nil, List.append_nil] at alone
    · rw [if_neg none, if_neg (mt split.mpr none)]
      exact ih.content opens closes same

end Veiled

section

variable {g : Grammar}

theorem literal_of_mem_segments {tokens : List Token} {start : Nat} {code : List Char} {x : Segment}
    (member : x ∈ Segment.ofTokens start code tokens) (kind : x.kind ≠ .code) :
    ∃ offset l text, x = Segment.ofLiteral offset l text ∧ Token.literal l text ∈ tokens := by
  let P : Segment → Prop := fun x =>
    x.kind ≠ .code → ∃ offset l text, x = .ofLiteral offset l text ∧ Token.literal l text ∈ tokens
  have all : ∀ x ∈ Segment.ofTokens start code tokens, P x :=
    Segment.forall_of_tokens (fun _ _ _ other => absurd rfl other)
      (fun offset l text inside _ => ⟨offset, l, text, rfl, inside⟩) start code
  exact all x member kind

-- A segment between delimiters that open and close a content, which are as long in bytes as in characters.
structure Segment.IsEnclosed (g : Grammar) (x : Segment) (opening content closing : List Char) : Prop where
  text : x.text = opening ++ content ++ closing
  opens : g.Opens opening
  closes : Closes closing
  opening : x.opening = size opening
  closing : x.closing = size closing

-- What makes the contents of a language veiled: its delimiters are made of single bytes, and show themselves
-- as such to what looks at their ends.
structure Grammar.Veiling (g : Grammar) : Prop extends g.Legible where
  opens : ∀ style ∈ g.quotes, g.Opens style.opening
  closes : ∀ style ∈ g.quotes, Closes style.closing
  single : ∀ style ∈ g.quotes, size style.opening = style.opening.length ∧ size style.closing = style.closing.length

theorem enclosed_of_mem_segments (veiling : g.Veiling) {s : List Char} {x : Segment} (member : x ∈ segments g s)
    (kind : x.kind = .quoted) (closed : x.isClosed = true) :
    ∃ opening content closing, x.IsEnclosed g opening content closing := by
  rw [segments_eq] at member
  obtain ⟨offset, l, text, rfl, inside⟩ := literal_of_mem_segments member (by rw [kind]; decide)
  obtain ⟨y, c, rest, found, rfl⟩ := literal_of_mem_tokens inside
  obtain ⟨style, known, content, parts, opening, closing⟩ :=
    closed_parts found kind (by simpa [Segment.isClosed, Segment.ofLiteral] using closed)
  obtain ⟨first, last⟩ := veiling.single style known
  exact ⟨style.opening, content, style.closing, parts, veiling.opens style known, veiling.closes style known,
    opening.trans first.symm, closing.trans last.symm⟩

structure Segment.Twins (g : Grammar) (x y : Segment) : Prop where
  kind : x.kind = y.kind
  size : size x.text = size y.text
  last : x.text.getLast? = y.text.getLast?
  same : x.kind ≠ .quoted → x.text = y.text
  veiled : ∀ {a b : List Char}, Veiled g a b → Veiled g (x.text ++ a) (y.text ++ b)

theorem Segment.twins_of_text {x y : Segment} (kind : x.kind = y.kind) (text : x.text = y.text) : x.Twins g y where
  kind := kind
  size := by rw [text]
  last := by rw [text]
  same := fun _ => text
  veiled := fun behind => text ▸ (Veiled.refl x.text).append behind

theorem Segment.twins_of_content {x y : Segment} (kind : x.kind = y.kind) (quoted : x.kind = .quoted)
    {opening a b closing : List Char} (opens : g.Opens opening) (closes : Closes closing) (same : Text.size a = Text.size b)
    (first : x.text = opening ++ a ++ closing) (second : y.text = opening ++ b ++ closing) : x.Twins g y where
  kind := kind
  size := by simp only [first, second, size_append, same]
  last := by
    obtain ⟨front, c, rfl, -⟩ := closes
    rw [first, second, ← List.append_assoc, ← List.append_assoc, List.getLast?_concat, List.getLast?_concat]
  same := fun other => absurd quoted other
  veiled := fun behind => by
    rw [first, second]
    exact behind.content opens closes same

def Segment.Hides (x : Segment) (i : Nat) : Prop :=
  x.kind = .quoted ∧ x.isClosed = true ∧ x.start + x.opening ≤ i ∧ i + x.closing < x.stop

instance (x : Segment) (i : Nat) : Decidable (x.Hides i) := inferInstanceAs (Decidable (_ ∧ _))

theorem twins_of_agree {x y : Segment} (spans : x.span = y.span)
    (enclosed : x.kind = .quoted → x.isClosed = true → ∃ opening content closing, x.IsEnclosed g opening content closing)
    (enclosed' : y.kind = .quoted → y.isClosed = true → ∃ opening content closing, y.IsEnclosed g opening content closing)
    (agree : ∀ i < size x.text, ¬ x.Hides (x.start + i) → (bytes x.text)[i]? = (bytes y.text)[i]?) : x.Twins g y := by
  obtain ⟨kind, start, stop, opening, closing⟩ : x.kind = y.kind ∧ x.start = y.start ∧ x.stop = y.stop ∧
      x.opening = y.opening ∧ x.closing = y.closing := by
    unfold Segment.span at spans
    simpa using spans
  have sizes : size x.text = size y.text := by
    unfold Segment.stop at stop
    omega
  by_cases hides : x.kind = .quoted ∧ x.isClosed = true
  · obtain ⟨quoted, closed⟩ := hides
    obtain ⟨o, a, k, first⟩ := enclosed quoted closed
    obtain ⟨o', b, k', second⟩ := enclosed' (kind ▸ quoted) (by rwa [Segment.isClosed, ← closing])
    have opens : size o = size o' := by rw [← first.opening, ← second.opening, opening]
    have closes : size k = size k' := by rw [← first.closing, ← second.closing, closing]
    have whole : size x.text = size o + size a + size k := by rw [first.text, size_append, size_append]
    have whole' : size y.text = size o' + size b + size k' := by rw [second.text, size_append, size_append]
    -- The delimiters are exposed, so that they agree byte by byte.
    have front : o = o' := by
      apply eq_of_bytes opens
      intro i inside
      have here := agree i (by omega) fun hidden => by
        have above := hidden.2.2.1
        rw [first.opening] at above
        omega
      rw [first.text, second.text, List.append_assoc, List.append_assoc, bytes_append o, bytes_append o'] at here
      rwa [List.getElem?_append_left (by rwa [length_bytes]), List.getElem?_append_left (by rwa [length_bytes, ← opens])]
        at here
    have back : k = k' := by
      apply eq_of_bytes closes
      intro i inside
      have here := agree (size o + size a + i) (by omega) fun hidden => by
        have below := hidden.2.2.2
        rw [first.closing, Segment.stop] at below
        omega
      rw [first.text, second.text, bytes_append (o ++ a), bytes_append (o' ++ b)] at here
      have before : (bytes (o ++ a)).length = size o + size a := by rw [length_bytes, size_append]
      have before' : (bytes (o' ++ b)).length = size o + size a := by
        rw [length_bytes, size_append]
        omega
      rw [List.getElem?_append_right (by omega), List.getElem?_append_right (by omega), before, before',
        Nat.add_sub_cancel_left] at here
      exact here
    rw [← front, ← back] at second
    exact Segment.twins_of_content kind quoted first.opens first.closes (by omega) first.text second.text
  · -- Of any other segment every byte is exposed.
    apply Segment.twins_of_text kind
    apply eq_of_bytes sizes
    intro i inside
    exact agree i inside fun hidden => hides ⟨hidden.1, hidden.2.1⟩

theorem twins_of_contiguous {first second : List Segment} {offset : Nat} (contiguous : Contiguous offset first)
    (contiguous' : Contiguous offset second) (spans : first.map Segment.span = second.map Segment.span)
    (enclosed : ∀ x ∈ first, x.kind = .quoted → x.isClosed = true →
      ∃ opening content closing, x.IsEnclosed g opening content closing)
    (enclosed' : ∀ x ∈ second, x.kind = .quoted → x.isClosed = true →
      ∃ opening content closing, x.IsEnclosed g opening content closing)
    (agree : ∀ i < size (first.flatMap (·.text)), (∀ x ∈ first, ¬ x.Hides (offset + i)) →
      (bytes (first.flatMap (·.text)))[i]? = (bytes (second.flatMap (·.text)))[i]?) :
    List.Forall₂ (Segment.Twins g) first second := by
  induction first generalizing second offset with
  | nil =>
    cases second with
    | nil => exact .nil
    | cons y second => contradiction
  | cons x first ih =>
    cases second with
    | nil => contradiction
    | cons y second =>
      obtain ⟨here, behind⟩ := List.cons.inj spans
      obtain ⟨start, next⟩ := contiguous
      obtain ⟨start', next'⟩ := contiguous'
      have sizes : size x.text = size y.text := by
        have stop : x.stop = y.stop := congrArg Span.stop here
        unfold Segment.stop at stop
        omega
      simp only [List.flatMap_cons, bytes_append, size_append] at agree
      refine .cons ?_ (ih next (sizes ▸ next') behind (fun x member => enclosed x (List.mem_cons_of_mem _ member))
        (fun y member => enclosed' y (List.mem_cons_of_mem _ member)) fun i inside exposed => ?_)
      · apply twins_of_agree here (enclosed x List.mem_cons_self) (enclosed' y List.mem_cons_self)
        intro i inside exposed
        have same := agree i (by omega) fun z member => ?_
        · rwa [List.getElem?_append_left (by rwa [length_bytes]),
            List.getElem?_append_left (by rwa [length_bytes, ← sizes])] at same
        · rcases List.mem_cons.mp member with rfl | later
          · rwa [← start]
          · -- A segment further on starts behind the byte.
            intro hidden
            have above := start_of_contiguous next later
            have from' := hidden.2.2.1
            omega
      · have same := agree (size x.text + i) (by omega) fun z member => ?_
        · rw [List.getElem?_append_right (by rw [length_bytes]; omega),
            List.getElem?_append_right (by rw [length_bytes]; omega), length_bytes, length_bytes, ← sizes,
            Nat.add_sub_cancel_left] at same
          exact same
        · rw [← Nat.add_assoc]
          rcases List.mem_cons.mp member with rfl | later
          · intro hidden
            have below := hidden.2.2.2
            unfold Segment.stop at below
            omega
          · exact exposed z later

-- Texts with the same segments that agree on every byte outside the contents of closed quoted literals.
structure Alike (g : Grammar) (s t : List Char) : Prop where
  spans : (segments g s).map Segment.span = (segments g t).map Segment.span
  agree : ∀ i < size s, (∀ x ∈ segments g s, ¬ x.Hides i) → (bytes s)[i]? = (bytes t)[i]?

theorem twins_of_alike {s t : List Char} (veiling : g.Veiling) (alike : Alike g s t) :
    List.Forall₂ (Segment.Twins g) (segments g s) (segments g t) := by
  apply twins_of_contiguous (contiguous_segments g s) (contiguous_segments g t) alike.spans
  · exact fun x => enclosed_of_mem_segments veiling
  · exact fun x => enclosed_of_mem_segments veiling
  · rw [flat_map_text_segments, flat_map_text_segments]
    intro i inside exposed
    refine alike.agree i inside fun x member => ?_
    rw [← Nat.zero_add i]
    exact exposed x member

end

end SnippetReview
