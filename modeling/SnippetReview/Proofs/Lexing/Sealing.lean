import SnippetReview.Proofs.Lexing.Appending
import SnippetReview.Proofs.Lexing.CodePlaces
import SnippetReview.Proofs.Lexing.Outgrowing

set_option autoImplicit false

namespace SnippetReview

open Text

namespace Grammar

def Sealed (g : Grammar) (s : List Char) : Prop := ∀ e ∈ s.getLast?, ∀ marker ∈ g.delimiters, e ∉ marker

end Grammar

section

variable {marker s : List Char}

theorem is_prefix_of_sealed (nonempty : s ≠ []) (apart : ∀ e ∈ s.getLast?, e ∉ marker) (later : List Char) :
    marker.isPrefixOf (s ++ later) = marker.isPrefixOf s := by
  rw [Bool.eq_iff_iff, List.isPrefixOf_iff_prefix, List.isPrefixOf_iff_prefix]
  constructor
  · intro stands
    rcases List.prefix_or_prefix_of_prefix stands (List.prefix_append s later) with inside | beyond
    · exact inside
    · -- The last character would be one of the delimiter's.
      obtain ⟨body, e, rfl⟩ := List.eq_nil_or_concat s |>.resolve_left nonempty
      rw [List.concat_eq_append] at *
      exact absurd (beyond.subset (List.mem_append_right body List.mem_cons_self)) (apart e (by simp))
  · exact fun stands => stands.trans (List.prefix_append s later)

end

section

variable {g : Grammar} {s : List Char}

theorem sealed_of_last {b : Char} (apart : ∀ marker ∈ g.delimiters, b ∉ marker) (s : List Char) : g.Sealed (s ++ [b]) := by
  intro e last
  rw [List.getLast?_concat, Option.mem_some_iff] at last
  exact last ▸ apart

theorem Grammar.Sealed.unbridged (sealed : g.Sealed s) (later : List Char) : g.Unbridged later s := by
  have last : ∀ {t : List Char}, t ≠ [] → t <:+ s → ∀ e ∈ t.getLast?, ∀ marker ∈ g.delimiters, e ∉ marker := by
    rintro t some ⟨front, rfl⟩ e member
    refine sealed e ?_
    rw [List.getLast?_append, Option.mem_def.mp member]
    rfl
  constructor
  · intro marker known t some inside
    exact is_prefix_of_sealed some (fun e member => last some inside e member marker known) later
  · intro style known t some inside
    refine is_prefix_of_sealed some (fun e member twice => ?_) later
    have closing : style.closing ∈ g.delimiters := List.mem_append_right _ (List.mem_map_of_mem known)
    exact last some inside e member _ closing ((List.mem_append.mp twice).elim id id)

def Grammar.Slashless (g : Grammar) (s : List Char) : Prop := g.regexLiterals = true → '/' ∉ s

theorem slashless_of_plain (plain : g.regexLiterals = false) (s : List Char) : g.Slashless s := by
  intro enabled
  rw [plain] at enabled
  contradiction

theorem slash_none {c : Char} {rest : List Char} (slashless : g.Slashless (c :: rest)) (x : Context) (later : List Char) :
    x.slash? g (c :: rest ++ later) = none := by
  cases found : x.slash? g (c :: rest ++ later) with
  | none => rfl
  | some l =>
    obtain ⟨_, _, heads, enabled, _⟩ := Context.slash_some found
    have slash : c = '/' := (List.cons.inj heads).1
    exact absurd (slash ▸ List.mem_cons_self) (slashless enabled)

theorem tokens_from_sealed (legible : g.Legible) {s : List Char} (sealed : g.Sealed s) (slashless : g.Slashless s)
    (x : Context) (later : List Char) :
    (∃ y, tokensFrom g x (s ++ later) = tokensFrom g x s ++ tokensFrom g y later) ∨
      ∃ done l text l' more rest, text ≠ [] ∧ tokensFrom g x s = done ++ [.literal l text] ∧
        tokensFrom g x (s ++ later) = done ++ .literal l' (text ++ more) :: rest := by
  have read := read_on legible (sealed.unbridged later) (fun enabled slash => absurd slash (slashless enabled)) x
  have inside : flatten (tokensFrom g x s) <:+ s := ⟨[], flatten_tokens_from g x s⟩
  generalize tokensFrom g x s = alone at read inside
  generalize tokensFrom g x (s ++ later) = whole at read
  induction read with
  | behind y => exact .inl ⟨y, rfl⟩
  | cons t _ ih =>
    rcases ih ((List.suffix_append t.text _).trans inside) with ⟨y, goesOn⟩ | ⟨done, l, text, l', more, rest, some, before, after⟩
    · exact .inl ⟨y, by rw [goesOn, List.cons_append]⟩
    · exact .inr ⟨t :: done, l, text, l', more, rest, some, by rw [before, List.cons_append], by rw [after, List.cons_append]⟩
  | @longer l l' text more rest _ _ _ some _ => exact .inr ⟨[], l, text, l', more, rest, some, rfl, rfl⟩
  | regex _ enabled slash _ => exact absurd (inside.subset (List.mem_of_mem_head? slash)) (slashless enabled)

theorem code_at_sealed (legible : g.Legible) {s : List Char} (sealed : g.Sealed s) (slashless : g.Slashless s)
    (nonempty : s ≠ []) (x : Context) (later : List Char) :
    codeAt (tokensFrom g x (s ++ later)) (size s - 1) = codeAt (tokensFrom g x s) (size s - 1) := by
  have positive : ∀ {t : List Char}, t ≠ [] → 0 < size t := fun some =>
    Nat.pos_of_ne_zero fun zero => some (size_eq_zero_iff.mp zero)
  have bytes := positive nonempty
  rcases tokens_from_sealed legible sealed slashless x later with
    ⟨y, goesOn⟩ | ⟨done, l, text, l', more, rest, some, before, after⟩
  · rw [goesOn, code_at_front (by rw [flatten_tokens_from]; omega)]
  · have whole : flatten done ++ text = s := by
      have all := flatten_tokens_from g x s
      rwa [before, flatten_append, flatten_cons, show flatten [] = [] from rfl, List.append_nil] at all
    have last : size s - 1 = size (flatten done) + (size text - 1) := by
      have bytes' := positive some
      rw [← whole, size_append]
      omega
    -- Both literals hold the last byte.
    have bytes' := positive some
    rw [after, before, last, code_at_behind, code_at_behind, codeAt, codeAt, if_pos, if_pos]
    · rfl
    · exact Nat.sub_lt bytes' Nat.one_pos
    · rw [show (Token.literal l' (text ++ more)).text = text ++ more from rfl, size_append]
      omega

theorem tokens_from_split {x : Context} {s : List Char} {done more : List Token} (split : tokensFrom g x s = done ++ more) :
    more = tokensFrom g (done.foldl Token.after x) (flatten more) := by
  induction done generalizing x s with
  | nil =>
    rw [List.nil_append] at split
    rw [List.foldl_nil, ← split, flatten_tokens_from]
  | cons t done ih =>
    cases s with
    | nil =>
      rw [tokens_from_nil] at split
      contradiction
    | cons c rest =>
      cases found : x.literal? g (c :: rest) with
      | none =>
        rw [tokens_from_code found, List.cons_append, List.cons.injEq] at split
        rw [List.foldl_cons, ← split.1]
        exact ih split.2
      | some l =>
        rw [tokens_from_literal found, List.cons_append, List.cons.injEq] at split
        rw [List.foldl_cons, ← split.1]
        exact ih split.2

-- The signs of a language: of each delimiter that opens a literal the first character that is none of a word.
def Grammar.signs (g : Grammar) : List Char := g.markers.filterMap fun marker => marker.find? fun c => !isWordish c

theorem tokens_of_signless (marked : ∀ marker ∈ g.markers, marker.any g.signs.contains = true) {s : List Char}
    (signless : ∀ c ∈ s, c ∉ g.signs) (slashless : g.Slashless s) (x : Context) : tokensFrom g x s = s.map .code := by
  induction s generalizing x with
  | nil => exact tokens_from_nil g x
  | cons c rest ih =>
    have absent : ∀ marker ∈ g.markers, ¬ marker <+: c :: rest := by
      intro marker member stands
      obtain ⟨sign, inside, known⟩ := List.any_eq_true.mp (marked marker member)
      exact signless sign (stands.subset inside) (List.contains_iff_mem.mp known)
    have clear : g.beginsComment (c :: rest) = false := by
      refine Bool.eq_false_iff.mpr fun begins => ?_
      obtain ⟨marker, member, stands⟩ := mem_markers_of_begins begins
      exact absent marker member stands
    have unquoted : x.quote? g (c :: rest) = none := by
      cases found : x.quote? g (c :: rest) with
      | none => rfl
      | some style =>
        obtain ⟨marker, member, stands⟩ := mem_markers_of_quote found
        exact absurd stands (absent marker member)
    have slash := slash_none slashless x []
    rw [List.append_nil] at slash
    rw [tokens_from_code ((Context.literal_slash clear unquoted).trans slash), List.map_cons,
      ih (fun d member => signless d (List.mem_cons_of_mem c member))
        (fun enabled member => slashless enabled (List.mem_cons_of_mem c member))]

theorem code_at_all {s : List Char} {offset : Nat} (inside : offset < size s) : codeAt (s.map .code) offset = true := by
  induction s generalizing offset with
  | nil => exact absurd inside (Nat.not_lt_zero offset)
  | cons c rest ih =>
    rw [size_cons] at inside
    rw [List.map_cons, codeAt, show size (Token.code c).text = c.utf8Size from size_singleton c]
    split
    · rfl
    · exact ih (by omega)

end

end SnippetReview
