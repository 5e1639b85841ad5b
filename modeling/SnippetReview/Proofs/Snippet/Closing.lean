import SnippetReview.Proofs.Bytewise.Splitting
import SnippetReview.Proofs.Lexing.Parting
import SnippetReview.Proofs.Lexing.Restripping
import SnippetReview.Proofs.Snippet.Finding
import SnippetReview.Proofs.Snippet.Levels
import SnippetReview.Proofs.Snippet.Marks

set_option autoImplicit false

namespace SnippetReview

open Text

section

variable {g : Grammar} {b : Char}

theorem not_ident_of_closing (closes : isClosing b = true) : isIdentChar b = false := by
  refine Bool.eq_false_iff.mpr fun ident => ?_
  rw [(Bytewise.not_sign_of_ident ident).2.1] at closes
  contradiction

theorem utf8_size_of_closing (closes : isClosing b = true) : b.utf8Size = 1 :=
  utf8_size_ascii (Bytewise.ascii_of_sign (not_ident_of_closing closes))

theorem names_word_closed (closes : isClosing b = true) (u tail : List Char) :
    Bytewise.namesWord (u ++ b :: tail) = Bytewise.namesWord (u ++ [b]) := by
  have sign : b ≠ ':' := by
    rintro rfl
    exact absurd closes (by decide)
  cases u with
  | nil => rw [List.nil_append, List.nil_append, Bytewise.names_word_other sign, Bytewise.names_word_other sign]
  | cons c u =>
    by_cases colon : c = ':'
    · rw [colon]
      cases u <;> rfl
    · rw [List.cons_append, List.cons_append, Bytewise.names_word_other colon, Bytewise.names_word_other colon]

theorem take_while_closed (closes : isClosing b = true) (body tail : List Char) :
    (body ++ b :: tail).takeWhile isIdentChar = body.takeWhile isIdentChar := by
  refine Bytewise.take_while_bounded (fun d first => ?_) body
  obtain rfl := Option.some.inj first
  exact not_ident_of_closing closes

theorem word_at_closed (closes : isClosing b = true) (before : Option Char) (c : Char) (body tail : List Char) :
    Walk.wordAt g before c (body ++ b :: tail) = Walk.wordAt g before c body := by
  unfold Walk.wordAt
  rw [take_while_closed closes]

theorem word_at_closing (closes : isClosing b = true) (before : Option Char) (ahead : List Char) :
    Walk.wordAt g before b ahead = none := by
  unfold Walk.wordAt
  rw [not_alpha_of_bracket (.inr closes), Bool.and_false, Bool.false_and]
  rfl

theorem sighted_of_closing (closes : isClosing b = true) {c : Char} {rest : List Char}
    (ends : (c :: rest).getLast? = some b) (tail : List Char) : g.Sighted tail (c :: rest) := by
  rcases List.eq_nil_or_concat rest with rfl | ⟨body, last, rfl⟩
  · -- The bracket itself begins no word and leaves its level, whatever follows.
    obtain rfl : c = b := Option.some.inj ends
    refine Grammar.sighted_of_same tail (fun before => ?_) (fun n before => ?_) fun _ before _ _ here => ?_
    · rw [word_at_closing closes, word_at_closing closes]
    · unfold Nesting.after
      rw [Nesting.not_opening_of_closing closes, closes]
      rfl
    · rw [word_at_closing closes] at here
      contradiction
  · rw [List.concat_eq_append] at ends ⊢
    rw [← List.cons_append, List.getLast?_concat] at ends
    obtain rfl : last = b := Option.some.inj ends
    have behind : body ++ [last] ++ tail = body ++ last :: tail := by simp
    refine Grammar.sighted_of_same tail (fun before => ?_) (fun n before => ?_) fun words before found code here => ?_
    · rw [behind, word_at_closed closes, word_at_closed closes]
    · unfold Nesting.after
      rw [List.head?_append_of_ne_nil _ (by simp)]
    · have inside : found.length - 1 ≤ body.length := by
        have whole := (Bytewise.word_at_some (by rw [here]; rfl)).2.1
        rw [here, Option.some.injEq, take_while_closed closes] at whole
        rw [whole, List.length_cons, Nat.add_sub_cancel]
        exact (List.takeWhile_prefix _).length_le
      rw [behind, List.drop_append_of_le_length inside, List.drop_append_of_le_length inside, Bytewise.effect_eq,
        Bytewise.effect_eq, names_word_closed closes]

end

namespace Segment

theorem le_stop_of_tokens {start : Nat} {code : List Char} {tokens : List Token} {x : Segment}
    (member : x ∈ ofTokens start code tokens) : start + size code ≤ x.stop := by
  have run : ∀ {start code} {x : Segment}, x ∈ ofCode start code → start + size code ≤ x.stop := by
    intro start code x member
    unfold ofCode at member
    split at member
    · contradiction
    · rw [List.mem_singleton.mp member]
      exact Nat.le_of_eq (congrArg (start + ·) (size_reverse code).symm)
  induction tokens generalizing start code with
  | nil => exact run member
  | cons t rest ih =>
    cases t with
    | code c =>
      have later : start + size (c :: code) ≤ x.stop := ih member
      rw [size_cons] at later
      omega
    | literal l text =>
      rw [ofTokens, List.mem_append] at member
      rcases member with here | behind
      · exact run here
      · have starts := start_of_contiguous (contiguous_of_tokens (start + size code) [] (.literal l text :: rest)) behind
        exact Nat.le_trans starts (Nat.le_add_right _ _)

theorem stopped_of_tokens {start bound : Nat} {code : List Char} {front : List Token}
    (here : start + size code + size (flatten front) = bound) (c : Char) (more more' : List Token) :
    (ofTokens start code (front ++ .code c :: more)).filter (·.stop ≤ bound) =
      (ofTokens start code (front ++ .code c :: more')).filter (·.stop ≤ bound) := by
  induction front generalizing start code with
  | nil =>
    have none : ∀ more, (ofTokens start (c :: code) more).filter (·.stop ≤ bound) = [] := by
      intro more
      rw [List.filter_eq_nil_iff]
      intro x member
      have behind := le_stop_of_tokens member
      have positive := Char.utf8Size_pos c
      rw [size_cons] at behind
      rw [flatten, List.flatMap_nil, size_nil] at here
      simp only [decide_eq_true_eq]
      omega
    exact (none more).trans (none more').symm
  | cons t front ih =>
    rw [flatten_cons, size_append] at here
    cases t with
    | code d =>
      have next : start + size (d :: code) + size (flatten front) = bound := by
        rw [size_cons, ← here, show size (Token.code d).text = d.utf8Size from size_singleton d]
        omega
      exact ih next
    | literal l text =>
      have next : start + size code + size text + size [] + size (flatten front) = bound := by
        rw [← here, size_nil, Token.text]
        omega
      rw [List.cons_append, List.cons_append, ofTokens, ofTokens, List.filter_append, List.filter_append, List.filter_cons,
        List.filter_cons, ih next]

end Segment

section

variable {g : Grammar} {text : List Char} {closing : Char} {v : Visit}

theorem front_of_close (legible : g.Legible) (plain : g.regexLiterals = false)
    (apart : ∀ b, isClosing b = true → ∀ marker ∈ g.delimiters, b ∉ marker) (found : matchingClose g text closing = some v) :
    ∃ done later, isClosing closing = true ∧ v.offset = size (flatten done) ∧ text = flatten done ++ [closing] ++ later ∧
      ∀ tail, ∃ more, tokens g (flatten done ++ [closing] ++ tail) = done ++ .code closing :: more := by
  obtain ⟨rfl, _⟩ := stands_of_close found
  rw [matchingClose, Option.filter_eq_some_iff, findOutside] at found
  have holds := List.find?_some found.1
  rw [Bool.and_eq_true] at holds
  obtain ⟨done, more, read, offset, _⟩ := place_of_visits (List.mem_of_find?_eq_some found.1)
  have whole := flatten_tokens_from g {} text
  rw [← tokens, read, flatten_append, flatten_cons, ← List.append_assoc] at whole
  refine ⟨done, flatten more, holds.2, offset, whole.symm, fun tail => ?_⟩
  obtain ⟨y, cut⟩ := tokens_from_cut legible plain (apart _ holds.2) read tail
  exact ⟨_, cut⟩

theorem seen_of_cut {b : Char} (closes : isClosing b = true) {front more : List Token} {tail : List Char}
    (ends : (flatten front).getLast? = some b) (read : tokens g (flatten front ++ tail) = front ++ more) :
    ∃ further, Walk.seen g { cursor := Cursor.start (flatten front ++ tail) } (tokens g (flatten front ++ tail)) =
        (Walk.seen g { cursor := Cursor.start (flatten front) } front).map (Visit.extend tail) ++ further ∧
      ∀ v ∈ further, size (flatten front) ≤ v.offset := by
  have rest : flatten more = tail := by
    have all := flatten_tokens_from g {} (flatten front ++ tail)
    rw [← tokens, read, flatten_append] at all
    exact List.append_cancel_left all
  have filled : ∀ t ∈ front ++ more, t.IsFilled := fun t member => by
    rw [← read] at member
    exact filled_of_mem_tokens member
  have kinds : ∀ l s, Token.literal l s ∈ front → l.kind ≠ .code := fun l s member =>
    (filled _ (List.mem_append_left more member)).1
  have sighted : ∀ c rest, c :: rest <:+ flatten front ++ [] → g.Sighted tail (c :: rest) := by
    rintro c rest ⟨before, parts⟩
    rw [List.append_nil] at parts
    rw [← parts, List.getLast?_append_of_ne_nil _ (List.cons_ne_nil c rest)] at ends
    exact sighted_of_closing closes ends tail
  let w : Walk := { cursor := Cursor.start (flatten front) }
  have here : w.cursor.rest = flatten front ++ [] := (List.append_nil _).symm
  have behind : ((w.extend tail).across g front).At (flatten front) tail := by
    have start : (w.extend tail).At [] (flatten front ++ tail) := rfl
    exact start.across kinds
  refine ⟨((w.extend tail).across g front).seen g more, ?_, fun v member => ?_⟩
  · rw [read, ← Walk.seen_extend tail here kinds sighted, ← Walk.seen_append]
    rfl
  · have stands : ((w.extend tail).across g front).cursor.rest = flatten more ++ [] := by
      rw [behind, rest, List.append_nil]
    obtain ⟨_, _, _, offset, _⟩ :=
      Walk.seen_between stands (fun t inside => filled t (List.mem_append_right _ inside)) member
    rw [offset, behind]
    exact Nat.le_add_right _ _

theorem find_closing_of_cut {b : Char} (closes : isClosing b = true) {front more : List Token} {tail : List Char}
    (ends : (flatten front).getLast? = some b) (read : tokens g (flatten front ++ tail) = front ++ more) :
    ∃ beyond, findOutside g (flatten front ++ tail) (fun v => isClosing v.char) =
        (((Walk.seen g { cursor := Cursor.start (flatten front) } front).find?
          fun v => v.depth == 0 && isClosing v.char).map (Visit.extend tail)).or beyond ∧
      ∀ v ∈ beyond, size (flatten front) ≤ v.offset := by
  obtain ⟨further, seen, low⟩ := seen_of_cut closes ends read
  refine ⟨further.find? fun v => v.depth == 0 && isClosing v.char, ?_, fun v found => low v (List.mem_of_find?_eq_some found)⟩
  rw [find_outside_eq (fun _ => Visit.not_closing_of_inner), seen, List.find?_append, List.find?_map]
  rfl

theorem close_of_cut {b : Char} (closes : isClosing b = true) {front : List Token} (ends : (flatten front).getLast? = some b)
    (read : ∀ tail, ∃ more, tokens g (flatten front ++ tail) = front ++ more) {later : List Char}
    (found : matchingClose g (flatten front ++ later) closing = some v) (inside : v.offset < size (flatten front))
    (tail : List Char) : (matchingClose g (flatten front ++ tail) closing).map (·.offset) = some v.offset := by
  obtain ⟨_, parts⟩ := read later
  obtain ⟨beyond, search, low⟩ := find_closing_of_cut closes ends parts
  rw [matchingClose, Option.filter_eq_some_iff, search, Option.or_eq_some_iff, Option.map_eq_some_iff] at found
  obtain ⟨⟨u, first, rfl⟩ | ⟨_, late⟩, bracket⟩ := found
  · obtain ⟨_, parts'⟩ := read tail
    obtain ⟨_, search', _⟩ := find_closing_of_cut closes ends parts'
    have again : ((u.extend tail).char == closing) = true := bracket
    rw [matchingClose, search', first, Option.map_some, Option.some_or, Option.filter_some, if_pos again]
    rfl
  · exact absurd inside (Nat.not_lt_of_le (low v late))

end

theorem Host.closing_apart (host : Host) : ∀ b, isClosing b = true → ∀ marker ∈ host.grammar.delimiters, b ∉ marker := by
  have none : ∀ marker ∈ host.grammar.delimiters, ∀ b ∈ marker, isClosing b = false := by cases host <;> decide
  intro b closes marker known member
  rw [none marker known b member] at closes
  contradiction

/-- What follows the bracket that closes a configuration does not move it, and does not change the segments before it,
in a language without regular expressions. -/
theorem matching_close_cut (host : Host) (plain : host.grammar.regexLiterals = false) {text : List Char} {closing : Char}
    {p : Nat} (found : (matchingClose host.grammar text closing).map (·.offset) = some p) (later : List Char) :
    (matchingClose host.grammar (takeBytes (p + 1) text ++ later) closing).map (·.offset) = some p ∧
      (segments host.grammar (takeBytes (p + 1) text ++ later)).filter (·.stop ≤ p) =
        (segments host.grammar text).filter (·.stop ≤ p) := by
  obtain ⟨v, close, rfl⟩ := Option.map_eq_some_iff.mp found
  obtain ⟨done, behind, closes, offset, parts, read⟩ := front_of_close host.grammar_legible plain host.closing_apart close
  have front : flatten (done ++ [.code closing]) = flatten done ++ [closing] := flatten_append _ _
  have bytes : size (flatten done ++ [closing]) = v.offset + 1 := by
    rw [size_append, size_singleton, utf8_size_of_closing closes, offset]
  have cut : takeBytes (v.offset + 1) text = flatten done ++ [closing] := by rw [← bytes, parts, take_bytes_append]
  rw [cut]
  constructor
  · rw [parts, ← front] at close
    rw [← front] at bytes ⊢
    refine close_of_cut closes (by rw [front, List.getLast?_concat]) (fun tail => ?_) close (by omega) later
    obtain ⟨more, first⟩ := read tail
    exact ⟨more, by rw [front, first, List.append_assoc]; rfl⟩
  · obtain ⟨more, first⟩ := read later
    obtain ⟨more', second⟩ := read behind
    rw [segments_eq, segments_eq, first, parts, second]
    exact Segment.stopped_of_tokens (by rw [size_nil, Nat.zero_add, offset]) closing more more'

theorem matching_close_cut_verbatim :
    let text := "f<A>(1), @\"a)\"\"\", b) + c".toList
    let cut := "f<A>(1), @\"a)\"\"\", b)\"/*".toList
    (matchingClose Host.dotnet.grammar text ')').map (·.offset) = some 19 ∧
      (matchingClose Host.dotnet.grammar cut ')').map (·.offset) = some 19 ∧
      (segments Host.dotnet.grammar cut).filter (·.stop ≤ 19) = (segments Host.dotnet.grammar text).filter (·.stop ≤ 19) := by
  intro text cut
  have found : (matchingClose Host.dotnet.grammar text ')').map (·.offset) = some 19 := by decide +kernel
  exact ⟨found, matching_close_cut .dotnet rfl found "\"/*".toList⟩

end SnippetReview
