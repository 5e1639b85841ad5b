import SnippetReview.Proofs.Host.PythonCall
import SnippetReview.Proofs.Pattern.Anchored
import SnippetReview.Proofs.Snippet.Placing

/- The statements of a Python call. A function that was cut at the commas between its parameters is put
   together again, unless the piece with its body is taken for arguments that are spread. -/

set_option autoImplicit false

namespace SnippetReview

open Text

namespace Python

section

variable {a : Argument}

theorem passes_written (formed : a.WellFormed) {base : Char → Bool} (admits : Admits base) :
    Passes grammar base true (a.key ++ a.before) :=
  (passes_names admits (all_of_name formed.key)).append (passes_blanks admits (formed.blanks a.before (by simp))) (.inl rfl)

theorem plain_sign (formed : a.WellFormed) {value : List Char} (sign : ∀ c ∈ (a.after ++ value).head?, c ∉ ['=', '>', '~']) :
    isLookalike ['='] (a.key ++ a.before).getLast? (a.after ++ value).head? = false := by
  have last : ∀ c ∈ (a.key ++ a.before).getLast?, c ∉ ['=', '!', '<', '>'] := by
    intro c ends
    rcases List.mem_append.mp (List.mem_of_getLast? ends) with inKey | blank
    · exact avoids_of_test (by decide) (all_of_name formed.key c inKey)
    · exact avoids_of_test (by decide) (formed.blanks a.before (by simp) c blank)
  have apart : ∀ {next : Option Char} {avoided : List Char}, (∀ c ∈ next, c ∉ avoided) →
      (next.map avoided.contains).getD false = false := by
    intro next avoided avoids
    cases next with
    | none => rfl
    | some c => simpa using avoids c rfl
  simp only [isLookalike, beq_self_eq_true, if_true, apart last, apart sign, Bool.or_self]

theorem bound_text (formed : a.WellFormed) {value : List Char}
    (sign : ∀ c ∈ (a.after ++ value).head?, c ∉ ['=', '>', '~']) :
    boundText? grammar (a.head ++ value) = some (a.after ++ value) := by
  obtain ⟨v, found, _, rest⟩ : ∃ v, findToken grammar (a.key ++ a.before ++ '=' :: ([] ++ [] ++ (a.after ++ value))) ['='] = some v ∧
      v.offset = size (a.key ++ a.before) ∧ v.rest = [] ++ [] ++ (a.after ++ value) :=
    find_token_passage (passes_written formed admits_equals) (.inl rfl) (by decide) (by decide) (by decide)
      (plain_sign formed sign)
  have shape : a.head ++ value = a.key ++ a.before ++ '=' :: ([] ++ [] ++ (a.after ++ value)) := by simp [Argument.head]
  have styles : grammar.bindings = [.token ['=']] := rfl
  rw [boundText?, styles, shape, List.findSome?_cons]
  simp only [found, Option.map_some, rest]
  rfl

end

theorem ident_of_word_char {c : Char} (word : isWordChar c = true) : isIdentChar c = true := by
  unfold isWordChar at word
  unfold isIdentChar
  by_cases low : c.toNat < 128
  · rw [if_pos low] at word
    rw [word, Bool.true_or]
  · simp [Nat.le_of_not_lt low]

theorem function_matches {u : List Char} (apart : ∀ c ∈ u.head?, isBreak c = true) :
    grammar.callables.any (·.matchesIn ("lambda".toList ++ u)) = true := by
  have edge : (u.head?.map isWordChar).getD false = false := by
    cases first : u.head? with
    | none => rfl
    | some c =>
      have breaks := apart c first
      cases word : isWordChar c with
      | false => simp [word]
      | true =>
        rw [isBreak, ident_of_word_char word] at breaks
        contradiction
  have callables : grammar.callables = [.textStart ++ .lit "lambda" ++ .wordEdge] := rfl
  have ends : (Pattern.textStart ++ .lit "lambda" ++ .wordEdge).ends ⟨Cursor.start ("lambda".toList ++ u), none⟩ =
      Pattern.wordEdge.ends ⟨⟨6, some 'a', u⟩, none⟩ := by
    have stands : "lambda".toList.isPrefixOf ("lambda".toList ++ u) = true :=
      List.isPrefixOf_iff_prefix.mpr (List.prefix_append _ _)
    change ([(⟨Cursor.start ("lambda".toList ++ u), none⟩ : Pattern.Place)].flatMap (Pattern.lit "lambda").ends).flatMap
      Pattern.wordEdge.ends = _
    rw [List.flatMap_singleton, Pattern.lit, Pattern.ends]
    refine (congrArg (List.flatMap Pattern.wordEdge.ends) (if_pos stands)).trans ?_
    rw [List.flatMap_singleton]
    rfl
  have found : ((Pattern.textStart ++ .lit "lambda" ++ .wordEdge).find? ("lambda".toList ++ u)).isSome = true := by
    rw [Pattern.find_of_anchored rfl, Pattern.matchAt, ends, Pattern.ends]
    have letter : isWordChar 'a' = true := by decide
    simp [edge, letter]
  rw [callables, List.any_cons, Pattern.matchesIn, found, Bool.true_or]

-- A text from the start of an argument on that ends among the parameters of a function.
def Argument.Among (a : Argument) (t : List Char) : Prop :=
  ∃ u, t = a.head ++ ("lambda".toList ++ u) ∧ Passes grammar (· != ':') false ("lambda".toList ++ u) ∧
    ∀ c ∈ u.head?, isBreak c = true

section

variable {a : Argument} (formed : a.WellFormed)

include formed

theorem sign_of_function (u : List Char) : ∀ c ∈ (a.after ++ ("lambda".toList ++ u)).head?, c ∉ ['=', '>', '~'] := by
  have blanks := formed.blanks a.after (by simp)
  cases shape : a.after with
  | nil =>
    intro c first
    obtain rfl : 'l' = c := Option.some.inj first
    decide
  | cons d rest =>
    intro c first
    obtain rfl : d = c := Option.some.inj first
    exact avoids_of_test (by decide) (blanks d (by rw [shape]; exact List.mem_cons_self))

theorem trim_function (u : List Char) : trimStart (a.after ++ ("lambda".toList ++ u)) = "lambda".toList ++ u := by
  rw [trim_start_blanks (formed.blanks a.after (by simp)).blank]
  refine trim_start_inked fun c first => ?_
  obtain rfl : 'l' = c := Option.some.inj first
  decide

theorem Argument.Among.awaits {t : List Char} (among : a.Among t) : awaitsBody grammar t = true := by
  obtain ⟨u, rfl, passes, apart⟩ := among
  rw [awaitsBody, bound_text formed (sign_of_function formed u), Option.getD_some, trim_function formed,
    function_matches apart, find_token_none passes (by decide) (by decide)]
  rfl

end

theorem Argument.Among.further {a : Argument} {t s : List Char} (among : a.Among t)
    (passes : Passes grammar (· != ':') false s) (joins : s = [] ∨ ∃ c ∈ s.head?, isBreak c = true) :
    a.Among (t ++ s) := by
  rcases joins with rfl | breaks
  · rwa [List.append_nil]
  · obtain ⟨u, rfl, before, apart⟩ := among
    refine ⟨u ++ s, by simp, ?_, ?_⟩
    · rw [← List.append_assoc]
      exact before.append passes (.inr breaks)
    · cases u with
      | nil =>
        obtain ⟨c, first, isBreak⟩ := breaks
        intro d first'
        rw [List.nil_append, first] at first'
        rwa [← Option.some.inj first']
      | cons d u => exact apart

theorem passes_comma : Passes grammar (· != ':') true [','] :=
  passes_unsigned fun c member => by
    rw [List.mem_singleton.mp member]
    decide

theorem colon_of_parameter (c : Char) (accepted : isParameter c = true) : (c != ':') = true :=
  (Bool.and_eq_true_iff.mp accepted).2

theorem item_of_parameter (c : Char) (accepted : isParameter c = true) : isItem c = true :=
  (Bool.and_eq_true_iff.mp accepted).1

namespace Lambda

variable {f : Lambda} (formed : f.WellFormed) {p : Part} (known : p ∈ f.first :: f.others)

include formed known

theorem WellFormed.passes_body {base : Char → Bool} (admits : Admits base) (wider : ∀ c, isParameter c = true → base c = true) :
    Passes grammar base false (p.lead ++ p.body) := by
  have inside := (passes_expression legible contextless (formed.parameters p known)).weaken wider
  exact (passes_blanks admits (formed.blanks p known).1).append inside (.inl rfl)

theorem WellFormed.passes_part {base : Char → Bool} (admits : Admits base) (wider : ∀ c, isParameter c = true → base c = true) :
    Passes grammar base false p.text :=
  passes_trailing admits (formed.passes_body known admits wider) (formed.blanks p known).2

omit formed known in
theorem among_comma {a : Argument} {t s : List Char} (among : a.Among t) (passes : Passes grammar (· != ':') false s) :
    a.Among (t ++ ',' :: s) := by
  refine among.further ?_ (.inr ⟨',', rfl, by decide⟩)
  exact passes_comma.append passes (.inl rfl)

end Lambda

theorem extend_place {start : Nat} {t tail t' tail' : List Char} (same : t ++ tail = t' ++ tail') {stop : Nat}
    (reach : stop = start + size t') : (Slice.place start t tail).extendTo stop = Slice.place start t' tail' := by
  rw [reach]
  simp [Slice.extendTo, Slice.place, same]

def unspread (item : Slice) : Bool := !isSpread grammar item.text

theorem is_spread_iff (s : List Char) : isSpread grammar s = true ↔ s.head? = some '*' := by
  have markers : grammar.spreadMarkers = [['*', '*'], ['*']] := by decide
  rw [isSpread, markers]
  cases s with
  | nil => decide
  | cons c rest =>
    simp only [List.any_cons, List.any_nil, List.isPrefixOf_cons_cons, List.isPrefixOf_nil_left, Bool.or_false,
      Bool.and_true, Bool.or_eq_true, Bool.and_eq_true, beq_iff_eq, List.head?_cons, Option.some.injEq]
    constructor
    · rintro (⟨same, _⟩ | same)
      · exact same.symm
      · exact same.symm
    · exact fun same => .inr same.symm

theorem unspread_place {start : Nat} {s later : List Char} (other : s.head? ≠ some '*') :
    unspread (Slice.place start s later) = true := by
  have plain : isSpread grammar s = false := Bool.eq_false_iff.mpr fun spread => other ((is_spread_iff s).mp spread)
  rw [unspread, Slice.text_place, plain]
  rfl

theorem piece_of_body {p : Part} (some : p.body ≠ []) (offset : Nat) (later : List Char) :
    p.piece offset later = [Slice.place (offset + size p.lead) p.body (p.trail ++ later)] := if_neg some

theorem piece_kept {p : Part} (full : p.body ≠ []) (other : p.body.head? ≠ some '*') (offset : Nat) (later : List Char) :
    (p.piece offset later).filter unspread = [Slice.place (offset + size p.lead) p.body (p.trail ++ later)] := by
  rw [piece_of_body full, List.filter_cons_of_pos (unspread_place other), List.filter_nil]

theorem piece_left_out {p : Part} (nothing : p.body = [] ∨ p.body.head? = some '*') (offset : Nat) (later : List Char) :
    (p.piece offset later).filter unspread = [] := by
  by_cases none : p.body = []
  · rw [Part.piece, if_pos none, List.filter_nil]
  · have star := nothing.resolve_left none
    have spread : unspread (Slice.place (offset + size p.lead) p.body (p.trail ++ later)) = false := by
      rw [unspread, Slice.text_place, (is_spread_iff p.body).mpr star]
      rfl
    rw [piece_of_body none, List.filter_cons_of_neg (by simp [spread]), List.filter_nil]

theorem merge_among {a : Argument} (formed : a.WellFormed) {t : List Char} (among : a.Among t) (start : Nat)
    (tail : List Char) (done : List Slice) (item : Slice) :
    mergeInto grammar (Slice.place start t tail :: done) item = (Slice.place start t tail).extendTo item.stop :: done := by
  simp [mergeInto, among.awaits formed]

section

variable {a : Argument} (formed : a.WellFormed)

include formed

theorem take_piece {p : Part} (full : p.body ≠ []) (other : p.body.head? ≠ some '*') {t : List Char} (among : a.Among t)
    (gap tail : List Char) (start : Nat) (done : List Slice) :
    ((p.piece (start + size (t ++ gap) + 1) tail).filter unspread).foldl (mergeInto grammar)
        (Slice.place start t (gap ++ (',' :: p.text ++ tail)) :: done) =
      Slice.place start (t ++ gap ++ ',' :: (p.lead ++ p.body)) (p.trail ++ tail) :: done := by
  rw [piece_kept full other, List.foldl_cons, List.foldl_nil, merge_among formed among]
  congr 1
  apply extend_place
  · simp [Part.text]
  · rw [Slice.stop, Slice.start_place, Slice.size_place]
    simp only [size_append, Part.size_comma]
    omega

variable {f : Lambda} (function : f.WellFormed)

include function

theorem merge_parameter {q : Part} (known : q ∈ f.others) {t gap : List Char} (among : a.Among t)
    (reached : a.Among (t ++ gap)) (tail : List Char) (start : Nat) (done : List Slice) : ∃ t' gap',
      t' ++ gap' = t ++ gap ++ ',' :: q.text ∧ a.Among t' ∧
        ((q.piece (start + size (t ++ gap) + 1) tail).filter unspread).foldl (mergeInto grammar)
            (Slice.place start t (gap ++ (',' :: q.text ++ tail)) :: done) =
          Slice.place start t' (gap' ++ tail) :: done := by
  by_cases nothing : q.body = [] ∨ q.body.head? = some '*'
  · refine ⟨t, gap ++ ',' :: q.text, (List.append_assoc _ _ _).symm, among, ?_⟩
    rw [piece_left_out nothing, List.foldl_nil, List.append_assoc]
  · rw [not_or] at nothing
    have inside := function.passes_body (List.mem_cons_of_mem f.first known) admits_colon colon_of_parameter
    refine ⟨t ++ gap ++ ',' :: (q.lead ++ q.body), q.trail, by simp [Part.text], Lambda.among_comma reached inside, ?_⟩
    exact take_piece formed nothing.1 nothing.2 among gap tail start done

theorem merge_body {q : Part} (known : q ∈ f.others) (settled : q.body.head? ≠ some '*') {t : List Char}
    (among : a.Among t) (gap later : List Char) (start : Nat) (trail : List Char) (done : List Slice) :
    ((Part.places (start + size (t ++ gap) + 1) later (f.rest trail q [])).filter unspread).foldl (mergeInto grammar)
        (Slice.place start t (gap ++ Part.followed (f.rest trail q []) ++ later) :: done) =
      Slice.place start (t ++ gap ++ ',' :: (Part.join ',' q [] ++ ':' :: (f.gap ++ f.body))) (trail ++ later) :: done := by
  let last : Part := ⟨q.lead, q.body ++ q.trail ++ ':' :: (f.gap ++ f.body), trail⟩
  have some : last.body ≠ [] := by simp [last]
  have other : last.body.head? ≠ Option.some '*' := by
    rcases function.bodies q (List.mem_cons_of_mem f.first known) with ⟨none, noTrail⟩ | inked
    · simp [last, none, noTrail]
    · obtain ⟨c, rest, shape⟩ := List.exists_cons_of_ne_nil inked.nonempty
      rw [shape] at settled
      simpa [last, shape] using settled
  have split : f.rest trail q [] = [last] := rfl
  have taken := take_piece formed some other among gap later start done
  rw [split, Part.places, Part.places, List.append_nil, Part.followed_cons, List.append_assoc, List.append_assoc]
  simpa [Part.followed, Part.join, Part.text, last] using taken

-- The pieces behind the first comma of a function complete it. What is left out on the way, because it looks
-- like arguments that are spread, lies inside.
theorem merge_rest (later : List Char) (q : Part) (more : List Part) (known : ∀ p ∈ q :: more, p ∈ f.others)
    {t gap : List Char} (among : a.Among t) (reached : a.Among (t ++ gap))
    (settled : ∀ p ∈ (q :: more).getLast?, p.body.head? ≠ some '*') (start : Nat) (trail : List Char) (done : List Slice) :
    ((Part.places (start + size (t ++ gap) + 1) later (f.rest trail q more)).filter unspread).foldl (mergeInto grammar)
        (Slice.place start t (gap ++ Part.followed (f.rest trail q more) ++ later) :: done) =
      Slice.place start (t ++ gap ++ ',' :: (Part.join ',' q more ++ ':' :: (f.gap ++ f.body))) (trail ++ later) :: done := by
  induction more generalizing q t gap with
  | nil => exact merge_body formed function (known q List.mem_cons_self) (settled q rfl) among gap later start trail done
  | cons r more ih =>
    have here := known q List.mem_cons_self
    have known' : ∀ p ∈ r :: more, p ∈ f.others := fun p member => known p (List.mem_cons_of_mem q member)
    have settled' : ∀ p ∈ (r :: more).getLast?, p.body.head? ≠ some '*' := by
      rwa [List.getLast?_cons_cons] at settled
    obtain ⟨t', gap', whole, among', step⟩ := merge_parameter formed function here among reached
      (Part.followed (f.rest trail r more) ++ later) start done
    -- Whether or not the parameter is taken in, the text up to it is one among the parameters.
    have reached' : a.Among (t' ++ gap') := by
      rw [whole]
      exact Lambda.among_comma reached
        (function.passes_part (List.mem_cons_of_mem f.first here) admits_colon colon_of_parameter)
    have goesOn := ih r known' among' reached' settled'
    have offset : start + size (t ++ gap) + 1 + size q.text + 1 = start + size (t' ++ gap') + 1 := by
      rw [whole]
      simp only [size_append, Part.size_comma]
      omega
    rw [Lambda.rest, Part.places, List.filter_append, List.foldl_append, Part.followed_cons, offset]
    rw [List.append_assoc, List.append_assoc, step, ← List.append_assoc, goesOn, whole]
    simp [Part.join]

end

theorem passes_lambda : Passes grammar (· != ':') true "lambda".toList := passes_names admits_colon (by decide)

section

variable {f : Lambda} (function : f.WellFormed)

include function

theorem among_begun (a : Argument) : a.Among (a.head ++ ("lambda".toList ++ (f.first.lead ++ f.first.body))) := by
  have inside := function.passes_body List.mem_cons_self admits_colon colon_of_parameter
  refine ⟨_, rfl, passes_lambda.append inside (.inl rfl), fun c first => function.apart c ?_⟩
  rw [Part.text, List.head?_append, Option.mem_def.mp first]
  rfl

theorem parameters_among (a : Argument) : a.Among (a.head ++ ("lambda".toList ++ f.first.text)) ∧
    a.Among (a.head ++ ("lambda".toList ++ Part.join ',' f.first f.others)) := by
  have inside := function.passes_part List.mem_cons_self admits_colon colon_of_parameter
  have first : a.Among (a.head ++ ("lambda".toList ++ f.first.text)) :=
    ⟨f.first.text, rfl, passes_lambda.append inside (.inl rfl), function.apart⟩
  refine ⟨first, ?_⟩
  have further : ∀ (parts : List Part) (t : List Char), (∀ p ∈ parts, p ∈ f.others) → a.Among t →
      a.Among (t ++ Part.followed parts) := by
    intro parts
    induction parts with
    | nil => exact fun t _ among => by rwa [Part.followed, List.flatMap_nil, List.append_nil]
    | cons p rest ih =>
      intro t known among
      have passes := function.passes_part (List.mem_cons_of_mem _ (known p List.mem_cons_self)) admits_colon colon_of_parameter
      have next := Lambda.among_comma among passes
      have all := ih _ (fun q member => known q (List.mem_cons_of_mem p member)) next
      simpa [Part.followed] using all
  have all := further f.others _ (fun p member => member) first
  rw [Part.join_eq]
  simpa using all

theorem part_ends {p : Part} (known : p ∈ f.first :: f.others) : p.text.getLast? ≠ some ':' := by
  have blanks : ∀ {s : List Char}, Blanks s → s.getLast? ≠ some ':' := by
    intro s blank ends
    exact absurd (blank ':' (List.mem_of_getLast? ends)) (by decide)
  obtain ⟨lead, trail⟩ := function.blanks p known
  intro ends
  rw [Part.text, List.getLast?_append, List.getLast?_append, Option.or_eq_some_iff, Option.or_eq_some_iff] at ends
  rcases ends with behind | ⟨_, inside | ⟨_, before⟩⟩
  · exact blanks trail behind
  · rcases last_of_expression contextless (function.parameters p known) inside with closes | joined | accepted
    · exact absurd closes (by decide)
    · exact absurd joined (by decide)
    · exact absurd accepted (by decide)
  · exact blanks lead before

theorem parameters_end : ("lambda".toList ++ Part.join ',' f.first f.others).getLast? ≠ some ':' := by
  have followed : ∀ parts : List Part, (∀ p ∈ parts, p ∈ f.first :: f.others) →
      (Part.followed parts).getLast? ≠ some ':' := by
    intro parts
    induction parts with
    | nil => simp [Part.followed]
    | cons p rest ih =>
      intro known ends
      have split : Part.followed (p :: rest) = [','] ++ p.text ++ Part.followed rest := by simp [Part.followed]
      rw [split, List.getLast?_append, List.getLast?_append, Option.or_eq_some_iff, Option.or_eq_some_iff] at ends
      rcases ends with behind | ⟨_, inside | ⟨_, before⟩⟩
      · exact ih (fun q member => known q (List.mem_cons_of_mem p member)) behind
      · exact part_ends function (known p List.mem_cons_self) inside
      · exact absurd before (by decide)
  intro ends
  rw [Part.join_eq, List.getLast?_append, List.getLast?_append, Option.or_eq_some_iff, Option.or_eq_some_iff] at ends
  rcases ends with (behind | ⟨_, inside⟩) | ⟨_, before⟩
  · exact followed f.others (fun p member => List.mem_cons_of_mem _ member) behind
  · exact part_ends function List.mem_cons_self inside
  · exact absurd before (by decide)

theorem function_complete {a : Argument} (formed : a.WellFormed) : awaitsBody grammar (a.head ++ f.text) = false := by
  obtain ⟨u, same, passes, apart⟩ := (parameters_among function a).2
  obtain rfl := List.append_cancel_left (List.append_cancel_left same)
  have shape : f.text = "lambda".toList ++ (Part.join ',' f.first f.others ++ ':' :: (f.gap ++ f.body)) := by
    rw [Lambda.text_eq, List.append_assoc]
  have plain : isLookalike [':'] ("lambda".toList ++ Part.join ',' f.first f.others).getLast?
      ([] ++ (f.gap ++ f.body)).head? = false := by
    have before := parameters_end function
    have behind := function.single
    have apart : ∀ {c : Option Char}, c ≠ some ':' → (c.map [':'].contains).getD false = false := by
      intro c other
      cases c with
      | none => rfl
      | some d => simpa using other
    rw [isLookalike, if_neg (by decide), if_pos (by decide)]
    simp only [List.nil_append, apart before, apart behind, Bool.or_self]
  obtain ⟨v, found, _, _⟩ : ∃ v, findToken grammar ("lambda".toList ++ Part.join ',' f.first f.others ++
      ':' :: ([] ++ [] ++ (f.gap ++ f.body))) [':'] = some v ∧ _ ∧ _ :=
    find_token_passage passes (.inr (by decide)) (by decide) (by decide) (by decide) plain
  rw [List.append_assoc, List.nil_append, List.nil_append] at found
  rw [awaitsBody, shape, bound_text formed (sign_of_function formed _), Option.getD_some, trim_function formed, found,
    Option.isNone_some, Bool.and_false]

end

section

variable {a : Argument} (formed : a.WellFormed)

include formed

theorem head_unspread (s : List Char) : (a.head ++ s).head? ≠ some '*' := by
  obtain ⟨c, rest, shape⟩ := List.exists_cons_of_ne_nil (inked_of_name formed.key).nonempty
  have named := all_of_name formed.key c (by rw [shape]; exact List.mem_cons_self)
  have other : c ∉ ['*'] := avoids_of_test (by decide) named
  simpa [Argument.head, shape] using other

theorem complete (later : List Char) (start : Nat) : awaitsBody grammar (Slice.place start a.text later).text = false := by
  have value := formed.value
  have sign := formed.sign
  rw [Slice.text_place, Argument.text]
  cases shape : a.value with
  | function f =>
    rw [shape] at value
    exact function_complete value formed
  | plain s =>
    rw [shape] at value sign
    obtain ⟨inked, _, uncallable⟩ := value
    change ∀ c ∈ (a.after ++ s).head?, c ∉ ['=', '>', '~'] at sign
    change awaitsBody grammar (a.head ++ s) = false
    rw [awaitsBody, bound_text formed sign, Option.getD_some, trim_start_blanks (formed.blanks a.after (by simp)).blank,
      trim_start_inked inked.first, uncallable]
    rfl

theorem merge_begins {s : List Char} (sign : ∀ c ∈ (a.after ++ s).head?, c ∉ ['=', '>', '~']) (start : Nat) (later : List Char)
    {done : List Slice} (ready : ∀ last ∈ done.head?, awaitsBody grammar last.text = false) :
    mergeInto grammar done (Slice.place start (a.head ++ s) later) = Slice.place start (a.head ++ s) later :: done := by
  cases done with
  | nil => rfl
  | cons last earlier => simp [mergeInto, bound_text formed sign, ready last rfl]

theorem merge_single (parts : a.parts = [⟨a.lead, a.text, a.trail⟩]) (start : Nat) (later : List Char) {done : List Slice}
    (ready : ∀ last ∈ done.head?, awaitsBody grammar last.text = false) :
    ((Part.places start later a.parts).filter unspread).foldl (mergeInto grammar) done =
      Slice.place (start + size a.lead) a.text (a.trail ++ later) :: done := by
  have full : a.text ≠ [] := by simp [Argument.text, Argument.head]
  have other : a.text.head? ≠ some '*' := head_unspread formed a.value.text
  rw [parts, Part.places, Part.places, List.append_nil, piece_kept full other, List.foldl_cons, List.foldl_nil]
  exact merge_begins formed formed.sign _ _ ready

theorem merge_function {f : Lambda} (function : f.WellFormed) (shape : a.value = .function f) {q : Part} {more : List Part}
    (others : f.others = q :: more) (settled : f.Settled) (start : Nat) (later : List Char) {done : List Slice}
    (ready : ∀ last ∈ done.head?, awaitsBody grammar last.text = false) :
    ((Part.places start later a.parts).filter unspread).foldl (mergeInto grammar) done =
      Slice.place (start + size a.lead) a.text (a.trail ++ later) :: done := by
  let t : List Char := a.head ++ ("lambda".toList ++ (f.first.lead ++ f.first.body))
  let tail := Part.followed (f.rest a.trail q more) ++ later
  have parts : a.parts = ⟨a.lead, t, f.first.trail⟩ :: f.rest a.trail q more := by
    simp [Argument.parts, shape, Lambda.parts, others, t]
  have full : t ≠ [] := by simp [t, Argument.head]
  have begins := merge_begins formed (sign_of_function formed (f.first.lead ++ f.first.body)) (start + size a.lead)
    (f.first.trail ++ tail) ready
  have reached : a.Among (t ++ f.first.trail) := by
    have all := (parameters_among function a).1
    rw [Part.text] at all
    simpa [t] using all
  have goesOn := merge_rest formed function later q more (fun p member => others ▸ member) (among_begun function a) reached
    (by rwa [Lambda.Settled, others] at settled) (start + size a.lead) a.trail done
  have whole : t ++ f.first.trail ++ ',' :: (Part.join ',' q more ++ ':' :: (f.gap ++ f.body)) = a.text := by
    rw [Argument.text, shape, ArgumentValue.text, Lambda.text_eq, others, Part.join]
    simp [t, Part.text]
  have offset : start + size (a.lead ++ t ++ f.first.trail) + 1 = start + size a.lead + size (t ++ f.first.trail) + 1 := by
    simp only [size_append]
    omega
  rw [whole, List.append_assoc] at goesOn
  rw [parts, Part.places, List.filter_append, List.foldl_append, piece_kept full (head_unspread formed _), List.foldl_cons,
    List.foldl_nil, begins, Part.text, offset]
  exact goesOn

theorem merge_argument (settled : a.value.Settled) (start : Nat) (later : List Char) {done : List Slice}
    (ready : ∀ last ∈ done.head?, awaitsBody grammar last.text = false) :
    ((Part.places start later a.parts).filter unspread).foldl (mergeInto grammar) done =
      Slice.place (start + size a.lead) a.text (a.trail ++ later) :: done := by
  have value := formed.value
  cases shape : a.value with
  | plain s => exact merge_single formed (by simp [Argument.parts, shape]) start later ready
  | function f =>
    rw [shape] at value settled
    cases others : f.others with
    | nil =>
      apply merge_single formed _ start later ready
      simp [Argument.parts, shape, Lambda.parts, others, Argument.text, ArgumentValue.text]
    | cons q more => exact merge_function formed value shape others settled start later ready

end

theorem merge_arguments {arguments : List Argument} (formed : ∀ a ∈ arguments, a.WellFormed)
    (settled : ∀ a ∈ arguments, a.value.Settled) (start : Nat) (later : List Char) {done : List Slice}
    (ready : ∀ last ∈ done.head?, awaitsBody grammar last.text = false) :
    ((Part.places start later (arguments.flatMap Argument.parts)).filter unspread).foldl (mergeInto grammar) done =
      (Argument.statements start later arguments).reverse ++ done := by
  induction arguments generalizing start done with
  | nil => rfl
  | cons a rest ih =>
    have whole := formed a List.mem_cons_self
    have first := merge_argument whole (settled a List.mem_cons_self) start (Part.followed (rest.flatMap Argument.parts) ++ later)
      ready
    have ready' : ∀ last ∈ (Slice.place (start + size a.lead) a.text
        (a.trail ++ (Part.followed (rest.flatMap Argument.parts) ++ later)) :: done).head?, awaitsBody grammar last.text = false := by
      intro last same
      rw [← Option.some.inj same]
      exact complete whole _ _
    have others := ih (fun b member => formed b (List.mem_cons_of_mem a member))
      (fun b member => settled b (List.mem_cons_of_mem a member)) (start + size a.whole + 1) ready'
    rw [List.flatMap_cons, Part.places_append, List.filter_append, List.foldl_append, first, a.size_followed_parts,
      ← Nat.add_assoc, others, Argument.statements, List.reverse_cons, List.append_assoc]
    rfl

end Python

end SnippetReview
