import SnippetReview.Proofs.Bytewise.Splitting
import SnippetReview.Proofs.Lexing.Veiling
import SnippetReview.Proofs.Lexing.CodePlaces
import SnippetReview.Proofs.Lexing.Restripping
import SnippetReview.Proofs.Snippet.Finding

/- The content of a closed quoted literal decides nothing outside of it. Two texts that differ in such
   contents alone are walked over abreast: the visits are the same but for the texts behind them. -/

set_option autoImplicit false

namespace SnippetReview

open Text

theorem Text.drop_take_while (p : Char → Bool) (s : List Char) : s.drop (s.takeWhile p).length = s.dropWhile p := by
  have behind : (s.takeWhile p ++ s.dropWhile p).drop (s.takeWhile p).length = s.dropWhile p := List.drop_left
  rwa [List.takeWhile_append_dropWhile] at behind

inductive Token.Twins (g : Grammar) : Token → Token → Prop where
  | code (c : Char) : Twins g (.code c) (.code c)
  | literal {l l' : Literal} {a b : List Char} (kind : l.kind = l'.kind) (other : l.kind ≠ .code) (size : size a = size b)
      (last : a.getLast? = b.getLast?) (same : l.kind ≠ .quoted → a = b)
      (veiled : ∀ {c d : List Char}, Veiled g c d → Veiled g (a ++ c) (b ++ d)) : Twins g (.literal l a) (.literal l' b)

def Segment.tokens (x : Segment) : List Token :=
  if x.kind = .code then x.text.map .code else [.literal ⟨x.kind, x.text.length, x.opening, x.closing⟩ x.text]

section

variable {g : Grammar}

theorem Walk.pass_over_eq (w : Walk) (x : Segment) : w.passOver g x = w.across g x.tokens := by
  unfold Segment.tokens
  split
  · rename_i code
    rw [passOver, code]
    exact w.steps_eq g x.text
  · rfl

theorem Walk.fold_pass_over (w : Walk) (xs : List Segment) : xs.foldl (passOver g) w = w.across g (xs.flatMap Segment.tokens) := by
  induction xs generalizing w with
  | nil => rfl
  | cons x rest ih => rw [List.foldl_cons, ih, pass_over_eq, List.flatMap_cons, across_append]

theorem Segment.flatten_tokens (x : Segment) : flatten x.tokens = x.text := by
  unfold tokens
  split
  · induction x.text with
    | nil => rfl
    | cons c rest ih => rw [List.map_cons, flatten_cons, ih, Token.text, List.singleton_append]
  · rw [flatten_cons, Token.text]
    exact List.append_nil _

theorem Segment.flatten_flat_map_tokens (xs : List Segment) : flatten (xs.flatMap Segment.tokens) = xs.flatMap (·.text) := by
  rw [flatten, List.flatMap_assoc]
  exact List.flatMap_congr fun x _ => x.flatten_tokens

theorem Segment.Twins.tokens {x y : Segment} (twins : x.Twins g y) : List.Forall₂ (Token.Twins g) x.tokens y.tokens := by
  unfold Segment.tokens
  by_cases code : x.kind = .code
  · rw [if_pos code, if_pos (twins.kind ▸ code), ← twins.same (by rw [code]; decide)]
    exact List.forall₂_map_left_iff.mpr (List.forall₂_map_right_iff.mpr (List.forall₂_same.mpr fun c _ => .code c))
  · rw [if_neg code, if_neg (twins.kind ▸ code)]
    exact .cons (.literal twins.kind code twins.size twins.last twins.same twins.veiled) .nil

theorem twins_of_segments {xs ys : List Segment} (twins : List.Forall₂ (Segment.Twins g) xs ys) :
    List.Forall₂ (Token.Twins g) (xs.flatMap Segment.tokens) (ys.flatMap Segment.tokens) := by
  induction twins with
  | nil => exact .nil
  | cons here _ ih => exact List.rel_append here.tokens ih

theorem veiled_of_twins {ts us : List Token} (twins : List.Forall₂ (Token.Twins g) ts us) :
    Veiled g (flatten ts) (flatten us) := by
  induction twins with
  | nil => exact .nil
  | cons here _ ih =>
    rw [flatten_cons, flatten_cons]
    cases here with
    | code c => exact ih.char c
    | literal _ _ _ _ _ veiled => exact veiled ih

namespace Veiled

variable {a b : List Char}

theorem names_word_eq (veiled : Veiled g a b) : Bytewise.namesWord a = Bytewise.namesWord b := by
  cases a with
  | nil => rw [size_eq_zero_iff.mp veiled.size_eq.symm]
  | cons c next =>
    by_cases colon : c = ':'
    · -- The colon opens no content, so that the character after it shows as well.
      rw [colon] at veiled ⊢
      obtain ⟨next', rfl, behind⟩ := veiled.cons_of_plain (by simp [Grammar.veils])
      exact congrArg (· != some ':') behind.head_eq
    · have head := veiled.head_eq
      cases b with
      | nil => contradiction
      | cons d next' =>
        obtain rfl : c = d := Option.some.inj head
        rw [Bytewise.names_word_other colon, Bytewise.names_word_other colon]

theorem word_stretch (veiled : Veiled g a b) (words : g.blockWords.isSome = true) :
    a.takeWhile isIdentChar = b.takeWhile isIdentChar ∧ Veiled g (a.dropWhile isIdentChar) (b.dropWhile isIdentChar) := by
  refine veiled.stretch fun c ident => ?_
  rw [Grammar.veils, words, ident]
  exact Bool.and_false _

theorem word_at_eq (veiled : Veiled g a b) (before : Option Char) (c : Char) :
    Walk.wordAt g before c a = Walk.wordAt g before c b := by
  unfold Walk.wordAt
  cases words : g.blockWords.isSome with
  | false => rfl
  | true => rw [(veiled.word_stretch words).1]

end Veiled

-- Walks that have come as far and know the same, before texts that differ in contents alone.
structure Walk.Abreast (g : Grammar) (w w' : Walk) : Prop where
  offset : w.cursor.offset = w'.cursor.offset
  before : w.cursor.before = w'.cursor.before
  veiled : Veiled g w.cursor.rest w'.cursor.rest
  nesting : w.nesting = w'.nesting
  previous : w.previous = w'.previous
  lineHasCode : w.lineHasCode = w'.lineHasCode

def Visit.bare (v : Visit) : Visit := { v with rest := [] }

theorem Visit.bare_eq_iff {v v' : Visit} : v.bare = v'.bare ↔ v.offset = v'.offset ∧ v.before = v'.before ∧
    v.char = v'.char ∧ v.depth = v'.depth ∧ v.previous = v'.previous ∧ v.word = v'.word := by
  simp [bare]

theorem Visit.char_of_bare {v v' : Visit} (bare : v.bare = v'.bare) : v.char = v'.char := (bare_eq_iff.mp bare).2.2.1

theorem Visit.bare_held (last : Option Visit) (v : Visit) : (v.held last).bare = v.bare.held (last.map bare) := by
  cases last with
  | none => rfl
  | some last =>
    unfold held
    dsimp only [Option.map_some]
    cases further : last.goesOn v with
    | true => rw [if_pos rfl, if_pos (show last.bare.goesOn v.bare = true from further)]; rfl
    | false => rw [if_neg (by simp), if_neg (by simp [show last.bare.goesOn v.bare = false from further])]

namespace Walk.Abreast

variable {w w' : Walk} {a b : List Char}

theorem bare_eq (abreast : w.Abreast g w') (c : Char) (behind : Veiled g a b) :
    (w.visitAt g c a).bare = (w'.visitAt g c b).bare := by
  unfold visitAt Visit.bare
  simp only [abreast.offset, abreast.before, abreast.nesting, abreast.previous, behind.word_at_eq]

theorem nesting_step (abreast : w.Abreast g w') {c : Char} (stands : w.cursor.rest = c :: a) (stands' : w'.cursor.rest = c :: b)
    (behind : Veiled g a b) : (w.step g).nesting = (w'.step g).nesting := by
  have alike := behind.word_at_eq w'.cursor.before c
  cases word : wordAt g w.cursor.before c a with
  | none =>
    have word' := word
    rw [abreast.before, alike] at word'
    rw [Bytewise.step_char stands word, Bytewise.step_char stands' word']
    -- A single character looks at the next one at most, which shows in both texts.
    dsimp only
    unfold Nesting.after
    rw [abreast.nesting, abreast.before, behind.head_eq]
  | some letters =>
    have word' := word
    rw [abreast.before, alike] at word'
    obtain ⟨known, here, ident, -⟩ := Bytewise.word_at_some (by rw [word]; rfl)
    obtain ⟨words, known⟩ := Option.isSome_iff_exists.mp known
    obtain rfl := Option.some.inj (word.symm.trans here)
    -- What comes after the word is as alike as what comes after its first letter.
    have after : Veiled g (a.drop (a.takeWhile isIdentChar).length) (b.drop (a.takeWhile isIdentChar).length) := by
      obtain ⟨same, later⟩ := behind.word_stretch (by rw [known]; rfl)
      rw [drop_take_while, same, drop_take_while]
      exact later
    rw [Bytewise.step_word known stands word ident, Bytewise.step_word known stands' word' ident]
    simp only [List.length_cons, Nat.add_sub_cancel, Bytewise.effect_eq, after.names_word_eq, abreast.nesting, abreast.before,
      abreast.lineHasCode]

theorem step (abreast : w.Abreast g w') {c : Char} (stands : w.cursor.rest = c :: a) (stands' : w'.cursor.rest = c :: b)
    (behind : Veiled g a b) : (w.step g).Abreast g (w'.step g) := by
  have moved := cursor_step (g := g) stands
  have moved' := cursor_step (g := g) stands'
  refine ⟨?_, ?_, ?_, abreast.nesting_step stands stands' behind, ?_, ?_⟩
  · rw [moved, moved', abreast.offset]
  · rw [moved, moved']
  · rw [moved, moved']
    exact behind
  · rw [previous_step stands, previous_step stands', abreast.previous]
  · unfold Walk.step
    rw [stands, stands', abreast.lineHasCode]

theorem literal (abreast : w.Abreast g w') {l l' : Literal} {text text' : List Char} (kind : l.kind = l'.kind)
    (other : l.kind ≠ .code) (size : size text = size text') (last : text.getLast? = text'.getLast?)
    (same : l.kind ≠ .quoted → text = text') (stands : w.cursor.rest = text ++ a) (stands' : w'.cursor.rest = text' ++ b)
    (behind : Veiled g a b) : (w.passToken g (.literal l text)).Abreast g (w'.passToken g (.literal l' text')) := by
  have moved := cursor_literal (g := g) other stands
  have moved' := cursor_literal (g := g) (kind ▸ other) stands'
  rw [← abreast.offset, ← abreast.before, ← size, ← last] at moved'
  have known : (w.passToken g (.literal l text)).nesting = (w'.passToken g (.literal l' text')).nesting ∧
      (w.passToken g (.literal l text)).previous = (w'.passToken g (.literal l' text')).previous ∧
      (w.passToken g (.literal l text)).lineHasCode = (w'.passToken g (.literal l' text')).lineHasCode := by
    unfold passToken passOver at moved moved' ⊢
    simp only [Segment.ofLiteral, ← kind] at moved moved' ⊢
    -- Of what is passed over only a comment is looked into, and comments are the same in both texts.
    cases kindEq : l.kind with
    | code => exact absurd kindEq other
    | quoted | regex =>
      simp only [kindEq] at moved moved' ⊢
      rw [moved, moved']
      exact ⟨abreast.nesting, rfl, trivial⟩
    | comment =>
      rw [← same (by rw [kindEq]; decide), abreast.lineHasCode]
      exact ⟨abreast.nesting, abreast.previous, rfl⟩
  refine ⟨?_, ?_, ?_, known.1, known.2.1, known.2.2⟩
  · rw [moved, moved']
  · rw [moved, moved']
  · rw [moved, moved']
    exact behind

end Walk.Abreast

-- Visits of two texts one behind the other, the same but for the texts between and behind them.
inductive Parallel (g : Grammar) : Nat → List Char → List Char → List Visit → List Visit → Prop where
  | nil {start : Nat} {a b : List Char} (veiled : Veiled g a b) : Parallel g start a b [] []
  | cons {start : Nat} {a b : List Char} {v v' : Visit} {vs vs' : List Visit} (front : Veiled g a b)
      (offset : v.offset = start + size a) (bare : v.bare = v'.bare)
      (behind : Parallel g (v.offset + v.char.utf8Size) v.rest v'.rest vs vs') :
      Parallel g start (a ++ v.char :: v.rest) (b ++ v'.char :: v'.rest) (v :: vs) (v' :: vs')

namespace Parallel

variable {start : Nat} {a b c d : List Char} {vs vs' : List Visit}

theorem veiled (parallel : Parallel g start a b vs vs') : Veiled g a b := by
  induction parallel with
  | nil veiled => exact veiled
  | cons front _ bare _ ih =>
    rw [← Visit.char_of_bare bare]
    exact front.append (ih.char _)

-- What a visit shows and the text behind it answer a question the same way in both texts.
def Asks (g : Grammar) (p : Visit → Bool) : Prop := ∀ v v' : Visit, v.bare = v'.bare → Veiled g v.rest v'.rest → p v = p v'

theorem prepend (front : Veiled g c d) (behind : Parallel g (start + size c) a b vs vs') :
    Parallel g start (c ++ a) (d ++ b) vs vs' := by
  cases behind with
  | nil veiled => exact .nil (front.append veiled)
  | cons between offset bare behind =>
    rw [← List.append_assoc, ← List.append_assoc]
    refine .cons (front.append between) ?_ bare behind
    rw [offset, size_append, Nat.add_assoc]

theorem bare_eq (parallel : Parallel g start a b vs vs') : vs.map Visit.bare = vs'.map Visit.bare := by
  induction parallel with
  | nil => rfl
  | cons _ _ bare _ ih => rw [List.map_cons, List.map_cons, bare, ih]

theorem filter {p : Visit → Bool} (asks : Asks g p) (parallel : Parallel g start a b vs vs') :
    Parallel g start a b (vs.filter p) (vs'.filter p) := by
  induction parallel with
  | nil veiled => exact .nil veiled
  | @cons start a b v v' vs vs' front offset bare behind ih =>
    have same := asks v v' bare behind.veiled
    cases chosen : p v with
    | true =>
      rw [List.filter_cons_of_pos chosen, List.filter_cons_of_pos (same ▸ chosen)]
      exact .cons front offset bare ih
    | false =>
      -- The character of a visit that is left out joins the text before the next one.
      rw [List.filter_cons_of_neg (by simp [chosen]), List.filter_cons_of_neg (by simp [← same, chosen]),
        ← Visit.char_of_bare bare, List.append_cons, List.append_cons b]
      refine prepend (front.append (Veiled.nil.char v.char)) ?_
      rwa [size_append, size_singleton, ← Nat.add_assoc, ← offset]

theorem find {p : Visit → Bool} (asks : Asks g p) (parallel : Parallel g start a b vs vs') :
    (vs.find? p).map Visit.bare = (vs'.find? p).map Visit.bare := by
  have chosen := (parallel.filter asks).bare_eq
  rw [← List.head?_filter, ← List.head?_filter, ← List.head?_map, ← List.head?_map, chosen]

theorem holding {last last' : Option Visit} (alike : last.map Visit.bare = last'.map Visit.bare)
    (parallel : Parallel g start a b vs vs') :
    Parallel g start a b (SnippetReview.holding last vs) (SnippetReview.holding last' vs') := by
  induction parallel generalizing last last' with
  | nil veiled => exact .nil veiled
  | @cons start a b v v' vs vs' front offset bare behind ih =>
    have held : (v.held last).bare = (v'.held last').bare := by rw [Visit.bare_held, Visit.bare_held, alike, bare]
    have lasts : (some (v.held last)).map Visit.bare = (some (v'.held last')).map Visit.bare := congrArg some held
    have later := ih lasts
    rw [SnippetReview.holding, SnippetReview.holding]
    rw [Visit.held_eq] at held later ⊢
    rw [Visit.held_eq last'] at held later ⊢
    exact @Parallel.cons g _ _ _ { v with depth := (v.held last).depth } { v' with depth := (v'.held last').depth } _ _ front
      offset held later

end Parallel

theorem seen_parallel {ts us : List Token} (twins : List.Forall₂ (Token.Twins g) ts us) {w w' : Walk}
    (abreast : w.Abreast g w') (stands : w.cursor.rest = flatten ts) (stands' : w'.cursor.rest = flatten us) :
    Parallel g w.cursor.offset (flatten ts) (flatten us) (w.seen g ts) (w'.seen g us) := by
  induction twins generalizing w w' with
  | nil => exact .nil .nil
  | @cons t u ts us here others ih =>
    have behind := veiled_of_twins others
    rw [flatten_cons] at stands stands' ⊢
    rw [flatten_cons]
    cases here with
    | code c =>
      replace stands : w.cursor.rest = c :: flatten ts := stands
      replace stands' : w'.cursor.rest = c :: flatten us := stands'
      have later := ih (abreast.step stands stands' behind) (by rw [Walk.cursor_step stands]) (by rw [Walk.cursor_step stands'])
      rw [Walk.cursor_step stands] at later
      rw [Walk.seen_code stands, Walk.seen_code stands']
      exact @Parallel.cons g _ _ _ (w.visitAt g c (flatten ts)) (w'.visitAt g c (flatten us)) _ _ .nil rfl
        (abreast.bare_eq c behind) later
    | @literal l l' text text' kind other size last same veiled =>
      rw [Token.text] at stands stands'
      have moved := Walk.cursor_literal (g := g) other stands
      have later := ih (abreast.literal kind other size last same stands stands' behind) (by rw [moved])
        (by rw [Walk.cursor_literal (kind ▸ other) stands'])
      rw [moved] at later
      -- A literal is passed over unseen, and its text comes before the next visit.
      rw [Walk.seen_literal g w l text ts other, Walk.seen_literal g w' l' text' us (kind ▸ other)]
      have front := veiled Veiled.nil
      rw [List.append_nil, List.append_nil] at front
      exact later.prepend front

theorem visits_parallel {s t : List Char} (veiling : g.Veiling) (alike : Alike g s t) :
    Parallel g 0 s t (visits g s) (visits g t) := by
  have twins := twins_of_segments (twins_of_alike veiling alike)
  have whole (s : List Char) : flatten ((segments g s).flatMap Segment.tokens) = s := by
    rw [Segment.flatten_flat_map_tokens, flat_map_text_segments]
  have veiled := veiled_of_twins twins
  rw [whole, whole] at veiled
  have first : Walk.Abreast g { cursor := Cursor.start s } { cursor := Cursor.start t } := ⟨rfl, rfl, veiled, rfl, rfl, rfl⟩
  have seen := seen_parallel twins first (whole s).symm (whole t).symm
  rw [whole, whole] at seen
  unfold Walk.seen at seen
  unfold visits
  rw [Walk.fold_pass_over, Walk.fold_pass_over]
  dsimp only
  split
  · rw [held_from_eq, held_from_eq]
    exact seen.holding rfl
  · exact seen

theorem trim_place_veiled (start : Nat) {piece piece' : List Char} (later later' : List Char) (veiled : Veiled g piece piece') :
    (Slice.place start piece later).trim.start = (Slice.place start piece' later').trim.start ∧
      (Slice.place start piece later).trim.size = (Slice.place start piece' later').trim.size := by
  unfold Slice.trim
  simp only [Slice.text_place, Slice.start_place, veiled.size_eq, veiled.trim_start.size_eq, veiled.trim_start.trim_end.size_eq,
    and_self]

theorem keep_trimmed_items (start : Nat) {piece piece' : List Char} (later later' : List Char) (veiled : Veiled g piece piece')
    {done done' : List Slice} (same : done.map Slice.item = done'.map Slice.item) :
    (keepTrimmed (Slice.place start piece later) done).map Slice.item =
      (keepTrimmed (Slice.place start piece' later') done').map Slice.item := by
  obtain ⟨first, width⟩ := trim_place_veiled start later later' veiled
  unfold keepTrimmed
  dsimp only
  rw [width]
  split
  · exact same
  · rw [List.map_cons, List.map_cons, same, Slice.item, Slice.item, Slice.stop, Slice.stop, first, width]

theorem pieces_from_items {base stop start : Nat} {a b : List Char} {vs vs' : List Visit}
    (parallel : Parallel g start a b vs vs') (ones : ∀ v ∈ vs, v.char.utf8Size = 1) (bound : start + size a = stop)
    {done done' : List Slice} (same : done.map Slice.item = done'.map Slice.item) :
    (piecesFrom base stop done start a vs).map Slice.item = (piecesFrom base stop done' start b vs').map Slice.item := by
  induction parallel generalizing done done' with
  | @nil start a b veiled =>
    have width : stop - start = size a := by omega
    have kept := keep_trimmed_items (base + start) [] [] veiled same
    rw [Slice.place, Slice.place, List.append_nil, List.append_nil, ← veiled.size_eq, ← width] at kept
    rw [piecesFrom, piecesFrom, List.map_reverse, List.map_reverse, kept]
  | @cons start a b v v' vs vs' front offset bare behind ih =>
    have one := ones v List.mem_cons_self
    have offset' : v'.offset = v.offset := (Visit.bare_eq_iff.mp bare).1.symm
    have width : v.offset - start = size a := by omega
    have kept := keep_trimmed_items (base + start) (v.char :: v.rest) (v'.char :: v'.rest) front same
    rw [Slice.place, Slice.place, ← front.size_eq, ← width] at kept
    rw [piecesFrom, piecesFrom, offset']
    rw [one] at ih
    refine ih (fun u member => ones u (List.mem_cons_of_mem v member)) ?_ kept
    rw [size_append, size_cons, one] at bound
    omega

theorem is_prefix_single (c d : Char) (rest : List Char) : [c].isPrefixOf (d :: rest) = (c == d) := by
  rw [List.isPrefixOf_cons_cons, List.isPrefixOf_nil_left, Bool.and_true]

theorem asks_token {token : List Char} (known : token ∈ [[':'], ['='], ['=', '>']]) : Parallel.Asks g (tokenAt token) := by
  intro v v' bare veiled
  obtain ⟨-, before, char, -⟩ := Visit.bare_eq_iff.mp bare
  have head := veiled.head_eq
  simp only [List.mem_cons, List.not_mem_nil, or_false] at known
  unfold tokenAt
  rcases known with rfl | rfl | rfl
  · rw [is_prefix_single, is_prefix_single, char, before, List.length_singleton, Nat.sub_self, List.drop_zero, List.drop_zero, head]
  · rw [is_prefix_single, is_prefix_single, char, before, List.length_singleton, Nat.sub_self, List.drop_zero, List.drop_zero, head]
  · have arrow : ['>'].isPrefixOf v.rest = ['>'].isPrefixOf v'.rest := by
      cases rest : v.rest with
      | nil =>
        have none : v'.rest = [] := size_eq_zero_iff.mp (by rw [← veiled.size_eq, rest]; rfl)
        rw [none]
      | cons c later =>
        cases rest' : v'.rest with
        | nil => rw [rest, rest'] at head; contradiction
        | cons d later' =>
          rw [rest, rest'] at head
          rw [is_prefix_single, is_prefix_single, Option.some.inj head]
    rw [List.isPrefixOf_cons_cons, List.isPrefixOf_cons_cons, arrow, char, before]
    rfl

theorem asks_outside {p : Visit → Bool} (asks : Parallel.Asks g p) : Parallel.Asks g fun v => v.depth == 0 && p v := by
  intro v v' bare veiled
  dsimp only
  rw [(Visit.bare_eq_iff.mp bare).2.2.2.1, asks v v' bare veiled]

end

theorem Host.grammar_veiling (host : Host) : host.grammar.Veiling where
  toLegible := host.grammar_legible
  opens := by
    have shows : ∀ style ∈ host.grammar.quotes, style.opening.head?.any host.grammar.veils = true := by
      cases host <;> decide
    intro style member
    obtain ⟨c, first, veils⟩ := (Option.any_eq_true _ _).mp (shows style member)
    obtain ⟨rest, parts⟩ := List.head?_eq_some_iff.mp first
    exact ⟨c, rest, parts, veils⟩
  closes := by
    have shows : ∀ style ∈ host.grammar.quotes, style.closing.getLast?.any (!isBlank ·) = true := by cases host <;> decide
    intro style member
    obtain ⟨c, last, ink⟩ := (Option.any_eq_true _ _).mp (shows style member)
    obtain ⟨front, parts⟩ := List.getLast?_eq_some_iff.mp last
    exact ⟨front, c, parts, by simpa using ink⟩
  single := by cases host <;> decide

/-- The contents of closed quoted literals decide nothing outside of them. Two texts of the same segments that agree on
all other bytes are visited alike, cut at the same places, and searched with the same result. Separators are single
bytes. -/
theorem contents_unseen (host : Host) {s t : List Char} (alike : Alike host.grammar s t) :
    (visits host.grammar s).map Visit.bare = (visits host.grammar t).map Visit.bare ∧
      (∀ base separators, (∀ c ∈ separators, c.toNat < 128) →
        (split host.grammar base s separators).map Slice.item = (split host.grammar base t separators).map Slice.item) ∧
      (∀ token ∈ [[':'], ['='], ['=', '>']],
        (findToken host.grammar s token).map Visit.offset = (findToken host.grammar t token).map Visit.offset) ∧
      ∀ closing, (matchingClose host.grammar s closing).map Visit.offset = (matchingClose host.grammar t closing).map Visit.offset := by
  have parallel := visits_parallel host.grammar_veiling alike
  -- A search that both texts answer alike stops at the same place.
  have offsets {found found' : Option Visit} (same : found.map Visit.bare = found'.map Visit.bare) :
      found.map Visit.offset = found'.map Visit.offset := by
    have again := congrArg (Option.map Visit.offset) same
    rwa [Option.map_map, Option.map_map] at again
  refine ⟨parallel.bare_eq, fun base separators ascii => ?_, fun token known => ?_, fun closing => ?_⟩
  · have cuts : Parallel.Asks host.grammar fun v => v.depth == 0 && separators.contains v.char && !v.continues := by
      intro v v' bare _
      obtain ⟨-, -, char, depth, previous, -⟩ := Visit.bare_eq_iff.mp bare
      dsimp only
      rw [Visit.continues, Visit.continues, char, depth, previous]
    rw [split, split, ← parallel.veiled.size_eq]
    refine pieces_from_items (parallel.filter cuts) (fun v member => ?_) (Nat.zero_add _) rfl
    have separates := (List.mem_filter.mp member).2
    simp only [Bool.and_eq_true, List.contains_iff_mem] at separates
    exact utf8_size_ascii (ascii v.char separates.1.2)
  · exact offsets (parallel.find (asks_outside (asks_token known)))
  · -- The first closing bracket is the same, and so is whether it is the one looked for.
    apply offsets
    have found := parallel.find (asks_outside fun v v' bare _ => congrArg isClosing (Visit.char_of_bare bare))
    have filtered {o : Option Visit} : (o.filter fun v => v.char == closing).map Visit.bare =
        (o.map Visit.bare).filter fun v => v.char == closing := by
      rw [Option.filter_map]
      rfl
    rw [matchingClose, matchingClose, findOutside, findOutside, filtered, filtered, found]

theorem contents_unseen_javascript :
    let g := Host.javascript.grammar
    let s := "a: f('(,='), b: 1".toList
    let t := "a: f('xyz'), b: 1".toList
    Alike g s t ∧ (visits g s).map Visit.bare = (visits g t).map Visit.bare ∧
      (split g 0 s [',']).map Slice.item = [⟨0, 11⟩, ⟨13, 17⟩] ∧ (split g 0 t [',']).map Slice.item = [⟨0, 11⟩, ⟨13, 17⟩] ∧
      (findToken g s [':']).map Visit.offset = some 1 ∧ (findToken g t [':']).map Visit.offset = some 1 := by
  intro g s t
  have alike : Alike g s t := ⟨by decide +kernel, by decide +kernel⟩
  obtain ⟨seen, cut, found, -⟩ := contents_unseen .javascript alike
  have items : (split g 0 t [',']).map Slice.item = [⟨0, 11⟩, ⟨13, 17⟩] := by decide +kernel
  have offset : (findToken g t [':']).map Visit.offset = some 1 := by decide +kernel
  exact ⟨alike, seen, (cut 0 [','] (by decide)).trans items, items, (found [':'] (by decide)).trans offset, offset⟩

end SnippetReview
