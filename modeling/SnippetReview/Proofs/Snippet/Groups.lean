import SnippetReview.Proofs.Snippet.Ends
import SnippetReview.Proofs.Snippet.Levels
import SnippetReview.Proofs.Snippet.Marks
import SnippetReview.Proofs.Snippet.Pieces

/- Bracketed groups. A walk counts the open brackets and keeps, for each of them, the angle brackets that were
   open outside it. Whatever a group leaves open inside, behind its closing bracket everything is as it was
   before its opening one. -/

set_option autoImplicit false

namespace SnippetReview

open Text

-- Code in which every bracket has its partner, of whatever kind.
inductive Balanced : List Char → Prop where
  | nil : Balanced []
  | sign {c : Char} {rest : List Char} (opens : isOpening c = false) (closes : isClosing c = false)
      (behind : Balanced rest) : Balanced (c :: rest)
  | group {opener closer : Char} {inner rest : List Char} (opens : isOpening opener = true)
      (closes : isClosing closer = true) (inside : Balanced inner) (behind : Balanced rest) :
      Balanced (opener :: inner ++ closer :: rest)

-- Code behind which some opening bracket still waits for its partner.
def LeavesOpen (code : List Char) : Prop :=
  ∃ outer opener inner, code = outer ++ opener :: inner ∧ isOpening opener = true ∧ Balanced inner

def bracketLevel (level : Nat) (c : Char) : Nat :=
  if isOpening c then level + 1 else if isClosing c then level - 1 else level

theorem bracket_level_closing {c : Char} (closes : isClosing c = true) (level : Nat) : bracketLevel level c = level - 1 := by
  rw [bracketLevel, Nesting.not_opening_of_closing closes, closes, if_neg Bool.false_ne_true, if_pos rfl]

theorem Balanced.append {first second : List Char} (balanced : Balanced first) (balanced' : Balanced second) :
    Balanced (first ++ second) := by
  induction balanced with
  | nil => exact balanced'
  | sign opens closes _ ih => exact .sign opens closes ih
  | group opens closes inside _ _ ih =>
    rw [List.append_assoc]
    exact .group opens closes inside ih

theorem Balanced.plain {code : List Char} (plain : code.all (fun c => !isOpening c && !isClosing c) = true) : Balanced code := by
  induction code with
  | nil => exact .nil
  | cons c rest ih =>
    rw [List.all_cons, Bool.and_eq_true, Bool.and_eq_true, Bool.not_eq_true', Bool.not_eq_true'] at plain
    exact .sign plain.1.1 plain.1.2 (ih plain.2)

theorem Balanced.level {code : List Char} (balanced : Balanced code) (level : Nat) : code.foldl bracketLevel level = level := by
  induction balanced generalizing level with
  | nil => rfl
  | sign opens closes _ ih =>
    rw [List.foldl_cons, ih, bracketLevel, opens, closes]
    rfl
  | group opens closes _ _ inner rest =>
    rw [List.foldl_append, List.foldl_cons, List.foldl_cons, inner, rest, bracket_level_closing closes, bracketLevel, opens]
    rfl

theorem exists_open {code : List Char} {level : Nat} (open' : code.foldl bracketLevel 0 = level + 1) :
    ∃ outer opener inner, code = outer ++ opener :: inner ∧ isOpening opener = true ∧ Balanced inner ∧
      outer.foldl bracketLevel 0 = level := by
  induction length : code.length using Nat.strongRecOn generalizing code level with
  | ind n ih =>
    rcases List.eq_nil_or_concat code with rfl | ⟨most, last, rfl⟩
    · contradiction
    rw [List.concat_eq_append] at *
    rw [List.foldl_append, List.foldl_cons, List.foldl_nil] at open'
    have shorter : most.length < n := by
      rw [← length, List.length_append, List.length_singleton]
      exact Nat.lt_succ_self _
    cases opens : isOpening last with
    | true =>
      rw [bracketLevel, opens, if_pos rfl, Nat.add_right_cancel_iff] at open'
      exact ⟨most, last, [], rfl, opens, .nil, open'⟩
    | false =>
      cases closes : isClosing last with
      | true =>
        -- The last character closes one bracket, and the one outside that is looked for.
        rw [bracket_level_closing closes] at open'
        obtain ⟨outer, opener, inner, rfl, opens', balanced, level'⟩ := ih _ shorter (show _ = (level + 1) + 1 by omega) rfl
        have shorter' : outer.length < n := by
          rw [List.length_append] at shorter
          omega
        obtain ⟨outer', opener', inner', rfl, opens'', balanced', level''⟩ := ih _ shorter' level' rfl
        refine ⟨outer', opener', inner' ++ (opener :: inner ++ [last]), by simp, opens'', ?_, level''⟩
        exact balanced'.append (.group opens' closes balanced .nil)
      | false =>
        rw [bracketLevel, opens, closes] at open'
        obtain ⟨outer, opener, inner, rfl, opens', balanced, level'⟩ := ih _ shorter open' rfl
        exact ⟨outer, opener, inner ++ [last], by simp, opens', balanced.append (.sign opens closes .nil), level'⟩

theorem level_zero_iff (code : List Char) : code.foldl bracketLevel 0 = 0 ↔ ¬ LeavesOpen code := by
  constructor
  · rintro none ⟨outer, opener, inner, rfl, opens, balanced⟩
    rw [List.foldl_append, List.foldl_cons, balanced.level, bracketLevel, opens, if_pos rfl] at none
    contradiction
  · intro closed
    cases level : code.foldl bracketLevel 0 with
    | zero => rfl
    | succ n =>
      obtain ⟨outer, opener, inner, parts, opens, balanced, _⟩ := exists_open level
      exact absurd ⟨outer, opener, inner, parts, opens, balanced⟩ closed

namespace Nesting

def Stacked (n : Nesting) : Prop := n.savedAngles.length = n.brackets

theorem brackets_after (g : Grammar) (n : Nesting) (before : Option Char) (c : Char) (rest : List Char) :
    (n.after g before c rest).brackets = bracketLevel n.brackets c := by
  let v : Visit := ⟨0, before, c, rest, 0, none, none⟩
  change (n.pass g v).brackets = bracketLevel n.brackets v.char
  rw [bracketLevel]
  cases opens : isOpening v.char with
  | true => rw [pass_opening opens]; rfl
  | false =>
    cases closes : isClosing v.char with
    | true => rw [pass_closing closes]; rfl
    | false => rw [pass_other g n opens closes]; rfl

theorem Stacked.after {n : Nesting} (stacked : n.Stacked) (g : Grammar) (before : Option Char) (c : Char) (rest : List Char) :
    (n.after g before c rest).Stacked := by
  let v : Visit := ⟨0, before, c, rest, 0, none, none⟩
  change (n.pass g v).Stacked
  cases opens : isOpening v.char with
  | true =>
    rw [pass_opening opens]
    exact congrArg (· + 1) stacked
  | false =>
    cases closes : isClosing v.char with
    | true =>
      -- The stack is empty just where the count cannot go down.
      rw [pass_closing closes]
      exact (List.length_tail).trans (congrArg (· - 1) stacked)
    | false =>
      rw [pass_other g n opens closes]
      exact stacked

theorem close_opened (n : Nesting) (angles : Nat) : ({ n.openBracket with angles } : Nesting).closeBracket = n := rfl

theorem past_balanced {g : Grammar} {code : List Char} (balanced : Balanced code) {vs : List Visit}
    (chars : vs.map (·.char) = code) (n : Nesting) : ∃ angles, n.past g vs = { n with angles } := by
  induction balanced generalizing vs n with
  | nil =>
    rw [List.map_eq_nil_iff.mp chars]
    exact ⟨n.angles, rfl⟩
  | sign opens closes _ ih =>
    obtain ⟨v, rest, rfl, rfl, further⟩ := List.map_eq_cons_iff.mp chars
    obtain ⟨angles, same⟩ := ih further (n.pass g v)
    refine ⟨angles, ?_⟩
    rw [past, List.foldl_cons, ← past, same, pass_other g n opens closes]
  | group opens closes _ _ inside behind =>
    obtain ⟨front, back, rfl, front', back'⟩ := List.map_eq_append_iff.mp chars
    obtain ⟨v, inner, rfl, rfl, inner'⟩ := List.map_eq_cons_iff.mp front'
    obtain ⟨u, rest, rfl, rfl, rest'⟩ := List.map_eq_cons_iff.mp back'
    obtain ⟨angles, same⟩ := inside inner' n.openBracket
    obtain ⟨angles', same'⟩ := behind rest' n
    refine ⟨angles', ?_⟩
    rw [← same', past, List.foldl_append, List.foldl_cons, List.foldl_cons, ← past, ← past, pass_opening opens, same,
      pass_closing closes, close_opened]

theorem past_group {g : Grammar} {opener closer : Visit} {inner : List Visit} (opens : isOpening opener.char = true)
    (closes : isClosing closer.char = true) (balanced : Balanced (inner.map (·.char))) (n : Nesting) :
    n.past g (opener :: inner ++ [closer]) = n := by
  obtain ⟨angles, same⟩ := past_balanced balanced rfl (g := g) n.openBracket
  rw [past_concat, past, List.foldl_cons, ← past, pass_opening opens, same, pass_closing closes, close_opened]

end Nesting

namespace Walk

def reach (g : Grammar) (offset : Nat) (w : Walk) (s : Segment) : Walk :=
  if s.stop ≤ offset then w.passOver g s
  else if s.kind = .code then w.steps g (charsWithin (offset - s.start) s.text)
  else w

-- The walk over a text when it has come to an offset.
def upTo (g : Grammar) (text : List Char) (offset : Nat) : Walk :=
  (segments g text).foldl (reach g offset) { cursor := Cursor.start text }

-- What a walk knows of brackets: a stack with an entry for each open one, and as many open ones as the code
-- so far leaves open.
structure Levelled (w : Walk) : Prop where
  stacked : w.nesting.Stacked
  brackets : w.nesting.brackets = (w.visits.reverse.map (·.char)).foldl bracketLevel 0

variable {g : Grammar} {w : Walk}

theorem brackets_step {c : Char} {rest : List Char} (stands : w.cursor.rest = c :: rest) :
    (w.step g).nesting.brackets = bracketLevel w.nesting.brackets c := by
  by_cases bracket : isOpening c = true ∨ isClosing c = true
  · rw [nesting_step_unworded stands (not_alpha_of_bracket bracket), Nesting.brackets_after]
  · have sign : bracketLevel w.nesting.brackets c = w.nesting.brackets := by
      rw [not_or, Bool.not_eq_true, Bool.not_eq_true] at bracket
      rw [bracketLevel, bracket.1, bracket.2]
      rfl
    unfold step
    rw [stands, sign]
    dsimp only
    split
    · cases BlockWords.effect _ _ _ _ _ <;> rfl
    · rw [Nesting.brackets_after, sign]

theorem stacked_step (stacked : w.nesting.Stacked) : (w.step g).nesting.Stacked := by
  unfold step
  cases w.cursor.rest with
  | nil => exact stacked
  | cons c rest =>
    dsimp only
    split
    · cases BlockWords.effect _ _ _ _ _ <;> exact stacked
    · exact stacked.after g _ c rest

theorem visits_step {c : Char} {rest : List Char} (stands : w.cursor.rest = c :: rest) :
    (w.step g).visits = w.visitAt g c rest :: w.visits := by
  unfold step visitAt
  rw [stands]

theorem Levelled.step (levelled : w.Levelled) (g : Grammar) : (w.step g).Levelled := by
  refine ⟨stacked_step levelled.stacked, ?_⟩
  cases stands : w.cursor.rest with
  | nil =>
    unfold Walk.step
    rw [stands]
    exact levelled.brackets
  | cons c rest =>
    rw [brackets_step stands, visits_step stands, levelled.brackets, List.reverse_cons, List.map_append, List.foldl_append]
    rfl

theorem Levelled.steps (levelled : w.Levelled) (g : Grammar) (n : Nat) : (w.steps g n).Levelled := by
  induction n generalizing w with
  | zero => exact levelled
  | succ n ih => exact ih (levelled.step g)

theorem Levelled.reach (levelled : w.Levelled) (g : Grammar) (offset : Nat) (s : Segment) : (w.reach g offset s).Levelled := by
  unfold Walk.reach Walk.passOver
  split
  · cases s.kind with
    | code => exact levelled.steps g s.text.length
    | quoted | regex | comment => exact ⟨levelled.stacked, levelled.brackets⟩
  · split
    · exact levelled.steps g _
    · exact levelled

theorem up_to_levelled (g : Grammar) (text : List Char) (offset : Nat) : (upTo g text offset).Levelled := by
  have fold : ∀ (rest : List Segment) (w : Walk), w.Levelled → (rest.foldl (Walk.reach g offset) w).Levelled := by
    intro rest
    induction rest with
    | nil => exact fun w levelled => levelled
    | cons s rest ih => exact fun w levelled => ih _ (levelled.reach g offset s)
  exact fold _ _ ⟨rfl, rfl⟩

section

variable {offset start : Nat} {code : List Char}

theorem reach_before {s : Segment} (before : s.stop ≤ offset) : w.reach g offset s = w.passOver g s := if_pos before

theorem reach_behind {s : Segment} (behind : offset ≤ s.start) (filled : s.text ≠ []) : w.reach g offset s = w := by
  have positive : size s.text ≠ 0 := fun none => filled (size_eq_zero_iff.mp none)
  unfold reach Segment.stop
  rw [if_neg (by omega), Nat.sub_eq_zero_of_le behind, chars_within_zero]
  exact ite_self w

theorem fold_reach_behind {segments : List Segment} (behind : ∀ s ∈ segments, offset ≤ s.start)
    (filled : ∀ s ∈ segments, s.text ≠ []) : segments.foldl (reach g offset) w = w := by
  induction segments with
  | nil => rfl
  | cons s rest ih =>
    rw [List.foldl_cons, reach_behind (behind s List.mem_cons_self) (filled s List.mem_cons_self)]
    exact ih (fun u member => behind u (List.mem_cons_of_mem s member)) fun u member =>
      filled u (List.mem_cons_of_mem s member)

theorem reach_code (before : start + size code ≤ offset) :
    (Segment.ofCode start code).foldl (reach g offset) w = w.across g (code.reverse.map .code) := by
  cases code with
  | nil => rfl
  | cons c code =>
    have stop : (Segment.mk .code start (c :: code).reverse 0 0).stop ≤ offset := by
      rwa [Segment.stop, Segment.size_reverse]
    rw [← steps_eq]
    exact reach_before stop

theorem reach_into_code (here : start + size code = offset) (later : List Char) :
    (Segment.ofCode start (later ++ code)).foldl (reach g offset) w = w.across g (code.reverse.map .code) := by
  cases later with
  | nil => exact reach_code (Nat.le_of_eq here)
  | cons c later =>
    have within : charsWithin (size code) (c :: later ++ code).reverse = code.reverse.length := by
      rw [List.reverse_append, ← Segment.size_reverse code, chars_within_append, chars_within_zero, Nat.add_zero]
    have positive := Char.utf8Size_pos c
    rw [← steps_eq, ← within]
    unfold Segment.ofCode reach Segment.stop
    simp only [List.cons_append, List.isEmpty_cons, Bool.false_eq_true, if_false, List.foldl_cons, List.foldl_nil,
      Segment.size_reverse, size_cons, size_append, if_true]
    rw [if_neg (by omega), ← here, Nat.add_sub_cancel_left]

theorem reach_rest {tokens : List Token} (filled : ∀ t ∈ tokens, t.IsFilled) (here : start + size code = offset)
    (later : List Char) :
    (Segment.ofTokens start (later ++ code) tokens).foldl (reach g offset) w = w.across g (code.reverse.map .code) := by
  induction tokens generalizing later with
  | nil => exact reach_into_code here later
  | cons t rest ih =>
    have others : ∀ t ∈ rest, t.IsFilled := fun u member => filled u (List.mem_cons_of_mem t member)
    cases t with
    | code c => exact ih others (c :: later)
    | literal l text =>
      -- The literal and all that follows it stand behind the offset.
      let place := start + size (later ++ code)
      have low : ∀ s ∈ Segment.ofLiteral place l text :: Segment.ofTokens (place + size text) [] rest, offset ≤ s.start := by
        have row : Contiguous place (Segment.ofLiteral place l text :: Segment.ofTokens (place + size text) [] rest) :=
          ⟨rfl, Segment.contiguous_of_tokens _ [] rest⟩
        intro s member
        have reached := start_of_contiguous row member
        have sum : size (later ++ code) = size later + size code := size_append later code
        omega
      have full : ∀ s ∈ Segment.ofLiteral place l text :: Segment.ofTokens (place + size text) [] rest, s.text ≠ [] :=
        List.forall_mem_cons.mpr ⟨(filled _ List.mem_cons_self).nonempty,
          Segment.forall_of_tokens (fun _ c code => by simp) (fun _ l text member => (others _ member).nonempty) _ []⟩
      rw [Segment.ofTokens, List.foldl_append, reach_into_code here]
      exact fold_reach_behind low full

theorem reach_tokens {done more : List Token} (filled : ∀ t ∈ done ++ more, t.IsFilled)
    (here : start + size code + size (flatten done) = offset) :
    (Segment.ofTokens start code (done ++ more)).foldl (reach g offset) w = w.across g (code.reverse.map .code ++ done) := by
  induction done generalizing start code w with
  | nil =>
    have here' : start + size code = offset := here
    rw [List.nil_append, List.append_nil]
    exact reach_rest filled here' []
  | cons t rest ih =>
    have others : ∀ t ∈ rest ++ more, t.IsFilled := fun u member => filled u (List.mem_cons_of_mem t member)
    rw [flatten_cons, size_append] at here
    cases t with
    | code c =>
      have here' : start + size (c :: code) + size (flatten rest) = offset := by
        rw [← here, Token.text, size_singleton, size_cons]
        omega
      have next : (Segment.ofTokens start (c :: code) (rest ++ more)).foldl (reach g offset) w =
          w.across g ((c :: code).reverse.map .code ++ rest) := ih others here'
      rw [List.reverse_cons, List.map_append, List.append_assoc] at next
      exact next
    | literal l text =>
      have here' : start + size code + size text + size [] + size (flatten rest) = offset := by
        rw [← here, Token.text, size_nil]
        omega
      have stop : (Segment.ofLiteral (start + size code) l text).stop ≤ offset := by
        change start + size code + size text ≤ offset
        rw [size_nil] at here'
        omega
      rw [List.cons_append, Segment.ofTokens, List.foldl_append, List.foldl_cons, reach_code (by omega), reach_before stop,
        across_append, across_cons]
      exact ih others here'

end

theorem up_to_tokens {text : List Char} {done more : List Token} (parts : tokens g text = done ++ more) :
    upTo g text (size (flatten done)) = across g { cursor := Cursor.start text } done := by
  have filled : ∀ t ∈ done ++ more, t.IsFilled := fun t member => by
    rw [← parts] at member
    exact filled_of_mem_tokens member
  rw [upTo, segments_eq, parts]
  exact reach_tokens filled (by rw [size_nil]; omega)

theorem seen_split {tokens : List Token} {later : List Char} {before after : List Visit} {v : Visit}
    (stands : w.cursor.rest = flatten tokens ++ later) (filled : ∀ t ∈ tokens, t.IsFilled)
    (split : w.seen g tokens = before ++ v :: after) :
    ∃ done more, tokens = done ++ .code v.char :: more ∧ w.seen g done = before ∧
      w.seen g (done ++ [.code v.char]) = before ++ [v] ∧ v.offset = w.cursor.offset + size (flatten done) := by
  induction tokens generalizing w before with
  | nil => exact absurd split.symm (by simp [seen_nil])
  | cons t rest ih =>
    have here : w.cursor.rest = t.text ++ (flatten rest ++ later) := by rw [stands, flatten_cons, List.append_assoc]
    have others : ∀ t ∈ rest, t.IsFilled := fun u member => filled u (List.mem_cons_of_mem t member)
    have cursor := cursor_token (g := g) here (filled t List.mem_cons_self)
    have next : (w.passToken g t).cursor.rest = flatten rest ++ later := by rw [cursor]
    -- The visit is of a token behind the first one.
    have further : ∀ front : List Visit, (∀ more, w.seen g (t :: more) = front ++ (w.passToken g t).seen g more) →
        ∀ {before' : List Visit}, before = front ++ before' → (w.passToken g t).seen g rest = before' ++ v :: after →
        ∃ done more, t :: rest = done ++ .code v.char :: more ∧ w.seen g done = before ∧
          w.seen g (done ++ [.code v.char]) = before ++ [v] ∧ v.offset = w.cursor.offset + size (flatten done) := by
      intro front first before' parts split'
      obtain ⟨done, more, tokens', seen, seen', offset⟩ := ih next others split'
      refine ⟨t :: done, more, by rw [tokens', List.cons_append], ?_, ?_, ?_⟩
      · rw [first, seen, parts]
      · rw [List.cons_append, first, seen', parts, List.append_assoc]
      · rw [offset, cursor, flatten_cons, size_append, Nat.add_assoc]
    cases t with
    | code c =>
      have sees : ∀ more, w.seen g (.code c :: more) =
          w.visitAt g c (flatten rest ++ later) :: (w.step g).seen g more := seen_code here
      rw [sees] at split
      cases before with
      | nil =>
        obtain ⟨rfl, -⟩ := List.cons_eq_cons.mp split
        exact ⟨[], rest, rfl, rfl, sees [], rfl⟩
      | cons u before' =>
        obtain ⟨rfl, split'⟩ := List.cons_eq_cons.mp split
        exact further [_] sees rfl split'
    | literal l text =>
      have sees := seen_literal g w l text
      have kind := (filled _ List.mem_cons_self).1
      rw [sees rest kind] at split
      exact further [] (fun more => sees more kind) rfl split

theorem visits_across (g : Grammar) (w : Walk) (tokens : List Token) :
    (w.across g tokens).visits.reverse = w.visits.reverse ++ w.seen g tokens := by
  rw [across_eq, behind, List.reverse_append]
  rfl

theorem nesting_across (wordless : g.blockWords = none) {tokens : List Token} {later : List Char}
    (stands : w.cursor.rest = flatten tokens ++ later) (filled : ∀ t ∈ tokens, t.IsFilled) :
    (w.across g tokens).nesting = w.nesting.past g (w.seen g tokens) := by
  induction tokens generalizing w with
  | nil => rfl
  | cons t rest ih =>
    have here : w.cursor.rest = t.text ++ (flatten rest ++ later) := by rw [stands, flatten_cons, List.append_assoc]
    have others : ∀ t ∈ rest, t.IsFilled := fun u member => filled u (List.mem_cons_of_mem t member)
    have next : (w.passToken g t).cursor.rest = flatten rest ++ later := by rw [cursor_token here (filled t List.mem_cons_self)]
    rw [across_cons, ih next others]
    cases t with
    | code c =>
      have one : (w.passToken g (.code c)).nesting = w.nesting.pass g (w.visitAt g c (flatten rest ++ later)) :=
        nesting_step wordless here
      rw [seen_code here, one]
      rfl
    | literal l text =>
      have kind := (filled _ List.mem_cons_self).1
      rw [seen_literal g w l text rest kind, nesting_literal kind]

end Walk

theorem places_holding (last : Option Visit) (vs : List Visit) :
    (holding last vs).map (fun v => (v.char, v.offset)) = vs.map fun v => (v.char, v.offset) := by
  induction vs generalizing last with
  | nil => rfl
  | cons v rest ih => rw [holding, List.map_cons, List.map_cons, ih, v.held_eq]

section

variable {g : Grammar} {text : List Char} {before after : List Visit} {v : Visit}

theorem start_of_tokens (g : Grammar) (text : List Char) :
    (Cursor.start text).rest = flatten (tokens g text) ++ [] := by
  rw [tokens, flatten_tokens_from, List.append_nil]
  rfl

theorem seen_of_visits (split : visits g text = before ++ v :: after) :
    ∃ before' v' after', Walk.seen g { cursor := Cursor.start text } (tokens g text) = before' ++ v' :: after' ∧
      before'.map (·.char) = before.map (·.char) ∧ v'.offset = v.offset := by
  have same : (Walk.seen g { cursor := Cursor.start text } (tokens g text)).map (fun v => (v.char, v.offset)) =
      (before ++ v :: after).map fun v => (v.char, v.offset) := by
    rw [← split, visits_eq]
    split
    · exact (places_holding none _).symm
    · rfl
  rw [List.map_append] at same
  obtain ⟨front, back, parts, front', back'⟩ := List.map_eq_append_iff.mp same
  obtain ⟨v', after', rfl, place, -⟩ := List.map_eq_cons_iff.mp back'
  refine ⟨front, v', after', parts, ?_, congrArg Prod.snd place⟩
  have chars := congrArg (List.map Prod.fst) front'
  rwa [List.map_map, List.map_map] at chars

theorem chars_up_to (split : visits g text = before ++ v :: after) :
    (Walk.upTo g text v.offset).visits.reverse.map (·.char) = before.map (·.char) := by
  obtain ⟨before', v', after', seen, chars, offset⟩ := seen_of_visits split
  obtain ⟨done, more, parts, seen', -, offset'⟩ :=
    Walk.seen_split (w := { cursor := Cursor.start text }) (start_of_tokens g text) (fun _ => filled_of_mem_tokens) seen
  have place : v.offset = size (flatten done) := by rw [← offset, offset', Cursor.start, Nat.zero_add]
  rw [place, Walk.up_to_tokens parts, Walk.visits_across, seen', ← chars]
  rfl

theorem nesting_up_to (wordless : g.blockWords = none) (split : visits g text = before ++ v :: after) :
    (Walk.upTo g text v.offset).nesting = Nesting.past g {} before ∧
      (Walk.upTo g text (v.offset + v.char.utf8Size)).nesting = Nesting.past g {} (before ++ [v]) := by
  rw [visits_wordless wordless] at split
  obtain ⟨done, more, parts, seen, seen', offset⟩ :=
    Walk.seen_split (w := { cursor := Cursor.start text }) (start_of_tokens g text) (fun _ => filled_of_mem_tokens) split
  have place : v.offset = size (flatten done) := by rw [offset, Cursor.start, Nat.zero_add]
  have place' : v.offset + v.char.utf8Size = size (flatten (done ++ [.code v.char])) := by
    rw [flatten_append, size_append, place, ← size_singleton]
    rfl
  have parts' : tokens g text = (done ++ [.code v.char]) ++ more := by
    rw [parts, List.append_assoc]
    rfl
  have past : ∀ done' more', tokens g text = done' ++ more' →
      (Walk.upTo g text (size (flatten done'))).nesting =
        Nesting.past g {} (Walk.seen g { cursor := Cursor.start text } done') := by
    intro done' more' parts'
    have start := start_of_tokens g text
    rw [parts', flatten_append, List.append_assoc] at start
    rw [Walk.up_to_tokens parts']
    exact Walk.nesting_across (w := { cursor := Cursor.start text }) wordless start fun t member =>
      filled_of_mem_tokens (parts' ▸ List.mem_append_left more' member)
  constructor
  · rw [place, past done _ parts, seen]
  · rw [place', past _ more parts', seen']

end

/-- Behind a group of code that is balanced inside, everything is open that was open before it, and nothing else. In every
walk the stack has an entry for each open bracket, so it is empty, and a closing bracket takes nothing away, only where no
opening bracket waits for its partner. -/
theorem groups_restore_nesting (g : Grammar) (text : List Char) :
    (g.blockWords = none → ∀ (before : List Visit) (opener : Visit) (inner : List Visit) (closer : Visit) (after : List Visit),
      visits g text = before ++ (opener :: inner) ++ closer :: after →
      isOpening opener.char = true → isClosing closer.char = true → Balanced (inner.map (·.char)) →
      (Walk.upTo g text (closer.offset + closer.char.utf8Size)).nesting = (Walk.upTo g text opener.offset).nesting) ∧
    (∀ offset, let n := (Walk.upTo g text offset).nesting
      n.savedAngles.length = n.brackets) ∧
    ∀ (before : List Visit) (v : Visit) (after : List Visit), visits g text = before ++ v :: after →
      let n := (Walk.upTo g text v.offset).nesting
      (n.brackets = 0 ↔ ¬ LeavesOpen (before.map (·.char))) ∧ (n.savedAngles = [] ↔ ¬ LeavesOpen (before.map (·.char))) := by
  refine ⟨?_, fun offset => (Walk.up_to_levelled g text offset).stacked, ?_⟩
  · intro wordless before opener inner closer after split opens closes balanced
    have split' : visits g text = before ++ opener :: (inner ++ closer :: after) := by
      rw [split, List.append_assoc]
      rfl
    rw [(nesting_up_to wordless split').1, (nesting_up_to wordless split).2, List.append_assoc, Nesting.past,
      List.foldl_append, ← Nesting.past, ← Nesting.past, Nesting.past_group opens closes balanced]
  · intro before v after split n
    have levelled := Walk.up_to_levelled g text v.offset
    have brackets := levelled.brackets
    rw [chars_up_to split] at brackets
    have zero : n.brackets = 0 ↔ ¬ LeavesOpen (before.map (·.char)) := by rw [brackets, level_zero_iff]
    refine ⟨zero, ?_⟩
    rw [← zero, ← levelled.stacked, List.length_eq_zero_iff]

theorem groups_restore_nesting_java :
    let g := Host.java.grammar
    let text := "List<m(Map<K, \")\", Set<V[0]; x<y) = z".toList
    g.blockWords = none ∧ ∃ (before : List Visit) (opener : Visit) (inner : List Visit) (closer : Visit) (after : List Visit),
      visits g text = before ++ (opener :: inner) ++ closer :: after ∧ opener.offset = 6 ∧
        isOpening opener.char = true ∧ isClosing closer.char = true ∧ Balanced (inner.map (·.char)) ∧
        (Walk.upTo g text (closer.offset + closer.char.utf8Size)).nesting = (Walk.upTo g text opener.offset).nesting ∧
        (Walk.upTo g text closer.offset).nesting = ⟨1, 0, 1, [1]⟩ := by
  intro g text
  have wordless : g.blockWords = none := by decide
  have first : (visits g text)[6]?.map (fun v => (v.offset, v.char)) = some (6, '(') := by decide +kernel
  have last : ((visits g text).drop 7)[22]?.map (fun v => (v.offset, v.char)) = some (32, ')') := by decide +kernel
  obtain ⟨opener, here, opens⟩ := Option.map_eq_some_iff.mp first
  obtain ⟨closer, there, closes⟩ := Option.map_eq_some_iff.mp last
  obtain ⟨offset, opens⟩ := Prod.mk.inj opens
  obtain ⟨offset', closes⟩ := Prod.mk.inj closes
  have split : visits g text = (visits g text).take 6 ++ (opener :: ((visits g text).drop 7).take 22) ++
      closer :: ((visits g text).drop 7).drop 23 := by
    rw [List.append_assoc, List.cons_append, ← visits_around there]
    exact visits_around here
  have chars : (((visits g text).drop 7).take 22).map (·.char) = "Map<K, , Set<V".toList ++ "[0]; x<y".toList := by
    decide +kernel
  have balanced : Balanced ((((visits g text).drop 7).take 22).map (·.char)) := by
    rw [chars]
    refine Balanced.append (Balanced.plain (by decide)) ?_
    exact @Balanced.group '[' ']' ['0'] _ rfl rfl (.plain (by decide)) (.plain (by decide))
  have opens' : isOpening opener.char = true := by rw [opens]; rfl
  have closes' : isClosing closer.char = true := by rw [closes]; rfl
  have restored := (groups_restore_nesting g text).1 wordless _ opener _ closer _ split opens' closes' balanced
  refine ⟨wordless, _, opener, _, closer, _, split, offset, opens', closes', balanced, restored, ?_⟩
  rw [offset']
  decide +kernel

end SnippetReview
