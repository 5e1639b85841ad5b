import SnippetReview.Proofs.Lexing.Beginnings
import SnippetReview.Proofs.Lexing.Clipping
import SnippetReview.Proofs.Lexing.Restripping
import SnippetReview.Proofs.Snippet.Covering

set_option autoImplicit false

namespace SnippetReview

open Text

section

variable {g : Grammar} {base : Nat} {text : List Char} {s : Slice}

theorem place_of_pieces {done tail : List Char} {vs : List Visit} {pieces : List Slice} (split : text = done ++ tail)
    (row : InRow done tail vs) (ones : ∀ v ∈ vs, v.char.utf8Size = 1)
    (member : s ∈ piecesFrom base (size text) pieces (size done) tail vs) :
    s ∈ pieces ∨ ∃ before raw after, text = before ++ (raw ++ after) ∧ s = (Slice.place (base + size before) raw after).trim ∧
      s.size ≠ 0 ∧ (before = done ∨ ∃ v ∈ vs, ∃ front, before = front ++ [v.char] ∧ v.offset = size front) ∧
      (after = [] ∨ ∃ v ∈ vs, after = v.char :: v.rest ∧ v.offset = size (before ++ raw)) := by
  induction vs generalizing done tail pieces with
  | nil =>
    rw [piecesFrom, List.mem_reverse, place_to_end split] at member
    rcases mem_of_keep member with old | ⟨same, sized⟩
    · exact .inl old
    · right
      exact ⟨done, tail, [], by rw [split, List.append_nil], same, same ▸ sized, .inl rfl, .inl rfl⟩
  | cons v rest ih =>
    obtain ⟨piece, stands, offset, -, later⟩ := row
    rw [piecesFrom, offset_behind offset (ones v List.mem_cons_self), place_up_to stands offset] at member
    rcases ih (by rw [split, stands]; simp) later (fun u inside => ones u (List.mem_cons_of_mem v inside)) member with
      kept | ⟨before, raw, after, parts, same, sized, starts, ends⟩
    · rcases mem_of_keep kept with old | ⟨same, sized⟩
      · exact .inl old
      · right
        refine ⟨done, piece, v.char :: v.rest, by rw [split, stands], same, same ▸ sized, .inl rfl, .inr ?_⟩
        exact ⟨v, List.mem_cons_self, rfl, offset⟩
    · right
      refine ⟨before, raw, after, parts, same, sized, .inr ?_, ?_⟩
      · rcases starts with rfl | ⟨u, inside, more⟩
        · exact ⟨v, List.mem_cons_self, done ++ piece, rfl, offset⟩
        · exact ⟨u, List.mem_cons_of_mem v inside, more⟩
      · rcases ends with none | ⟨u, inside, more⟩
        · exact .inl none
        · exact .inr ⟨u, List.mem_cons_of_mem v inside, more⟩

-- A language that reads its items one by one: separators and blanks stand in no delimiter, no identifier goes
-- on behind a separator, and where slashes are judged, one may begin a literal there.
structure Grammar.Itemized (g : Grammar) (separators : List Char) : Prop extends g.Inked where
  single : ∀ c ∈ separators, c.utf8Size = 1
  parts : ∀ c ∈ separators, g.Parts c
  breaks : ∀ c ∈ separators, isIdentChar c = false
  slashes : g.regexLiterals = true → ∀ c ∈ separators, isBlank c = false ∧ Literal.regexMayStart [c] (some .quoted) = true

variable {separators : List Char}

theorem tokens_of_cut {v : Visit} (member : v ∈ cuts g text separators) {front back : List Char}
    (parts : text = front ++ back) (offset : v.offset = size front) :
    ∃ done later, tokens g text = done ++ .code v.char :: later ∧ flatten done = front := by
  obtain ⟨done, later, split, place, -⟩ := place_of_visits (mem_cuts.mp member).1
  refine ⟨done, later, split, ?_⟩
  have whole := flatten_tokens_from g {} text
  rw [← tokens, split, flatten_append] at whole
  exact (append_inj_of_size (whole.trans parts) (place.symm.trans offset)).1

def Starts (separators : List Char) (earlier : List Token) : Prop :=
  earlier = [] ∨ ∃ more, ∃ c ∈ separators, earlier = more ++ [.code c]

theorem tokens_from_start {before behind : List Char} (parts : text = before ++ behind)
    (starts : before = [] ∨ ∃ v ∈ cuts g text separators, ∃ front, before = front ++ [v.char] ∧ v.offset = size front) :
    ∃ earlier, Starts separators earlier ∧ flatten earlier = before ∧
      tokens g text = earlier ++ tokensFrom g (earlier.foldl Token.after {}) behind := by
  rcases starts with rfl | ⟨v, cut, front, rfl, offset⟩
  · exact ⟨[], .inl rfl, rfl, by rw [parts]; rfl⟩
  · obtain ⟨done, later, split, flat⟩ := tokens_of_cut cut (parts.trans (List.append_assoc _ _ _)) offset
    rw [List.append_cons, tokens] at split
    have rest := flatten_tokens_from g {} text
    rw [split, flatten_append, flatten_append, flat, parts] at rest
    have read := tokens_from_split split
    rw [List.append_cancel_left rest] at read
    refine ⟨done ++ [.code v.char], .inr ⟨done, v.char, (mem_cuts.mp cut).2.2.1, rfl⟩, ?_, ?_⟩
    · rw [flatten_append, flat]
      rfl
    · rw [tokens, split, ← read]

theorem tokens_up_to {done behind : List Token} (parts : tokens g text = done ++ behind) {item after : List Char}
    (here : flatten behind = item ++ after)
    (ends : after = [] ∨ ∃ v ∈ cuts g text separators, after = v.char :: v.rest ∧ v.offset = size (flatten done ++ item)) :
    ∃ whole later, behind = whole ++ later ∧ flatten whole = item := by
  rcases ends with rfl | ⟨v, cut, -, offset⟩
  · exact ⟨behind, [], (List.append_nil behind).symm, here.trans (List.append_nil item)⟩
  · have whole := flatten_tokens_from g {} text
    rw [← tokens, parts, flatten_append, here, ← List.append_assoc] at whole
    obtain ⟨front, later, split, flat⟩ := tokens_of_cut cut whole.symm offset
    have filled : ∀ t ∈ done, t.IsFilled := by
      intro t member
      have among : t ∈ tokens g text := by
        rw [parts]
        exact List.mem_append_left _ member
      exact filled_of_mem_tokens among
    obtain ⟨between, rfl, same⟩ := front_of_flatten (parts.symm.trans split) filled flat
    rw [parts, List.append_assoc] at split
    exact ⟨between, .code v.char :: later, List.append_cancel_left split, same⟩

-- An item among the tokens of a text. What is before it ends in a separator and blanks; what is behind it
-- begins with blanks, of which a literal or comment of the item may take some in.
structure ItemPlace (g : Grammar) (separators : List Char) (tokens : List Token) (item : List Char) where
  earlier : List Token
  lead : List Char
  trail : List Char
  whole : List Token
  later : List Token
  parts : tokens = earlier ++ lead.map Token.code ++ (whole ++ later)
  starts : Starts separators earlier
  leading : ∀ c ∈ lead, isBlank c = true
  cutOff : CutOff trail (tokensFrom g ((earlier ++ lead.map Token.code).foldl Token.after {}) item) whole

namespace ItemPlace

variable {ts : List Token} {item : List Char}

def context (place : ItemPlace g separators ts item) : Context := (place.earlier ++ place.lead.map Token.code).foldl Token.after {}

def front (place : ItemPlace g separators ts item) : List Char := flatten place.earlier ++ place.lead

end ItemPlace

theorem place_of_item (ones : ∀ c ∈ separators, c.utf8Size = 1) (member : s ∈ split g base text separators) :
    ∃ before lead trail after, text = before ++ (lead ++ (s.text ++ (trail ++ after))) ∧
      s.start = base + size (before ++ lead) ∧ Inked s.text ∧ (∀ c ∈ lead, isBlank c = true) ∧ (∀ c ∈ trail, isBlank c = true) ∧
      (before = [] ∨ ∃ v ∈ cuts g text separators, ∃ front, before = front ++ [v.char] ∧ v.offset = size front) ∧
      (after = [] ∨ ∃ v ∈ cuts g text separators,
        after = v.char :: v.rest ∧ v.offset = size (before ++ (lead ++ (s.text ++ trail)))) := by
  have single : ∀ v ∈ cuts g text separators, v.char.utf8Size = 1 := fun v cut => ones v.char (mem_cuts.mp cut).2.2.1
  obtain ⟨before, raw, after, parts, same, sized, starts, ends⟩ :=
    (place_of_pieces (List.nil_append text).symm (cuts_in_row g text separators) single member).resolve_left List.not_mem_nil
  obtain ⟨lead, trail, leading, trailing, shape⟩ := trim_parts raw
  have inked : Inked (trim raw) := by
    refine inked_trim fun none => sized ?_
    obtain ⟨_, _, _, trimmed⟩ := Slice.trim_place_eq (base + size before) raw after
    rw [same, trimmed, Slice.size_place, none, size_nil]
  rw [shape, Slice.trim_place leading trailing inked] at same
  have item : s.text = trim raw := by rw [same, Slice.text_place]
  have start : s.start = base + size before + size lead := congrArg Slice.start same
  rw [← item, List.append_assoc] at shape
  rw [← item] at inked
  rw [shape] at parts ends
  refine ⟨before, lead, trail, after, ?_, ?_, inked, leading, trailing, starts, ends⟩
  · rw [parts]
    simp only [List.append_assoc]
  · rw [start, size_append, Nat.add_assoc]

theorem item_place (itemized : g.Itemized separators) (member : s ∈ split g base text separators) :
    ∃ place : ItemPlace g separators (tokens g text) s.text, Inked s.text ∧ s.start = base + size place.front := by
  obtain ⟨before, lead, trail, after, parts, start, inked, leading, trailing, starts, ends⟩ :=
    place_of_item itemized.single member
  obtain ⟨earlier, first, flat, split⟩ := tokens_from_start parts starts
  -- Behind the separator the blanks are code.
  have code : ∀ c more done, lead = done ++ c :: more → ∀ x : Context,
      x.literal? g (c :: (more ++ (s.text ++ (trail ++ after)))) = none := by
    intro c more done here x
    exact literal_of_parts itemized.toLegible (itemized.toInked.parts (leading c (by rw [here]; simp))) _ x
  rw [tokens_from_code_all code, ← List.append_assoc, ← List.foldl_append] at split
  have front : flatten (earlier ++ lead.map .code) ++ (s.text ++ trail) = before ++ (lead ++ (s.text ++ trail)) := by
    rw [flatten_append, flatten_map_code, flat, List.append_assoc]
  rw [← front] at ends
  obtain ⟨whole, later, behind, text'⟩ := tokens_up_to split (by rw [flatten_tokens_from, List.append_assoc]) ends
  -- What is behind the item parts it from what follows, be it a blank or a separator.
  have parting : ∀ d ∈ (trail ++ after).head?, g.Parts d := by
    intro d head
    cases trail with
    | cons b trail =>
      obtain rfl := Option.some.inj head
      exact itemized.toInked.parts (trailing b List.mem_cons_self)
    | nil =>
      rcases ends with rfl | ⟨v, cut, rfl, -⟩
      · contradiction
      · obtain rfl := Option.some.inj head
        exact itemized.parts v.char (mem_cuts.mp cut).2.2.1
  have cutOff := cut_off itemized.toInked trailing parting behind text'
  refine ⟨⟨earlier, lead, trail, whole, later, split.trans (by rw [behind]), first, leading, cutOff⟩, inked, ?_⟩
  rw [start, ItemPlace.front, flat]

theorem ident_of_blank {b : Char} (blank : isBlank b = true) : isIdentChar b = decide (128 ≤ b.toNat) := by
  have other : (b.isAlphanum || b == '_') = false :=
    not_of_blank (p := fun c => c.isAlphanum || c == '_') (by decide +kernel) blank
  rw [isIdentChar, other, Bool.false_or]

def nearestSign (back : List Char) : Option Char := back.find? fun c => !isAsciiBlank c

theorem nearest_sign_append (back back' : List Char) : nearestSign (back ++ back') = (nearestSign back).or (nearestSign back') :=
  List.find?_append

theorem nearest_sign_cons {c : Char} (sign : isAsciiBlank c = false) (back : List Char) : nearestSign (c :: back) = some c :=
  List.find?_cons_of_pos (by rw [sign]; rfl)

theorem may_start_of_sign {code : List Char} {b : Char} (found : nearestSign code = some b) (last last' : Option SegmentKind) :
    Literal.regexMayStart code last = Literal.regexMayStart [b] last' := by
  have sign : isAsciiBlank b = false := by simpa using List.find?_some found
  rw [nearestSign] at found
  simp [Literal.regexMayStart, found, sign]

theorem never_starts_of_blank {b : Char} (blank : isBlank b = true) : Literal.regexMayStart [b] (some .quoted) = false :=
  not_of_blank (p := fun c => Literal.regexMayStart [c] (some .quoted)) (by decide +kernel) blank

namespace ItemPlace

variable {ts : List Token} {item : List Char}

theorem context_eq (place : ItemPlace g separators ts item) :
    place.context.before = place.front.getLast? ∧
      ((place.context.code = place.lead.reverse ∧ place.context.last = none ∧ place.front = place.lead) ∨
        ∃ c ∈ separators, ∃ code more, place.context.code = place.lead.reverse ++ c :: code ∧
          place.front = more ++ [c] ++ place.lead) := by
  unfold context front
  rw [List.foldl_append, fold_after_code, List.getLast?_append]
  rcases place.starts with first | ⟨more, c, known, first⟩
  · rw [first]
    exact ⟨rfl, .inl ⟨List.append_nil _, rfl, rfl⟩⟩
  · rw [first, List.foldl_append, flatten_append, show flatten [Token.code c] = [c] from rfl, List.getLast?_concat]
    exact ⟨rfl, .inr ⟨c, known, _, _, rfl, rfl⟩⟩

theorem flatten_before (place : ItemPlace g separators ts item) :
    flatten (place.earlier ++ place.lead.map .code) = place.front := by
  rw [flatten_append, flatten_map_code, front]

theorem flatten_eq (place : ItemPlace g separators ts item) :
    flatten ts = place.front ++ item ++ (place.trail ++ flatten place.later) := by
  have parts := congrArg flatten place.parts
  rw [flatten_append, flatten_before, flatten_append, place.cutOff.text_eq, flatten_tokens_from] at parts
  rw [parts]
  simp only [List.append_assoc]

theorem clip_eq (place : ItemPlace g separators ts item) :
    (Segment.ofTokens 0 [] ts).filterMap (Segment.clip (size place.front) (size place.front + size item)) =
      (Segment.ofTokens (size place.front) [] (tokensFrom g place.context item)).map Segment.span := by
  have before : 0 + size [] + size (flatten (place.earlier ++ place.lead.map .code)) = size place.front := by
    rw [place.flatten_before, size_nil, Nat.zero_add]
  have upTo : size place.front + size [] + size (flatten (tokensFrom g place.context item)) = size place.front + size item := by
    rw [flatten_tokens_from, size_nil, Nat.add_zero]
  calc (Segment.ofTokens 0 [] ts).filterMap (Segment.clip (size place.front) (size place.front + size item))
    _ = (Segment.ofTokens 0 [] (place.earlier ++ place.lead.map Token.code ++ (place.whole ++ place.later))).filterMap
          (Segment.clip (size place.front) (size place.front + size item)) :=
        congrArg (fun ts => (Segment.ofTokens 0 [] ts).filterMap _) place.parts
    _ = (Segment.ofTokens (size place.front) [] (place.whole ++ place.later)).filterMap
          (Segment.clip (size place.front) (size place.front + size item)) := Segment.clip_front before _
    _ = (Segment.ofTokens (size place.front) [] (tokensFrom g place.context item)).map Segment.span :=
        Segment.clip_cut_off place.cutOff (Nat.le_refl _) upTo place.later

theorem in_ident_iff (itemized : g.Itemized separators) (place : ItemPlace g separators ts item) :
    place.context.inIdent = true ↔ ∃ b ∈ place.front.getLast?, 128 ≤ b.toNat := by
  obtain ⟨before, around⟩ := place.context_eq
  have ident : ∀ b ∈ place.front.getLast?, isIdentChar b = decide (128 ≤ b.toNat) := by
    intro b last
    -- Before an item stands a blank or a separator. Of these only a blank beyond ASCII may look like a part of a name.
    have known : b ∈ place.lead ∨ b ∈ separators := by
      rcases around with ⟨-, -, front⟩ | ⟨c, separates, _, more, -, front⟩
      · rw [front] at last
        exact .inl (List.mem_of_getLast? last)
      · rw [front, List.getLast?_append, List.getLast?_concat] at last
        cases behind : place.lead.getLast? with
        | none =>
          rw [behind] at last
          exact .inr (Option.some.inj last ▸ separates)
        | some d =>
          rw [behind] at last
          exact .inl (Option.some.inj last ▸ List.mem_of_getLast? behind)
    rcases known with blank | separates
    · exact ident_of_blank (place.leading b blank)
    · have breaks := itemized.breaks b separates
      rw [breaks]
      rw [isIdentChar, Bool.or_eq_false_iff] at breaks
      exact breaks.2.symm
  rw [Context.inIdent, before]
  cases last : place.front.getLast? with
  | none => simp
  | some b => simp [ident b last]

theorem no_regex_iff (itemized : g.Itemized separators) (enabled : g.regexLiterals = true) (place : ItemPlace g separators ts item) :
    place.context.regexMayStart = false ↔ ∃ b ∈ nearestSign place.front.reverse, isBlank b = true := by
  obtain ⟨-, around⟩ := place.context_eq
  have blank : ∀ b, nearestSign place.lead.reverse = some b → isBlank b = true := fun b found =>
    place.leading b (List.mem_reverse.mp (List.mem_of_find?_eq_some found))
  -- A blank that is found decides against a regular expression.
  have refused : ∀ {code : List Char} {last : Option SegmentKind} {b : Char}, nearestSign code = some b →
      isBlank b = true → Literal.regexMayStart code last = false := fun found blank =>
    (may_start_of_sign found _ _).trans (never_starts_of_blank blank)
  unfold Context.regexMayStart
  rcases around with ⟨code, last, front⟩ | ⟨c, separates, _, more, code, front⟩
  · -- With nothing but blanks before the item.
    rw [code, last, front]
    cases found : nearestSign place.lead.reverse with
    | some b => simp [refused found (blank b found), blank b found]
    | none =>
      rw [nearestSign] at found
      simp [Literal.regexMayStart, found]
  · -- With a separator before those blanks, behind which a regular expression may begin.
    obtain ⟨ink, operator⟩ := itemized.slashes enabled c separates
    have before := nearest_sign_cons (ascii_ink ink)
    have sign : nearestSign place.context.code = (nearestSign place.lead.reverse).or (some c) := by
      rw [code, nearest_sign_append, before]
    rw [front, List.reverse_append, List.reverse_concat, nearest_sign_append, before]
    cases found : nearestSign place.lead.reverse with
    | some b =>
      rw [found] at sign
      simp [refused sign (blank b found), blank b found]
    | none =>
      rw [found] at sign
      simp [may_start_of_sign sign _ (some .quoted), operator, ink]

end ItemPlace

-- A literal begins an item that is read alone, but not behind this text: a quoted one whose delimiter begins
-- with a letter or sign, right behind a blank beyond ASCII; or a regular expression behind a blank that does
-- not count as one there.
def Estranged (g : Grammar) (front item : List Char) : Prop :=
  ∃ x ∈ (segments g item).head?,
    (x.kind = .quoted ∧ (∀ c ∈ item.head?, c ∉ quoteMarks) ∧ ∃ b ∈ front.getLast?, 128 ≤ b.toNat) ∨
      (x.kind = .regex ∧ ∃ b ∈ nearestSign front.reverse, isBlank b = true)

theorem estranged_iff (itemized : g.Itemized separators) {ts : List Token} {c : Char} {rest : List Char}
    (place : ItemPlace g separators ts (c :: rest)) :
    Estranged g place.front (c :: rest) ↔ ∃ l ∈ ({} : Context).literal? g (c :: rest), place.context.Misses c l := by
  -- The first segment of the item alone shows what begins it.
  have first := Segment.kind_of_head 0 (g := g) {} c rest
  rw [← tokens, ← segments_eq] at first
  have missed : ∀ l ∈ ({} : Context).literal? g (c :: rest), place.context.Misses c l ↔
      (l.kind = .quoted ∧ c ∉ quoteMarks ∧ ∃ b ∈ place.front.getLast?, 128 ≤ b.toNat) ∨
        (l.kind = .regex ∧ ∃ b ∈ nearestSign place.front.reverse, isBlank b = true) := by
    intro l found
    refine or_congr ?_ (and_congr_right fun kind => place.no_regex_iff itemized (regex_enabled found kind))
    rw [place.in_ident_iff itemized]
  constructor
  · rintro ⟨x, head, hidden⟩
    rw [Option.mem_def.mp head] at first
    cases found : ({} : Context).literal? g (c :: rest) with
    | none =>
      rw [found] at first
      have code : x.kind = .code := Option.some.inj first
      rw [code] at hidden
      rcases hidden with ⟨quoted, -⟩ | ⟨regex, -⟩ <;> contradiction
    | some l =>
      rw [found] at first
      have kind : x.kind = l.kind := Option.some.inj first
      rw [kind] at hidden
      exact ⟨l, rfl, (missed l found).mpr (hidden.imp_left (And.imp_right (And.imp_left fun unmarked => unmarked c rfl)))⟩
  · rintro ⟨l, found, misses⟩
    rw [Option.mem_def.mp found] at first
    obtain ⟨x, head, kind⟩ := Option.map_eq_some_iff.mp first
    refine ⟨x, head, ?_⟩
    rw [show x.kind = l.kind from kind]
    refine ((missed l found).mp misses).imp_left (And.imp_right (And.imp_left fun unmarked d same => ?_))
    obtain rfl := Option.some.inj same
    exact unmarked

end

theorem Host.grammar_itemized (host : Host) {separators : List Char}
    (known : separators = host.grammar.separators ∨ separators = [',']) : host.grammar.Itemized separators where
  toLegible := host.grammar_legible
  ink := by cases host <;> decide
  single := by
    rcases known with rfl | rfl
    · cases host <;> decide
    · decide
  parts := by
    have apart : ∀ c ∈ [',', ';', '\n'], ∀ marker ∈ host.grammar.delimiters, c ∉ marker := by cases host <;> decide
    have among : ∀ c ∈ separators, c ∈ [',', ';', '\n'] := by
      rcases known with rfl | rfl
      · cases host <;> decide
      · decide
    intro c member
    have plain : ∀ c ∈ [',', ';', '\n'], c.isAlpha = false ∧ c ≠ '/' := by decide
    exact ⟨apart c (among c member), (plain c (among c member)).1, (plain c (among c member)).2⟩
  breaks := by
    rcases known with rfl | rfl
    · cases host <;> decide
    · decide
  slashes := by
    rcases known with rfl | rfl
    · cases host <;> decide
    · exact fun _ => by decide

/-- An item, read alone, has the segments that the text has between its ends, unless what begins it is hidden there. -/
theorem segments_of_item (host : Host) {separators : List Char}
    (known : separators = host.grammar.separators ∨ separators = [',']) (text : List Char) {s : Slice}
    (member : s ∈ split host.grammar 0 text separators) :
    ∃ front later, text = front ++ s.text ++ later ∧ s.start = size front ∧
      ((segments host.grammar text).filterMap (Segment.clip s.start s.stop) =
          (segments host.grammar s.text).map (fun x => x.span.shift s.start) ↔
        ¬ Estranged host.grammar front s.text) := by
  have itemized := host.grammar_itemized known
  obtain ⟨place, inked, start⟩ := item_place itemized member
  rw [Nat.zero_add] at start
  have stop : s.stop = size place.front + size s.text := by
    have opens := (split_laid itemized.single host.grammar 0 text).opens s (List.mem_reverse.mpr member)
    rw [Slice.stop, opens.liesIn.size_eq, start]
  refine ⟨place.front, place.trail ++ flatten place.later, ?_, start, ?_⟩
  · exact (flatten_tokens_from host.grammar {} text).symm.trans place.flatten_eq
  · have shift := Segment.map_span_shift (size place.front) 0 [] (tokensFrom host.grammar {} s.text)
    rw [Nat.add_zero, ← tokens, ← segments_eq] at shift
    rw [stop, start, segments_eq, place.clip_eq, ← shift]
    obtain ⟨c, rest, shape⟩ := List.exists_cons_of_ne_nil inked.nonempty
    generalize s.text = item at *
    subst shape
    rw [estranged_iff itemized place]
    exact Segment.spans_behind itemized.toLegible (inked.first c rfl) _ _

-- A line separator before a raw string hides its delimiter, so that the string is cut at a comma inside.
theorem segments_of_item_hidden :
    let text := "\u2028r#\"a\",b,\"c\"#,\u2028r\"x\"".toList
    ∃ s ∈ split Host.rust.grammar 0 text [','], s.text = "r#\"a\"".toList ∧
      (segments Host.rust.grammar text).filterMap (Segment.clip s.start s.stop) =
        [⟨.code, 3, 5, 0, 0⟩, ⟨.quoted, 5, 8, 1, 1⟩] ∧
      (segments Host.rust.grammar s.text).map (fun x => x.span.shift s.start) = [⟨.quoted, 3, 8, 3, 0⟩] := by
  decide +kernel

theorem segments_of_item_rust :
    let text := "a, r#\"b\",c\"#".toList
    ∃ s ∈ split Host.rust.grammar 0 text [','], s.text = "r#\"b\",c\"#".toList ∧
      (segments Host.rust.grammar text).filterMap (Segment.clip s.start s.stop) =
        (segments Host.rust.grammar s.text).map (fun x => x.span.shift s.start) := by
  intro text
  have among : ∃ s ∈ split Host.rust.grammar 0 text [','], s.text = "r#\"b\",c\"#".toList ∧ s.start = 3 := by decide +kernel
  obtain ⟨s, member, item, start⟩ := among
  obtain ⟨front, later, parts, place, clipped⟩ := segments_of_item .rust (.inr rfl) text member
  refine ⟨s, member, item, clipped.mpr ?_⟩
  -- Before the item stands a space.
  have before : front = "a, ".toList := by
    rw [List.append_assoc] at parts
    have same : front ++ (s.text ++ later) = "a, ".toList ++ "r#\"b\",c\"#".toList := parts.symm
    exact (append_inj_of_size same (by rw [← place, start]; rfl)).1
  rw [before, item]
  rintro ⟨x, -, ⟨-, -, b, last, high⟩ | ⟨-, b, found, blank⟩⟩
  · obtain rfl := Option.some.inj last
    exact absurd high (by decide)
  · obtain rfl := Option.some.inj found
    exact absurd blank (by decide)

end SnippetReview
