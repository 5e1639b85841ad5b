import SnippetReview.Proofs.Snippet.Standing
import SnippetReview.Proofs.Text.Trimming
import SnippetReview.Snippet.Extraction

set_option autoImplicit false

namespace SnippetReview

open Text

namespace Text

theorem trim_start_split (s : List Char) : ∃ lead, (∀ b ∈ lead, isBlank b = true) ∧ s = lead ++ trimStart s :=
  ⟨s.takeWhile isBlank, List.all_eq_true.mp List.all_takeWhile, List.takeWhile_append_dropWhile.symm⟩

theorem trim_end_split (s : List Char) : ∃ trail, s = trimEnd s ++ trail := by
  refine ⟨(s.reverse.takeWhile isBlank).reverse, ?_⟩
  rw [trimEnd, dropEndWhile, ← List.reverse_append, List.takeWhile_append_dropWhile, List.reverse_reverse]

theorem blank_of_trim_nil {s : List Char} (none : trim s = []) : ∀ c ∈ s, isBlank c = true := by
  obtain ⟨lead, blank, split⟩ := trim_start_split s
  rw [trim, trimEnd, dropEndWhile, List.reverse_eq_nil_iff] at none
  have whole : (trimStart s).reverse.takeWhile isBlank = (trimStart s).reverse := by
    have parts := @List.takeWhile_append_dropWhile _ isBlank (trimStart s).reverse
    rwa [none, List.append_nil] at parts
  intro c member
  rw [split] at member
  rcases List.mem_append.mp member with inLead | later
  · exact blank c inLead
  · have all := @List.all_takeWhile _ isBlank (trimStart s).reverse
    rw [whole] at all
    exact List.all_eq_true.mp all c (List.mem_reverse.mpr later)

theorem inked_trim {s : List Char} (some : trim s ≠ []) : Inked (trim s) := by
  have ink : ∀ {s : List Char}, ∀ c ∈ (trimStart s).head?, isBlank c = false := by
    intro s c member
    have first := List.head?_dropWhile_not isBlank s
    rw [show s.dropWhile isBlank = trimStart s from rfl, Option.mem_def.mp member] at first
    simpa using first
  obtain ⟨trail, parts⟩ := trim_end_split (trimStart s)
  refine ⟨some, fun c member => ink (s := s) c ?_, fun c member => ?_⟩
  · obtain ⟨d, rest, same⟩ := List.exists_cons_of_ne_nil some
    rw [parts, show trimEnd (trimStart s) = trim s from rfl, same]
    rwa [same] at member
  · refine ink (s := (trimStart s).reverse) c ?_
    rwa [trim, trimEnd, dropEndWhile, List.getLast?_reverse] at member

namespace Slice

def LiesIn (base : Nat) (text : List Char) (s : Slice) : Prop :=
  ∃ front piece later after, text = front ++ piece ++ later ∧ s = place (base + Text.size front) piece after

-- A piece of a text that starts at `base`, with the rest of the text.
def OpensIn (base : Nat) (text : List Char) (s : Slice) : Prop :=
  ∃ front piece later, text = front ++ piece ++ later ∧ s = place (base + Text.size front) piece later

variable {base : Nat} {text : List Char} {s t : Slice}

theorem OpensIn.liesIn (opens : s.OpensIn base text) : s.LiesIn base text := by
  obtain ⟨front, piece, later, split, same⟩ := opens
  exact ⟨front, piece, later, later, split, same⟩

theorem LiesIn.bounds (lies : s.LiesIn base text) : base ≤ s.start ∧ s.start ≤ s.stop ∧ s.stop ≤ base + Text.size text := by
  obtain ⟨front, piece, later, after, rfl, rfl⟩ := lies
  rw [stop, start_place, size_place, size_append, size_append]
  omega

theorem LiesIn.size_eq (lies : s.LiesIn base text) : s.size = Text.size s.text := by
  obtain ⟨front, piece, later, after, _, rfl⟩ := lies
  rw [size_place, text_place]

theorem LiesIn.trans (inner : s.LiesIn t.start t.text) (outer : t.LiesIn base text) : s.LiesIn base text := by
  obtain ⟨front, piece, later, after, rfl, rfl⟩ := outer
  obtain ⟨front', piece', later', after', split, rfl⟩ := inner
  rw [text_place] at split
  refine ⟨front ++ front', piece', later' ++ later, after', by simp only [split, List.append_assoc], ?_⟩
  rw [start_place, size_append, Nat.add_assoc]

theorem trim_place_eq (start : Nat) (piece later : List Char) : ∃ lead trail,
    piece = lead ++ Text.trim piece ++ trail ∧
      (place start piece later).trim = place (start + Text.size lead) (Text.trim piece) (trail ++ later) := by
  obtain ⟨lead, _, leading⟩ := trim_start_split piece
  obtain ⟨trail, trailing⟩ := trim_end_split (trimStart piece)
  have whole : piece = lead ++ Text.trim piece ++ trail := by
    rw [List.append_assoc, Text.trim, ← trailing, ← leading]
  have count : piece.length - (trimStart piece).length = lead.length := by
    have sum := congrArg List.length leading
    rw [List.length_append] at sum
    omega
  have room : Text.size piece - Text.size (trimStart piece) = Text.size lead := by
    have sum := congrArg Text.size leading
    rw [size_append] at sum
    omega
  refine ⟨lead, trail, whole, ?_⟩
  unfold trim
  simp only [text_place, start_place, room, count]
  rw [show (place start piece later).tail = piece ++ later from rfl]
  unfold place
  congr 1
  rw [whole, List.append_assoc, List.append_assoc, List.drop_left, ← whole]

theorem OpensIn.trim (opens : s.OpensIn base text) : s.trim.OpensIn base text := by
  obtain ⟨front, piece, later, split, rfl⟩ := opens
  obtain ⟨lead, trail, whole, trimmed⟩ := trim_place_eq (base + Text.size front) piece later
  refine ⟨front ++ lead, Text.trim piece, trail ++ later, ?_, ?_⟩
  · rw [split]
    simp only [List.append_assoc]
    rw [← List.append_assoc _ trail, ← List.append_assoc lead, ← List.append_assoc lead, ← whole]
  · rw [trimmed, size_append, Nat.add_assoc]

structure TrimmedIn (base : Nat) (text : List Char) (s : Slice) : Prop where
  lies : s.LiesIn base text
  inked : s.text = [] ∨ Inked s.text

-- A piece that is read from a text: a part without the blanks at its ends, or a part that has none. The
-- former goes on to the end of the text or to a character that is no blank.
inductive ReadIn (base : Nat) (text : List Char) : Slice → Prop where
  | part {front piece later after : List Char} (parts : text = front ++ piece ++ later)
      (stops : ∀ c ∈ later.head?, isBlank c = false) : ReadIn base text (place (base + Text.size front) piece after).trim
  | whole {s : Slice} (lies : s.LiesIn base text) (inked : Inked s.text) : ReadIn base text s

theorem ReadIn.trimmed (reads : s.ReadIn base text) : s.TrimmedIn base text := by
  cases reads with
  | whole lies inked => exact ⟨lies, .inr inked⟩
  | @part front piece later after parts _ =>
    obtain ⟨lead, trail, whole, same⟩ := trim_place_eq (base + Text.size front) piece after
    refine ⟨⟨front ++ lead, Text.trim piece, trail ++ later, trail ++ after, ?_, ?_⟩, ?_⟩
    · rw [parts]
      simp only [List.append_assoc]
      rw [← List.append_assoc _ trail, ← List.append_assoc lead, ← List.append_assoc lead, ← whole]
    · rw [same, size_append, Nat.add_assoc]
    · rw [same, text_place]
      by_cases none : Text.trim piece = []
      · exact .inl none
      · exact .inr (inked_trim none)

theorem trim_place_empty {start : Nat} {piece later : List Char} (none : (place start piece later).trim.text = []) :
    (place start piece later).trim.start = start + Text.size piece := by
  obtain ⟨lead, trail, _, same⟩ := trim_place_eq start piece later
  rw [same, text_place] at none
  have blank := trim_start_blanks (blank_of_trim_nil none) []
  rw [List.append_nil, show trimStart [] = [] from rfl] at blank
  unfold trim
  simp only [text_place, start_place, blank, size_nil, Nat.sub_zero]

theorem ReadIn.empty_place (reads : s.ReadIn base text) (none : s.text = []) :
    ∃ front later, text = front ++ later ∧ s.start = base + Text.size front ∧ ∀ c ∈ later.head?, isBlank c = false := by
  cases reads with
  | whole _ inked => exact absurd none inked.nonempty
  | @part front piece later after parts stops =>
    refine ⟨front ++ piece, later, parts, ?_, stops⟩
    rw [trim_place_empty none, size_append, Nat.add_assoc]

end Slice

end Text

section

variable {g : Grammar} {base : Nat} {text : List Char}

-- Pieces of a text, the last one first, that end before an offset. They lie one behind the other, and none
-- begins or ends with a blank.
structure Laid (base : Nat) (text : List Char) (limit : Nat) (pieces : List Slice) : Prop where
  opens : ∀ s ∈ pieces, s.OpensIn base text
  inked : ∀ s ∈ pieces, Inked s.text
  before : ∀ s ∈ pieces, s.stop ≤ limit
  ordered : pieces.Pairwise fun later earlier => earlier.stop ≤ later.start

theorem Laid.nil (base limit : Nat) (text : List Char) : Laid base text limit [] := ⟨by simp, by simp, by simp, .nil⟩

theorem Laid.cons {limit limit' : Nat} {pieces : List Slice} {piece : Slice} (laid : Laid base text limit pieces)
    (opens : piece.OpensIn base text) (inked : Inked piece.text) (above : limit ≤ piece.start) (below : piece.stop ≤ limit') :
    Laid base text limit' (piece :: pieces) := by
  have bounds := opens.liesIn.bounds
  refine ⟨List.forall_mem_cons.mpr ⟨opens, laid.opens⟩, List.forall_mem_cons.mpr ⟨inked, laid.inked⟩, ?_, ?_⟩
  · refine List.forall_mem_cons.mpr ⟨below, fun s member => ?_⟩
    have earlier := laid.before s member
    omega
  · exact List.pairwise_cons.mpr ⟨fun s member => Nat.le_trans (laid.before s member) above, laid.ordered⟩

theorem Laid.keep {limit limit' : Nat} {pieces : List Slice} {piece : Slice} (laid : Laid base text limit pieces)
    (opens : piece.OpensIn base text) (above : limit ≤ piece.start) (below : piece.stop ≤ limit') :
    Laid base text limit' (keepTrimmed piece pieces) := by
  have bounds := opens.liesIn.bounds
  have trimmed : piece.start ≤ piece.trim.start ∧ piece.trim.stop ≤ piece.stop ∧ piece.trim.text = trim piece.text := by
    obtain ⟨front, body, later, split, rfl⟩ := opens
    obtain ⟨lead, trail, whole, same⟩ := Slice.trim_place_eq (base + size front) body later
    have sum := congrArg size whole
    rw [size_append, size_append] at sum
    rw [same, Slice.stop, Slice.stop, Slice.start_place, Slice.start_place, Slice.size_place, Slice.size_place,
      Slice.text_place, Slice.text_place]
    exact ⟨by omega, by omega, rfl⟩
  obtain ⟨from', upTo, inner⟩ := trimmed
  unfold keepTrimmed
  simp only
  split
  next =>
    refine ⟨laid.opens, laid.inked, fun s member => ?_, laid.ordered⟩
    have earlier := laid.before s member
    omega
  next some =>
    refine laid.cons opens.trim ?_ (by omega) (by omega)
    rw [inner]
    refine inked_trim fun none => some ?_
    rw [opens.trim.liesIn.size_eq, inner, none, size_nil]

theorem place_up_to {done piece tail : List Char} {v : Visit} (stands : tail = piece ++ v.char :: v.rest)
    (offset : v.offset = size (done ++ piece)) :
    (⟨base + size done, v.offset - size done, tail⟩ : Slice) = Slice.place (base + size done) piece (v.char :: v.rest) := by
  rw [Slice.place, ← stands, offset, size_append, Nat.add_sub_cancel_left]

theorem place_to_end {done tail : List Char} (split : text = done ++ tail) :
    (⟨base + size done, size text - size done, tail⟩ : Slice) = Slice.place (base + size done) tail [] := by
  rw [Slice.place, List.append_nil, split, size_append, Nat.add_sub_cancel_left]

theorem offset_behind {done : List Char} {v : Visit} (offset : v.offset = size done) (one : v.char.utf8Size = 1) :
    v.offset + 1 = size (done ++ [v.char]) := by
  rw [size_append, size_singleton, one, offset]

theorem pieces_from_laid {done tail : List Char} {vs : List Visit} {pieces : List Slice} (split : text = done ++ tail)
    (row : InRow done tail vs) (ascii : ∀ v ∈ vs, v.char.utf8Size = 1)
    (laid : Laid base text (base + size done) pieces) :
    Laid base text (base + size text) (piecesFrom base (size text) pieces (size done) tail vs).reverse := by
  induction vs generalizing done tail pieces with
  | nil =>
    have opens : (Slice.place (base + size done) tail []).OpensIn base text :=
      ⟨done, tail, [], by rw [split, List.append_nil], rfl⟩
    rw [piecesFrom, List.reverse_reverse, place_to_end split]
    refine laid.keep opens (Nat.le_refl _) (Nat.le_of_eq ?_)
    rw [Slice.stop, Slice.start_place, Slice.size_place, split, size_append, Nat.add_assoc]
  | cons v rest ih =>
    obtain ⟨piece, parts, offset, _, later⟩ := row
    have opens : (Slice.place (base + size done) piece (v.char :: v.rest)).OpensIn base text :=
      ⟨done, piece, v.char :: v.rest, by rw [split, parts, List.append_assoc], rfl⟩
    rw [piecesFrom, offset_behind offset (ascii v List.mem_cons_self), place_up_to parts offset]
    refine ih ?_ later (fun u member => ascii u (List.mem_cons_of_mem v member)) (laid.keep opens (Nat.le_refl _) ?_)
    · rw [split, parts]
      simp only [List.append_assoc, List.singleton_append]
    · rw [Slice.stop, Slice.start_place, Slice.size_place, size_append, size_append]
      omega

theorem split_laid {separators : List Char} (ascii : ∀ c ∈ separators, c.utf8Size = 1) (g : Grammar) (base : Nat)
    (text : List Char) : Laid base text (base + size text) (split g base text separators).reverse := by
  have row := (visits_in_row g text).filter fun v => v.depth == 0 && separators.contains v.char && !v.continues
  refine pieces_from_laid (List.nil_append text).symm row ?_ (.nil _ _ _)
  intro v member
  rw [cuts, List.mem_filter, Bool.and_eq_true, Bool.and_eq_true, List.contains_iff_mem] at member
  exact ascii v.char member.2.1.2

theorem Laid.filter {limit : Nat} {pieces : List Slice} (laid : Laid base text limit pieces) (p : Slice → Bool) :
    Laid base text limit (pieces.filter p) :=
  ⟨fun s member => laid.opens s (List.mem_filter.mp member).1, fun s member => laid.inked s (List.mem_filter.mp member).1,
    fun s member => laid.before s (List.mem_filter.mp member).1, laid.ordered.filter p⟩

theorem inked_of_ends {s first last : List Char} (begins : Inked first) (ends : Inked last) (front : first <+: s)
    (back : last <:+ s) : Inked s := by
  obtain ⟨more, rfl⟩ := front
  obtain ⟨c, rest, rfl⟩ := List.exists_cons_of_ne_nil begins.nonempty
  obtain ⟨before, same⟩ := back
  obtain ⟨inner, d, rfl⟩ := List.eq_nil_or_concat last |>.resolve_left ends.nonempty
  refine ⟨List.cons_ne_nil _ _, begins.first, ?_⟩
  rw [← same, List.concat_eq_append, ← List.append_assoc, List.getLast?_concat]
  have ink := ends.last
  rwa [List.concat_eq_append, List.getLast?_concat] at ink

theorem extend_opens {s t : Slice} (first : s.OpensIn base text) (second : t.OpensIn base text)
    (begins : Inked s.text) (ends : Inked t.text) (ordered : s.stop ≤ t.start) :
    (s.extendTo t.stop).OpensIn base text ∧ Inked (s.extendTo t.stop).text := by
  obtain ⟨front, piece, later, split, rfl⟩ := first
  obtain ⟨front', piece', later', split', rfl⟩ := second
  rw [Slice.stop, Slice.start_place, Slice.start_place, Slice.size_place, Nat.add_assoc, Nat.add_le_add_iff_left,
    ← size_append] at ordered
  rw [Slice.text_place] at begins ends
  -- The second piece starts behind the first one.
  obtain ⟨gap, parts, rest⟩ : ∃ gap, front' = front ++ piece ++ gap ∧ later = gap ++ (piece' ++ later') := by
    have same : front ++ piece ++ later = front' ++ (piece' ++ later') := by rw [← split, split', List.append_assoc]
    rcases List.append_eq_append_iff.mp same with ⟨gap, parts, rest⟩ | ⟨gap, parts, rest⟩
    · exact ⟨gap, parts, rest⟩
    · have sum := congrArg size parts
      rw [size_append front'] at sum
      have none : gap = [] := size_eq_zero_iff.mp (by omega)
      rw [none, List.append_nil] at parts
      rw [none, List.nil_append] at rest
      exact ⟨[], by rw [parts, List.append_nil], by rw [rest]; rfl⟩
  have place : (Slice.place (base + size front) piece later).extendTo (Slice.place (base + size front') piece' later').stop =
      Slice.place (base + size front) (piece ++ gap ++ piece') later' := by
    unfold Slice.extendTo Slice.place Slice.stop
    rw [rest, parts]
    congr 1
    · simp only [size_append]
      omega
    · simp only [List.append_assoc]
  rw [place, Slice.text_place]
  refine ⟨⟨front, piece ++ gap ++ piece', later', by rw [split', parts]; simp only [List.append_assoc], rfl⟩, ?_⟩
  exact inked_of_ends begins ends ⟨gap ++ piece', by rw [List.append_assoc]⟩ ⟨piece ++ gap, rfl⟩

theorem merge_into_laid {done : List Slice} {item : Slice} {limit : Nat} (laid : Laid base text limit done)
    (opens : item.OpensIn base text) (inked : Inked item.text) (above : limit ≤ item.start) :
    Laid base text item.stop (mergeInto g done item) := by
  cases done with
  | nil => exact laid.cons opens inked above (Nat.le_refl _)
  | cons last earlier =>
    rw [mergeInto]
    split
    next =>
      obtain ⟨below, others⟩ := List.pairwise_cons.mp laid.ordered
      have first := List.mem_cons_self (a := last) (l := earlier)
      have ordered : last.stop ≤ item.start := Nat.le_trans (laid.before last first) above
      have bounds := (laid.opens last first).liesIn.bounds
      have bounds' := opens.liesIn.bounds
      obtain ⟨opens', inked'⟩ := extend_opens (laid.opens last first) opens (laid.inked last first) inked ordered
      have rest : Laid base text last.start earlier :=
        ⟨fun s member => laid.opens s (List.mem_cons_of_mem last member),
          fun s member => laid.inked s (List.mem_cons_of_mem last member), below, others⟩
      refine rest.cons opens' inked' (Nat.le_refl _) (Nat.le_of_eq ?_)
      change last.start + (item.stop - last.start) = item.stop
      omega
    next => exact laid.cons opens inked above (Nat.le_refl _)

theorem merge_laid {items done : List Slice} {limit : Nat} (laid : Laid base text limit done)
    (opens : ∀ s ∈ items, s.OpensIn base text) (inked : ∀ s ∈ items, Inked s.text) (above : ∀ s ∈ items, limit ≤ s.start)
    (ordered : items.Pairwise fun earlier later => earlier.stop ≤ later.start) :
    ∃ limit, Laid base text limit (items.foldl (mergeInto g) done) := by
  induction items generalizing done limit with
  | nil => exact ⟨limit, laid⟩
  | cons item rest ih =>
    obtain ⟨first, others⟩ := List.pairwise_cons.mp ordered
    have step := merge_into_laid (g := g) laid (opens item List.mem_cons_self) (inked item List.mem_cons_self)
      (above item List.mem_cons_self)
    exact ih step (fun s member => opens s (List.mem_cons_of_mem item member))
      (fun s member => inked s (List.mem_cons_of_mem item member)) first others

end

def BindingStyle.isNarrow : BindingStyle → Bool
  | .token signs => !signs.isEmpty && signs.all fun c => c.utf8Size == 1
  | _ => true

-- The signs that a language cuts statements at and binds values with take a byte each.
structure Grammar.Narrow (g : Grammar) : Prop where
  separators : ∀ c ∈ g.separators, c.utf8Size = 1
  tokens : ∀ style ∈ g.bindings, style.isNarrow = true

theorem Host.grammar_narrow (host : Host) : host.grammar.Narrow := by
  cases host <;> exact ⟨by decide, by decide⟩

section

variable {g : Grammar}

theorem statements_laid (narrow : g.Narrow) (body : Slice) :
    ∃ limit, Laid body.start body.text limit (Extraction.statements g body).reverse := by
  have laid := (split_laid narrow.separators g body.start body.text).filter fun item => !isSpread g item.text
  rw [List.filter_reverse] at laid
  unfold Extraction.statements
  split
  · have ordered := laid.ordered
    rw [List.pairwise_reverse] at ordered
    rw [mergeContinuations, List.reverse_reverse]
    exact merge_laid (.nil body.start 0 body.text) (fun s member => laid.opens s (List.mem_reverse.mpr member))
      (fun s member => laid.inked s (List.mem_reverse.mpr member)) (fun s _ => Nat.zero_le s.start) ordered
  · exact ⟨_, laid⟩

theorem statements_stand (narrow : g.Narrow) (body : Slice) :
    (∀ item ∈ Extraction.statements g body, item.OpensIn body.start body.text) ∧
      (∀ item ∈ Extraction.statements g body, Inked item.text) ∧
        (Extraction.statements g body).Pairwise fun earlier later => earlier.stop ≤ later.start := by
  obtain ⟨limit, laid⟩ := statements_laid narrow body
  exact ⟨fun item member => laid.opens item (List.mem_reverse.mpr member),
    fun item member => laid.inked item (List.mem_reverse.mpr member), List.pairwise_reverse.mp laid.ordered⟩

namespace Binding

theorem size_of_ones {token : List Char} (ones : ∀ c ∈ token, c.utf8Size = 1) : size token = token.length := by
  induction token with
  | nil => rfl
  | cons c rest ih =>
    rw [size_cons, List.length_cons, ones c List.mem_cons_self, ih fun d member => ones d (List.mem_cons_of_mem c member)]
    exact Nat.add_comm _ _

variable {item : Slice} {b : Binding} {receiver : List Char}

theorem value_from_reads {front later : List Char} {offset : Nat} (sized : item.size = size item.text)
    (split : item.text = front ++ later) (place : offset = size front) :
    (valueFrom item offset later).ReadIn item.start item.text := by
  have room : item.size - offset = size later := by
    rw [sized, split, size_append, place]
    omega
  have whole : (⟨item.start + offset, size later, later⟩ : Slice) = Slice.place (item.start + size front) later [] := by
    rw [Slice.place, List.append_nil, place]
  unfold valueFrom
  rw [room, whole]
  exact @Slice.ReadIn.part _ _ front later [] [] (by rw [split, List.append_nil]) fun c member => nomatch member

theorem value_of_token {token : List Char} (narrow : (BindingStyle.token token).isNarrow = true)
    (found : ofToken? g item token = some b) :
    ∃ front later, item.text = front ++ later ∧ b.value = valueFrom item (size front) later := by
  simp only [BindingStyle.isNarrow, Bool.and_eq_true, Bool.not_eq_true', List.isEmpty_eq_false_iff, List.all_eq_true,
    beq_iff_eq] at narrow
  simp only [ofToken?, Option.bind_eq_bind, Option.bind_eq_some_iff, Option.some.injEq] at found
  obtain ⟨v, sought, key, _, rfl⟩ := found
  obtain ⟨done, stands⟩ := stands_of_outside sought
  have accepted := List.find?_some sought
  rw [Bool.and_eq_true, Bool.and_eq_true] at accepted
  obtain ⟨more, whole⟩ := List.isPrefixOf_iff_prefix.mp accepted.2.1
  obtain ⟨t, ts, rfl⟩ := List.exists_cons_of_ne_nil narrow.1
  rw [List.cons_append, List.cons.injEq] at whole
  have tail : v.rest.drop ((t :: ts).length - 1) = more := by
    rw [← whole.2, List.length_cons, Nat.add_sub_cancel, List.drop_left]
  refine ⟨done ++ t :: ts, more, ?_, ?_⟩
  · rw [stands.text, ← whole.1, ← whole.2, List.append_assoc, List.cons_append]
  · rw [tail, stands.offset, size_append, size_of_ones narrow.2]

theorem reads_of_token {token : List Char} (narrow : (BindingStyle.token token).isNarrow = true)
    (sized : item.size = size item.text) (found : ofToken? g item token = some b) :
    b.value.ReadIn item.start item.text := by
  obtain ⟨front, later, split, value⟩ := value_of_token narrow found
  rw [value]
  exact value_from_reads sized split rfl

theorem after_receiver_split {text rest : List Char} (found : afterReceiver? receiver text = some rest) :
    text = receiver ++ '.' :: rest := by
  unfold afterReceiver? at found
  split at found
  next stands =>
    obtain ⟨more, whole⟩ := List.isPrefixOf_iff_prefix.mp stands
    rw [← whole, List.drop_left] at found
    split at found
    · rw [← whole, Option.some.inj found]
    · contradiction
  next => contradiction

theorem reads_of_receiver (sized : item.size = size item.text) (found : ofReceiver? g receiver item = some b) :
    b.value.ReadIn item.start item.text := by
  simp only [ofReceiver?, Option.bind_eq_bind, Option.bind_eq_some_iff] at found
  obtain ⟨rest, after, v, sought, found⟩ := found
  split at found
  next =>
    rw [Option.some.injEq] at found
    subst found
    have parts := after_receiver_split after
    obtain ⟨done, stands⟩ := stands_of_outside sought
    have accepted := List.find?_some sought
    rw [Bool.and_eq_true, Bool.and_eq_true, List.isPrefixOf_cons_cons, Bool.and_eq_true, beq_iff_eq] at accepted
    have sign : v.char = '=' := (beq_iff_eq.mp accepted.2.1.1).symm
    refine @value_from_reads item (receiver ++ '.' :: (done ++ ['='])) _ _ sized ?_ ?_
    · rw [parts, stands.text, sign]
      simp only [List.append_assoc, List.cons_append, List.nil_append]
    · have dot : '.'.utf8Size = 1 := by decide
      have equals : '='.utf8Size = 1 := by decide
      rw [parts, stands.offset]
      simp only [size_append, size_cons, size_nil, dot, equals]
      omega
  next => contradiction

theorem reads_of_setter (found : ofSetter? g receiver item = some b) : b.value.ReadIn item.start item.text := by
  simp only [ofSetter?, Option.bind_eq_bind, Option.bind_eq_some_iff] at found
  obtain ⟨rest, after, property, _, found⟩ := found
  obtain ⟨lead, _, trimmed⟩ := trim_start_split (rest.dropWhile isIdentChar)
  have text : item.text = receiver ++ '.' :: (rest.takeWhile isIdentChar ++ lead) ++
      trimStart (rest.dropWhile isIdentChar) := by
    rw [after_receiver_split after, List.append_assoc, List.cons_append, List.append_assoc, ← trimmed,
      List.takeWhile_append_dropWhile]
  generalize trimStart (rest.dropWhile isIdentChar) = arguments at found text
  generalize receiver ++ '.' :: (rest.takeWhile isIdentChar ++ lead) = front at text
  have opened : size item.text - size arguments = size front := by
    rw [text, size_append]
    omega
  rw [opened] at found
  split at found
  next inner =>
    simp only [Option.bind_eq_some_iff] at found
    obtain ⟨v, close, found⟩ := found
    obtain ⟨closes, done, stands⟩ := stands_of_close close
    split at found
    next =>
      rw [Option.some.injEq] at found
      subst found
      have one : '('.utf8Size = 1 := by decide
      have place : (⟨item.start + size front + 1, v.offset, inner⟩ : Slice) =
          Slice.place (item.start + size (front ++ ['('])) done (v.char :: v.rest) := by
        rw [Slice.place, size_append, size_singleton, one, Nat.add_assoc, ← stands.offset, ← stands.text]
      dsimp only
      rw [place]
      refine @Slice.ReadIn.part _ _ (front ++ ['(']) done (v.char :: v.rest) _ (by rw [text, stands.text]; simp)
        fun c member => ?_
      rw [← Option.some.inj member, closes]
      decide
    next => contradiction
  next inner =>
    simp only [Option.bind_eq_some_iff] at found
    obtain ⟨v, close, found⟩ := found
    obtain ⟨closes, done, stands⟩ := stands_of_close close
    split at found
    next =>
      rw [Option.some.injEq] at found
      subst found
      have one : '\x7b'.utf8Size = 1 := by decide
      have one' : '\x7d'.utf8Size = 1 := by decide
      have whole : '\x7b' :: inner = '\x7b' :: done ++ ['\x7d'] ++ v.rest := by
        rw [stands.text, closes]
        simp
      have sized : v.offset + 2 = size ('\x7b' :: done ++ ['\x7d']) := by
        rw [size_append, size_cons, size_singleton, one, one', stands.offset]
        omega
      have place : (⟨item.start + size front, v.offset + 2, '\x7b' :: inner⟩ : Slice) =
          Slice.place (item.start + size front) ('\x7b' :: done ++ ['\x7d']) v.rest := by
        rw [Slice.place, ← whole, ← sized]
      refine .whole ⟨front, '\x7b' :: done ++ ['\x7d'], v.rest, v.rest, by rw [text, whole]; simp, place⟩ ?_
      dsimp only
      rw [place, Slice.text_place]
      exact ⟨List.cons_ne_nil _ _, fun c first => by rw [← Option.some.inj first]; decide, by
        rw [List.getLast?_concat]; decide⟩
    next => contradiction
  next => contradiction

theorem reads_of_style {style : BindingStyle} (narrow : style.isNarrow = true) (opens : ∃ base text, item.OpensIn base text)
    (inked : Inked item.text) (found : ofStyle? g receiver item style = some b) : b.value.ReadIn item.start item.text := by
  obtain ⟨base, text, front, piece, later, _, place⟩ := opens
  have sized : item.size = size item.text := by rw [place, Slice.size_place, Slice.text_place]
  cases style with
  | token signs => exact reads_of_token narrow sized found
  | receiver => exact reads_of_receiver sized found
  | setter => exact reads_of_setter found
  | method =>
    simp only [ofStyle?, ofMethod?, Option.bind_eq_bind, Option.bind_eq_some_iff] at found
    obtain ⟨match', _, name, _, found⟩ := found
    split at found
    next => contradiction
    next =>
      rw [Option.some.injEq] at found
      subst found
      refine .whole ⟨[], item.text, [], later, by simp, ?_⟩ inked
      rw [place, Slice.text_place]
      rfl

theorem reads_of_item (narrow : g.Narrow) (opens : ∃ base text, item.OpensIn base text) (inked : Inked item.text)
    (found : ofItem? g receiver item = some b) : b.value.ReadIn item.start item.text := by
  obtain ⟨style, member, read⟩ := List.exists_of_findSome?_eq_some found
  exact reads_of_style (narrow.tokens style member) opens inked read

end Binding

theorem item_of_bindings {receiver : List Char} {items : List Slice} {bound : Slice × Binding}
    (member : bound ∈ Extraction.bindings g receiver items) :
    bound.1 ∈ items ∧ (Binding.ofItem? g receiver bound.1 = some bound.2 ∨ bound.2.value = bound.1) := by
  cases items with
  | nil => contradiction
  | cons first rest =>
    rw [Extraction.bindings, List.mem_append, Option.mem_toList, Option.map_eq_some_iff,
      List.mem_filterMap] at member
    rcases member with ⟨b, found, rfl⟩ | ⟨item, inside, found⟩
    · refine ⟨List.mem_cons_self, ?_⟩
      rw [Extraction.firstBinding?, Option.or_eq_some_iff, Option.map_eq_some_iff] at found
      rcases found with read | ⟨_, key, _, rfl⟩
      · exact .inl read
      · exact .inr rfl
    · obtain ⟨b, read, rfl⟩ := Option.map_eq_some_iff.mp found
      exact ⟨List.mem_cons_of_mem first inside, .inl read⟩

theorem reads_of_bindings (narrow : g.Narrow) {receiver : List Char} {items : List Slice} {base : Nat} {text : List Char}
    (opens : ∀ item ∈ items, item.OpensIn base text) (inked : ∀ item ∈ items, Inked item.text) {bound : Slice × Binding}
    (member : bound ∈ Extraction.bindings g receiver items) :
    bound.1 ∈ items ∧ bound.2.value.ReadIn bound.1.start bound.1.text := by
  obtain ⟨among, read⟩ := item_of_bindings member
  refine ⟨among, ?_⟩
  rcases read with found | whole
  · exact Binding.reads_of_item narrow ⟨base, text, opens bound.1 among⟩ (inked bound.1 among) found
  · obtain ⟨front, piece, later, _, place⟩ := opens bound.1 among
    rw [whole]
    refine .whole ⟨[], bound.1.text, [], later, by simp, ?_⟩ (inked bound.1 among)
    rw [place, Slice.text_place]
    rfl

theorem trimmed_of_bindings (narrow : g.Narrow) {receiver : List Char} {items : List Slice} {base : Nat} {text : List Char}
    (opens : ∀ item ∈ items, item.OpensIn base text) (inked : ∀ item ∈ items, Inked item.text) {bound : Slice × Binding}
    (member : bound ∈ Extraction.bindings g receiver items) :
    bound.1 ∈ items ∧ bound.2.value.TrimmedIn bound.1.start bound.1.text := by
  obtain ⟨among, reads⟩ := reads_of_bindings narrow opens inked member
  exact ⟨among, reads.trimmed⟩

end

theorem Block.of_literal_some {g : Grammar} {text : List Char} {opening closing : Char} {block : Block}
    (found : ofLiteral? g text opening closing = some block) :
    ∃ lead inner v done, (∀ b ∈ lead, isBlank b = true) ∧ text = lead ++ opening :: inner ∧
      matchingClose g inner closing = some v ∧ v.Stands inner done ∧
      block = ⟨⟨Text.size lead + opening.utf8Size, v.offset, inner⟩, g.defaultReceiver⟩ := by
  obtain ⟨lead, blank, split⟩ := trim_start_split text
  unfold ofLiteral? at found
  split at found
  next c inner shape =>
    split at found
    next same =>
      rw [shape, beq_iff_eq.mp same] at split
      have start : Text.size text - Text.size inner = Text.size lead + opening.utf8Size := by
        rw [split, size_append, size_cons]
        omega
      split at found
      next v closes =>
        split at found
        · obtain ⟨_, done, stands⟩ := stands_of_close closes
          rw [start] at found
          exact ⟨lead, inner, v, done, blank, split, closes, stands, (Option.some.inj found).symm⟩
        · contradiction
      next => contradiction
    next => contradiction
  next => contradiction

end SnippetReview
