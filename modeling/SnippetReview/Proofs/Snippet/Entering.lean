import SnippetReview.Proofs.Lexing.Restripping
import SnippetReview.Proofs.Lexing.Sealing
import SnippetReview.Proofs.Pattern.Matching
import SnippetReview.Proofs.Snippet.Locating
import SnippetReview.Proofs.Text.Positions
import SnippetReview.Snippet.Extraction

/- Where a configuration begins. An anchor starts in the code. It ends there as well, unless its pattern takes
   in a quotation mark, which the earlier arguments of a call may hold in Java and Kotlin. -/

set_option autoImplicit false

namespace SnippetReview

open Text

-- What the anchors of a language keep to: each delimiter that opens a literal has a sign, and no anchor ends
-- with a character of a delimiter; blanks and brackets, which may follow in a list, are none.
structure Grammar.Guarded (g : Grammar) : Prop where
  marked : ∀ marker ∈ g.markers, marker.any g.signs.contains = true
  slash : g.regexLiterals = true → '/' ∈ g.signs
  ends : ∀ anchor ∈ g.anchors, anchor.pattern.endsOff g.delimiters.flatten false = true
  list : '[' ∉ g.delimiters.flatten ∧ '[' ∉ g.signs ∧ ∀ c ∈ g.signs, isBlank c = false

theorem Host.grammar_guarded (host : Host) : host.grammar.Guarded where
  marked := by cases host <;> decide
  slash := by cases host <;> decide
  ends := by cases host <;> decide
  list := by cases host <;> decide

-- Languages whose anchors leave out the arguments before the configuration.
def Host.skipsArguments (host : Host) : Bool := host = .java || host = .kotlin

theorem Host.anchors_avoid_signs {host : Host} (plain : host.skipsArguments = false) :
    ∀ anchor ∈ host.grammar.anchors, anchor.pattern.avoids host.grammar.signs = true := by
  cases host <;> first | contradiction | decide

theorem Host.skipping_spec {host : Host} (skips : host.skipsArguments = true) :
    (∀ anchor ∈ host.grammar.anchors, anchor.bodyEnd ≠ .statement) ∧ host.grammar.regexLiterals = false ∧
      ∀ style ∈ host.grammar.quotes, Literal.QuoteStyle.plain style = true := by
  cases host <;> first | contradiction | decide

-- What may stand between an anchor and the body that it opens: nothing, or, where a statement is opened,
-- blanks and a bracket.
def Anchor.Passes (anchor : Anchor) (more : List Char) : Prop :=
  more = [] ∨ (anchor.bodyEnd = .statement ∧ ∃ lead, (∀ b ∈ lead, isBlank b = true) ∧ more = lead ++ ['['])

section

variable {g : Grammar} {stripped front mid later : List Char} {anchor : Anchor}

theorem Block.start_of_anchor {found : Pattern.Match} {p : Pattern} (spans : found.Spans p stripped front mid later)
    {block : Block} (opens : ofAnchor g stripped anchor found = .ok block) :
    ∃ more rest, later = more ++ rest ∧ block.body.start = size front + size (mid ++ more) ∧ anchor.Passes more := by
  unfold ofAnchor at opens
  dsimp only at opens
  split at opens
  · contradiction
  · rename_i n found'
    obtain rfl := Except.ok.inj opens
    have stop := spans.stop_eq
    dsimp only
    by_cases statement : anchor.bodyEnd = .statement
    · rw [if_pos statement]
      rcases unwrap_cases g ⟨found.stop.offset, n, found.stop.rest⟩ with same | ⟨lead, inside, after, blank, parts, same⟩
      · exact ⟨[], later, rfl, by rw [same, List.append_nil]; exact stop, .inl rfl⟩
      · have behind : found.stop.rest = later := by
          rw [spans.stop]
          rfl
        refine ⟨lead ++ ['['], inside ++ after ++ dropBytes n later, ?_, ?_, .inr ⟨statement, lead, blank, rfl⟩⟩
        · rw [Slice.text, behind] at parts
          have whole := split_at_bytes n later
          rw [show takeBytes n later = _ from parts] at whole
          simpa using whole
        · rw [same, Slice.start_place, stop, size_append mid, Nat.add_assoc]
    · rw [if_neg statement]
      exact ⟨[], later, rfl, by rw [List.append_nil]; exact stop, .inl rfl⟩

variable {more : List Char} (guarded : g.Guarded) (passes : anchor.Passes more)

include guarded passes

theorem Anchor.Passes.sealed {last : Char} (ends : mid.getLast? = some last) (unmarked : last ∉ g.delimiters.flatten) :
    g.Sealed (mid ++ more) := by
  intro e member marker inside held
  have marked : e ∈ g.delimiters.flatten := List.mem_flatten.mpr ⟨marker, inside, held⟩
  rcases passes with rfl | ⟨_, lead, _, rfl⟩
  · rw [List.append_nil, ends] at member
    exact unmarked (Option.some.inj member ▸ marked)
  · rw [← List.append_assoc, List.getLast?_concat] at member
    exact guarded.list.1 (Option.some.inj member ▸ marked)

theorem Anchor.Passes.signless (plain : ∀ c ∈ mid, c ∉ g.signs) : ∀ c ∈ mid ++ more, c ∉ g.signs := by
  refine List.forall_mem_append.mpr ⟨plain, ?_⟩
  rcases passes with rfl | ⟨_, lead, blank, rfl⟩
  · exact List.forall_mem_nil _
  · refine List.forall_mem_append.mpr ⟨fun c member sign => ?_, List.forall_mem_singleton.mpr guarded.list.2.1⟩
    have ink := guarded.list.2.2 c sign
    rw [blank c member] at ink
    contradiction

omit passes

theorem Grammar.Guarded.slashless {s : List Char} (plain : ∀ c ∈ s, c ∉ g.signs) : g.Slashless s :=
  fun enabled member => plain '/' member (guarded.slash enabled)

theorem Grammar.Guarded.code_of_signless {s : List Char} (plain : ∀ c ∈ s, c ∉ g.signs) (x : Context) {offset : Nat}
    (inside : offset < size s) : codeAt (tokensFrom g x s) offset = true := by
  rw [tokens_of_signless guarded.marked plain (guarded.slashless plain)]
  exact code_at_all inside

end

theorem tokens_at_code {g : Grammar} {front back : List Char} (code : InCode g (front ++ back) (size front)) :
    ∃ done x, tokens g (front ++ back) = done ++ tokensFrom g x back ∧ flatten done = front := by
  obtain ⟨done, c, rest, split, low, high⟩ := code_token_at ((in_code_iff g _ _).mp code)
  have whole : front ++ back = flatten done ++ c :: flatten rest := by
    have all := flatten_tokens_from g {} (front ++ back)
    rw [show tokensFrom g {} (front ++ back) = _ from split, flatten_append] at all
    exact all.symm
  -- The character at the place is the first one behind these tokens.
  obtain ⟨gap, reaches, behind⟩ := ordered_places whole rfl low
  have none : gap = [] := by
    cases gap with
    | nil => rfl
    | cons d gap =>
      rw [List.cons_append, List.cons.injEq] at behind
      rw [reaches, size_append, size_cons, ← behind.1] at high
      omega
  rw [none, List.append_nil] at reaches
  have later := tokens_from_split (show tokensFrom g {} (front ++ back) = done ++ .code c :: rest from split)
  have same : flatten (.code c :: rest) = back := by
    rw [reaches] at whole
    exact (List.append_cancel_left whole).symm
  rw [same] at later
  exact ⟨done, _, by rw [split, ← later], reaches.symm⟩

theorem in_code_last_iff {g : Grammar} (legible : g.Legible) {front piece rest : List Char} (nonempty : piece ≠ [])
    (sealed : g.Sealed piece) (slashless : g.Slashless piece)
    (begins : InCode g (front ++ (piece ++ rest)) (size front)) :
    ∃ x, InCode g (front ++ (piece ++ rest)) (size front + size piece - 1) ↔
      codeAt (tokensFrom g x piece) (size piece - 1) = true := by
  have some : 0 < size piece := Nat.pos_of_ne_zero fun zero => nonempty (size_eq_zero_iff.mp zero)
  obtain ⟨done, x, read, front'⟩ := tokens_at_code begins
  refine ⟨x, ?_⟩
  rw [in_code_iff, read, ← front', Nat.add_sub_assoc some, code_at_behind, code_at_sealed legible sealed slashless nonempty]

/-- The body that an anchor opens begins in the code just where the text of the anchor, read alone, ends in the
code. It does so wherever the anchors do not leave out arguments, or where their text has no sign. -/
theorem located_in_code {host : Host} {stripped : List Char} {anchor : Anchor} {found : Pattern.Match} {block : Block}
    (first : Block.firstAnchor? host.grammar (CodeMap.ofText host.grammar stripped) stripped = some (anchor, found))
    (located : Block.locate host stripped = .ok block) :
    (InCode host.grammar stripped (block.body.start - 1) ↔ InCode host.grammar found.text (size found.text - 1)) ∧
      ((host.skipsArguments = true → ∀ c ∈ found.text, c ∉ host.grammar.signs) →
        InCode host.grammar stripped (block.body.start - 1)) := by
  have guarded := host.grammar_guarded
  obtain ⟨known, member, code⟩ := Block.first_anchor_mem first
  obtain ⟨front, mid, later, spans⟩ := Pattern.all_spans member
  have opens : Block.ofAnchor host.grammar stripped anchor found = .ok block := by
    unfold Block.locate at located
    dsimp only at located
    rwa [first] at located
  obtain ⟨more, rest, split, start, passes⟩ := Block.start_of_anchor spans opens
  have parts : stripped = front ++ (mid ++ more ++ rest) := by
    rw [spans.parts, split]
    simp only [List.append_assoc]
  obtain ⟨last, ends, unmarked⟩ := spans.ends_off (guarded.ends anchor known)
  have some : mid ≠ [] := fun none => by simp [none] at ends
  have some' : 0 < size mid := Nat.pos_of_ne_zero fun zero => some (size_eq_zero_iff.mp zero)
  have begins : InCode host.grammar (front ++ (mid ++ more ++ rest)) (size front) := by
    rw [← parts, ← spans.start_eq]
    exact CodeMap.in_code_of_is_code code
  have whole := fun slashless =>
    in_code_last_iff host.grammar_legible (by simp [some]) (passes.sealed guarded ends unmarked) slashless begins
  rw [← parts, ← start] at whole
  rw [spans.text_eq, in_code_iff host.grammar mid]
  have signless : (∀ c ∈ mid, c ∉ host.grammar.signs) → InCode host.grammar stripped (block.body.start - 1) ∧
      codeAt (tokens host.grammar mid) (size mid - 1) = true := by
    intro plain
    have plain' := passes.signless guarded plain
    obtain ⟨x, iff⟩ := whole (guarded.slashless plain')
    refine ⟨iff.mpr (guarded.code_of_signless plain' x ?_), guarded.code_of_signless plain _ (by omega)⟩
    rw [size_append]
    omega
  cases skips : host.skipsArguments with
  | false =>
    have plain := spans.avoids (Host.anchors_avoid_signs skips anchor known)
    obtain ⟨holds, alone⟩ := signless plain
    exact ⟨iff_of_true holds alone, fun _ => holds⟩
  | true =>
    obtain ⟨unlisted, regexless, plainQuotes⟩ := Host.skipping_spec skips
    obtain rfl : more = [] := passes.resolve_right fun listed => unlisted anchor known listed.1
    rw [List.append_nil] at whole
    refine ⟨?_, fun plain => (signless (plain rfl)).1⟩
    obtain ⟨x, iff⟩ := whole fun enabled => by rw [regexless] at enabled; contradiction
    -- Quotes open a literal wherever they stand, so that the context does not matter.
    have openings : SameOpenings host.grammar x {} mid := by
      intro style member _
      rw [Literal.QuoteStyle.opens_after_plain (plainQuotes style member),
        Literal.QuoteStyle.opens_after_plain (plainQuotes style member)]
    have slashes : SameSlashes host.grammar x {} := fun enabled => by rw [regexless] at enabled; contradiction
    rw [iff, tokens_from_of_same openings slashes, tokens]

theorem located_in_code_java :
    let text := "Sentry.init(\"a\", o -> { o.setDsn(key); });".toList
    let g := Host.java.grammar
    ∃ anchor found block, Block.firstAnchor? g (CodeMap.ofText g text) text = some (anchor, found) ∧
      Block.locate .java text = .ok block ∧ InCode g text (block.body.start - 1) := by
  intro text g
  have matched : ((Block.firstAnchor? g (CodeMap.ofText g text) text).map fun first =>
      decide (InCode g first.2.text (size first.2.text - 1))) = some true := by
    decide +kernel
  have opened : (Block.locate .java text).toOption.isSome = true := by decide +kernel
  obtain ⟨⟨anchor, found⟩, first, alone⟩ := Option.map_eq_some_iff.mp matched
  cases located : Block.locate .java text with
  | error notice =>
    rw [located] at opened
    contradiction
  | ok block => exact ⟨anchor, found, block, first, rfl, (located_in_code first located).1.mpr (of_decide_eq_true alone)⟩

-- A string that names a function. The anchor begins the string with the arguments and ends inside it.
theorem located_in_code_quoted :
    let text := "Sentry.init(\"see a, o -> { o.setDsn(key); }\");".toList
    let g := Host.java.grammar
    (Block.firstAnchor? g (CodeMap.ofText g text) text).isSome = true ∧
      ((Block.locate .java text).toOption.map fun block =>
        (decide (InCode g text (block.body.start - 1)),
          (Extraction.bindings g block.receiver (Extraction.statements g block.body)).map fun bound => bound.2.key)) =
        some (false, ["dsn"]) ∧
      stripComments g text = text ∧ (extract .full {} .java text).valid = true := by
  decide +kernel

end SnippetReview
