import Mathlib
import SnippetReview.Proofs.Lexing.BlankedBytes
import SnippetReview.Proofs.Lexing.Restripping
import SnippetReview.Proofs.Pattern.Opening
import SnippetReview.Proofs.Snippet.Enclosing
import SnippetReview.Proofs.Snippet.Literals
import SnippetReview.Proofs.Snippet.Locating

set_option autoImplicit false

namespace SnippetReview

open Text

structure Initialization where
  before : List Char
  after : List Char

namespace Initialization

def around (i : Initialization) (source : List Char) : List Char := i.before ++ (source ++ i.after)

end Initialization

-- The initialization of a language that configures with one literal and has no block words.
def Host.initialization? : Host → Option Initialization
  | .javascript => some ⟨"Sentry.init(".toList, ")".toList⟩
  | .python => some ⟨"sentry_sdk.init".toList, []⟩
  | .php => some ⟨"\\Sentry\\init(".toList, ")".toList⟩
  | .go => some ⟨"sentry.Init(sentry.ClientOptions".toList, ")".toList⟩
  | .rust => some ⟨"ClientOptions ".toList, []⟩
  | _ => none

-- Whether an anchor opens the configuration of a source.
def Host.hasAnchor (host : Host) (source : List Char) : Bool :=
  let stripped := stripComments host.grammar source
  (Block.firstAnchor? host.grammar (CodeMap.ofText host.grammar stripped) stripped).isSome

-- The first anchor of a grammar takes in an initialization and the bracket that opens the bare literal.
structure Initialization.Opens (g : Grammar) (i : Initialization) (opening closing : Char) : Prop where
  anchor : ∃ p others, g.anchors = ⟨p ++ .gap ++ .exactly [opening], .delimiter closing⟩ :: others ∧
    ∃ head blanks, i.before = head ++ blanks ∧ (∀ b ∈ blanks, isBlank b = true) ∧ ∀ rest : List Char,
      p.ends ⟨Cursor.start (head ++ rest), none⟩ = [⟨⟨size head, head.getLast?, rest⟩, none⟩]
  bare : g.bareForm = some (.delimited opening closing)
  ink : isBlank opening = false
  -- The initialization is code, and a literal is read behind it as at the start of a source.
  silent : i.before ≠ [] ∧ g.silent i.before = true
  quotes : ∀ style ∈ g.quotes, Literal.QuoteStyle.opensAfter style i.before.getLast? = true
  slashes : g.regexLiterals = true → Literal.regexMayStart i.before.reverse none = true
  quiet : g.Quiet i.after
  shortsighted : i.after = [] ∨ g.Shortsighted
  line : (∀ c ∈ i.before, c ≠ '\n') ∧ ∀ c ∈ i.after, c ≠ '\n'

theorem Host.initialization_opens {host : Host} {i : Initialization} (known : host.initialization? = some i) :
    ∃ opening closing, i.Opens host.grammar opening closing := by
  have quiet : ∀ {g : Grammar} {tail : List Char}, (∀ marker ∈ g.lineComments, ∀ c ∈ marker, c ∉ tail) →
      (∀ markers ∈ g.blockComments, (∀ c ∈ markers.1, c ∉ tail) ∧ ∀ c ∈ markers.2, c ∉ tail) →
      (∀ style ∈ g.quotes, (∀ c ∈ style.opening, c ∉ tail) ∧ ∀ c ∈ style.closing, c ∉ tail) →
      (∀ c ∈ tail, c ≠ '\n' ∧ c ≠ '/' ∧ c.isAlpha = false) → g.Quiet tail :=
    fun line block quote plain => ⟨line, block, quote, plain⟩
  cases host with
  | javascript =>
    cases known
    exact ⟨_, _, ⟨_, _, rfl, _, [], (List.append_nil _).symm, by simp, fun rest => by cbv⟩, rfl, by decide,
      by decide, by decide, by decide, quiet (by decide) (by decide) (by decide) (by decide), .inr ⟨rfl, rfl⟩, by decide⟩
  | python =>
    cases known
    exact ⟨_, _, ⟨_, _, rfl, _, [], (List.append_nil _).symm, by simp, fun rest => by cbv⟩, rfl, by decide,
      by decide, by decide, by decide, quiet (by decide) (by decide) (by decide) (by decide), .inl rfl, by decide⟩
  | php =>
    cases known
    exact ⟨_, _, ⟨_, _, rfl, _, [], (List.append_nil _).symm, by simp, fun rest => by cbv⟩, rfl, by decide,
      by decide, by decide, by decide, quiet (by decide) (by decide) (by decide) (by decide), .inr ⟨rfl, rfl⟩, by decide⟩
  | go =>
    cases known
    exact ⟨_, _, ⟨_, _, rfl, _, [], (List.append_nil _).symm, by simp, fun rest => by cbv⟩, rfl, by decide,
      by decide, by decide, by decide, quiet (by decide) (by decide) (by decide) (by decide), .inr ⟨rfl, rfl⟩, by decide⟩
  | rust =>
    cases known
    exact ⟨_, _, ⟨_, _, rfl, "ClientOptions".toList, [' '], rfl, by decide, fun rest => by cbv⟩, rfl, by decide,
      by decide, by decide, by decide, quiet (by decide) (by decide) (by decide) (by decide), .inl rfl, by decide⟩
  | _ => contradiction

theorem is_code_start {g : Grammar} {c : Char} {rest : List Char} (code : Context.literal? g {} (c :: rest) = none) :
    (CodeMap.ofText g (c :: rest)).isCode 0 = true := by
  obtain ⟨first, more, read, kind, nonempty⟩ := Segment.of_tokens_code 0 c [] (tokensFrom g (Context.afterCode {} c) rest)
  have whole : segments g (c :: rest) = first :: more := by
    rw [segments_eq, tokens, tokens_from_code code]
    exact read
  have contiguous := contiguous_segments g (c :: rest)
  rw [whole] at contiguous
  have sized : 0 < size first.text := Nat.pos_of_ne_zero fun zero => nonempty (size_eq_zero_iff.mp zero)
  have stop : first.stop = size first.text := by
    rw [Segment.stop, contiguous.1, Nat.zero_add]
  let spans : List (Nat × Nat) := (more.filter fun s => s.kind = .code).map fun s => (s.start, s.stop)
  have parts : (CodeMap.ofText g (c :: rest)).code.toList = [(0, first.stop)] ++ spans := by
    unfold CodeMap.ofText
    rw [whole, List.filter_cons_of_pos (by simpa using kind), List.map_cons, contiguous.1]
    rfl
  have boundary : Search.boundary (fun span : Nat × Nat => decide (span.1 ≤ 0)) (CodeMap.ofText g (c :: rest)).code = 1 := by
    refine Search.boundary_append parts (by simp) fun span member => ?_
    obtain ⟨s, among, rfl⟩ := List.mem_map.mp member
    have behind := start_of_contiguous contiguous.2 (List.mem_filter.mp among).1
    exact decide_eq_false (by simp only; omega)
  have first? : (CodeMap.ofText g (c :: rest)).code[0]? = some (0, first.stop) := by
    rw [← Array.getElem?_toList, parts]
    rfl
  unfold CodeMap.isCode
  rw [boundary]
  simp only [first?, Option.map_some, Option.getD_some]
  exact decide_eq_true (stop ▸ sized)

namespace Initialization.Opens

variable {g : Grammar} {i : Initialization} {opening closing : Char}

theorem strip_around (opens : i.Opens g opening closing) (legible : g.Legible) (source : List Char) :
    ∃ tail, g.Quiet tail ∧ (tail = [] ∨ g.Shortsighted) ∧
      stripComments g (i.around source) = i.before ++ (stripComments g source ++ tail) := by
  let x : Context := (i.before.map Token.code).foldl Token.after {}
  have code : tokensFrom g {} (i.before ++ (source ++ i.after)) =
      i.before.map .code ++ tokensFrom g x (source ++ i.after) := by
    refine tokens_from_code_all (fun c rest done split y => ?_) {}
    have clear := silent_suffix (split ▸ opens.silent.2 : g.silent (done ++ c :: rest) = true)
    rw [Grammar.silent, Bool.and_eq_true] at clear
    exact literal_of_clear_at clear.1 _ y
  have same : tokensFrom g x (source ++ i.after) = tokensFrom g {} (source ++ i.after) := by
    refine tokens_from_of_same (fun style member _ => ?_) fun enabled => ?_
    · have before : x.before = i.before.getLast? := by
        rw [show x = _ from fold_after_code i.before {}]
        exact Option.or_none
      rw [before, opens.quotes style member, Literal.QuoteStyle.opensAfter]
      exact (Bool.or_true _).symm
    · rw [show x = _ from fold_after_code i.before {}, Context.regexMayStart, List.append_nil]
      exact opens.slashes enabled
  obtain ⟨tail, quiet, none, visible⟩ := visible_append_quiet legible opens.quiet {} source
  refine ⟨tail, quiet, opens.shortsighted.imp_left none, ?_⟩
  rw [strip_comments_eq, strip_comments_eq, around, tokens, code, same, visibleText, List.flatMap_append, ← visibleText,
    ← visibleText, visible_map_code, visible, tokens]

theorem first_anchor (opens : i.Opens g opening closing) {lead later : List Char}
    (blank : ∀ b ∈ lead, isBlank b = true) :
    ∃ anchor found, anchor.bodyEnd = .delimiter closing ∧ found.group = none ∧
      found.stop = ⟨size (i.before ++ lead) + opening.utf8Size, some opening, later⟩ ∧
      Block.firstAnchor? g (CodeMap.ofText g (i.before ++ (lead ++ opening :: later)))
        (i.before ++ (lead ++ opening :: later)) = some (anchor, found) := by
  obtain ⟨p, others, anchors, head, blanks, before, gap, reached⟩ := opens.anchor
  have text : i.before ++ (lead ++ opening :: later) = head ++ ((blanks ++ lead) ++ opening :: later) := by
    rw [before]
    simp only [List.append_assoc]
  have ends := Pattern.ends_gap_sign (reached ((blanks ++ lead) ++ opening :: later))
    (fun b member => (List.mem_append.mp member).elim (gap b) (blank b)) opens.ink
  rw [← text] at ends
  have sized : size head + size (blanks ++ lead) = size (i.before ++ lead) := by
    rw [before, List.append_assoc, size_append head]
  have matched : (p ++ Pattern.gap ++ Pattern.exactly [opening]).matchAt
      (Cursor.start (i.before ++ (lead ++ opening :: later))) =
        some ⟨Cursor.start (i.before ++ (lead ++ opening :: later)),
          ⟨size (i.before ++ lead) + opening.utf8Size, some opening, later⟩, none⟩ := by
    rw [Pattern.matchAt, ends, sized]
    rfl
  obtain ⟨more, all⟩ := Pattern.all_of_start matched
  have code : (CodeMap.ofText g (i.before ++ (lead ++ opening :: later))).isCode 0 = true := by
    obtain ⟨c, rest, shape⟩ := List.exists_cons_of_ne_nil opens.silent.1
    have clear := opens.silent.2
    rw [shape, Grammar.silent, Bool.and_eq_true] at clear
    rw [shape]
    exact is_code_start (literal_of_clear_at clear.1 _ {})
  refine ⟨⟨p ++ .gap ++ .exactly [opening], .delimiter closing⟩, ⟨Cursor.start (i.before ++ (lead ++ opening :: later)), _, none⟩,
    rfl, rfl, rfl, ?_⟩
  rw [Block.firstAnchor?, anchors, List.findSome?_cons, all, List.find?_cons_of_pos (by exact code)]
  rfl

theorem locate_around {host : Host} (opens : i.Opens host.grammar opening closing) {source : List Char} {block : Block}
    (bare : Block.ofLiteral? host.grammar (stripComments host.grammar source) opening closing = some block) :
    block.body.LiesIn 0 (stripComments host.grammar source) ∧ host.hasAnchor (i.around source) = true ∧
      ∃ block', Block.locate host (stripComments host.grammar (i.around source)) = .ok block' ∧
        block'.receiver = block.receiver ∧ block'.body.start = block.body.start + size i.before ∧
        block'.body.text = block.body.text := by
  have legible := host.grammar_legible
  obtain ⟨tail, quiet, shortsighted, stripped⟩ := opens.strip_around legible source
  unfold Host.hasAnchor
  simp only [stripped]
  have lies := Block.lies_of_literal bare
  generalize stripComments host.grammar source = text at bare lies
  obtain ⟨lead, inner, v, done, blank, split, close, stands, rfl⟩ := Block.of_literal_some bare
  have whole : i.before ++ (text ++ tail) = i.before ++ (lead ++ opening :: (inner ++ tail)) := by
    rw [split, List.append_assoc, List.cons_append]
  obtain ⟨anchor, found, ending, group, stop, first⟩ := @first_anchor _ _ _ _ opens lead (inner ++ tail) blank
  -- Nothing is left behind the literal, or the walk up to its bracket looks at none of it.
  have close' : matchingClose host.grammar (inner ++ tail) closing = some (v.extend tail) := by
    rcases shortsighted with none | blind
    · rw [none, List.append_nil, close, Visit.extend, List.append_nil]
    · exact matching_close_append_quiet tail legible blind quiet close
  have inside : v.offset ≤ size inner := by
    have sum := stands.size_eq
    omega
  refine ⟨lies, ?_, ⟨⟨size (i.before ++ lead) + opening.utf8Size, v.offset, inner ++ tail⟩, host.grammar.defaultReceiver⟩,
    ?_, rfl, ?_, ?_⟩
  · rw [whole, first]
    rfl
  · rw [whole, Block.locate]
    simp only [first]
    rw [Block.ofAnchor]
    simp only [ending, stop, group, Block.bodySize?, close', Option.map_some, Option.getD_none]
    rfl
  · dsimp only
    rw [size_append]
    omega
  · exact take_bytes_append_of_le inside tail

end Initialization.Opens

theorem extract_located {registry : Registry} {limits : Limits} {host : Host} {source : List Char} {block : Block}
    (fits : size source ≤ limits.maxInputBytes) (known : registry.contains host = true)
    (located : Block.locate host (stripComments host.grammar source) = .ok block) :
    let collected := Extraction.collect host.grammar limits.maxNestingDepth source block
    extract registry limits host source = ⟨host, true, collected.1, source, [], collected.2⟩ := by
  intro collected
  have small : ¬ limits.maxInputBytes < size source := Nat.not_lt.mpr fits
  unfold extract
  simp only [small, if_false, known, Bool.not_true, Bool.false_eq_true, located]
  rfl

theorem located_of_valid {registry : Registry} {limits : Limits} {host : Host} {source : List Char}
    (valid : (extract registry limits host source).valid = true) :
    size source ≤ limits.maxInputBytes ∧ registry.contains host = true ∧
      ∃ block, Block.locate host (stripComments host.grammar source) = .ok block := by
  unfold extract at valid
  simp only at valid
  split at valid
  next => contradiction
  next small =>
    split at valid
    next => contradiction
    next present =>
      refine ⟨Nat.not_lt.mp small, by simpa using present, ?_⟩
      cases located : Block.locate host (stripComments host.grammar source) with
      | error notice =>
        rw [located] at valid
        contradiction
      | ok block => exact ⟨block, rfl⟩

/-- A source that is accepted without an anchor, as one bare literal, gives the same settings and the
same warnings in the initialization of its language, where an anchor opens it. -/
theorem extract_around {host : Host} {i : Initialization} (known : host.initialization? = some i) (registry : Registry)
    (limits : Limits) (source : List Char) (bare : host.hasAnchor source = false)
    (accepted : (extract registry limits host source).valid = true)
    (fits : size (i.around source) ≤ limits.maxInputBytes) :
    let plain := extract registry limits host source
    let wrapped := extract registry limits host (i.around source)
    host.hasAnchor (i.around source) = true ∧ wrapped.valid = true ∧ wrapped.settings = plain.settings ∧
      wrapped.warnings.map (·.message) = plain.warnings.map (·.message) := by
  intro plain wrapped
  obtain ⟨opening, closing, opens⟩ := Host.initialization_opens known
  obtain ⟨small, present, block, located⟩ := located_of_valid accepted
  have literal : Block.ofLiteral? host.grammar (stripComments host.grammar source) opening closing = some block := by
    have none := Option.not_isSome_iff_eq_none.mp (Bool.eq_false_iff.mp bare)
    have bareForm := located
    rw [Block.locate] at bareForm
    simp only [none, Block.ofBare?, opens.bare] at bareForm
    split at bareForm
    next same => rw [same, Except.ok.inj bareForm]
    next => contradiction
  obtain ⟨lies, anchor, block', located', receiver, start, text⟩ := opens.locate_around literal
  have plainly := extract_located small present located
  have again := extract_located fits present located'
  obtain ⟨settings, problems⟩ := Extraction.collect_enclosed host.grammar_narrow limits.maxNestingDepth opens.line.1
    opens.line.2 receiver start text lies (size_strip host.grammar source)
  refine ⟨anchor, ?_, ?_, ?_⟩
  · exact congrArg Extraction.valid again
  · rw [show wrapped = _ from again, show plain = _ from plainly]
    exact settings
  · rw [show wrapped = _ from again, show plain = _ from plainly]
    have messages := congrArg (List.map Problem.message) problems
    rwa [List.map_map, List.map_map] at messages

theorem extract_around_javascript :
    Host.javascript.initialization? = some ⟨"Sentry.init(".toList, ")".toList⟩ ∧
      Host.javascript.hasAnchor "{ debug: true } // é".toList = false ∧
      (extract .full {} .javascript "{ debug: true } // é".toList).valid = true ∧
      Host.javascript.hasAnchor "Sentry.init({ debug: true } // é)".toList = true ∧
      (extract .full {} .javascript "Sentry.init({ debug: true } // é)".toList).settings =
        (extract .full {} .javascript "{ debug: true } // é".toList).settings := by
  have bare : Host.javascript.hasAnchor "{ debug: true } // é".toList = false := by decide +kernel
  have accepted : (extract .full {} .javascript "{ debug: true } // é".toList).valid = true := by decide +kernel
  have wrapped : Initialization.around ⟨"Sentry.init(".toList, ")".toList⟩ "{ debug: true } // é".toList =
      "Sentry.init({ debug: true } // é)".toList := by decide
  have alike := @extract_around .javascript _ rfl .full {} _ bare accepted (by decide +kernel)
  rw [wrapped] at alike
  exact ⟨rfl, bare, accepted, alike.1, alike.2.2.1⟩

end SnippetReview
