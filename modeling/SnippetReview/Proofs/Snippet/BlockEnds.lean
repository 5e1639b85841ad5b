import SnippetReview.Proofs.Snippet.Locating
import SnippetReview.Proofs.Snippet.Provenance

/- Where the body of a Ruby block ends. The walk tells a word that closes a block from a name that reads the
   same by the signs around it; the search for the end of the body looks at the word alone. -/

set_option autoImplicit false

namespace SnippetReview

open Text

def BlockWords.names (before : Option Char) (after : List Char) : Bool :=
  (before.map fun c => c == '.' || c == ':' || c == '@' || c == '$').getD false
  || match after with
    | ':' :: next => next.head? != some ':'
    | c :: _ => c == '?' || c == '!'
    | [] => false

namespace Visit

variable (words : BlockWords) (v : Visit)

def isExempt : Bool := BlockWords.names v.before (v.rest.drop (words.closer.length - 1))

def Closes : Prop :=
  v.word = some words.closer ∧
    ∀ lineHasCode, words.effect v.before words.closer (v.rest.drop (words.closer.length - 1)) lineHasCode = .closes

end Visit

def BlockWords.Distinct (words : BlockWords) : Prop :=
  words.closer ∉ words.openers ∧ words.closer ∉ words.lineOpeners

theorem BlockWords.effect_closer {words : BlockWords} (distinct : words.Distinct) (before : Option Char)
    (after : List Char) (lineHasCode : Bool) : words.effect before words.closer after lineHasCode =
      if BlockWords.names before after then .nothing else .closes := by
  have effect : words.effect before words.closer after lineHasCode =
      if BlockWords.names before after then .nothing
      else if words.openers.contains words.closer then .opens
      else if words.lineOpeners.contains words.closer && !lineHasCode then .opens
      else if words.closer == words.closer then .closes
      else .nothing := rfl
  simp [effect, distinct.1, distinct.2]

theorem Visit.closes_iff {words : BlockWords} (distinct : words.Distinct) (v : Visit) :
    v.Closes words ↔ v.word = some words.closer ∧ v.isExempt words = false := by
  simp only [Closes, isExempt, BlockWords.effect_closer distinct, forall_const]
  cases BlockWords.names v.before (v.rest.drop (words.closer.length - 1)) <;> simp

def FirstOutside (g : Grammar) (text : List Char) (p : Visit → Prop) (v : Visit) : Prop :=
  ∃ before after, visits g text = before ++ v :: after ∧ v.depth = 0 ∧ p v ∧ ∀ u ∈ before, u.depth = 0 → ¬ p u

section

variable {g : Grammar} {text : List Char} {v : Visit}

theorem find_outside_iff (accepts : Visit → Bool) :
    findOutside g text accepts = some v ↔ FirstOutside g text (fun v => accepts v = true) v := by
  simp only [findOutside, List.find?_eq_some_iff_append, FirstOutside]
  constructor
  · rintro ⟨holds, before, after, split, earlier⟩
    simp only [Bool.and_eq_true, beq_iff_eq] at holds
    refine ⟨before, after, split, holds.1, holds.2, fun u member level accepted => ?_⟩
    have passed := earlier u member
    simp [level, accepted] at passed
  · rintro ⟨before, after, split, level, accepted, earlier⟩
    refine ⟨by simp [level, accepted], before, after, split, fun u member => ?_⟩
    by_cases outside : u.depth = 0
    · simp [outside, earlier u member outside]
    · simp [outside]

theorem around_of_offset {u : Visit} (first : u ∈ visits g text) (second : v ∈ visits g text)
    (same : u.offset = v.offset) : u.before = v.before ∧ u.rest = v.rest := by
  obtain ⟨done, here⟩ := stands_of_visits first
  obtain ⟨done', there⟩ := stands_of_visits second
  have sizes : size done = size done' := by rw [← here.offset, ← there.offset, same]
  obtain ⟨rfl, tail⟩ := append_inj_of_size (here.text.symm.trans there.text) sizes
  exact ⟨here.before.trans there.before.symm, (List.cons.inj tail).2⟩

theorem FirstOutside.visited {p : Visit → Prop} (first : FirstOutside g text p v) : v ∈ visits g text := by
  obtain ⟨before, after, split, _⟩ := first
  simp [split]

theorem FirstOutside.unique {p : Visit → Prop} {u : Visit} (first : FirstOutside g text p u)
    (second : FirstOutside g text p v) : u = v := by
  classical
  have found : findOutside g text (fun v => decide (p v)) = some u := (find_outside_iff _).mpr (by simpa using first)
  have again : findOutside g text (fun v => decide (p v)) = some v := (find_outside_iff _).mpr (by simpa using second)
  exact Option.some.inj (found.symm.trans again)

theorem FirstOutside.exists {p : Visit → Prop} (member : v ∈ visits g text) (level : v.depth = 0) (holds : p v) :
    ∃ u, FirstOutside g text p u := by
  classical
  cases found : findOutside g text fun v => decide (p v) with
  | some u => exact ⟨u, by simpa using (find_outside_iff _).mp found⟩
  | none =>
    have missed := List.find?_eq_none.mp found v member
    simp [level, holds] at missed

theorem first_closes_iff {words : BlockWords} (distinct : words.Distinct)
    (first : FirstOutside g text (fun v => v.word = some words.closer) v) :
    FirstOutside g text (Visit.Closes words) v ↔ v.isExempt words = false := by
  constructor
  · rintro ⟨_, _, _, _, closes, _⟩
    exact ((v.closes_iff distinct).mp closes).2
  · intro plain
    obtain ⟨before, after, split, level, word, earlier⟩ := first
    refine ⟨before, after, split, level, (v.closes_iff distinct).mpr ⟨word, plain⟩, fun u member outside closes => ?_⟩
    exact earlier u member outside closes.1

end

def Block.upTo (g : Grammar) (found : Pattern.Match) (v : Visit) : Block :=
  ⟨⟨found.stop.offset, v.offset, found.stop.rest⟩, found.group.getD g.defaultReceiver⟩

theorem Block.locate_keyword_iff {host : Host} {stripped word : List Char} {anchor : Anchor} {found : Pattern.Match}
    (first : firstAnchor? host.grammar (CodeMap.ofText host.grammar stripped) stripped = some (anchor, found))
    (keyword : anchor.bodyEnd = .keyword word) {block : Block} : locate host stripped = .ok block ↔
      ∃ v, FirstOutside host.grammar found.stop.rest (fun v => v.word = some word) v ∧ block = upTo host.grammar found v := by
  have located : locate host stripped = ofAnchor host.grammar stripped anchor found := by
    unfold locate
    dsimp only
    rw [first]
  have ends := fun v => @find_outside_iff host.grammar found.stop.rest v fun v => v.word == some word
  simp only [beq_iff_eq] at ends
  rw [located, ofAnchor]
  simp only [keyword, bodySize?]
  cases stop : findOutside host.grammar found.stop.rest fun v => v.word == some word with
  | none =>
    constructor
    · intro opened
      contradiction
    · rintro ⟨v, reached, _⟩
      rw [(ends v).mpr reached] at stop
      contradiction
  | some v =>
    constructor
    · intro opened
      exact ⟨v, (ends v).mp stop, (Except.ok.inj opened).symm⟩
    · rintro ⟨u, reached, rfl⟩
      obtain rfl := Option.some.inj (stop.symm.trans ((ends u).mpr reached))
      rfl

theorem Host.ruby_words {words : BlockWords} (known : ruby.grammar.blockWords = some words) :
    words.Distinct ∧ words.closer = "end".toList := by
  obtain rfl := Option.some.inj known
  refine ⟨⟨?_, ?_⟩, rfl⟩ <;> decide

theorem Host.ruby_anchors : ∀ anchor ∈ ruby.grammar.anchors,
    anchor.bodyEnd = .keyword "end".toList ∨ anchor.bodyEnd = .delimiter '\x7d' := by
  decide

/-- The body of a Ruby block reaches to the first word `end` outside everything inside it. So it ends at the first one
that closes a block, just where the first one is not written as a name; in particular where none is. -/
theorem ruby_block_ends {stripped word : List Char} {anchor : Anchor} {found : Pattern.Match} {words : BlockWords}
    (first : Block.firstAnchor? Host.ruby.grammar (CodeMap.ofText Host.ruby.grammar stripped) stripped =
      some (anchor, found))
    (keyword : anchor.bodyEnd = .keyword word) (hasWords : Host.ruby.grammar.blockWords = some words) :
    let g := Host.ruby.grammar
    let text := found.stop.rest
    let isEnd := fun v : Visit => v.word = some words.closer
    let closed := ∀ block, Block.locate .ruby stripped = .ok block ↔
      ∃ v, FirstOutside g text (Visit.Closes words) v ∧ block = Block.upTo g found v
    (∀ block, Block.locate .ruby stripped = .ok block ↔ ∃ v, FirstOutside g text isEnd v ∧ block = Block.upTo g found v) ∧
      (closed ↔ ∀ v, FirstOutside g text isEnd v → v.isExempt words = false) ∧
      ((∀ v ∈ visits g text, v.depth = 0 → isEnd v → v.isExempt words = false) → closed) := by
  intro g text isEnd closed
  obtain ⟨distinct, closer⟩ := Host.ruby_words hasWords
  obtain rfl : word = words.closer := by
    rw [closer]
    rcases Host.ruby_anchors anchor (Block.first_anchor_mem first).1 with ending | ending
    · rw [ending] at keyword
      exact (BodyEnd.keyword.inj keyword).symm
    · rw [ending] at keyword
      contradiction
  have ends : ∀ block, Block.locate .ruby stripped = .ok block ↔
      ∃ v, FirstOutside g text isEnd v ∧ block = Block.upTo g found v :=
    fun block => Block.locate_keyword_iff first keyword
  have exact : closed ↔ ∀ v, FirstOutside g text isEnd v → v.isExempt words = false := by
    constructor
    · intro closes v reached
      obtain ⟨u, closer, block⟩ := (closes _).mp ((ends _).mpr ⟨v, reached, rfl⟩)
      have offset : v.offset = u.offset := congrArg (fun b : Block => b.body.size) block
      -- The word that closes the block stands where `v` stands, and so is `v` no name.
      obtain ⟨before, rest⟩ := around_of_offset reached.visited closer.visited offset
      obtain ⟨_, _, _, _, closing, _⟩ := closer
      have plain := ((u.closes_iff distinct).mp closing).2
      rwa [Visit.isExempt, ← before, ← rest] at plain
    · intro plain block
      rw [ends]
      constructor
      · rintro ⟨v, reached, rfl⟩
        exact ⟨v, (first_closes_iff distinct reached).mpr (plain v reached), rfl⟩
      · rintro ⟨v, closer, rfl⟩
        -- The first word of the spelling closes a block as well, so that it is `v`.
        obtain ⟨_, _, _, level, closes, _⟩ := id closer
        obtain ⟨u, reached⟩ := FirstOutside.exists (p := isEnd) closer.visited level closes.1
        obtain rfl := ((first_closes_iff distinct reached).mpr (plain u reached)).unique closer
        exact ⟨u, reached, rfl⟩
  refine ⟨ends, exact, fun plain => exact.mpr fun v reached => ?_⟩
  obtain ⟨_, _, _, level, word, _⟩ := id reached
  exact plain v reached.visited level word

theorem ruby_block_ends_nested :
    let g := Host.ruby.grammar
    let source := "Sentry.init do |config|\n  config.a = f(range.end, end: 1)\n  config.b = x.each do |y| y.end end\nend".toList
    ∃ words anchor found v, g.blockWords = some words ∧
      Block.firstAnchor? g (CodeMap.ofText g source) source = some (anchor, found) ∧
      anchor.bodyEnd = .keyword words.closer ∧ FirstOutside g found.stop.rest (Visit.Closes words) v ∧
      Block.locate .ruby source = .ok (Block.upTo g found v) := by
  intro g source
  have looked : (Block.firstAnchor? g (CodeMap.ofText g source) source).map (fun p => (p.1.bodyEnd, p.2.stop.rest)) =
      some (.keyword "end".toList, source.drop 23) := by
    decide +kernel
  obtain ⟨⟨anchor, found⟩, first, opened⟩ := Option.map_eq_some_iff.mp looked
  obtain ⟨keyword, rest⟩ := Prod.mk.inj opened
  obtain ⟨words, hasWords⟩ := Option.isSome_iff_exists.mp (show g.blockWords.isSome by decide)
  have plain : ∀ v ∈ visits g (source.drop 23), v.depth = 0 → v.word = some "end".toList →
      v.isExempt (g.blockWords.getD ⟨[], [], []⟩) = false := by
    decide +kernel
  have ends := ruby_block_ends first keyword hasWords
  obtain ⟨distinct, closer⟩ := Host.ruby_words hasWords
  rw [hasWords, ← rest, ← closer] at plain
  rw [← closer] at keyword
  have valid : (Block.locate .ruby source).toBool = true := by decide +kernel
  cases located : Block.locate .ruby source with
  | error notice =>
    rw [located] at valid
    exact absurd valid Bool.false_ne_true
  | ok block =>
    obtain ⟨v, closes, rfl⟩ := (ends.2.2 plain block).mp located
    exact ⟨words, anchor, found, v, hasWords, first, keyword, closes, rfl⟩

-- A method that is called `end` ends the body, and what follows it is lost.
theorem ruby_block_ends_early :
    let g := Host.ruby.grammar
    let source := "Sentry.init do |config|\n  config.a = range.end\n  config.b = 1\nend".toList
    let result := extract .full {} .ruby source
    (∃ words anchor found v, g.blockWords = some words ∧
      Block.firstAnchor? g (CodeMap.ofText g source) source = some (anchor, found) ∧
      anchor.bodyEnd = .keyword words.closer ∧ Block.locate .ruby source = .ok (Block.upTo g found v) ∧
      v.isExempt words = true ∧ ¬ v.Closes words) ∧
      result.valid = true ∧
      result.settings.list.map (fun setting => (setting.key, setting.raw)) = [("a", "range.")] := by
  intro g source result
  have valid : result.valid = true := by decide +kernel
  refine ⟨?_, valid, ?_⟩
  · have looked : (Block.firstAnchor? g (CodeMap.ofText g source) source).map (fun p => (p.1.bodyEnd, p.2.stop.rest)) =
        some (.keyword "end".toList, source.drop 23) := by
      decide +kernel
    obtain ⟨⟨anchor, found⟩, first, opened⟩ := Option.map_eq_some_iff.mp looked
    obtain ⟨keyword, rest⟩ := Prod.mk.inj opened
    obtain ⟨words, hasWords⟩ := Option.isSome_iff_exists.mp (show g.blockWords.isSome by decide)
    obtain ⟨distinct, closer⟩ := Host.ruby_words hasWords
    have stop : (findOutside g (source.drop 23) fun v => v.word == some "end".toList).map
        (Visit.isExempt (g.blockWords.getD ⟨[], [], []⟩)) = some true := by
      decide +kernel
    obtain ⟨v, reached, exempt⟩ := Option.map_eq_some_iff.mp stop
    have ends := (find_outside_iff _).mp reached
    simp only [beq_iff_eq, ← rest] at ends
    rw [hasWords] at exempt
    refine ⟨words, anchor, found, v, hasWords, first, ?_, ?_, exempt, fun closes => ?_⟩
    · rw [closer]
      exact keyword
    · exact (Block.locate_keyword_iff first keyword).mpr ⟨v, ends, rfl⟩
    · have plain := ((v.closes_iff distinct).mp closes).2
      exact absurd (exempt.symm.trans plain) (by decide)
  · rw [show result.settings = _ from Extraction.settings_of_valid valid]
    decide +kernel

end SnippetReview
