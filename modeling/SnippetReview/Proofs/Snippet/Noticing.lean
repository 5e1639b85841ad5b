import SnippetReview.Proofs.Host.Initialization
import SnippetReview.Proofs.Lexing.Columns
import SnippetReview.Proofs.Pattern.Matching
import SnippetReview.Proofs.Snippet.Collecting
import SnippetReview.Proofs.Snippet.Locating
import SnippetReview.Proofs.Snippet.Sourcing

/- The places of what is noted about a snippet. A warning has the place of its statement in the source. An
   error has the place of its anchor or word in the text without comments, whose columns can lie further
   right. -/

set_option autoImplicit false

namespace SnippetReview

open Text

-- Where in a snippet a problem stands. `stripped` is the snippet with its comments blanked out.
inductive Problem.Concerns (host : Host) (levels : Nat) (stripped : List Char) : Problem → Nat → Prop where
  | opening {anchor : Anchor} {found : Pattern.Match}
      (first : Block.firstAnchor? host.grammar (CodeMap.ofText host.grammar stripped) stripped = some (anchor, found)) :
      Concerns host levels stripped (.neverClosed (String.ofList (trim found.text))) found.start.offset
  | named {word : List Char} {found : Pattern.Match} (known : word ∈ host.grammar.anchorWords)
      (first : ((Pattern.exactly word).all stripped).find?
        (fun m => (CodeMap.ofText host.grammar stripped).isCode m.start.offset) = some found) :
      Concerns host levels stripped (.noConfiguration (String.ofList word)) found.start.offset
  | deep {block : Block} {item : Slice} {binding : Binding} (located : Block.locate host stripped = .ok block)
      (binds : (item, binding) ∈
        Extraction.bindings host.grammar block.receiver (Extraction.statements host.grammar block.body))
      (deep : (Extraction.Collection.valueOf host.grammar levels binding).tooDeep = true) :
      Concerns host levels stripped (.tooDeep binding.key levels) item.start
  | again {block : Block} {item : Slice} {binding : Binding} {earlier later : List (Slice × Binding)} {firstLine : Nat}
      (located : Block.locate host stripped = .ok block)
      (binds : Extraction.bindings host.grammar block.receiver (Extraction.statements host.grammar block.body) =
        earlier ++ (item, binding) :: later)
      (before : ∃ bound ∈ earlier, bound.2.key = binding.key) :
      Concerns host levels stripped (.setAgain binding.key firstLine) item.start

-- An anchor that begins with a character that is no blank, or at the start of a line.
def Anchor.isFixed (anchor : Anchor) : Bool := anchor.pattern.beginsInked false || anchor.pattern.beginsLine

theorem Host.grammar_anchors_fixed (host : Host) : host.grammar.anchors.all Anchor.isFixed = true := by
  cases host <;> decide

theorem Host.grammar_words_inked (host : Host) :
    host.grammar.anchorWords.all (fun word => (Pattern.exactly word).beginsInked false) = true := by
  cases host <;> decide

section

variable {s t : List Char} {p : Pattern} {m : Pattern.Match}

theorem Faded.match_place (faded : Faded s t) (member : m ∈ p.all t) (begins : p.beginsInked false = true) :
    ∃ front back, s = front ++ back ∧ m.start.offset = size front := by
  obtain ⟨front, mid, later, spans⟩ := Pattern.all_spans member
  obtain ⟨c, rest, split, ink⟩ := spans.begins_inked begins
  obtain ⟨front', later', split', sizes⟩ := faded.kept_place
    (show t = front ++ c :: rest by rw [spans.parts, List.append_assoc, split]) (ne_space_of_ink ink)
  exact ⟨front', c :: later', split', spans.start_eq.trans sizes.symm⟩

theorem Faded.line_place (faded : Faded s t) (member : m ∈ p.all t) (begins : p.beginsLine = true) :
    ∃ front back, s = front ++ back ∧ m.start.offset = size front := by
  obtain ⟨front, mid, later, spans⟩ := Pattern.all_spans member
  have fed := spans.begins_line begins
  rcases List.eq_nil_or_concat front with rfl | ⟨line, c, rfl⟩
  · exact ⟨[], s, rfl, spans.start_eq⟩
  · rw [List.concat_eq_append, List.getLast?_concat] at fed
    obtain rfl := fed c rfl
    obtain ⟨front', later', split, sizes⟩ := faded.kept_place
      (show t = line ++ '\n' :: (mid ++ later) by rw [spans.parts]; simp) (by decide)
    refine ⟨front' ++ ['\n'], later', by rw [split]; simp, ?_⟩
    rw [spans.start_eq, List.concat_eq_append, size_append, size_append, sizes]

end

theorem Problem.Concerns.place {host : Host} {levels : Nat} {source : List Char} {problem : Problem} {offset : Nat}
    (concerns : problem.Concerns host levels (stripComments host.grammar source) offset) :
    ∃ front back, source = front ++ back ∧ offset = size front := by
  have faded := faded_strip host.grammar source
  cases concerns with
  | opening first =>
    obtain ⟨known, member, _⟩ := Block.first_anchor_mem first
    have fixed := List.all_eq_true.mp host.grammar_anchors_fixed _ known
    rcases Bool.or_eq_true _ _ |>.mp fixed with inked | line
    · exact faded.match_place member inked
    · exact faded.line_place member line
  | named known first =>
    exact faded.match_place (List.mem_of_find?_eq_some first) (List.all_eq_true.mp host.grammar_words_inked _ known)
  | deep located binds _ => exact statement_place located (binding_reads binds).1
  | again located binds _ =>
    exact statement_place located (binding_reads (binds ▸ List.mem_append_right _ List.mem_cons_self)).1

namespace Extraction

open Collection

-- What holds of a collection that has taken in some bindings: its index is one of the source, the keys that
-- it knows are theirs, and each warning has the place of its statement.
structure Placed (host : Host) (levels : Nat) (source : List Char) (done : List (Slice × Binding)) (c : Collection) :
    Prop where
  lines : c.lines.Indexes source
  keys : ∀ key setting, c.settings.get? key = some setting → ∃ bound ∈ done, bound.2.key = key
  warnings : ∀ warning ∈ c.warnings, ∃ offset,
    warning.problem.Concerns host levels (stripComments host.grammar source) offset ∧
      warning.position = some (Position.of source offset)

variable {host : Host} {levels : Nat} {source : List Char} {done : List (Slice × Binding)} {c : Collection}

theorem Placed.warn (placed : Placed host levels source done c) {offset : Nat} {problem : Problem}
    (concerns : problem.Concerns host levels (stripComments host.grammar source) offset) :
    Placed host levels source done (c.warn offset problem) := by
  refine ⟨placed.lines.position offset, placed.keys, List.forall_mem_cons.mpr ⟨⟨offset, concerns, ?_⟩, placed.warnings⟩⟩
  exact congrArg (fun found => some found.1) (LineIndex.position_eq placed.lines offset)

theorem keys_put_of_get {t : SettingTable} {setting found : Setting} {key : String}
    (known : (t.put setting).get? key = some found) : key = setting.key ∨ ∃ old, t.get? key = some old := by
  rw [SettingTable.get?_eq, SettingTable.toSettings_put] at known
  have member : key ∈ (t.toSettings.put setting).keys := by
    rw [← Settings.contains_iff, Settings.contains, known]
    rfl
  have inside : key = setting.key ∨ key ∈ t.toSettings.keys := by
    rw [Settings.keys_put] at member
    split at member
    · exact .inr member
    · simpa [or_comm] using member
  rw [← Settings.contains_iff, Settings.contains, ← SettingTable.get?_eq, Option.isSome_iff_exists] at inside
  exact inside

theorem Placed.add (placed : Placed host levels source done c) {block : Block} {item : Slice} {binding : Binding}
    {later : List (Slice × Binding)} (located : Block.locate host (stripComments host.grammar source) = .ok block)
    (binds : bindings host.grammar block.receiver (statements host.grammar block.body) = done ++ (item, binding) :: later) :
    Placed host levels source (done ++ [(item, binding)]) (c.add host.grammar levels (item, binding)) := by
  have seek : Placed host levels source done { c with source := c.source.seek binding.value.start } :=
    ⟨placed.lines, placed.keys, placed.warnings⟩
  have noted : Placed host levels source done (c.noted host.grammar levels item binding) := by
    have deep : Placed host levels source done
        (noteDepth host.grammar levels { c with source := c.source.seek binding.value.start } item binding) := by
      unfold noteDepth
      split
      next deep => exact seek.warn (.deep located (binds ▸ List.mem_append_right _ List.mem_cons_self) deep)
      next => exact seek
    -- A key that is known was bound by an earlier statement.
    unfold noted noteRepeat
    split
    next earlier known => exact deep.warn (.again located binds (deep.keys _ _ known))
    next => exact deep
  rw [add_eq]
  refine ⟨noted.lines, ?_, noted.warnings⟩
  intro key setting known
  rcases keys_put_of_get known with rfl | ⟨old, before⟩
  · exact ⟨(item, binding), List.mem_append_right _ List.mem_cons_self, rfl⟩
  · obtain ⟨bound, member, same⟩ := placed.keys key old before
    exact ⟨bound, List.mem_append_left _ member, same⟩

theorem Placed.add_all {block : Block} (located : Block.locate host (stripComments host.grammar source) = .ok block)
    (later : List (Slice × Binding)) (placed : Placed host levels source done c)
    (binds : bindings host.grammar block.receiver (statements host.grammar block.body) = done ++ later) :
    Placed host levels source (done ++ later) (later.foldl (Collection.add host.grammar levels) c) := by
  induction later generalizing done c with
  | nil => rwa [List.append_nil]
  | cons bound later ih =>
    have rest := ih (placed.add located binds) (by rw [binds, List.append_assoc]; rfl)
    rw [List.append_assoc] at rest
    exact rest

theorem collect_placed {block : Block} (located : Block.locate host (stripComments host.grammar source) = .ok block) :
    ∀ warning ∈ (collect host.grammar levels source block).2, ∃ offset,
      warning.problem.Concerns host levels (stripComments host.grammar source) offset ∧
        warning.position = some (Position.of source offset) := by
  have start : Placed host levels source [] ⟨.empty, [], LineIndex.ofText source, Cursor.start source⟩ := by
    refine ⟨LineIndex.indexes_of_text source, ?_, List.forall_mem_nil _⟩
    intro key setting known
    rw [SettingTable.get?_eq] at known
    contradiction
  have placed := start.add_all located _ (List.nil_append _).symm
  exact fun warning member => placed.warnings warning (List.mem_reverse.mp member)

end Extraction

theorem Block.locate_error {host : Host} {stripped : List Char} {notice : Notice} (levels : Nat)
    (failed : locate host stripped = .error notice) :
    ∀ position ∈ notice.position, ∃ offset, notice.problem.Concerns host levels stripped offset ∧
      position = Position.of stripped offset := by
  intro position placed
  unfold locate at failed
  dsimp only at failed
  split at failed
  next anchor found first =>
    unfold ofAnchor at failed
    dsimp only at failed
    split at failed
    next =>
      obtain rfl := Except.error.inj failed
      exact ⟨_, .opening first, (Option.some.inj placed).symm⟩
    next => contradiction
  next =>
    split at failed
    next => contradiction
    next =>
      obtain rfl := Except.error.inj failed
      unfold missing at placed ⊢
      dsimp only at placed ⊢
      split at placed
      next word offset named =>
        obtain ⟨word', known, chosen⟩ := List.exists_of_findSome?_eq_some named
        obtain ⟨found, first, same⟩ := Option.map_eq_some_iff.mp chosen
        obtain ⟨rfl, rfl⟩ := Prod.mk.inj same
        exact ⟨_, .named known first, (Option.some.inj placed).symm⟩
      next => contradiction

section

variable {registry : Registry} {limits : Limits} {host : Host} {source : List Char}

theorem extract_of_unlocated {notice : Notice} (failed : Block.locate host (stripComments host.grammar source) = .error notice) :
    (extract registry limits host source).warnings = [] ∧
      ∀ error ∈ (extract registry limits host source).errors, error = notice ∨ error.position = none := by
  unfold extract
  dsimp only
  rw [failed]
  split
  · simp [Extraction.failed]
  · split <;> simp [Extraction.failed]

theorem extract_of_located {block : Block} (located : Block.locate host (stripComments host.grammar source) = .ok block) :
    (∀ warning ∈ (extract registry limits host source).warnings,
      warning ∈ (Extraction.collect host.grammar limits.maxNestingDepth source block).2) ∧
        ∀ error ∈ (extract registry limits host source).errors, error.position = none := by
  unfold extract
  dsimp only
  rw [located]
  split
  · simp [Extraction.failed]
  · split <;> simp [Extraction.failed]

end

/-- Every warning has the place of its statement in the source. Every error that has a place has the line of
its anchor or word in the source; its column is further right by the bytes that the comments before it, on this
line, take beyond their characters, so that it is right just where they are made of single bytes. -/
theorem extract_positions (registry : Registry) (limits : Limits) (host : Host) (source : List Char) :
    let stripped := stripComments host.grammar source
    let result := extract registry limits host source
    (∀ warning ∈ result.warnings, ∃ front back, source = front ++ back ∧
      warning.problem.Concerns host limits.maxNestingDepth stripped (size front) ∧
        warning.position = some (Position.of source (size front))) ∧
    ∀ error ∈ result.errors, ∀ position ∈ error.position, ∃ front back, source = front ++ back ∧
      error.problem.Concerns host limits.maxNestingDepth stripped (size front) ∧
        position.line = (Position.of source (size front)).line ∧
        position.column = (Position.of source (size front)).column + columnShift host.grammar source (size front) ∧
        (position = Position.of source (size front) ↔
          ∀ mark ∈ lastLine ((commented host.grammar source).take front.length), mark.2 = true → mark.1.utf8Size = 1) := by
  intro stripped result
  cases located : Block.locate host stripped with
  | error notice =>
    obtain ⟨unwarned, either⟩ := @extract_of_unlocated registry limits host source notice located
    refine ⟨by simp [result, unwarned], fun error member position placed => ?_⟩
    rcases either error member with rfl | none
    · obtain ⟨offset, concerns, rfl⟩ := Block.locate_error limits.maxNestingDepth located position placed
      obtain ⟨front, back, rfl, rfl⟩ := concerns.place
      have moved := position_strip host.grammar front back
      refine ⟨front, back, rfl, concerns, by rw [moved], by rw [moved], ?_⟩
      -- The line stays, so the position is that of the source just where the column is not shifted.
      have single := column_shift_eq_zero_iff host.grammar (front ++ back) (size front)
      rw [chars_within_append, chars_within_zero, Nat.add_zero] at single
      rw [← single, moved, Position.mk.injEq]
      omega
    · rw [none] at placed
      contradiction
  | ok block =>
    obtain ⟨collected, unplaced⟩ := @extract_of_located registry limits host source block located
    refine ⟨fun warning member => ?_, fun error member position placed => ?_⟩
    · obtain ⟨offset, concerns, placed⟩ := Extraction.collect_placed located warning (collected warning member)
      obtain ⟨front, back, split, rfl⟩ := concerns.place
      exact ⟨front, back, split, concerns, placed⟩
    · rw [unplaced error member] at placed
      contradiction

-- The comment holds a letter of two bytes, so that the column of what follows is one too high.
theorem extract_positions_shifted :
    let source := "/* ü */ Sentry.init(options)".toList
    let result := extract .full {} .javascript source
    result.errors = [⟨.noConfiguration "Sentry.init", some ⟨1, 10⟩⟩] ∧
      dropBytes 9 source = "Sentry.init(options)".toList ∧ Position.of source 9 = ⟨1, 9⟩ := by
  decide +kernel

end SnippetReview
