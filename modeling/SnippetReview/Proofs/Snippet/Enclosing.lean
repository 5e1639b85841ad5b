import SnippetReview.Proofs.Snippet.Collecting
import SnippetReview.Proofs.Snippet.Placing
import SnippetReview.Proofs.Snippet.Shifting
import SnippetReview.Proofs.Text.Seeking

set_option autoImplicit false

namespace SnippetReview

open Text

namespace Extraction

namespace Collection

-- A collection of a source of some size, and one of the longer source with `n` more bytes in front and `back`
-- behind: they have the same settings and the same problems.
structure Beside (n total : Nat) (back : List Char) (a b : Collection) : Prop where
  settings : b.settings = a.settings
  problems : b.warnings.map (·.problem) = a.warnings.map (·.problem)
  lines : ∀ offset, b.lines.line (offset + n) = a.lines.line offset
  source : Cursor.Beside n total back a.source b.source

variable {n total : Nat} {back : List Char} {a b : Collection}

theorem Beside.start {front s back : List Char} (plain : ∀ c ∈ front, c ≠ '\n') (plain' : ∀ c ∈ back, c ≠ '\n') :
    Beside (size front) (size s) back ⟨.empty, [], LineIndex.ofText s, Cursor.start s⟩
      ⟨.empty, [], LineIndex.ofText (front ++ (s ++ back)), Cursor.start (front ++ (s ++ back))⟩ :=
  ⟨rfl, rfl, LineIndex.line_enclosed plain plain' s, Cursor.Beside.start front s back⟩

theorem Beside.add (beside : Beside n total back a b) (g : Grammar) (levels : Nat) (item : Slice) {binding : Binding}
    (ordered : binding.value.start ≤ binding.value.stop) (inside : binding.value.stop ≤ total) :
    Beside n total back (a.add g levels (item, binding)) (b.add g levels (item.shift n, binding.shift n)) := by
  have raw : b.rawOf (binding.shift n) = a.rawOf binding := by
    have same := beside.source.up_to ordered inside
    rw [← Slice.stop_shift] at same
    exact congrArg trim same
  have setting : b.settingOf g levels (item.shift n) (binding.shift n) = a.settingOf g levels item binding := by
    unfold settingOf
    rw [raw, Slice.start_shift, beside.lines]
    rfl
  constructor
  · rw [settings_add, settings_add, setting, beside.settings]
  · have problems : b.problemsOf g levels (binding.shift n) = a.problemsOf g levels binding := by
      unfold problemsOf
      rw [beside.settings]
      rfl
    rw [problems_add, problems_add, problems, beside.problems]
  · intro offset
    rw [(lines_add g levels b (item.shift n) (binding.shift n)).line_eq, (lines_add g levels a item binding).line_eq]
    exact beside.lines offset
  · rw [source_add, source_add]
    exact (beside.source.seek (Nat.le_trans ordered inside)).1

theorem Beside.fold (beside : Beside n total back a b) (g : Grammar) (levels : Nat) {bound : List (Slice × Binding)}
    (inside : ∀ one ∈ bound, one.2.value.start ≤ one.2.value.stop ∧ one.2.value.stop ≤ total) :
    Beside n total back (bound.foldl (Collection.add g levels) a)
      ((bound.map fun one => (one.1.shift n, one.2.shift n)).foldl (Collection.add g levels) b) := by
  induction bound generalizing a b with
  | nil => exact beside
  | cons one rest ih =>
    obtain ⟨ordered, fits⟩ := inside one List.mem_cons_self
    exact ih (beside.add g levels one.1 ordered fits) fun other member => inside other (List.mem_cons_of_mem one member)

end Collection

theorem collect_enclosed {g : Grammar} (narrow : g.Narrow) (levels : Nat) {front s back text : List Char}
    (plain : ∀ c ∈ front, c ≠ '\n') (plain' : ∀ c ∈ back, c ≠ '\n') {block block' : Block}
    (receiver : block'.receiver = block.receiver) (start : block'.body.start = block.body.start + size front)
    (same : block'.body.text = block.body.text) (lies : block.body.LiesIn 0 text) (sized : size text = size s) :
    (collect g levels (front ++ (s ++ back)) block').1 = (collect g levels s block).1 ∧
      (collect g levels (front ++ (s ++ back)) block').2.map (·.problem) =
        (collect g levels s block).2.map (·.problem) := by
  have inside : ∀ one ∈ bindings g block.receiver (statements g block.body),
      one.2.value.start ≤ one.2.value.stop ∧ one.2.value.stop ≤ size s := by
    intro one member
    obtain ⟨opens, inked, _⟩ := statements_stand narrow block.body
    obtain ⟨among, value⟩ := trimmed_of_bindings narrow opens inked member
    have bounds := (value.lies.trans ((opens one.1 among).liesIn.trans lies)).bounds
    omega
  have beside := (Collection.Beside.start (s := s) plain plain').fold g levels inside
  rw [← bindings_shift, ← statements_shift (size front) g start same] at beside
  unfold collect
  simp only [receiver, List.map_reverse]
  exact ⟨congrArg SettingTable.toSettings beside.settings, congrArg List.reverse beside.problems⟩

end Extraction

end SnippetReview
