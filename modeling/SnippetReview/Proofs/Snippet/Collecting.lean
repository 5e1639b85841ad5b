import SnippetReview.Proofs.Text.LineStarts
import SnippetReview.Snippet.Extraction

set_option autoImplicit false

namespace SnippetReview

open Text

namespace Extraction.Collection

variable (g : Grammar) (levels : Nat) (c : Collection) (item : Slice) (binding : Binding)

def rawOf : List Char := trim ((c.source.seek binding.value.start).upTo binding.value.stop)

def settingOf : Setting :=
  ⟨binding.key, (valueOf g levels binding).value, String.ofList (c.rawOf binding), (valueOf g levels binding).type,
    c.lines.line item.start⟩

theorem same_lines_warn (offset : Nat) (problem : Problem) : LineIndex.SameLines (c.warn offset problem).lines c.lines :=
  LineIndex.same_lines_position c.lines offset

def noteDepth : Collection :=
  if (valueOf g levels binding).tooDeep then c.warn item.start (.tooDeep binding.key levels) else c

def noteRepeat : Collection :=
  match c.settings.get? binding.key with
  | some earlier => c.warn item.start (.setAgain binding.key earlier.line)
  | none => c

theorem note_depth_spec : (c.noteDepth g levels item binding).settings = c.settings ∧
    (c.noteDepth g levels item binding).source = c.source ∧
    LineIndex.SameLines (c.noteDepth g levels item binding).lines c.lines := by
  unfold noteDepth
  split
  · exact ⟨rfl, rfl, c.same_lines_warn _ _⟩
  · exact ⟨rfl, rfl, rfl, rfl⟩

theorem note_repeat_spec : (c.noteRepeat item binding).settings = c.settings ∧
    (c.noteRepeat item binding).source = c.source ∧
    LineIndex.SameLines (c.noteRepeat item binding).lines c.lines := by
  unfold noteRepeat
  split
  · exact ⟨rfl, rfl, c.same_lines_warn _ _⟩
  · exact ⟨rfl, rfl, rfl, rfl⟩

def noted : Collection :=
  ({ c with source := c.source.seek binding.value.start }.noteDepth g levels item binding).noteRepeat item binding

theorem noted_spec : (c.noted g levels item binding).settings = c.settings ∧
    (c.noted g levels item binding).source = c.source.seek binding.value.start ∧
    LineIndex.SameLines (c.noted g levels item binding).lines c.lines := by
  obtain ⟨settings, source, lines⟩ :=
    note_depth_spec g levels { c with source := c.source.seek binding.value.start } item binding
  obtain ⟨settings', source', lines'⟩ := note_repeat_spec
    ({ c with source := c.source.seek binding.value.start }.noteDepth g levels item binding) item binding
  exact ⟨settings'.trans settings, source'.trans source, lines'.trans lines⟩

theorem add_eq : c.add g levels (item, binding) =
    { c.noted g levels item binding with settings := c.settings.put (c.settingOf g levels item binding) } := by
  obtain ⟨settings, _, lines⟩ := noted_spec g levels c item binding
  have line := lines.line_eq item.start
  unfold settingOf
  rw [← settings, ← line]
  rfl

theorem settings_add : (c.add g levels (item, binding)).settings = c.settings.put (c.settingOf g levels item binding) := by
  rw [add_eq]

theorem lines_add : LineIndex.SameLines (c.add g levels (item, binding)).lines c.lines := by
  rw [add_eq]
  exact (noted_spec g levels c item binding).2.2

theorem source_add : (c.add g levels (item, binding)).source = c.source.seek binding.value.start := by
  rw [add_eq]
  exact (noted_spec g levels c item binding).2.1

def problemsOf : List Problem :=
  ((c.settings.get? binding.key).map fun earlier => .setAgain binding.key earlier.line).toList
    ++ if (valueOf g levels binding).tooDeep then [.tooDeep binding.key levels] else []

theorem problems_add : (c.add g levels (item, binding)).warnings.map (·.problem) =
    c.problemsOf g levels binding ++ c.warnings.map (·.problem) := by
  obtain ⟨settings, _, _⟩ :=
    note_depth_spec g levels { c with source := c.source.seek binding.value.start } item binding
  have depth : (noteDepth g levels { c with source := c.source.seek binding.value.start } item binding).warnings.map
      (fun notice => notice.problem) =
        (if (valueOf g levels binding).tooDeep then [.tooDeep binding.key levels] else [])
          ++ c.warnings.map (fun notice => notice.problem) := by
    unfold noteDepth
    split <;> rfl
  rw [add_eq, noted, noteRepeat, settings, problemsOf, List.append_assoc, ← depth]
  cases c.settings.get? binding.key <;> rfl

end Extraction.Collection

end SnippetReview
