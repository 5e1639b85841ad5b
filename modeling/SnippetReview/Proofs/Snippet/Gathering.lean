import Mathlib.Data.List.Forall2
import SnippetReview.Proofs.Snippet.Collecting
import SnippetReview.Proofs.Snippet.Binding
import SnippetReview.Proofs.Text.Trimming

set_option autoImplicit false

namespace SnippetReview

open Text

namespace Settings

theorem find_replaced (list : List Setting) (setting : Setting) (key : String) :
    (list.map fun old => if old.key == setting.key then setting else old).find? (·.key == key) =
      if setting.key == key then (list.find? (·.key == key)).map fun _ => setting else list.find? (·.key == key) := by
  induction list with
  | nil => simp
  | cons first rest ih =>
    rw [List.map_cons, List.find?_cons, List.find?_cons, ih]
    by_cases replaced : first.key = setting.key
    · have alike : (first.key == key) = (setting.key == key) := by rw [replaced]
      simp only [replaced, beq_self_eq_true, if_true]
      cases setting.key == key <;> rfl
    · rw [beq_eq_false_iff_ne.mpr replaced, if_neg Bool.false_ne_true]
      by_cases sought : setting.key = key
      · have other : first.key ≠ key := by rwa [← sought]
        rw [beq_eq_false_iff_ne.mpr other]
      · rw [beq_eq_false_iff_ne.mpr sought]
        rfl

theorem get_put (s : Settings) (setting : Setting) (key : String) :
    (s.put setting).get? key = if setting.key == key then some setting else s.get? key := by
  unfold put
  by_cases contained : s.contains setting.key = true
  · rw [if_pos contained]
    rw [get?, find_replaced]
    by_cases sought : setting.key = key
    · rw [contains, sought] at contained
      obtain ⟨old, found⟩ := Option.isSome_iff_exists.mp contained
      rw [get?] at found
      rw [beq_iff_eq.mpr sought, if_pos rfl, if_pos rfl, found]
      rfl
    · rw [beq_eq_false_iff_ne.mpr sought]
      rfl
  · rw [if_neg contained]
    have absent : s.get? setting.key = none := by
      rw [contains, Option.not_isSome_iff_eq_none] at contained
      exact contained
    change (s.list ++ [setting]).find? (·.key == key) = _
    rw [List.find?_append]
    by_cases sought : setting.key = key
    · rw [get?, sought] at absent
      simp [absent, sought]
    · rw [beq_eq_false_iff_ne.mpr sought]
      simp [sought, get?]

theorem erase_dups_concat (keys : List String) (key : String) :
    (keys ++ [key]).eraseDups = if key ∈ keys then keys.eraseDups else keys.eraseDups ++ [key] := by
  rw [List.eraseDups_append]
  by_cases known : key ∈ keys
  · simp [known, List.removeAll]
  · simp [known, List.removeAll]
    rfl

theorem keys_put_of_dups {s : Settings} {keys : List String} (known : s.keys = keys.eraseDups) (setting : Setting) :
    (s.put setting).keys = (keys ++ [setting.key]).eraseDups := by
  simp [keys_put, known, erase_dups_concat]

end Settings

-- Settings with a key that an earlier one has, each noted with the line of the latest of these. The earlier
-- settings come last one first.
def repeats (earlier : List Setting) : List Setting → List Problem
  | [] => []
  | setting :: rest =>
    ((earlier.find? (·.key == setting.key)).map fun last => .setAgain setting.key last.line).toList
      ++ repeats (setting :: earlier) rest

structure SplitAt (text before later : List Char) (line : Nat) : Prop where
  text : text = before ++ later
  line : before.count '\n' + 1 = line

namespace SplitAt

variable {text before later before' later' : List Char} {line line' : Nat}

theorem prefix_of_line_lt (earlier : SplitAt text before later line) (next : SplitAt text before' later' line')
    (lines : line < line') : ∃ middle, before' = before ++ middle ∧ later = middle ++ later' := by
  have same := earlier.text.symm.trans next.text
  rcases List.append_eq_append_iff.mp same with ⟨middle, front, back⟩ | ⟨middle, front, _⟩
  · exact ⟨middle, front, back⟩
  · have counts := next.line
    have counts' := earlier.line
    rw [front, List.count_append] at counts'
    omega

theorem line_eq (split : SplitAt text before later line) : (LineIndex.ofText text).line (size before) = line := by
  rw [split.text, LineIndex.line_of_text, split.line]

end SplitAt

namespace Extraction

structure Makes (g : Grammar) (levels : Nat) (text : List Char) (setting : Setting) (bound : Slice × Binding) : Prop where
  item : ∃ before later, SplitAt text before later setting.line ∧ bound.1.start = size before
  value : ∃ before literal later, SplitAt text before (literal ++ later) setting.line ∧
    bound.2.Sets setting.key (size before) literal ∧ Inked literal ∧ setting.raw = String.ofList literal ∧
    Inferred.within g levels literal = ⟨setting.value, setting.type, false⟩

namespace Collection

-- The collection of a text that has the settings of `earlier`, the last one first, and whose cursor stands
-- before `line`.
structure Gathers (text : List Char) (earlier : List Setting) (line : Nat) (c : Collection) : Prop where
  keys : c.settings.toSettings.keys = (earlier.reverse.map (·.key)).eraseDups
  get : ∀ key, c.settings.toSettings.get? key = earlier.find? (·.key == key)
  lines : LineIndex.SameLines c.lines (LineIndex.ofText text)
  source : ∃ before later line', SplitAt text before later line' ∧ (before = [] ∨ line' < line) ∧
    c.source.offset = size before ∧ c.source.rest = later

variable {g : Grammar} {levels line : Nat} {text : List Char} {earlier : List Setting} {setting : Setting}
  {c : Collection} {bound : Slice × Binding}

theorem seek_eq {cursor : Cursor} {middle later : List Char} (stands : cursor.rest = middle ++ later) :
    (cursor.seek (cursor.offset + size middle)).offset = cursor.offset + size middle ∧
      (cursor.seek (cursor.offset + size middle)).rest = later := by
  have moved := Cursor.advance_append cursor.offset cursor.before middle later
  have whole : cursor = ⟨cursor.offset, cursor.before, middle ++ later⟩ := by rw [← stands]
  rw [← whole] at moved
  have count : charsWithin (cursor.offset + size middle - cursor.offset) cursor.rest = middle.length := by
    rw [Nat.add_sub_cancel_left, stands, chars_within_append, chars_within_zero, Nat.add_zero]
  rw [Cursor.seek, count, moved]
  exact ⟨rfl, rfl⟩

theorem Gathers.seek (gathers : c.Gathers text earlier line) {before later : List Char}
    (split : SplitAt text before later line) :
    (c.source.seek (size before)).offset = size before ∧ (c.source.seek (size before)).rest = later := by
  obtain ⟨first, rest, line', here, behind, offset, stands⟩ := gathers.source
  obtain ⟨middle, front, back⟩ : ∃ middle, before = first ++ middle ∧ rest = middle ++ later := by
    rcases behind with none | lines
    · refine ⟨before, by rw [none]; rfl, ?_⟩
      rw [← split.text, here.text, none]
      rfl
    · exact here.prefix_of_line_lt split lines
  have moved := seek_eq (stands.trans back)
  rw [offset, ← size_append, ← front] at moved
  exact moved

theorem setting_of_makes (gathers : c.Gathers text earlier line) (makes : Makes g levels text setting bound)
    (here : setting.line = line) : c.settingOf g levels bound.1 bound.2 = setting := by
  obtain ⟨before, later, split, start⟩ := makes.item
  obtain ⟨before', literal, later', split', sets, inked, raw, inferred⟩ := makes.value
  have lineOf : c.lines.line bound.1.start = setting.line := by
    rw [gathers.lines.line_eq, start, split.line_eq]
  have rawOf : c.rawOf bound.2 = literal := by
    rw [here] at split'
    obtain ⟨offset, rest⟩ := gathers.seek split'
    have stop : bound.2.value.stop - size before' = size literal := by
      rw [Slice.stop, sets.start, sets.size, Nat.add_sub_cancel_left]
    rw [Collection.rawOf, sets.start, Cursor.upTo, offset, rest, stop, take_bytes_append, trim_inked inked]
  have value : valueOf g levels bound.2 = ⟨setting.value, setting.type, false⟩ := by
    rw [valueOf, sets.isMethod, sets.text, Inferred.ofText, trim_inked inked, inferred]
    rfl
  unfold settingOf
  rw [value, rawOf, lineOf, sets.key, ← raw]

theorem gathers_add (gathers : c.Gathers text earlier line) (makes : Makes g levels text setting bound)
    (here : setting.line = line) : (c.add g levels bound).Gathers text (setting :: earlier) (line + 1) := by
  have made := setting_of_makes gathers makes here
  have settings : (c.add g levels bound).settings = c.settings.put setting :=
    (settings_add g levels c bound.1 bound.2).trans (by rw [made])
  refine ⟨?keys, ?get, ?lines, ?source⟩
  case keys =>
    rw [settings, SettingTable.toSettings_put, Settings.keys_put_of_dups gathers.keys, List.reverse_cons, List.map_append]
    rfl
  case get =>
    intro key
    rw [settings, SettingTable.toSettings_put, Settings.get_put, gathers.get, List.find?_cons]
    cases setting.key == key <;> rfl
  case lines => exact (lines_add g levels c bound.1 bound.2).trans gathers.lines
  case source =>
    obtain ⟨before, literal, later, split, sets, _⟩ := makes.value
    rw [here] at split
    have moved := gathers.seek split
    have source := source_add g levels c bound.1 bound.2
    rw [sets.start] at source
    exact ⟨before, literal ++ later, line, split, .inr (Nat.lt_succ_self line), (congrArg Cursor.offset source).trans moved.1,
      (congrArg Cursor.rest source).trans moved.2⟩

theorem warnings_add (gathers : c.Gathers text earlier line) (makes : Makes g levels text setting bound) :
    (c.add g levels bound).warnings.map (·.problem) =
      ((earlier.find? (·.key == setting.key)).map fun last => .setAgain setting.key last.line).toList
        ++ c.warnings.map (·.problem) := by
  obtain ⟨before, literal, later, _, sets, inked, _, inferred⟩ := makes.value
  have shallow : (valueOf g levels bound.2).tooDeep = false := by
    rw [valueOf, sets.isMethod, sets.text, Inferred.ofText, trim_inked inked, inferred]
    rfl
  have found := (SettingTable.get?_eq c.settings setting.key).trans (gathers.get setting.key)
  rw [show bound = (bound.1, bound.2) from rfl, problems_add, problemsOf, sets.key, found, shallow,
    if_neg Bool.false_ne_true, List.append_nil]

theorem gathers_fold {settings : List Setting} {statements : List (Slice × Binding)}
    (makes : List.Forall₂ (Makes g levels text) settings statements)
    (lines : ∀ i (inside : i < settings.length), settings[i].line = line + i) (gathers : c.Gathers text earlier line) :
    (statements.foldl (add g levels) c).Gathers text (settings.reverse ++ earlier) (line + settings.length) ∧
      (statements.foldl (add g levels) c).warnings.reverse.map (·.problem) =
        c.warnings.reverse.map (·.problem) ++ repeats earlier settings := by
  induction makes generalizing c earlier line with
  | nil => exact ⟨gathers, by simp [repeats]⟩
  | @cons setting bound settings statements first _ ih =>
    have here : setting.line = line := lines 0 (Nat.zero_lt_succ _)
    have later : ∀ i (inside : i < settings.length), settings[i].line = line + 1 + i := by
      intro i inside
      have next := lines (i + 1) (Nat.succ_lt_succ inside)
      rw [List.getElem_cons_succ] at next
      omega
    obtain ⟨gathered, warnings⟩ := ih later (gathers_add gathers first here)
    rw [List.foldl_cons, List.reverse_cons, List.append_assoc, List.singleton_append, List.length_cons]
    refine ⟨?_, ?_⟩
    · rw [show line + (settings.length + 1) = line + 1 + settings.length by omega]
      exact gathered
    · rw [warnings, List.map_reverse, warnings_add gathers first, List.reverse_append, repeats, List.map_reverse,
        List.append_assoc]
      congr 1
      cases earlier.find? (·.key == setting.key) <;> rfl

end Collection

section

variable {α : Type} {g : Grammar} {receiver : List Char} {items : List Slice} {made : List α}

theorem mem_of_forall {placed : α → Slice → Prop} (all : List.Forall₂ placed made items) :
    ∀ item ∈ items, ∃ x ∈ made, placed x item := by
  induction all with
  | nil => exact fun item member => absurd member List.not_mem_nil
  | @cons x first made items fits _ ih =>
    intro item member
    rw [List.mem_cons] at member
    rcases member with rfl | later
    · exact ⟨x, List.mem_cons_self, fits⟩
    · obtain ⟨y, among, fits⟩ := ih item later
      exact ⟨y, List.mem_cons_of_mem x among, fits⟩

theorem forall_bindings {placed : α → Slice → Prop} {makes : α → Slice × Binding → Prop}
    (all : List.Forall₂ placed made items)
    (binds : ∀ x item, x ∈ made → placed x item → ∃ b, Binding.ofItem? g receiver item = some b ∧ makes x (item, b)) :
    List.Forall₂ makes made (bindings g receiver items) := by
  have later : ∀ {made : List α} {items : List Slice}, List.Forall₂ placed made items →
      (∀ x item, x ∈ made → placed x item → ∃ b, Binding.ofItem? g receiver item = some b ∧ makes x (item, b)) →
      List.Forall₂ makes made (items.filterMap fun item => (Binding.ofItem? g receiver item).map fun b => (item, b)) := by
    intro made items all binds
    induction all with
    | nil => exact .nil
    | @cons x item made items first _ ih =>
      obtain ⟨b, read, fits⟩ := binds x item List.mem_cons_self first
      rw [List.filterMap_cons, read]
      exact .cons fits (ih fun y other member => binds y other (List.mem_cons_of_mem x member))
  cases all with
  | nil => exact .nil
  | @cons x item made items first rest =>
    obtain ⟨b, read, fits⟩ := binds x item List.mem_cons_self first
    rw [bindings, firstBinding?, read]
    exact .cons fits (later rest fun y other member => binds y other (List.mem_cons_of_mem x member))

end

end Extraction

end SnippetReview
