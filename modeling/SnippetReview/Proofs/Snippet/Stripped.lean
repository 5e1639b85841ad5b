import SnippetReview.Proofs.Lexing.BlankedBytes
import SnippetReview.Proofs.Lexing.Restripping
import SnippetReview.Proofs.Snippet.Collecting

set_option autoImplicit false

namespace SnippetReview

open Text

theorem feeds_from_blanked (offset : Nat) (c : Char) : feedsFrom offset (blanked c) = feedsFrom offset [c] := by
  unfold blanked
  by_cases feed : c = '\n'
  · rw [feed]
    rfl
  · rw [if_neg (by simpa using feed), feeds_from_blanks, feedsFrom, if_neg feed]
    rfl

theorem feeds_from_flat_map_blanked (offset : Nat) (s : List Char) :
    feedsFrom offset (s.flatMap blanked) = feedsFrom offset s := by
  induction s generalizing offset with
  | nil => rfl
  | cons c rest ih =>
    rw [List.flatMap_cons, feeds_from_append, feeds_from_blanked, ih, size_blanked, ← size_singleton,
      ← feeds_from_append, List.singleton_append]

theorem feeds_from_visible (offset : Nat) (segments : List Segment) :
    feedsFrom offset (segments.flatMap Segment.visible) = feedsFrom offset (segments.flatMap (·.text)) := by
  induction segments generalizing offset with
  | nil => rfl
  | cons s rest ih =>
    rw [List.flatMap_cons, List.flatMap_cons, feeds_from_append, feeds_from_append, ih, Segment.size_visible]
    by_cases comment : s.kind = .comment
    · rw [Segment.visible_comment comment, feeds_from_flat_map_blanked]
    · rw [Segment.visible_kept comment]

theorem same_lines_strip (g : Grammar) (source : List Char) :
    LineIndex.SameLines (LineIndex.ofText (stripComments g source)) (LineIndex.ofText source) := by
  have feeds := feeds_from_visible 0 (segments g source)
  rw [flat_map_text_segments, ← strip_comments_visible] at feeds
  exact LineIndex.same_lines_of_text (size_strip g source) feeds

namespace Setting

def outline (s : Setting) : String × Value × ValueType × Nat := (s.key, s.value, s.type, s.line)

end Setting

namespace Settings

def outline (s : Settings) : List (String × Value × ValueType × Nat) := s.list.map Setting.outline

theorem keys_eq_outline (s : Settings) : s.keys = s.outline.map (·.1) := by simp [keys, outline, Setting.outline]

theorem outline_put {a b : Settings} {new new' : Setting} (same : a.outline = b.outline)
    (setting : new.outline = new'.outline) : (a.put new).outline = (b.put new').outline := by
  have key : new.key = new'.key := congrArg (·.1) setting
  have keys : a.keys = b.keys := by rw [keys_eq_outline, keys_eq_outline, same]
  have replaced : ∀ (s : Settings) (new : Setting),
      (Settings.mk (s.list.map fun old => if old.key == new.key then new else old)).outline =
        s.outline.map fun old => if old.1 == new.key then new.outline else old := by
    intro s new
    unfold outline
    rw [List.map_map, List.map_map]
    refine List.map_congr_left fun old _ => ?_
    show Setting.outline (if old.key == new.key then new else old) =
      if old.key == new.key then new.outline else old.outline
    split <;> rfl
  unfold put
  by_cases member : new.key ∈ a.keys
  · rw [if_pos (contains_iff.mpr member), if_pos (contains_iff.mpr (key ▸ keys ▸ member)), replaced, replaced, same,
      key, setting]
  · rw [if_neg (fun found => member (contains_iff.mp found)),
      if_neg (fun found => member (keys ▸ key ▸ contains_iff.mp found))]
    unfold outline at same ⊢
    rw [List.map_append, List.map_append, same, List.map_cons, List.map_cons, setting]

end Settings

namespace Extraction

namespace Collection

def Alike (a b : Collection) : Prop :=
  a.settings.toSettings.outline = b.settings.toSettings.outline ∧ LineIndex.SameLines a.lines b.lines

theorem Alike.add {a b : Collection} (alike : Alike a b) (g : Grammar) (levels : Nat) (bound : Slice × Binding) :
    Alike (a.add g levels bound) (b.add g levels bound) := by
  obtain ⟨item, binding⟩ := bound
  have linesLeft := lines_add g levels a item binding
  have linesRight := lines_add g levels b item binding
  refine ⟨?_, (linesLeft.trans alike.2).trans linesRight.symm⟩
  rw [settings_add, settings_add, SettingTable.toSettings_put, SettingTable.toSettings_put]
  refine Settings.outline_put alike.1 ?_
  simp only [Setting.outline, settingOf, alike.2.line_eq]

end Collection

theorem collect_alike (g : Grammar) (levels : Nat) {source source' : List Char} (block : Block)
    (lines : LineIndex.SameLines (LineIndex.ofText source) (LineIndex.ofText source')) :
    (collect g levels source block).1.outline = (collect g levels source' block).1.outline := by
  have alike := List.foldl_rel (r := Collection.Alike) (f := Collection.add g levels) (g := Collection.add g levels)
    (l := bindings g block.receiver (statements g block.body))
    (a := ⟨.empty, [], LineIndex.ofText source, Cursor.start source⟩)
    (b := ⟨.empty, [], LineIndex.ofText source', Cursor.start source'⟩)
    ⟨rfl, lines⟩ fun bound _ _ _ alike => alike.add g levels bound
  exact alike.1

def SameAnswer (a b : Extraction) : Prop := a.valid = b.valid ∧ a.settings.outline = b.settings.outline

end Extraction

theorem strip_strip {host : Host} (noRegex : host.grammar.regexLiterals = false) (source : List Char) :
    RereadsAlike host.grammar source ∧
      stripComments host.grammar (stripComments host.grammar source) = stripComments host.grammar source := by
  have legible := host.grammar_legible
  have alike := rereads_alike_of_steady legible (steady_of_no_regex noRegex {} source {})
  exact ⟨alike, (strip_eq_self_iff legible _).mpr (no_comment_of_rereads_alike alike)⟩

theorem extract_strip {host : Host} (noRegex : host.grammar.regexLiterals = false) (registry : Registry)
    (limits : Limits) (source : List Char) :
    Extraction.SameAnswer (extract registry limits host (stripComments host.grammar source))
      (extract registry limits host source) := by
  unfold extract
  simp only [size_strip, (strip_strip noRegex source).2]
  split
  · exact ⟨rfl, rfl⟩
  · split
    · exact ⟨rfl, rfl⟩
    · cases Block.locate host (stripComments host.grammar source) with
      | error notice => exact ⟨rfl, rfl⟩
      | ok block =>
        exact ⟨rfl, Extraction.collect_alike host.grammar limits.maxNestingDepth block
          (same_lines_strip host.grammar source)⟩

theorem quoted_of_rereads_alike {g : Grammar} {source : List Char} (alike : RereadsAlike g source) :
    (segments g (stripComments g source)).filter (·.kind = .quoted) = (segments g source).filter (·.kind = .quoted) := by
  have noCode : ∀ s : Segment, (decide (s.kind = .quoted) && s.isNoCode) = decide (s.kind = .quoted) := by
    intro s
    cases kind : s.kind <;> simp [Segment.isNoCode, kind]
  have literal : ∀ s : Segment, (decide (s.kind = .quoted) && s.isLiteral) = decide (s.kind = .quoted) := by
    intro s
    cases kind : s.kind <;> simp [Segment.isLiteral, kind]
  have chosen := congrArg (List.filter fun s : Segment => decide (s.kind = .quoted)) alike
  simpa only [List.filter_filter, noCode, literal] using chosen

/-- Blanking comments keeps the size, the line feeds and all bytes outside of comments. The text it
makes has no comments and the same quoted literals, and gives the same extraction. -/
theorem strip_comments_stable (host : Host) (noRegex : host.grammar.regexLiterals = false) (source : List Char) :
    let g := host.grammar
    let stripped := stripComments g source
    (bytes stripped).length = (bytes source).length ∧
      (∀ i : Nat, (bytes stripped)[i]? = some 10 ↔ (bytes source)[i]? = some 10) ∧
      (∀ i : Nat, (∀ s ∈ segments g source, s.kind = .comment → ¬ (s.start ≤ i ∧ i < s.stop)) →
        (bytes stripped)[i]? = (bytes source)[i]?) ∧
      (∀ s ∈ segments g source, s.kind = .comment → ∀ i : Nat, s.start ≤ i → i < s.stop →
        (bytes stripped)[i]? = some 32 ∨ (bytes stripped)[i]? = some 10) ∧
      (∀ s ∈ segments g stripped, s.kind ≠ .comment) ∧
      (segments g stripped).filter (·.kind = .quoted) = (segments g source).filter (·.kind = .quoted) ∧
      ∀ (registry : Registry) (limits : Limits),
        Extraction.SameAnswer (extract registry limits host stripped) (extract registry limits host source) := by
  obtain ⟨alike, _⟩ := strip_strip noRegex source
  refine ⟨?length, feeds_strip _ source, bytes_strip_outside _ source, ?inside, no_comment_of_rereads_alike alike,
    quoted_of_rereads_alike alike, fun registry limits => extract_strip noRegex registry limits source⟩
  case length => rw [length_bytes, length_bytes, size_strip]
  case inside => exact fun s member comment i => bytes_strip_inside _ source member comment i

theorem strip_comments_stable_python :
    Host.python.grammar.regexLiterals = false ∧
      (bytes (stripComments Host.python.grammar "a = 'é' # ü\n".toList)).length =
        (bytes "a = 'é' # ü\n".toList).length :=
  ⟨rfl, (strip_comments_stable .python rfl "a = 'é' # ü\n".toList).1⟩

end SnippetReview
