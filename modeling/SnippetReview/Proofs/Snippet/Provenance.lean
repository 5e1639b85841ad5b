import Mathlib.Data.List.Induction
import SnippetReview.Proofs.Bytewise.Extracting
import SnippetReview.Proofs.Host.Initialization

set_option autoImplicit false

namespace SnippetReview

open Text

namespace Extraction

-- The setting that a binding makes, with its text and its line read from the source.
def settingFrom (g : Grammar) (levels : Nat) (source : List Char) (bound : Slice × Binding) : Setting :=
  let inferred := Collection.valueOf g levels bound.2
  let raw := between bound.2.value.start bound.2.value.stop source
  ⟨bound.2.key, inferred.value, String.ofList (trim raw), inferred.type, (takeBytes bound.1.start source).count '\n' + 1⟩

-- Of several settings of one key the last wins, at the place of the first.
def lastSettings (settings : List Setting) : Settings := settings.foldl Settings.put {}

theorem mem_put {s : Settings} {new setting : Setting} (member : setting ∈ (s.put new).list) :
    setting = new ∨ setting ∈ s.list ∧ setting.key ≠ new.key := by
  unfold Settings.put at member
  by_cases contained : s.contains new.key = true
  · rw [if_pos contained] at member
    obtain ⟨old, inside, same⟩ := List.mem_map.mp member
    by_cases replaced : old.key = new.key
    · simp only [replaced, beq_self_eq_true, if_true] at same
      exact .inl same.symm
    · rw [beq_eq_false_iff_ne.mpr replaced, if_neg Bool.false_ne_true] at same
      exact .inr (same ▸ ⟨inside, replaced⟩)
  · rw [if_neg contained] at member
    rcases List.mem_append.mp member with inside | last
    · have absent : new.key ∉ s.keys := fun known => contained (Settings.contains_iff.mpr known)
      exact .inr ⟨inside, fun same => absent (same ▸ List.mem_map_of_mem inside)⟩
    · exact .inl (List.mem_singleton.mp last)

theorem last_settings_concat (made : List Setting) (new : Setting) :
    lastSettings (made ++ [new]) = (lastSettings made).put new := by
  simp [lastSettings]

theorem last_settings_distinct {made : List Setting} (distinct : (made.map (·.key)).Nodup) :
    (lastSettings made).list = made := by
  induction made using List.reverseRecOn with
  | nil => rfl
  | append_singleton made new ih =>
    rw [List.map_append, List.nodup_append] at distinct
    obtain ⟨earlier, _, apart⟩ := distinct
    have same := ih earlier
    have fresh : new.key ∉ (lastSettings made).keys := by
      rw [Settings.keys, same]
      exact fun known => apart _ known _ List.mem_cons_self rfl
    rw [last_settings_concat, Settings.list_put_fresh fresh, same]

theorem last_of_mem_last_settings {made : List Setting} {setting : Setting}
    (member : setting ∈ (lastSettings made).list) :
    ∃ earlier later, made = earlier ++ setting :: later ∧ ∀ other ∈ later, other.key ≠ setting.key := by
  induction made using List.reverseRecOn with
  | nil => exact absurd member List.not_mem_nil
  | append_singleton made new ih =>
    rw [last_settings_concat] at member
    rcases mem_put member with rfl | ⟨inside, other⟩
    · exact ⟨made, [], rfl, fun other none => absurd none List.not_mem_nil⟩
    · obtain ⟨earlier, later, split, last⟩ := ih inside
      refine ⟨earlier, later ++ [new], by rw [split, List.append_assoc]; rfl, ?_⟩
      intro x among
      rcases List.mem_append.mp among with before | newest
      · exact last x before
      · obtain rfl := List.mem_singleton.mp newest
        exact other.symm

theorem mem_last_settings {made : List Setting} {setting : Setting} (member : setting ∈ (lastSettings made).list) :
    setting ∈ made := by
  obtain ⟨earlier, later, split, _⟩ := last_of_mem_last_settings member
  rw [split]
  exact List.mem_append_right earlier List.mem_cons_self

theorem bindings_sublist (g : Grammar) (receiver : List Char) (items : List Slice) :
    ((bindings g receiver items).map (·.1)).Sublist items := by
  have later : ∀ items : List Slice, ((items.filterMap fun item =>
      (Binding.ofItem? g receiver item).map fun binding => (item, binding)).map (·.1)).Sublist items := by
    intro items
    induction items with
    | nil => exact .slnil
    | cons item rest ih =>
      rw [List.filterMap_cons]
      cases Binding.ofItem? g receiver item with
      | none => exact ih.cons item
      | some binding => exact ih.cons_cons item
  cases items with
  | nil => exact .slnil
  | cons first rest =>
    rw [bindings, List.map_append]
    cases firstBinding? g receiver first with
    | none => exact (later rest).cons first
    | some binding => exact (later rest).cons_cons first

def Cuts (source : List Char) (piece : Slice) : Prop :=
  ∃ front here later, source = front ++ here ++ later ∧ piece.start = size front ∧ piece.stop = size front + size here

theorem slice_of_cuts {source : List Char} {piece : Slice} (cuts : Cuts source piece) :
    Bytewise.slice? source piece.start piece.stop = some (between piece.start piece.stop source) := by
  obtain ⟨front, here, later, parts, start, stop⟩ := cuts
  have cut := Bytewise.slice_parts parts start stop
  rw [cut]
  unfold Bytewise.slice? at cut
  split at cut
  · exact cut.symm
  · contradiction

variable {source : List Char} {c : Collection}

theorem setting_of_follows (g : Grammar) (levels : Nat) (item : Slice) {binding : Binding} {limit : Nat}
    (follows : Bytewise.Collection.Follows source limit c) (above : limit ≤ binding.value.start) (cuts : Cuts source binding.value) :
    c.settingOf g levels item binding = settingFrom g levels source (item, binding) := by
  obtain ⟨front, here, later, parts, start, stop⟩ := cuts
  have raw : (c.source.seek binding.value.start).upTo binding.value.stop =
      between binding.value.start binding.value.stop source := by
    rw [start, stop, follows.here.up_to_seek parts (start ▸ Nat.le_trans follows.before above), between,
      Nat.add_sub_cancel_left, parts, List.append_assoc, drop_bytes_append, take_bytes_append]
  unfold Collection.settingOf settingFrom Collection.rawOf
  rw [raw, follows.indexes.line]

theorem fold_settings (g : Grammar) (levels : Nat) (bound : List (Slice × Binding)) {limit : Nat}
    (follows : Bytewise.Collection.Follows source limit c) (above : ∀ b ∈ bound, limit ≤ b.2.value.start)
    (cuts : ∀ b ∈ bound, Cuts source b.2.value)
    (ordered : bound.Pairwise fun earlier later => earlier.2.value.start ≤ later.2.value.start) :
    (bound.foldl (Collection.add g levels) c).settings.toSettings =
      (bound.map (settingFrom g levels source)).foldl Settings.put c.settings.toSettings := by
  induction bound generalizing c limit with
  | nil => rfl
  | cons b rest ih =>
    obtain ⟨item, binding⟩ := b
    obtain ⟨behind, ordered⟩ := List.pairwise_cons.mp ordered
    have here := above _ List.mem_cons_self
    have made := setting_of_follows g levels item follows here (cuts _ List.mem_cons_self)
    have further := ih (Bytewise.Collection.follows_add g levels item binding follows here) behind
      (fun b member => cuts b (List.mem_cons_of_mem _ member)) ordered
    rw [List.foldl_cons, further, Collection.settings_add, made, SettingTable.toSettings_put]
    rfl

section

variable {host : Host} {source : List Char} {block : Block} {bound : Slice × Binding}
  (located : Block.locate host (stripComments host.grammar source) = .ok block)
  (member : bound ∈ bindings host.grammar block.receiver (statements host.grammar block.body))

include located member

theorem binding_within : bound.1.start ≤ bound.2.value.start ∧ bound.2.value.start ≤ bound.2.value.stop ∧
    bound.2.value.stop ≤ bound.1.stop := by
  obtain ⟨among, reads⟩ := binding_reads member
  have inside := reads.trimmed.lies.bounds
  have stop : bound.1.stop = bound.1.start + size bound.1.text := by
    rw [Slice.stop, (statement_lies located among).1.size_eq]
  omega

theorem binding_cuts : Cuts source bound.2.value := by
  obtain ⟨among, reads⟩ := binding_reads member
  obtain ⟨lies, inked⟩ := statement_lies located among
  exact (faded_strip host.grammar source).read_place lies inked reads

theorem binding_text : Bytewise.slice? (stripComments host.grammar source) bound.2.value.start bound.2.value.stop =
    some bound.2.value.text := by
  obtain ⟨among, reads⟩ := binding_reads member
  obtain ⟨front, piece, later, after, parts, same⟩ := reads.trimmed.lies.trans (statement_lies located among).1
  rw [same, Slice.text_place, Nat.zero_add]
  exact Bytewise.slice_parts parts rfl rfl

end

theorem bindings_ordered (host : Host) (block : Block) :
    (bindings host.grammar block.receiver (statements host.grammar block.body)).Pairwise
      fun earlier later => earlier.1.stop ≤ later.1.start := by
  obtain ⟨_, _, ordered⟩ := statements_stand host.grammar_narrow block.body
  exact List.pairwise_map.mp (ordered.sublist (bindings_sublist host.grammar block.receiver _))

section

variable {host : Host} {source : List Char} {block : Block}
  (located : Block.locate host (stripComments host.grammar source) = .ok block)

include located

theorem values_ordered : (bindings host.grammar block.receiver (statements host.grammar block.body)).Pairwise
    fun earlier later => earlier.2.value.start ≤ later.2.value.start := by
  refine (bindings_ordered host block).imp_of_mem ?_
  intro earlier later first second before
  have inside := binding_within located first
  have inside' := binding_within located second
  omega

theorem settings_of_located (levels : Nat) : (collect host.grammar levels source block).1 =
    lastSettings ((bindings host.grammar block.receiver (statements host.grammar block.body)).map
      (settingFrom host.grammar levels source)) :=
  fold_settings host.grammar levels _ (Bytewise.Collection.follows_start source) (fun _ _ => Nat.zero_le _)
    (fun _ member => binding_cuts located member) (values_ordered located)

end

def assigned (host : Host) (source : List Char) : List (Slice × Binding) :=
  match Block.locate host (stripComments host.grammar source) with
  | .ok block => bindings host.grammar block.receiver (statements host.grammar block.body)
  | .error _ => []

theorem settings_of_valid {registry : Registry} {limits : Limits} {host : Host} {source : List Char}
    (valid : (extract registry limits host source).valid = true) : (extract registry limits host source).settings =
      lastSettings ((assigned host source).map (settingFrom host.grammar limits.maxNestingDepth source)) := by
  obtain ⟨fits, known, block, located⟩ := located_of_valid valid
  rw [extract_located fits known located, assigned, located]
  exact settings_of_located located _

end Extraction

/-- The statements of a configuration are not empty and lie one behind the other inside its body. The value of a
binding lies inside its statement, and its bounds are between characters of the snippet, with its comments or with
blanks for them. The settings are made by the bindings: the text of one is the trimmed source text of its value,
and its line is one more than the line feeds before its statement. -/
theorem extract_provenance (registry : Registry) (limits : Limits) (host : Host) (source : List Char)
    (valid : (extract registry limits host source).valid = true) :
    let g := host.grammar
    let stripped := stripComments g source
    ∃ block, Block.locate host stripped = .ok block ∧
      let items := Extraction.statements g block.body
      let bound := Extraction.bindings g block.receiver items
      let made := bound.map (Extraction.settingFrom g limits.maxNestingDepth source)
      (∀ item ∈ items, block.body.start ≤ item.start ∧ item.start < item.stop ∧ item.stop ≤ block.body.stop ∧
        Bytewise.isBoundary source item.start = true) ∧
      (items.Pairwise fun earlier later => earlier.stop ≤ later.start) ∧
      (∀ b ∈ bound, b.1 ∈ items ∧ b.1.start ≤ b.2.value.start ∧ b.2.value.start ≤ b.2.value.stop ∧
        b.2.value.stop ≤ b.1.stop ∧
        Bytewise.slice? stripped b.2.value.start b.2.value.stop = some b.2.value.text ∧
        Bytewise.slice? source b.2.value.start b.2.value.stop =
          some (between b.2.value.start b.2.value.stop source)) ∧
      (extract registry limits host source).settings = Extraction.lastSettings made ∧
      ∀ setting ∈ (extract registry limits host source).settings.list, setting ∈ made := by
  intro g stripped
  obtain ⟨fits, known, block, located⟩ := located_of_valid valid
  have lies := Block.lies_of_locate located
  obtain ⟨opens, inked, ordered⟩ := statements_stand host.grammar_narrow block.body
  have settings := Extraction.settings_of_located located limits.maxNestingDepth
  refine ⟨block, located, ?_, ordered, ?_, ?_, ?_⟩
  · intro item member
    have within := (opens item member).liesIn.bounds
    have some : size item.text ≠ 0 := fun none => (inked item member).nonempty (size_eq_zero_iff.mp none)
    have stop : item.stop = item.start + size item.text := by rw [Slice.stop, (statement_lies located member).1.size_eq]
    have end' : block.body.stop = block.body.start + size block.body.text := by rw [Slice.stop, lies.size_eq]
    obtain ⟨front, back, parts, start⟩ := statement_place located member
    refine ⟨within.1, by omega, by omega, ?_⟩
    rw [start, parts]
    exact Bytewise.boundary_size front back
  · intro b member
    obtain ⟨first, ordered, last⟩ := Extraction.binding_within located member
    exact ⟨(binding_reads member).1, first, ordered, last, Extraction.binding_text located member,
      Extraction.slice_of_cuts (Extraction.binding_cuts located member)⟩
  · rw [extract_located fits known located]
    exact settings
  · intro setting member
    rw [extract_located fits known located] at member
    exact Extraction.mem_last_settings (settings ▸ member)

theorem extract_provenance_python :
    let source := "sentry_sdk.init( # ä\n  dsn='x',\n  debug=1 # é\n  + 2,\n)".toList
    let result := extract .full {} .python source
    result.valid = true ∧ (result.settings.list.map fun setting => (setting.key, setting.raw, setting.line)) =
      [("dsn", "'x'", 2), ("debug", "1 # é\n  + 2", 3)] := by
  intro source result
  have valid : result.valid = true := by decide +kernel
  obtain ⟨block, located, _, _, _, settings, _⟩ := extract_provenance .full {} .python source valid
  let made (block : Block) := (Extraction.bindings Host.python.grammar block.receiver
    (Extraction.statements Host.python.grammar block.body)).map (Extraction.settingFrom Host.python.grammar 32 source)
  have computed : ((Block.locate .python (stripComments Host.python.grammar source)).toOption.map fun block =>
      (Extraction.lastSettings (made block)).list.map fun setting => (setting.key, setting.raw, setting.line)) =
        some [("dsn", "'x'", 2), ("debug", "1 # é\n  + 2", 3)] := by
    decide +kernel
  rw [located] at computed
  rw [show result.settings = Extraction.lastSettings (made block) from settings]
  exact ⟨valid, Option.some.inj computed⟩

end SnippetReview
