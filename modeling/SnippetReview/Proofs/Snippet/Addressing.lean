import SnippetReview.Proofs.Snippet.Provenance

/- Statements that address the receiver of a configuration. Where an anchor names the receiver, the styles of
   the language bind statements that begin with it and a dot. C# has one more style, for the initializer of an
   object, and it is tried on these statements as well. -/

set_option autoImplicit false

namespace SnippetReview

open Text

def Text.Slice.Addresses (receiver : List Char) (item : Slice) : Prop := receiver ++ ['.'] <+: item.text

instance (receiver : List Char) (item : Slice) : Decidable (item.Addresses receiver) :=
  inferInstanceAs (Decidable (_ <+: _))

def BindingStyle.isAddressed : BindingStyle → Bool
  | .receiver | .setter => true
  | .token _ | .method => false

namespace Binding

variable {g : Grammar} {receiver : List Char} {item : Slice} {b : Binding}

theorem addresses_of_after {rest : List Char} (after : afterReceiver? receiver item.text = some rest) :
    item.Addresses receiver := by
  have split := after_receiver_split after
  exact ⟨rest, by rw [split]; simp⟩

theorem addresses_of_style {style : BindingStyle} (addressed : style.isAddressed = true)
    (bound : ofStyle? g receiver item style = some b) : item.Addresses receiver := by
  cases style with
  | receiver =>
    obtain ⟨rest, after, _⟩ := Option.bind_eq_some_iff.mp bound
    exact addresses_of_after after
  | setter =>
    obtain ⟨rest, after, _⟩ := Option.bind_eq_some_iff.mp bound
    exact addresses_of_after after
  | token | method => contradiction

theorem of_item_unaddressed (other : ¬ item.Addresses receiver) :
    ofItem? g receiver item = (g.bindings.filter fun style => !style.isAddressed).findSome? (ofStyle? g receiver item) := by
  -- A style that wants the receiver reads nothing here, so that it may be left out of the search.
  unfold ofItem?
  induction g.bindings with
  | nil => rfl
  | cons style rest ih =>
    cases addressed : style.isAddressed with
    | true =>
      have unread : ofStyle? g receiver item style = none := by
        cases bound : ofStyle? g receiver item style with
        | none => rfl
        | some b => exact absurd (addresses_of_style addressed bound) other
      simp [addressed, unread, ih]
    | false => simp [List.findSome?_cons, addressed, ih]

end Binding

namespace Extraction

theorem mem_bindings_iff {g : Grammar} {receiver : List Char} {items : List Slice} {b : Slice × Binding}
    (unplaced : g.positionalKey = none) :
    b ∈ bindings g receiver items ↔ b.1 ∈ items ∧ Binding.ofItem? g receiver b.1 = some b.2 := by
  obtain ⟨item, binding⟩ := b
  -- Only a positional key would make the first statement differ from the others.
  have alike : bindings g receiver items =
      items.filterMap fun item => (Binding.ofItem? g receiver item).map fun binding => (item, binding) := by
    cases items with
    | nil => rfl
    | cons first rest =>
      cases bound : Binding.ofItem? g receiver first <;> simp [bindings, firstBinding?, unplaced, bound]
  rw [alike, List.mem_filterMap]
  constructor
  · rintro ⟨item', among, bound⟩
    obtain ⟨binding', read, same⟩ := Option.map_eq_some_iff.mp bound
    obtain ⟨rfl, rfl⟩ := Prod.mk.inj same
    exact ⟨among, read⟩
  · rintro ⟨among, read⟩
    exact ⟨item, among, by simp [read]⟩

end Extraction

theorem Host.styles_of_grouped (host : Host) : ∀ anchor ∈ host.grammar.anchors, anchor.pattern.remembers = true →
    host.grammar.positionalKey = none ∧ host.grammar.bindings.filter (fun style => !style.isAddressed) =
      if host = .dotnet then [.token ['=']] else [] := by
  cases host <;> decide

theorem Binding.of_item_elsewhere {host : Host} {anchor : Anchor} (known : anchor ∈ host.grammar.anchors)
    (grouped : anchor.pattern.remembers = true) {receiver : List Char} {item : Slice}
    (other : ¬ item.Addresses receiver) : ofItem? host.grammar receiver item =
      if host = .dotnet then ofToken? host.grammar item ['='] else none := by
  rw [of_item_unaddressed other, (host.styles_of_grouped anchor known grouped).2]
  by_cases initializers : host = .dotnet
  · rw [if_pos initializers, if_pos initializers, List.findSome?_singleton]
    rfl
  · rw [if_neg initializers, if_neg initializers]
    rfl

theorem Block.receiver_of_anchor {g : Grammar} {stripped : List Char} {anchor : Anchor} {found : Pattern.Match}
    {block : Block} (opens : ofAnchor g stripped anchor found = .ok block) :
    block.receiver = found.group.getD g.defaultReceiver := by
  unfold ofAnchor at opens
  dsimp only at opens
  split at opens
  · contradiction
  · obtain rfl := Except.ok.inj opens
    rfl

/-- Where an anchor names the receiver, each setting comes from a statement that addresses it, or the language is C#
and the statement is read as that of an initializer. All bindings are addressed just where C# has no other
statement that can be read so. -/
theorem extract_addressed {registry : Registry} {limits : Limits} {host : Host} {source receiver : List Char}
    {anchor : Anchor} {found : Pattern.Match} (valid : (extract registry limits host source).valid = true)
    (first : Block.firstAnchor? host.grammar (CodeMap.ofText host.grammar (stripComments host.grammar source))
      (stripComments host.grammar source) = some (anchor, found))
    (named : found.group = some receiver) :
    let g := host.grammar
    ∃ block, Block.locate host (stripComments g source) = .ok block ∧ block.receiver = receiver ∧
      let items := Extraction.statements g block.body
      let bound := Extraction.bindings g receiver items
      (∀ setting ∈ (extract registry limits host source).settings.list, ∃ b ∈ bound,
        setting = Extraction.settingFrom g limits.maxNestingDepth source b ∧
          (b.1.Addresses receiver ∨ host = .dotnet ∧ Binding.ofToken? g b.1 ['='] = some b.2)) ∧
      ((∀ b ∈ bound, b.1.Addresses receiver) ↔
        (host = .dotnet → ∀ item ∈ items, ¬ item.Addresses receiver → Binding.ofToken? g item ['='] = none)) := by
  intro g
  obtain ⟨fits, known, block, located⟩ := located_of_valid valid
  obtain ⟨listed, matched, _⟩ := Block.first_anchor_mem first
  have grouped := Pattern.remembers_of_group matched named
  have unplaced := (host.styles_of_grouped anchor listed grouped).1
  have opens : Block.ofAnchor g (stripComments g source) anchor found = .ok block := by
    unfold Block.locate at located
    dsimp only at located
    rwa [first] at located
  obtain rfl : block.receiver = receiver := by rw [Block.receiver_of_anchor opens, named, Option.getD_some]
  refine ⟨block, located, rfl, ?_⟩
  intro items bound
  -- Outside C# no style is left for a statement that does not address the receiver.
  have elsewhere : ∀ item, ¬ item.Addresses block.receiver → Binding.ofItem? g block.receiver item =
      if host = .dotnet then Binding.ofToken? g item ['='] else none :=
    fun item other => Binding.of_item_elsewhere listed grouped other
  have read : ∀ b ∈ bound, b.1.Addresses block.receiver ∨ host = .dotnet ∧ Binding.ofToken? g b.1 ['='] = some b.2 := by
    intro b member
    obtain ⟨_, binds⟩ := (Extraction.mem_bindings_iff unplaced).mp member
    by_cases addressed : b.1.Addresses block.receiver
    · exact .inl addressed
    · rw [elsewhere b.1 addressed] at binds
      by_cases initializers : host = .dotnet
      · exact .inr ⟨initializers, by rwa [if_pos initializers] at binds⟩
      · rw [if_neg initializers] at binds
        contradiction
  refine ⟨?_, ?_, ?_⟩
  · intro setting member
    rw [extract_located fits known located] at member
    have made := Extraction.mem_last_settings (Extraction.settings_of_located located limits.maxNestingDepth ▸ member)
    obtain ⟨b, among, rfl⟩ := List.mem_map.mp made
    exact ⟨b, among, rfl, read b among⟩
  · intro all initializers item among other
    cases bound' : Binding.ofToken? g item ['='] with
    | none => rfl
    | some b =>
      have member : (item, b) ∈ bound :=
        (Extraction.mem_bindings_iff unplaced).mpr ⟨among, by rw [elsewhere item other, if_pos initializers, bound']⟩
      exact absurd (all _ member) other
  · intro silent b member
    by_contra other
    obtain ⟨initializers, binds⟩ := (read b member).resolve_left other
    obtain ⟨among, _⟩ := (Extraction.mem_bindings_iff unplaced).mp member
    rw [silent initializers b.1 among other] at binds
    contradiction

theorem extract_addressed_ruby :
    let source := "Sentry.init do |config|\n  config.dsn = key\n  other.debug = true\n  config.release = '1'\nend".toList
    let result := extract .full {} .ruby source
    result.valid = true ∧ ∃ block, Block.locate .ruby (stripComments Host.ruby.grammar source) = .ok block ∧
      block.receiver = "config".toList ∧
      ∀ b ∈ Extraction.bindings Host.ruby.grammar block.receiver (Extraction.statements Host.ruby.grammar block.body),
        b.1.Addresses "config".toList := by
  intro source result
  have valid : result.valid = true := by decide +kernel
  let stripped := stripComments Host.ruby.grammar source
  have opened : (Block.firstAnchor? Host.ruby.grammar (CodeMap.ofText Host.ruby.grammar stripped) stripped).map
      (·.2.group) = some (some "config".toList) := by
    decide +kernel
  obtain ⟨⟨anchor, found⟩, first, named⟩ := Option.map_eq_some_iff.mp opened
  obtain ⟨block, located, receiver, _, addressed⟩ := extract_addressed valid first named
  refine ⟨valid, block, located, receiver, ?_⟩
  rw [receiver]
  exact addressed.mpr fun other => absurd other (by decide)

-- In a lambda of C# a local variable is read as an option.
theorem extract_addressed_local :
    let source := "SentrySdk.Init(o => \x7b timeout = 5; o.Dsn = key; \x7d);".toList
    let g := Host.dotnet.grammar
    let result := extract .full {} .dotnet source
    result.valid = true ∧
      (Block.firstAnchor? g (CodeMap.ofText g source) source).map (·.2.group) = some (some ['o']) ∧
      (Extraction.assigned .dotnet source).map (fun b => (b.2.key, decide (b.1.Addresses ['o']))) =
        [("timeout", false), ("Dsn", true)] ∧
      result.settings.list.map (fun setting => (setting.key, setting.raw)) = [("timeout", "5"), ("Dsn", "key")] := by
  intro source g result
  have valid : result.valid = true := by decide +kernel
  refine ⟨valid, by decide +kernel, by decide +kernel, ?_⟩
  rw [show result.settings = _ from Extraction.settings_of_valid valid]
  decide +kernel

end SnippetReview
