import Mathlib
import SnippetReview.Proofs.Host.PythonStatements
import SnippetReview.Proofs.Snippet.Overwriting

set_option autoImplicit false

namespace SnippetReview

open Text

namespace Binding

theorem stop_of_value {item : Slice} (sized : item.size = size item.text) (inked : Inked item.text) {front later : List Char}
    (split : item.text = front ++ later) (some : (valueFrom item (size front) later).text ≠ []) :
    (valueFrom item (size front) later).stop = item.stop := by
  have room : item.size - size front = size later := by
    rw [sized, split, size_append]
    omega
  have place : valueFrom item (size front) later = (Slice.place (item.start + size front) later []).trim := by
    rw [valueFrom, room, Slice.place, List.append_nil]
  rw [place] at some ⊢
  obtain ⟨_, _, _, same⟩ := Slice.trim_place_eq (item.start + size front) later []
  rw [same, Slice.text_place] at some
  have ink : Inked (trim later) := inked_trim some
  obtain ⟨lead, blank, parts⟩ := trim_start_split later
  -- Nothing is left out at the end, since the statement ends with no blank.
  have last : ∀ c ∈ (trimStart later).getLast?, isBlank c = false := by
    intro c ends
    refine inked.last c ?_
    rw [split, parts, List.getLast?_append, List.getLast?_append, Option.mem_def.mp ends]
    rfl
  rw [trim, trim_end_inked last] at ink
  have trimmed : (Slice.place (item.start + size front) (lead ++ trimStart later ++ []) []).trim =
      Slice.place (item.start + size front + size lead) (trimStart later) ([] ++ []) := Slice.trim_place blank (by simp) ink _ _
  rw [List.append_nil, List.append_nil, ← parts] at trimmed
  have sum := congrArg size parts
  rw [size_append] at sum
  rw [trimmed, Slice.stop, Slice.stop, Slice.start_place, Slice.size_place, sized, split, size_append]
  omega

end Binding

namespace Python

section

variable {a : Argument} (formed : a.WellFormed)

include formed

theorem inked_value : Inked a.value.text := by
  have value := formed.value
  cases shape : a.value with
  | plain s =>
    rw [shape] at value
    exact value.1
  | function f =>
    rw [shape] at value
    have function : f.WellFormed := value
    have word : Inked "lambda".toList := ⟨by decide, by decide, by decide⟩
    have front : "lambda".toList <+: f.text := ⟨Part.join ',' f.first f.others ++ ':' :: (f.gap ++ f.body), by simp [Lambda.text_eq]⟩
    have back : f.body <:+ f.text := ⟨"lambda".toList ++ Part.join ',' f.first f.others ++ ':' :: f.gap, by simp [Lambda.text_eq]⟩
    exact inked_of_ends word function.inked front back

theorem binds_argument (receiver : List Char) (start : Nat) (later : List Char) :
    ∃ b, Binding.ofItem? grammar receiver (Slice.place start a.text later) = some b ∧
      b.Sets (String.ofList a.key) (start + size a.head) a.value.text := by
  have key := clean_key_name formed.key (formed.blanks a.before (by simp))
  have blank := (formed.blanks a.after (by simp)).blank
  have unsigned : ∀ c ∈ '=' :: a.after, c ∉ signs := by
    refine List.forall_mem_cons.mpr ⟨by decide, fun c member => ?_⟩
    exact avoids_of_test (by decide) (formed.blanks a.after (by simp) c member)
  have clear : grammar.clearAt ('=' :: ([] ++ a.after)) = true := (Bool.and_eq_true_iff.mp (silent_of_unsigned unsigned)).1
  obtain ⟨b, found, sets⟩ := Binding.of_token_place (passes_written formed admits_equals) (.inl rfl) clear (by decide)
    (by decide) (by decide) (plain_sign formed formed.sign) key blank (inked_value formed) start later
  have shape : a.key ++ a.before ++ ['='] ++ (a.after ++ a.value.text) = a.text := by simp [Argument.text, Argument.head]
  have head : a.key ++ a.before ++ ['='] ++ a.after = a.head := by simp [Argument.head]
  rw [shape] at found
  rw [head] at sets
  have styles : grammar.bindings = [.token ['=']] := rfl
  refine ⟨b, ?_, sets⟩
  rw [Binding.ofItem?, styles, List.findSome?_cons]
  simp only [Binding.ofStyle?, found]

end

theorem text_of_function {f : Lambda} (formed : f.WellFormed) (a : Argument) :
    ∃ u, f.text = "lambda".toList ++ u ∧ ∀ c ∈ u.head?, isBreak c = true := by
  obtain ⟨u, same, _, apart⟩ := (parameters_among formed a).2
  obtain rfl := List.append_cancel_left (List.append_cancel_left same)
  refine ⟨Part.join ',' f.first f.others ++ ':' :: (f.gap ++ f.body), by simp [Lambda.text_eq], fun c first => ?_⟩
  rw [List.head?_append, Option.mem_def, Option.or_eq_some_iff] at first
  rcases first with inside | ⟨_, colon⟩
  · exact apart c inside
  · obtain rfl := Option.some.inj colon
    decide

theorem scalar_of_function {u : List Char} (apart : ∀ c ∈ u.head?, isBreak c = true) :
    Inferred.scalar? grammar ("lambda".toList ++ u) = some (Inferred.raw ("lambda".toList ++ u) .callback) := by
  have words : ∀ word ∈ grammar.nullWords ++ grammar.trueWords ++ grammar.falseWords, word.head? ≠ some 'l' := by decide
  have other : ∀ list : List (List Char), list ⊆ grammar.nullWords ++ grammar.trueWords ++ grammar.falseWords →
      list.contains ("lambda".toList ++ u) = false := by
    intro list known
    cases found : list.contains ("lambda".toList ++ u) with
    | false => rfl
    | true => exact absurd rfl (words _ (known (List.contains_iff_mem.mp found)))
  rw [Inferred.scalar?, other _ (fun w member => by simp [member]), other _ (fun w member => by simp [member]),
    other _ (fun w member => by simp [member]), function_matches apart]
  rfl

theorem callback_of_function {a : Argument} (formed : a.WellFormed) (function : a.value.isFunction = true) (levels : Nat) :
    (Inferred.within grammar levels a.value.text).type = .callback := by
  have value := formed.value
  cases shape : a.value with
  | plain s =>
    rw [shape] at function
    contradiction
  | function f =>
    rw [shape] at value
    obtain ⟨u, text, apart⟩ := text_of_function value a
    have scalar := scalar_of_function apart
    rw [← text] at scalar
    have unwrapped : Inferred.unwrapOptional grammar f.text = f.text := rfl
    change (Inferred.within grammar levels f.text).type = .callback
    rw [Inferred.within, unwrapped, scalar]
    rfl

theorem forall_statements {arguments : List Argument} (start : Nat) (later : List Char) :
    List.Forall₂ (fun p item => ∃ offset rest, item = Slice.place offset p.1.text rest ∧ p.2 = offset + size p.1.head)
      (Argument.placed start arguments) (Argument.statements start later arguments) := by
  induction arguments generalizing start with
  | nil => exact .nil
  | cons a rest ih => exact .cons ⟨_, _, rfl, by rw [size_append, Nat.add_assoc]⟩ (ih _)

theorem mem_of_placed {arguments : List Argument} {start : Nat} {p : Argument × Nat}
    (member : p ∈ Argument.placed start arguments) : p.1 ∈ arguments := by
  rw [← Argument.placed_arguments start arguments]
  exact List.mem_map_of_mem member

theorem bindings_settled {call : Call} (formed : call.WellFormed) (settled : call.Settled) (receiver : List Char)
    (start : Nat) (later : List Char) :
    List.Forall₂ (fun p b => b.2.Sets (String.ofList p.1.key) p.2 p.1.value.text) (Argument.placed start call.arguments)
      (Extraction.bindings grammar receiver (Extraction.statements grammar (Slice.place start call.text later))) := by
  rw [statements_settled formed settled]
  refine Extraction.forall_bindings (forall_statements start _) fun p item member ⟨offset, rest, place, sum⟩ => ?_
  have among := mem_of_placed member
  obtain ⟨b, found, sets⟩ := binds_argument (formed.arguments p.1 among) receiver offset rest
  rw [← place] at found
  exact ⟨b, found, by rwa [sum]⟩

theorem type_of_setting {a : Argument} (formed : a.WellFormed) (function : a.value.isFunction = true) {b : Slice × Binding}
    {key : String} {start : Nat} (set : b.2.Sets key start a.value.text) (levels : Nat) (source : List Char) :
    (Extraction.settingFrom grammar levels source b).type = .callback := by
  have valued : Extraction.Collection.valueOf grammar levels b.2 = Inferred.within grammar levels a.value.text := by
    rw [Extraction.Collection.valueOf, set.isMethod, set.text, Inferred.ofText, trim_inked (inked_value formed)]
    rfl
  rw [← callback_of_function formed function levels, ← valued]
  rfl

theorem settings_distinct {call : Call} (formed : call.WellFormed) {start : Nat} {assigned : List (Slice × Binding)}
    (sets : List.Forall₂ (fun p b => b.2.Sets (String.ofList p.1.key) p.2 p.1.value.text)
      (Argument.placed start call.arguments) assigned) (levels : Nat) (source : List Char) :
    (Extraction.lastSettings (assigned.map (Extraction.settingFrom grammar levels source))).list =
      assigned.map (Extraction.settingFrom grammar levels source) := by
  apply Extraction.last_settings_distinct
  have keys : (assigned.map (Extraction.settingFrom grammar levels source)).map (·.key) =
      (call.arguments.map (·.key)).map String.ofList := by
    rw [List.map_map, List.map_map, ← Argument.placed_arguments start call.arguments, List.map_map, ← List.forall₂_eq_eq_eq,
      List.forall₂_map_left_iff, List.forall₂_map_right_iff]
    exact sets.flip.imp fun b p set => set.key
  rw [keys, List.Nodup, List.pairwise_map]
  exact formed.distinct.imp fun other same => other (String.ofList_injective same)

theorem stop_of_binding {body : Slice} {receiver : List Char} {b : Slice × Binding}
    (member : b ∈ Extraction.bindings grammar receiver (Extraction.statements grammar body)) (some : b.2.value.text ≠ []) :
    b.1 ∈ Extraction.statements grammar body ∧ b.2.value.stop = b.1.stop := by
  obtain ⟨opens, inked, _⟩ := statements_stand Host.python.grammar_narrow body
  obtain ⟨among, read⟩ := item_of_bindings member
  refine ⟨among, ?_⟩
  rcases read with found | whole
  · have token : Binding.ofToken? grammar b.1 ['='] = Option.some b.2 := by
      have styles : grammar.bindings = [.token ['=']] := rfl
      rwa [Binding.ofItem?, styles, List.findSome?_singleton] at found
    obtain ⟨front, later, split, value⟩ := Binding.value_of_token (by decide) token
    rw [value] at some ⊢
    exact Binding.stop_of_value (opens b.1 among).liesIn.size_eq (inked b.1 among) split some
  · rw [whole]

theorem bindings_unsettled {call : Call} (formed : call.WellFormed) (unsettled : ¬ call.Settled) (receiver : List Char)
    (start : Nat) (later : List Char) : ∃ p ∈ Argument.placed start call.arguments,
      ∀ b ∈ Extraction.bindings grammar receiver (Extraction.statements grammar (Slice.place start call.text later)),
        b.2.value.start = p.2 → b.2.value.stop ≠ p.2 + size p.1.value.text := by
  obtain ⟨p, placed, apart⟩ := statements_unsettled formed unsettled start later
  refine ⟨p, placed, fun b member begins ends => ?_⟩
  obtain ⟨opens, inked, _⟩ := statements_stand Host.python.grammar_narrow (Slice.place start call.text later)
  have sized := (reads_of_bindings Host.python.grammar_narrow opens inked member).2.trimmed.lies.size_eq
  have some : b.2.value.text ≠ [] := by
    intro none
    rw [Slice.stop, sized, none, begins, Nat.add_left_cancel_iff] at ends
    exact (inked_value (formed.arguments p.1 (mem_of_placed placed))).nonempty (size_eq_zero_iff.mp ends.symm)
  obtain ⟨among, reach⟩ := stop_of_binding member some
  exact apart b.1 among (reach.symm.trans ends)

theorem locate_call {stripped : List Char} {anchor : Anchor} {found : Pattern.Match} {call : Call} {later : List Char}
    (first : Block.firstAnchor? grammar (CodeMap.ofText grammar stripped) stripped = some (anchor, found))
    (written : found.stop.rest = call.text ++ ')' :: later) (formed : call.WellFormed) : Block.locate .python stripped =
      .ok ⟨Slice.place found.stop.offset call.text (')' :: later), found.group.getD grammar.defaultReceiver⟩ := by
  have ends : ∀ anchor ∈ grammar.anchors, anchor.bodyEnd = .delimiter ')' := by decide
  obtain ⟨known, _⟩ := Block.first_anchor_mem first
  obtain ⟨v, closes, offset, _⟩ : ∃ v, matchingClose grammar (call.text ++ ')' :: later) ')' = some v ∧
      v.offset = size call.text ∧ v.rest = later :=
    matching_close_passage (passes_call formed) (by decide) (by decide) (by decide) fun c open' => by simpa using open'
  have located : Block.locate .python stripped = Block.ofAnchor grammar stripped anchor found := by
    unfold Block.locate
    dsimp only
    rw [first]
  rw [located, Block.ofAnchor]
  simp only [ends anchor known, Block.bodySize?, written, closes, Option.map_some, offset]
  rfl

end Python

namespace Extraction

variable {host : Host} {source : List Char} {block : Block}

theorem raw_of_binding (located : Block.locate host (stripComments host.grammar source) = .ok block) (levels : Nat)
    {b : Slice × Binding}
    (member : b ∈ bindings host.grammar block.receiver (statements host.grammar block.body)) (inked : Inked b.2.value.text) :
    (settingFrom host.grammar levels source b).raw = String.ofList (between b.2.value.start b.2.value.stop source) := by
  obtain ⟨among, reads⟩ := binding_reads member
  have lies := reads.trimmed.lies.trans (statement_lies located among).1
  obtain ⟨front, here, later, parts, start, stop, inked'⟩ := (faded_strip host.grammar source).inked_piece lies inked
  have cut : between b.2.value.start b.2.value.stop source = here := by
    rw [between, start, stop, Nat.add_sub_cancel_left, parts, List.append_assoc, drop_bytes_append, take_bytes_append]
  have raw : (settingFrom host.grammar levels source b).raw =
      String.ofList (trim (between b.2.value.start b.2.value.stop source)) := rfl
  rw [raw, cut, trim_inked inked']

end Extraction

variable {registry : Registry} {limits : Limits} {source : List Char}

/-- A call with keyword arguments is read argument by argument just where no function ends with a parameter that
takes further arguments in behind a comma. Then each argument makes a setting, in the order of the arguments, with
the source text of its value, and the functions are callbacks. -/
theorem extract_keyword_arguments {anchor : Anchor} {found : Pattern.Match} {call : Python.Call} {later : List Char}
    (fits : size source ≤ limits.maxInputBytes) (known : registry.contains .python = true)
    (first : Block.firstAnchor? Python.grammar (CodeMap.ofText Python.grammar (stripComments Python.grammar source))
      (stripComments Python.grammar source) = some (anchor, found))
    (written : found.stop.rest = call.text ++ ')' :: later) (formed : call.WellFormed) :
    let arguments := Python.Argument.placed found.stop.offset call.arguments
    let assigned := Extraction.assigned .python source
    let result := extract registry limits .python source
    result.valid = true ∧
      (assigned.map (fun b => (b.2.key, b.2.value.start, b.2.value.stop)) =
          arguments.map (fun p => (String.ofList p.1.key, p.2, p.2 + size p.1.value.text)) ↔ call.Settled) ∧
      (call.Settled → List.Forall₂ (fun p setting => setting.key = String.ofList p.1.key ∧
        setting.raw = String.ofList (between p.2 (p.2 + size p.1.value.text) source) ∧
        (p.1.value.isFunction = true → setting.type = .callback)) arguments result.settings.list) := by
  intro arguments assigned result
  have located := Python.locate_call first written formed
  have collected := extract_located fits known located
  have bound : assigned = Extraction.bindings Python.grammar (found.group.getD Python.grammar.defaultReceiver)
      (Extraction.statements Python.grammar (Slice.place found.stop.offset call.text (')' :: later))) := by
    simp only [assigned, Extraction.assigned, located]
  have sets (settled : call.Settled) :
      List.Forall₂ (fun p b => b.2.Sets (String.ofList p.1.key) p.2 p.1.value.text) arguments assigned := by
    rw [bound]
    exact Python.bindings_settled formed settled _ _ _
  refine ⟨by rw [show result = _ from collected], ⟨fun same => ?_, fun settled => ?_⟩, fun settled => ?_⟩
  · by_contra unsettled
    obtain ⟨p, placed, apart⟩ := Python.bindings_unsettled formed unsettled
      (found.group.getD Python.grammar.defaultReceiver) found.stop.offset (')' :: later)
    have member : (String.ofList p.1.key, p.2, p.2 + size p.1.value.text) ∈
        assigned.map fun b => (b.2.key, b.2.value.start, b.2.value.stop) := by
      rw [same]
      exact List.mem_map_of_mem placed
    obtain ⟨b, among, equal⟩ := List.mem_map.mp member
    obtain ⟨_, begins, ends⟩ : _ ∧ b.2.value.start = p.2 ∧ b.2.value.stop = _ := by simpa using equal
    exact apart b (bound ▸ among) begins ends
  · rw [← List.forall₂_eq_eq_eq, List.forall₂_map_left_iff, List.forall₂_map_right_iff]
    refine (sets settled).flip.imp fun b p set => ?_
    rw [set.key, Slice.stop, set.start, set.size]
  · have made : result.settings =
        Extraction.lastSettings (assigned.map (Extraction.settingFrom Python.grammar limits.maxNestingDepth source)) := by
      rw [bound]
      exact (congrArg Extraction.settings collected).trans (Extraction.settings_of_located located limits.maxNestingDepth)
    rw [made, Python.settings_distinct formed (sets settled), List.forall₂_map_right_iff]
    -- Each value is that of an argument of the call and belongs to a binding of its configuration.
    have both := (List.forall₂_and_left _ _).mpr ⟨fun p member => Python.mem_of_placed member, sets settled⟩
    have all := (List.forall₂_and_left _ _).mpr ⟨fun b (member : b ∈ assigned) => member, both.flip⟩
    refine all.flip.imp fun p b both => ?_
    obtain ⟨member, among, set⟩ := both
    have inked := Python.inked_value (formed.arguments p.1 among)
    have raw := Extraction.raw_of_binding located limits.maxNestingDepth (bound ▸ member) (by rwa [set.text])
    refine ⟨set.key, ?_, fun function => ?_⟩
    · rw [raw, Slice.stop, set.start, set.size]
    · exact Python.type_of_setting (formed.arguments p.1 among) function set limits.maxNestingDepth source

theorem extract_keyword_arguments_mixed :
    let source := "sentry_sdk.init( # all\n  before_send=lambda event, *, hint=None: event,\n  debug = True, release='a, b',)".toList
    let send : Python.Lambda := ⟨⟨[' '], "event".toList, []⟩,
      [⟨[' '], ['*'], []⟩, ⟨[' '], "hint=None".toList, []⟩], [' '], "event".toList⟩
    let call : Python.Call := ⟨[⟨"      \n  ".toList, "before_send".toList, [], [], .function send, []⟩,
      ⟨"\n  ".toList, "debug".toList, [' '], [' '], .plain "True".toList, []⟩,
      ⟨[' '], "release".toList, [], [], .plain "'a, b'".toList, []⟩], some []⟩
    let result := extract .full {} .python source
    call.WellFormed ∧ call.Settled ∧ result.valid = true ∧ result.settings.list.map (fun setting => (setting.key, setting.raw)) =
      [("before_send", "lambda event, *, hint=None: event"), ("debug", "True"), ("release", "'a, b'")] := by
  intro source send call result
  have function : send.WellFormed := by
    refine ⟨by decide, ?_, by decide +kernel, by decide, fun _ => by decide, by decide, ?_, by decide +kernel, by decide⟩
    · intro p member
      simp only [send, List.mem_cons, List.not_mem_nil, or_false] at member
      rcases member with rfl | rfl | rfl <;> exact .inr ⟨by decide, by decide, by decide⟩
    · exact ⟨by decide, by decide, by decide⟩
  have formed : call.WellFormed := by
    refine ⟨?_, by decide, by decide⟩
    intro a member
    simp only [call, List.mem_cons, List.not_mem_nil, or_false] at member
    rcases member with rfl | rfl | rfl
    · exact ⟨by decide, by decide +kernel, function, by decide⟩
    · exact ⟨by decide, by decide +kernel, ⟨⟨by decide, by decide, by decide⟩, by decide +kernel, by decide +kernel⟩, by decide⟩
    · exact ⟨by decide, by decide +kernel, ⟨⟨by decide, by decide, by decide⟩, by decide +kernel, by decide +kernel⟩, by decide⟩
  have settled : call.Settled := by
    intro a member
    simp only [call, List.mem_cons, List.not_mem_nil, or_false] at member
    rcases member with rfl | rfl | rfl
    · change send.Settled
      intro p last
      obtain rfl := Option.some.inj last
      decide
    · trivial
    · trivial
  let stripped := stripComments Python.grammar source
  have opened : (Block.firstAnchor? Python.grammar (CodeMap.ofText Python.grammar stripped) stripped).map
      (fun p => (p.2.stop.offset, p.2.stop.rest)) = some (16, call.text ++ ')' :: []) := by
    decide +kernel
  obtain ⟨⟨anchor, found⟩, first, place⟩ := Option.map_eq_some_iff.mp opened
  obtain ⟨offset, written⟩ := Prod.mk.inj place
  have fits : size source ≤ Limits.maxInputBytes {} := by decide +kernel
  have known : Registry.full.contains .python = true := by decide
  obtain ⟨valid, _, read⟩ := extract_keyword_arguments fits known first written formed
  have same : result.settings.list.map (fun setting => (setting.key, setting.raw)) =
      (Python.Argument.placed found.stop.offset call.arguments).map fun p =>
        (String.ofList p.1.key, String.ofList (between p.2 (p.2 + size p.1.value.text) source)) := by
    rw [← List.forall₂_eq_eq_eq, List.forall₂_map_left_iff, List.forall₂_map_right_iff]
    exact (read settled).flip.imp fun setting p ⟨key, raw, _⟩ => Prod.ext key raw
  refine ⟨formed, settled, valid, ?_⟩
  rw [same, show found.stop.offset = 16 from offset]
  decide +kernel

-- The parameter in front of the colon takes all further arguments in, and the value runs on behind the body.
theorem extract_keyword_arguments_swallowed :
    let source := "sentry_sdk.init(before_send=lambda event, *args: event, debug=True)".toList
    let result := extract .full {} .python source
    result.valid = true ∧ result.settings.list.map (fun setting => (setting.key, setting.raw)) =
      [("before_send", "lambda event, *args: event, debug=True")] := by
  intro source result
  have valid : result.valid = true := by decide +kernel
  refine ⟨valid, ?_⟩
  rw [show result.settings = _ from Extraction.settings_of_valid valid]
  decide +kernel

end SnippetReview
