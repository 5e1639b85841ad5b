import SnippetReview.Proofs.Snippet.Gathering
import SnippetReview.Proofs.Snippet.Provenance

set_option autoImplicit false

namespace SnippetReview

open Text

namespace Notice

def again? (n : Notice) : Option (String × Option Position) :=
  match n.problem with
  | .setAgain key _ => some (key, n.position)
  | _ => none

def deep? (n : Notice) : Option (String × Nat × Option Position) :=
  match n.problem with
  | .tooDeep key levels => some (key, levels, n.position)
  | _ => none

variable (key : String) (count : Nat) (position : Option Position)

@[simp]
theorem again_of_repeat : again? ⟨.setAgain key count, position⟩ = some (key, position) := rfl

@[simp]
theorem again_of_depth : again? ⟨.tooDeep key count, position⟩ = none := rfl

@[simp]
theorem deep_of_repeat : deep? ⟨.setAgain key count, position⟩ = none := rfl

@[simp]
theorem deep_of_depth : deep? ⟨.tooDeep key count, position⟩ = some (key, count, position) := rfl

end Notice

namespace Extraction

open Collection

section

variable (g : Grammar) (levels : Nat) (source : List Char)

def isDeep (b : Slice × Binding) : Bool := (valueOf g levels b.2).tooDeep

def lineOf (b : Slice × Binding) : Nat := (takeBytes b.1.start source).count '\n' + 1

def placeOf (b : Slice × Binding) : Option Position := some (Position.of source b.1.start)

-- What is noted about a binding that comes after others, the latest of these first.
def noticesOf (earlier : List (Slice × Binding)) (b : Slice × Binding) : List Notice :=
  (if isDeep g levels b then [⟨.tooDeep b.2.key levels, placeOf source b⟩] else [])
    ++ ((earlier.find? (·.2.key == b.2.key)).map fun last =>
      ⟨.setAgain b.2.key (lineOf source last), placeOf source b⟩).toList

def noticesFrom (earlier : List (Slice × Binding)) : List (Slice × Binding) → List Notice
  | [] => []
  | b :: rest => noticesOf g levels source earlier b ++ noticesFrom (b :: earlier) rest

-- The bindings whose key is known, or is that of an earlier one of them.
def overwriting (known : List String) : List (Slice × Binding) → List (Slice × Binding)
  | [] => []
  | b :: rest => (if b.2.key ∈ known then [b] else []) ++ overwriting (b.2.key :: known) rest

end

variable {g : Grammar} {levels : Nat} {source : List Char}

namespace Collection

variable {c : Collection}

theorem warnings_warn (indexes : c.lines.Indexes source) (offset : Nat) (problem : Problem) :
    (c.warn offset problem).warnings = ⟨problem, some (Position.of source offset)⟩ :: c.warnings := by
  have found := congrArg Prod.fst (LineIndex.position_eq indexes offset)
  simp [warn, found]

theorem warnings_note_depth (g : Grammar) (levels : Nat) (item : Slice) (binding : Binding)
    (indexes : c.lines.Indexes source) :
    (c.noteDepth g levels item binding).warnings =
      (if isDeep g levels (item, binding) then [⟨.tooDeep binding.key levels, placeOf source (item, binding)⟩] else [])
        ++ c.warnings := by
  by_cases deep : (valueOf g levels binding).tooDeep
  · simp [noteDepth, isDeep, placeOf, deep, warnings_warn indexes]
  · simp [noteDepth, isDeep, deep]

theorem warnings_note_repeat (item : Slice) (binding : Binding) (indexes : c.lines.Indexes source) :
    (c.noteRepeat item binding).warnings =
      ((c.settings.get? binding.key).map fun earlier =>
        ⟨.setAgain binding.key earlier.line, placeOf source (item, binding)⟩).toList ++ c.warnings := by
  unfold noteRepeat
  cases c.settings.get? binding.key with
  | none => rfl
  | some earlier => exact warnings_warn indexes item.start _

structure Recorded (g : Grammar) (levels : Nat) (source : List Char) (earlier : List (Slice × Binding)) (limit : Nat)
    (c : Collection) : Prop where
  follows : Bytewise.Collection.Follows source limit c
  get : ∀ key, c.settings.get? key = (earlier.find? (·.2.key == key)).map (settingFrom g levels source)

variable {earlier : List (Slice × Binding)} {limit : Nat} {b : Slice × Binding}

theorem Recorded.add (recorded : Recorded g levels source earlier limit c) (above : limit ≤ b.2.value.start)
    (cuts : Cuts source b.2.value) : Recorded g levels source (b :: earlier) b.2.value.start (c.add g levels b) := by
  obtain ⟨item, binding⟩ := b
  refine ⟨Bytewise.Collection.follows_add g levels item binding recorded.follows above, fun key => ?_⟩
  have made := setting_of_follows g levels item recorded.follows above cuts
  have before := recorded.get key
  rw [SettingTable.get?_eq] at before
  rw [SettingTable.get?_eq, settings_add, made, SettingTable.toSettings_put, Settings.get_put, before, List.find?_cons]
  change (if binding.key == key then _ else _) = _
  cases binding.key == key <;> rfl

theorem Recorded.warnings_add (recorded : Recorded g levels source earlier limit c) (b : Slice × Binding) :
    (c.add g levels b).warnings.reverse = c.warnings.reverse ++ noticesOf g levels source earlier b := by
  obtain ⟨item, binding⟩ := b
  let sought := { c with source := c.source.seek binding.value.start }
  have known : sought.lines.Indexes source := recorded.follows.indexes
  have deep := warnings_note_depth g levels item binding known
  obtain ⟨settings, _, _⟩ := note_depth_spec g levels sought item binding
  have noted : (sought.noteDepth g levels item binding).lines.Indexes source := by
    unfold noteDepth
    split
    · exact known.position item.start
    · exact known
  have again := warnings_note_repeat item binding noted
  have before : sought.settings.get? binding.key = _ := recorded.get binding.key
  rw [settings, before, deep] at again
  rw [add_eq]
  change ((sought.noteDepth g levels item binding).noteRepeat item binding).warnings.reverse = _
  rw [again, noticesOf]
  cases earlier.find? (·.2.key == binding.key) <;> cases isDeep g levels (item, binding) <;>
    simp [lineOf, settingFrom, sought]

theorem Recorded.warnings_fold (bound : List (Slice × Binding)) (recorded : Recorded g levels source earlier limit c)
    (above : ∀ b ∈ bound, limit ≤ b.2.value.start) (cuts : ∀ b ∈ bound, Cuts source b.2.value)
    (ordered : bound.Pairwise fun earlier later => earlier.2.value.start ≤ later.2.value.start) :
    (bound.foldl (Collection.add g levels) c).warnings.reverse =
      c.warnings.reverse ++ noticesFrom g levels source earlier bound := by
  -- Each binding that is taken in joins those it is compared with next, and the cursor moves on to its value.
  induction bound generalizing c earlier limit with
  | nil => simp [noticesFrom]
  | cons b rest ih =>
    obtain ⟨behind, ordered⟩ := List.pairwise_cons.mp ordered
    have next := recorded.add (above b List.mem_cons_self) (cuts b List.mem_cons_self)
    have further := ih next behind (fun b member => cuts b (List.mem_cons_of_mem _ member)) ordered
    rw [List.foldl_cons, further, recorded.warnings_add, List.append_assoc]
    rfl

end Collection

theorem notices_of_located {host : Host} {block : Block}
    (located : Block.locate host (stripComments host.grammar source) = .ok block) (levels : Nat) :
    (collect host.grammar levels source block).2 =
      noticesFrom host.grammar levels source [] (bindings host.grammar block.receiver (statements host.grammar block.body)) := by
  have start : Recorded host.grammar levels source [] 0 ⟨.empty, [], LineIndex.ofText source, Cursor.start source⟩ := by
    refine ⟨Bytewise.Collection.follows_start source, fun key => ?_⟩
    rw [SettingTable.get?_eq]
    rfl
  exact start.warnings_fold _ (fun _ _ => Nat.zero_le _) (fun _ member => binding_cuts located member)
    (values_ordered located)

theorem warnings_of_valid {registry : Registry} {limits : Limits} {host : Host}
    (valid : (extract registry limits host source).valid = true) : (extract registry limits host source).warnings =
      noticesFrom host.grammar limits.maxNestingDepth source [] (assigned host source) := by
  obtain ⟨fits, known, block, located⟩ := located_of_valid valid
  rw [extract_located fits known located, assigned, located]
  exact notices_of_located located _

theorem warnings_of_invalid {registry : Registry} {limits : Limits} {host : Host}
    (invalid : (extract registry limits host source).valid = false) :
    (extract registry limits host source).warnings = [] := by
  unfold extract at invalid ⊢
  dsimp only at invalid ⊢
  split
  · rfl
  · split
    · rfl
    · cases located : Block.locate host (stripComments host.grammar source) with
      | error notice => rfl
      | ok block => simp_all

section

variable (bound earlier : List (Slice × Binding))

theorem again_notices : (noticesFrom g levels source earlier bound).filterMap Notice.again? =
    (overwriting (earlier.map (·.2.key)) bound).map fun b => (b.2.key, placeOf source b) := by
  induction bound generalizing earlier with
  | nil => rfl
  | cons b rest ih =>
    have here : (noticesOf g levels source earlier b).filterMap Notice.again? =
        (if b.2.key ∈ earlier.map (·.2.key) then [b] else []).map fun b => (b.2.key, placeOf source b) := by
      cases found : earlier.find? (·.2.key == b.2.key) with
      | none =>
        have fresh : b.2.key ∉ earlier.map (·.2.key) := by simpa using found
        cases deep : isDeep g levels b <;> simp [noticesOf, found, fresh, deep]
      | some last =>
        have known : b.2.key ∈ earlier.map (·.2.key) :=
          List.mem_map.mpr ⟨last, List.mem_of_find?_eq_some found, by simpa using List.find?_some found⟩
        cases deep : isDeep g levels b <;> simp [noticesOf, found, known, deep, List.filterMap_cons]
    rw [noticesFrom, overwriting, List.filterMap_append, List.map_append, here, ih, List.map_cons]

theorem deep_notices : (noticesFrom g levels source earlier bound).filterMap Notice.deep? =
    (bound.filter (isDeep g levels)).map fun b => (b.2.key, levels, placeOf source b) := by
  induction bound generalizing earlier with
  | nil => rfl
  | cons b rest ih =>
    have again : (noticesOf g levels source earlier b).filterMap Notice.deep? =
        if isDeep g levels b then [(b.2.key, levels, placeOf source b)] else [] := by
      cases isDeep : isDeep g levels b <;> cases found : earlier.find? (·.2.key == b.2.key) <;>
        simp [noticesOf, found, isDeep]
    rw [noticesFrom, List.filterMap_append, again, ih]
    cases deep : isDeep g levels b <;> simp [deep]

theorem notice_split {n : Notice} (member : n ∈ noticesFrom g levels source earlier bound) :
    ∃ front b later, bound = front ++ b :: later ∧ n ∈ noticesOf g levels source (front.reverse ++ earlier) b := by
  induction bound generalizing earlier with
  | nil => exact absurd member List.not_mem_nil
  | cons b rest ih =>
    rcases List.mem_append.mp member with here | further
    · exact ⟨[], b, rest, rfl, here⟩
    · obtain ⟨front, last, later, split, inside⟩ := ih (b :: earlier) further
      exact ⟨b :: front, last, later, by rw [split]; rfl, by simpa using inside⟩

theorem notice_kind {n : Notice} (member : n ∈ noticesFrom g levels source earlier bound) :
    n.again?.isSome ∨ n.deep?.isSome := by
  obtain ⟨front, b, later, _, inside⟩ := notice_split bound earlier member
  rcases List.mem_append.mp inside with deep | again
  · cases isDeep : isDeep g levels b <;> simp_all [Notice.deep?]
  · obtain ⟨last, _, rfl⟩ := Option.map_eq_some_iff.mp (Option.mem_toList.mp again)
    exact .inl rfl

theorem overwriting_concat (known : List String) (b : Slice × Binding) : overwriting known (bound ++ [b]) =
    overwriting known bound ++ if b.2.key ∈ known ∨ b.2.key ∈ bound.map (·.2.key) then [b] else [] := by
  induction bound generalizing known with
  | nil => simp [overwriting]
  | cons first rest ih =>
    rw [List.cons_append, overwriting, ih, overwriting, List.append_assoc, List.map_cons]
    simp only [List.mem_cons, or_assoc, or_left_comm]

theorem overwriting_length :
    (overwriting [] bound).length + (bound.map (·.2.key)).eraseDups.length = bound.length := by
  -- From the end on, since a binding sets a new key or sets one of those before it again.
  induction bound using List.reverseRecOn with
  | nil => rfl
  | append_singleton bound b ih =>
    rw [overwriting_concat, List.map_append, List.map_singleton, Settings.erase_dups_concat]
    by_cases again : b.2.key ∈ bound.map (·.2.key)
    · rw [if_pos (.inr again), if_pos again, List.length_append, List.length_append, List.length_singleton]
      omega
    · rw [if_neg (by simpa using again), if_neg again, List.append_nil, List.length_append, List.length_append]
      simp only [List.length_singleton]
      omega

theorem again_of_notice {key : String} {line : Nat} {position : Option Position}
    (member : ⟨.setAgain key line, position⟩ ∈ noticesFrom g levels source [] bound) :
    ∃ front last between again later, bound = front ++ last :: between ++ again :: later ∧ last.2.key = key ∧
      again.2.key = key ∧ (∀ b ∈ between, b.2.key ≠ key) ∧ line = lineOf source last ∧
      position = placeOf source again := by
  obtain ⟨done, again, later, split, inside⟩ := notice_split bound [] member
  rcases List.mem_append.mp inside with deep | repeated
  · cases isDeep : isDeep g levels again <;> simp [isDeep] at deep
  · obtain ⟨last, found, same⟩ := Option.map_eq_some_iff.mp (Option.mem_toList.mp repeated)
    injection same with problem place
    injection problem with keyOf lineIs
    rw [List.append_nil] at found
    -- The search goes back from the latest binding, so that what it passes over stands behind the one it finds.
    obtain ⟨sets, behind, front, reversed, others⟩ := List.find?_eq_some_iff_append.mp found
    have parts : done = front.reverse ++ last :: behind.reverse := by
      have turned := congrArg List.reverse reversed
      simpa using turned
    refine ⟨front.reverse, last, behind.reverse, again, later, by rw [split, parts], ?_, keyOf, ?_, lineIs.symm, place.symm⟩
    · exact (beq_iff_eq.mp sets).trans keyOf
    · intro b member
      have other := others b (List.mem_reverse.mp member)
      rw [keyOf] at other
      simpa using other

end

section

variable {host : Host} {b first last : Slice × Binding}

theorem assigned_ordered (host : Host) (source : List Char) :
    (assigned host source).Pairwise fun earlier later => earlier.1.stop ≤ later.1.start := by
  unfold assigned
  split
  · exact bindings_ordered host _
  · exact .nil

theorem assigned_place (member : b ∈ assigned host source) :
    ∃ front back, source = front ++ back ∧ b.1.start = size front := by
  unfold assigned at member
  split at member
  next block located => exact statement_place located (binding_reads member).1
  next => exact absurd member List.not_mem_nil

theorem line_between (firstIn : first ∈ assigned host source) (lastIn : last ∈ assigned host source)
    (ordered : first.1.start ≤ last.1.start) :
    lineOf source last = lineOf source first + (between first.1.start last.1.start source).count '\n' := by
  obtain ⟨front, rest, parts, start⟩ := assigned_place firstIn
  obtain ⟨front', rest', parts', start'⟩ := assigned_place lastIn
  obtain ⟨gap, rfl, rfl⟩ := ordered_places parts parts' (by omega)
  have behind : takeBytes last.1.start source = front ++ gap := by
    rw [start', parts', take_bytes_append]
  have before : takeBytes first.1.start source = front := by
    rw [start, parts, take_bytes_append]
  have inside : between first.1.start last.1.start source = gap := by
    rw [between, start, start', size_append, Nat.add_sub_cancel_left, parts, drop_bytes_append, take_bytes_append]
  rw [lineOf, lineOf, behind, before, inside, List.count_append]
  omega

theorem first_before {key : String} {front later : List (Slice × Binding)}
    (split : assigned host source = front ++ last :: later) (lastKey : last.2.key = key) :
    ∃ first, (assigned host source).find? (·.2.key == key) = some first ∧ first.1.start ≤ last.1.start := by
  cases found : front.find? (·.2.key == key) with
  | some first =>
    refine ⟨first, by simp [split, List.find?_append, found], ?_⟩
    have ordered := assigned_ordered host source
    rw [split] at ordered
    have apart := (List.pairwise_append.mp ordered).2.2 first (List.mem_of_find?_eq_some found) last List.mem_cons_self
    exact Nat.le_trans (Nat.le_add_right first.1.start first.1.size) apart
  | none => exact ⟨last, by simp [split, List.find?_append, found, lastKey], Nat.le_refl _⟩

end

theorem keys_last_settings (made : List Setting) : (lastSettings made).keys = (made.map (·.key)).eraseDups := by
  induction made using List.reverseRecOn with
  | nil => rfl
  | append_singleton made new ih =>
    rw [last_settings_concat, Settings.keys_put_of_dups ih, List.map_append]
    rfl

end Extraction

variable {registry : Registry} {limits : Limits} {host : Host} {source : List Char}

/-- The settings are the last bindings of their keys in the order of the first ones. Of the warnings one kind
stands for the bindings that set a key again, so that with the settings they make up all bindings, and the other
kind for the values that are too deep, whether or not they are replaced later on. -/
theorem extract_accounting (valid : (extract registry limits host source).valid = true) :
    let levels := limits.maxNestingDepth
    let assigned := Extraction.assigned host source
    let result := extract registry limits host source
    result.settings.keys = (assigned.map (·.2.key)).eraseDups ∧
      (∀ setting ∈ result.settings.list, ∃ earlier last later, assigned = earlier ++ last :: later ∧
        setting = Extraction.settingFrom host.grammar levels source last ∧ ∀ b ∈ later, b.2.key ≠ setting.key) ∧
      result.warnings.filterMap Notice.again? =
        (Extraction.overwriting [] assigned).map (fun b => (b.2.key, Extraction.placeOf source b)) ∧
      (result.warnings.filterMap Notice.again?).length + result.settings.list.length = assigned.length ∧
      result.warnings.filterMap Notice.deep? = (assigned.filter (Extraction.isDeep host.grammar levels)).map
        (fun b => (b.2.key, levels, Extraction.placeOf source b)) ∧
      ∀ warning ∈ result.warnings, warning.again?.isSome ∨ warning.deep?.isSome := by
  intro levels assigned result
  have settings : result.settings = _ := Extraction.settings_of_valid valid
  have warnings : result.warnings = _ := Extraction.warnings_of_valid valid
  have keys : result.settings.keys = (assigned.map (·.2.key)).eraseDups := by
    rw [settings, Extraction.keys_last_settings, List.map_map]
    rfl
  have again : result.warnings.filterMap Notice.again? =
      (Extraction.overwriting [] assigned).map fun b => (b.2.key, Extraction.placeOf source b) := by
    rw [warnings, Extraction.again_notices]
    rfl
  refine ⟨keys, ?_, again, ?_, ?_, ?_⟩
  · intro setting member
    rw [settings] at member
    obtain ⟨before, after, split, last⟩ := Extraction.last_of_mem_last_settings member
    obtain ⟨earlier, others, parts, _, made⟩ := List.map_eq_append_iff.mp split
    obtain ⟨b, later, rfl, rfl, rfl⟩ := List.map_eq_cons_iff.mp made
    refine ⟨earlier, b, later, parts, rfl, ?_⟩
    intro b' member
    exact last _ (List.mem_map_of_mem member)
  · have count := Extraction.overwriting_length assigned
    rw [← keys, Settings.keys, List.length_map] at count
    rwa [again, List.length_map]
  · rw [warnings, Extraction.deep_notices]
  · intro warning member
    rw [warnings] at member
    exact Extraction.notice_kind assigned [] member

theorem extract_accounting_javascript :
    let source := "Sentry.init(\x7b a: [[1]],\n b: 2, a: 3 \x7d)".toList
    let result := extract .full ⟨1048576, 1⟩ .javascript source
    result.valid = true ∧ result.settings.keys = ["a", "b"] ∧
      result.warnings.filterMap Notice.again? = [("a", some ⟨2, 8⟩)] ∧
      result.warnings.filterMap Notice.deep? = [("a", 1, some ⟨1, 15⟩)] := by
  intro source result
  have valid : result.valid = true := by decide +kernel
  obtain ⟨keys, _, again, _, deep, _⟩ := extract_accounting valid
  exact ⟨valid, keys.trans (by decide +kernel), again.trans (by decide +kernel), deep.trans (by decide +kernel)⟩

/-- A warning that a key is set again has the line of the latest binding that sets it before. That is the line of
the first one just where no line feed stands between the two. -/
theorem again_line {key : String} {line : Nat} {position : Option Position}
    (noted : ⟨.setAgain key line, position⟩ ∈ (extract registry limits host source).warnings) :
    let assigned := Extraction.assigned host source
    ∃ first front last between again later, assigned.find? (·.2.key == key) = some first ∧
      assigned = front ++ last :: between ++ again :: later ∧ last.2.key = key ∧ again.2.key = key ∧
      (∀ b ∈ between, b.2.key ≠ key) ∧ position = Extraction.placeOf source again ∧
      line = Extraction.lineOf source last ∧
      (line = Extraction.lineOf source first ↔ '\n' ∉ Text.between first.1.start last.1.start source) := by
  intro assigned
  cases valid : (extract registry limits host source).valid with
  | false =>
    -- An extraction that fails has errors and no warnings.
    rw [Extraction.warnings_of_invalid valid] at noted
    exact absurd noted List.not_mem_nil
  | true =>
    rw [Extraction.warnings_of_valid valid] at noted
    obtain ⟨front, last, between, again, later, split, lastKey, againKey, others, lineOf, place⟩ :=
      Extraction.again_of_notice assigned noted
    obtain ⟨first, found, before⟩ := Extraction.first_before (split.trans (List.append_assoc _ _ _)) lastKey
    have lastIn : last ∈ assigned := by simp [split]
    -- The two lines differ by the line feeds between the two statements.
    have lines := Extraction.line_between (List.mem_of_find?_eq_some found) lastIn before
    refine ⟨first, front, last, between, again, later, found, split, lastKey, againKey, others, place, lineOf, ?_⟩
    rw [lineOf, lines, ← List.count_eq_zero]
    omega

theorem again_line_javascript :
    let source := "Sentry.init(\x7b a: 1, a: 2,\n a: 3 \x7d)".toList
    let assigned := Extraction.assigned .javascript source
    ⟨.setAgain "a" 1, some ⟨2, 2⟩⟩ ∈ (extract .full {} .javascript source).warnings ∧
      ∃ first last, assigned.find? (·.2.key == "a") = some first ∧ last ∈ assigned ∧
        Extraction.lineOf source last = 1 ∧ '\n' ∉ Text.between first.1.start last.1.start source := by
  intro source assigned
  have noted : ⟨.setAgain "a" 1, some ⟨2, 2⟩⟩ ∈ (extract .full {} .javascript source).warnings := by
    rw [Extraction.warnings_of_valid (by decide +kernel)]
    decide +kernel
  obtain ⟨first, front, last, between, again, later, found, split, _, _, _, _, line, same⟩ := again_line noted
  have firstLine : (assigned.find? (·.2.key == "a")).map (Extraction.lineOf source) = some 1 := by decide +kernel
  rw [found] at firstLine
  exact ⟨noted, first, last, found, by simp [assigned, split], line.symm, same.mp (Option.some.inj firstLine).symm⟩

-- A key that is set three times: the second warning has the line of the second binding.
theorem again_line_latest :
    let source := "Sentry.init(\x7b\n  a: 1,\n  a: 2,\n  a: 3\n\x7d)".toList
    (extract .full {} .javascript source).warnings =
        [⟨.setAgain "a" 2, some ⟨3, 3⟩⟩, ⟨.setAgain "a" 3, some ⟨4, 3⟩⟩] ∧
      ((Extraction.assigned .javascript source).find? (·.2.key == "a")).map (Extraction.lineOf source) = some 2 := by
  intro source
  rw [Extraction.warnings_of_valid (by decide +kernel)]
  decide +kernel

end SnippetReview
