import SnippetReview.Host.BlockGrammars
import SnippetReview.Snippet.Inference

set_option autoImplicit false

namespace SnippetReview

open Text

namespace Value

mutual

def nesting : Value → Nat
  | array items => nestings items + 1
  | _ => 0

def nestings : List Value → Nat
  | [] => 0
  | item :: rest => max item.nesting (nestings rest)

end

theorem nestings_le {items : List Value} {n : Nat} (each : ∀ item ∈ items, item.nesting ≤ n) : nestings items ≤ n := by
  induction items with
  | nil => exact Nat.zero_le n
  | cons first rest ih =>
    have own := each first List.mem_cons_self
    have others := ih fun item member => each item (List.mem_cons_of_mem first member)
    exact Nat.max_le.mpr ⟨own, others⟩

end Value

namespace Inferred

variable {g : Grammar} {text : List Char}

-- The text between the brackets, where a text is read as a list literal.
def interior? (g : Grammar) (text : List Char) : Option (List Char) :=
  match scalar? g (unwrapOptional g text) with
  | some _ => none
  | none => listInterior? g (unwrapOptional g text)

def listed (g : Grammar) (text : List Char) : List (List Char) := ((interior? g text).map (elements g)).getD []

-- The texts that stand inside a number of lists within a text.
def textsAt (g : Grammar) : Nat → List Char → List (List Char)
  | 0, text => [text]
  | depth + 1, text => (listed g text).flatMap (textsAt g depth)

-- The value of a text with the lists at a depth replaced by their text, without a wrapper.
def truncated (g : Grammar) : Nat → List Char → Value → Value
  | 0, text, .array _ => .raw (String.ofList (unwrapOptional g text))
  | depth + 1, text, .array items => .array (List.zipWith (truncated g depth) (listed g text) items)
  | _, _, value => value

structure Flat (found : Inferred) : Prop where
  nesting : found.value.nesting = 0
  shallow : found.tooDeep = false

theorem scalar_flat {found : Inferred} (scalar : scalar? g text = some found) : found.Flat := by
  unfold scalar? at scalar
  split at scalar
  · cases scalar
    exact ⟨rfl, rfl⟩
  split at scalar
  · cases scalar
    exact ⟨rfl, rfl⟩
  split at scalar
  · cases scalar
    exact ⟨rfl, rfl⟩
  split at scalar
  · cases scalar
    exact ⟨rfl, rfl⟩
  split at scalar
  · cases scalar
    exact ⟨rfl, rfl⟩
  · obtain ⟨content, -, rfl⟩ := Option.map_eq_some_iff.mp scalar
    exact ⟨rfl, rfl⟩

theorem other_flat (g : Grammar) (text : List Char) : (other g text).Flat := by
  unfold other
  split
  · exact ⟨rfl, rfl⟩
  · split <;> exact ⟨rfl, rfl⟩

theorem truncated_flat {value : Value} (flat : value.nesting = 0) (depth : Nat) (text : List Char) :
    truncated g depth text value = value := by
  cases value with
  | array items => exact absurd flat (Nat.succ_ne_zero _)
  | _ => cases depth <;> rfl

theorem truncated_array (depth : Nat) (read : List Char → Inferred) :
    truncated g (depth + 1) text (.array (((listed g text).map read).map value)) =
      .array ((listed g text).map fun item => truncated g depth item (read item).value) := by
  rw [truncated, List.map_map, List.zipWith_map_right, List.zipWith_self]
  rfl

theorem within_plain (plain : interior? g text = none) :
    ∃ found : Inferred, found.Flat ∧ ∀ levels, within g levels text = found := by
  unfold interior? at plain
  cases scalar : scalar? g (unwrapOptional g text) with
  | some found =>
    refine ⟨found, scalar_flat scalar, fun levels => ?_⟩
    rw [within, scalar]
  | none =>
    simp only [scalar] at plain
    refine ⟨_, other_flat g (unwrapOptional g text), fun levels => ?_⟩
    rw [within, scalar]
    dsimp only
    rw [plain]

section

variable {interior : List Char} (list : interior? g text = some interior)

include list

theorem readings_of_list : scalar? g (unwrapOptional g text) = none ∧ listInterior? g (unwrapOptional g text) = some interior := by
  unfold interior? at list
  cases scalar : scalar? g (unwrapOptional g text) with
  | some found =>
    rw [scalar] at list
    contradiction
  | none =>
    rw [scalar] at list
    exact ⟨rfl, list⟩

theorem within_zero : within g 0 text = ⟨.raw (String.ofList (unwrapOptional g text)), .array, true⟩ := by
  obtain ⟨scalar, found⟩ := readings_of_list list
  rw [within, scalar]
  dsimp only
  rw [found]
  rfl

theorem within_succ (levels : Nat) :
    within g (levels + 1) text =
      ⟨.array (((listed g text).map (within g levels)).map value), .array,
        ((listed g text).map (within g levels)).any tooDeep⟩ := by
  obtain ⟨scalar, found⟩ := readings_of_list list
  rw [within, scalar]
  dsimp only
  rw [found, listed, list]
  rfl

end

theorem within_nesting (levels : Nat) (text : List Char) : (within g levels text).value.nesting ≤ levels := by
  induction levels generalizing text with
  | zero =>
    cases read : interior? g text with
    | none =>
      obtain ⟨found, flat, same⟩ := within_plain read
      rw [same]
      exact Nat.le_of_eq flat.nesting
    | some interior =>
      rw [within_zero read]
      exact Nat.le_refl 0
  | succ levels ih =>
    cases read : interior? g text with
    | none =>
      obtain ⟨found, flat, same⟩ := within_plain read
      rw [same, flat.nesting]
      exact Nat.zero_le _
    | some interior =>
      rw [within_succ read]
      apply Nat.succ_le_succ
      apply Value.nestings_le
      intro value member
      obtain ⟨item, -, rfl⟩ : ∃ item ∈ listed g text, (within g levels item).value = value := by simpa using member
      exact ih item

theorem within_truncated {levels more : Nat} (fewer : levels ≤ more) (text : List Char) :
    (within g levels text).type = (within g more text).type ∧
      (within g levels text).value = truncated g levels text (within g more text).value := by
  -- On the levels: the elements of a list are read with one less, whichever number is the first.
  induction levels generalizing more text with
  | zero =>
    cases read : interior? g text with
    | none =>
      obtain ⟨found, flat, same⟩ := within_plain read
      rw [same, same, truncated_flat flat.nesting]
      exact ⟨rfl, rfl⟩
    | some interior =>
      -- A list for which no level is left is its text, however many levels the other reading has.
      cases more with
      | zero =>
        rw [within_zero read]
        exact ⟨rfl, rfl⟩
      | succ more =>
        rw [within_zero read, within_succ read]
        exact ⟨rfl, rfl⟩
  | succ levels ih =>
    obtain ⟨more, rfl⟩ : ∃ n, more = n + 1 := ⟨more - 1, by omega⟩
    cases read : interior? g text with
    | none =>
      obtain ⟨found, flat, same⟩ := within_plain read
      rw [same, same, truncated_flat flat.nesting]
      exact ⟨rfl, rfl⟩
    | some interior =>
      rw [within_succ read, within_succ read, truncated_array, List.map_map]
      have each (item : List Char) := (ih (Nat.le_of_succ_le_succ fewer) item).2
      simp only [Function.comp_def, each, and_self]

theorem too_deep_iff (levels : Nat) (text : List Char) :
    (within g levels text).tooDeep = true ↔ ∃ item ∈ textsAt g levels text, (interior? g item).isSome = true := by
  induction levels generalizing text with
  | zero =>
    cases read : interior? g text with
    | none =>
      obtain ⟨found, flat, same⟩ := within_plain read
      simp [same, flat.shallow, textsAt, read]
    | some interior => simp [within_zero read, textsAt, read]
  | succ levels ih =>
    cases read : interior? g text with
    | none =>
      obtain ⟨found, flat, same⟩ := within_plain read
      simp [same, flat.shallow, textsAt, listed, read]
    | some interior =>
      rw [within_succ read, List.any_map, List.any_eq_true]
      simp only [Function.comp_apply, ih, textsAt, List.mem_flatMap]
      constructor
      · rintro ⟨item, member, deep, below, isList⟩
        exact ⟨deep, ⟨item, member, below⟩, isList⟩
      · rintro ⟨deep, ⟨item, member, below⟩, isList⟩
        exact ⟨item, member, deep, below, isList⟩

theorem within_of_shallow {levels more : Nat} (fewer : levels ≤ more) {text : List Char}
    (shallow : (within g levels text).tooDeep = false) : within g levels text = within g more text := by
  induction levels generalizing more text with
  | zero =>
    cases read : interior? g text with
    | none =>
      obtain ⟨found, -, same⟩ := within_plain read
      rw [same, same]
    | some interior =>
      rw [within_zero read] at shallow
      contradiction
  | succ levels ih =>
    obtain ⟨more, rfl⟩ : ∃ n, more = n + 1 := ⟨more - 1, by omega⟩
    cases read : interior? g text with
    | none =>
      obtain ⟨found, -, same⟩ := within_plain read
      rw [same, same]
    | some interior =>
      rw [within_succ read] at shallow ⊢
      rw [within_succ read]
      -- A list that is not too deep has no element that is.
      have items : (listed g text).map (within g levels) = (listed g text).map (within g more) := by
        apply List.map_congr_left
        intro item member
        apply ih (Nat.le_of_succ_le_succ fewer)
        simpa using List.any_eq_false.mp shallow _ (List.mem_map_of_mem member)
      rw [items]

/-- Fewer levels cut a value short and change nothing else: lists nest no deeper than the levels, those
at the depth of the levels have become their text, a value is too deep just where such a list is
read, and otherwise more levels give the same. -/
theorem of_text_truncated (g : Grammar) (text : List Char) {levels more : Nat} (fewer : levels ≤ more) :
    (ofText g levels text).type = (ofText g more text).type ∧
      (ofText g levels text).value.nesting ≤ levels ∧
      (ofText g levels text).value = truncated g levels (trim text) (ofText g more text).value ∧
      ((ofText g levels text).tooDeep = true ↔ ∃ item ∈ textsAt g levels (trim text), (interior? g item).isSome = true) ∧
      ((ofText g levels text).tooDeep = false →
        ofText g levels text = ofText g more text ∧ (ofText g more text).tooDeep = false) := by
  have cut := within_truncated (g := g) fewer (trim text)
  refine ⟨cut.1, within_nesting levels _, cut.2, too_deep_iff levels _, fun shallow => ?_⟩
  have same : ofText g levels text = ofText g more text := within_of_shallow fewer shallow
  rw [← same]
  exact ⟨rfl, shallow⟩

theorem of_text_truncated_javascript :
    1 ≤ 2 ∧ (ofText Host.javascript.grammar 2 "[[]]".toList).value = .array [.array []] ∧
      (ofText Host.javascript.grammar 1 "[[]]".toList).value = .array [.raw "[]"] ∧
      (ofText Host.javascript.grammar 1 "[[]]".toList).tooDeep = true := by
  have few : 1 ≤ 2 := by decide
  have outer : interior? Host.javascript.grammar (trim "[[]]".toList) = some "[]".toList := by decide +kernel
  have inner : interior? Host.javascript.grammar "[]".toList = some [] := by decide +kernel
  have items : listed Host.javascript.grammar (trim "[[]]".toList) = ["[]".toList] := by decide +kernel
  have none : listed Host.javascript.grammar "[]".toList = [] := by decide +kernel
  have bare : unwrapOptional Host.javascript.grammar "[]".toList = "[]".toList := by decide +kernel
  have whole : (ofText Host.javascript.grammar 2 "[[]]".toList).value = .array [.array []] := by
    rw [ofText, within_succ outer, items, List.map_singleton, within_succ inner, none]
    rfl
  have truncates := of_text_truncated Host.javascript.grammar "[[]]".toList few
  have value := truncates.2.2.1
  rw [whole, truncated, items, List.zipWith_cons_cons, truncated, bare] at value
  have reached : "[]".toList ∈ textsAt Host.javascript.grammar 1 (trim "[[]]".toList) := by decide +kernel
  exact ⟨few, whole, value, truncates.2.2.2.1.mpr ⟨_, reached, by rw [inner]; rfl⟩⟩

end Inferred

end SnippetReview
