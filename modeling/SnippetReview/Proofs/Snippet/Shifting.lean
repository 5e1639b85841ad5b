import SnippetReview.Snippet.Extraction

set_option autoImplicit false

namespace SnippetReview

open Text

def Text.Slice.shift (n : Nat) (s : Slice) : Slice := { s with start := s.start + n }

def Binding.shift (n : Nat) (b : Binding) : Binding := { b with value := b.value.shift n }

section

variable (n : Nat)

@[simp]
theorem Text.Slice.text_shift (s : Slice) : (s.shift n).text = s.text := rfl

@[simp]
theorem Text.Slice.start_shift (s : Slice) : (s.shift n).start = s.start + n := rfl

@[simp]
theorem Text.Slice.stop_shift (s : Slice) : (s.shift n).stop = s.stop + n := Nat.add_right_comm s.start n s.size

theorem Text.Slice.trim_shift (s : Slice) : (s.shift n).trim = s.trim.shift n := by
  unfold trim
  simp only [text_shift, start_shift]
  unfold shift
  congr 1
  exact Nat.add_right_comm _ _ _

theorem Text.Slice.extend_shift (s : Slice) (stop : Nat) : (s.shift n).extendTo (stop + n) = (s.extendTo stop).shift n := by
  unfold extendTo shift
  simp only [Nat.add_sub_add_right]

theorem keep_trimmed_shift (piece : Slice) (pieces : List Slice) :
    keepTrimmed (piece.shift n) (pieces.map (Slice.shift n)) = (keepTrimmed piece pieces).map (Slice.shift n) := by
  unfold keepTrimmed
  simp only [Slice.trim_shift]
  split
  next empty => rw [if_pos (by exact empty)]
  next kept =>
    rw [if_neg (by exact kept)]
    rfl

theorem pieces_from_shift (base stop : Nat) (done : List Slice) (start : Nat) (tail : List Char) (vs : List Visit) :
    piecesFrom (base + n) stop (done.map (Slice.shift n)) start tail vs =
      (piecesFrom base stop done start tail vs).map (Slice.shift n) := by
  have moved : ∀ start size tail, (⟨base + n + start, size, tail⟩ : Slice) = Slice.shift n ⟨base + start, size, tail⟩ := by
    intro start size tail
    unfold Slice.shift
    rw [Nat.add_right_comm]
  induction vs generalizing done start tail with
  | nil => rw [piecesFrom, piecesFrom, moved, keep_trimmed_shift, List.map_reverse]
  | cons v rest ih => rw [piecesFrom, piecesFrom, moved, keep_trimmed_shift, ih]

variable (g : Grammar)

theorem split_shift (base : Nat) (text separators : List Char) :
    split g (base + n) text separators = (split g base text separators).map (Slice.shift n) :=
  pieces_from_shift n base (size text) [] 0 text (cuts g text separators)

theorem merge_shift (items : List Slice) :
    mergeContinuations g (items.map (Slice.shift n)) = (mergeContinuations g items).map (Slice.shift n) := by
  have step : ∀ done item, mergeInto g (done.map (Slice.shift n)) (item.shift n) =
      (mergeInto g done item).map (Slice.shift n) := by
    intro done item
    cases done with
    | nil => rfl
    | cons last earlier =>
      simp only [List.map_cons, mergeInto, Slice.text_shift, Slice.stop_shift, Slice.extend_shift]
      split <;> rfl
  have fold : ∀ done, (items.map (Slice.shift n)).foldl (mergeInto g) (done.map (Slice.shift n)) =
      (items.foldl (mergeInto g) done).map (Slice.shift n) := by
    induction items with
    | nil => exact fun done => rfl
    | cons item rest ih => exact fun done => by rw [List.map_cons, List.foldl_cons, List.foldl_cons, step, ih]
  unfold mergeContinuations
  rw [List.map_reverse]
  exact congrArg List.reverse (fold [])

theorem statements_shift {body body' : Slice} (start : body'.start = body.start + n) (text : body'.text = body.text) :
    Extraction.statements g body' = (Extraction.statements g body).map (Slice.shift n) := by
  have items : ((split g body'.start body'.text g.separators).filter fun item => !isSpread g item.text) =
      ((split g body.start body.text g.separators).filter fun item => !isSpread g item.text).map (Slice.shift n) := by
    rw [start, text, split_shift, List.filter_map]
    rfl
  unfold Extraction.statements
  simp only [items]
  split
  · exact merge_shift n g _
  · rfl

namespace Binding

theorem value_from_shift (item : Slice) (offset : Nat) (tail : List Char) :
    valueFrom (item.shift n) offset tail = (valueFrom item offset tail).shift n := by
  unfold valueFrom
  rw [← Slice.trim_shift]
  unfold Slice.shift
  simp only [Nat.add_right_comm item.start n offset]

theorem of_token_shift (item : Slice) (token : List Char) :
    ofToken? g (item.shift n) token = (ofToken? g item token).map (shift n) := by
  simp only [ofToken?, Slice.text_shift, value_from_shift]
  cases findToken g item.text token with
  | none => rfl
  | some v =>
    simp only [Option.bind_eq_bind, Option.bind_some]
    cases cleanKey? (takeBytes v.offset item.text) <;> rfl

theorem of_receiver_shift (receiver : List Char) (item : Slice) :
    ofReceiver? g receiver (item.shift n) = (ofReceiver? g receiver item).map (shift n) := by
  simp only [ofReceiver?, Slice.text_shift, value_from_shift]
  cases afterReceiver? receiver item.text with
  | none => rfl
  | some rest =>
    simp only [Option.bind_eq_bind, Option.bind_some]
    cases findToken g rest ['='] with
    | none => rfl
    | some v =>
      simp only [Option.bind_some]
      split <;> rfl

theorem of_setter_shift (receiver : List Char) (item : Slice) :
    ofSetter? g receiver (item.shift n) = (ofSetter? g receiver item).map (shift n) := by
  have argument : ∀ opened size tail, Slice.trim ⟨item.start + n + opened + 1, size, tail⟩ =
      (Slice.trim ⟨item.start + opened + 1, size, tail⟩).shift n := by
    intro opened size tail
    rw [← Slice.trim_shift]
    unfold Slice.shift
    simp only
    rw [Nat.add_right_comm item.start n opened, Nat.add_right_comm _ n 1]
  simp only [ofSetter?, Slice.text_shift, Slice.start_shift, argument, Option.bind_eq_bind]
  cases afterReceiver? receiver item.text with
  | none => rfl
  | some rest =>
    simp only [Option.bind_some]
    cases setterProperty? (rest.takeWhile isIdentChar) with
    | none => rfl
    | some property =>
      simp only [Option.bind_some]
      split
      next _ inner _ =>
        cases matchingClose g inner ')' with
        | none => rfl
        | some v =>
          simp only [Option.bind_some]
          cases (trim v.rest).isEmpty <;> rfl
      next _ inner _ =>
        cases matchingClose g inner '\x7d' with
        | none => rfl
        | some v =>
          simp only [Option.bind_some]
          cases (trim v.rest).isEmpty with
          | false => rfl
          | true =>
            rw [if_pos rfl, if_pos rfl, Nat.add_right_comm]
            rfl
      next => rfl

theorem of_method_shift (item : Slice) : ofMethod? (item.shift n) = (ofMethod? item).map (shift n) := by
  simp only [ofMethod?, Slice.text_shift]
  cases methodHead.find? item.text with
  | none => rfl
  | some found =>
    simp only [Option.bind_eq_bind, Option.bind_some]
    cases found.group with
    | none => rfl
    | some name =>
      simp only [Option.bind_some]
      split
      next rejected => exact if_pos rejected
      next accepted => exact if_neg accepted

theorem of_style_shift (receiver : List Char) (item : Slice) (style : BindingStyle) :
    ofStyle? g receiver (item.shift n) style = (ofStyle? g receiver item style).map (shift n) := by
  cases style with
  | token signs => exact of_token_shift n g item signs
  | receiver => exact of_receiver_shift n g receiver item
  | setter => exact of_setter_shift n g receiver item
  | method => exact of_method_shift n item

theorem of_item_shift (receiver : List Char) (item : Slice) :
    ofItem? g receiver (item.shift n) = (ofItem? g receiver item).map (shift n) := by
  unfold ofItem?
  induction g.bindings with
  | nil => rfl
  | cons style rest ih =>
    rw [List.findSome?_cons, List.findSome?_cons, of_style_shift, ih]
    cases ofStyle? g receiver item style <;> rfl

end Binding

theorem bindings_shift (receiver : List Char) (items : List Slice) :
    Extraction.bindings g receiver (items.map (Slice.shift n)) =
      (Extraction.bindings g receiver items).map fun bound => (bound.1.shift n, bound.2.shift n) := by
  have first : ∀ item, Extraction.firstBinding? g receiver (item.shift n) =
      (Extraction.firstBinding? g receiver item).map (Binding.shift n) := by
    intro item
    unfold Extraction.firstBinding?
    rw [Binding.of_item_shift]
    cases Binding.ofItem? g receiver item with
    | some b => rfl
    | none => cases g.positionalKey <;> rfl
  cases items with
  | nil => rfl
  | cons item rest =>
    rw [List.map_cons, Extraction.bindings, Extraction.bindings, List.map_append, first]
    congr 1
    · cases Extraction.firstBinding? g receiver item <;> rfl
    · rw [List.filterMap_map, List.map_filterMap]
      congr 1
      funext other
      rw [Function.comp_apply, Binding.of_item_shift]
      cases Binding.ofItem? g receiver other <;> rfl

end

end SnippetReview
