import Mathlib
import SnippetReview.Proofs.Host.Rendering

set_option autoImplicit false

namespace SnippetReview

open Text

theorem Inferred.bare_of_wrapper {g : Grammar} {s : List Char}
    (other : ∀ wrapper ∈ g.optionalWrapper, wrapper.isPrefixOf s = false) : unwrapOptional g s = s := by
  unfold unwrapOptional
  cases same : g.optionalWrapper with
  | none => rfl
  | some wrapper =>
    simp only [other wrapper same, Bool.false_eq_true, if_false]

theorem Inferred.within_unwrapped {g : Grammar} {s inner : List Char} (unwraps : unwrapOptional g s = inner)
    (bare : unwrapOptional g inner = inner) (levels : Nat) : within g levels s = within g levels inner := by
  rw [within, within]
  simp only [unwraps, bare]

theorem passes_join {g : Grammar} {base : Char → Bool} {separator : Char} (sign : Passes g base true [separator])
    (breaks : isBreak separator = true) (p : Part) (rest : List Part)
    (passes : ∀ q ∈ p :: rest, Passes g base false q.text) : Passes g base false (Part.join separator p rest) := by
  induction rest generalizing p with
  | nil => exact passes p List.mem_cons_self
  | cons q rest ih =>
    have later := ih q fun r member => passes r (List.mem_cons_of_mem p member)
    have both := sign.append later (.inl rfl)
    exact (passes p List.mem_cons_self).append both (.inr ⟨separator, rfl, breaks⟩)

namespace Host

theorem suffix_spec (host : Host) : host.suffix.head? ≠ some host.mark ∧ trim host.suffix = host.suffix ∧
    (host.suffix.isEmpty || host.grammar.stringSuffixes.contains host.suffix) = true := by
  cases host <;> exact ⟨by decide, by decide, by decide⟩

theorem suffix_head (host : Host) : host.suffix = [] ∨ ∃ c ∈ host.suffix.head?, isBreak c = true := by
  cases host
  case rust => exact .inr ⟨'.', rfl, by decide⟩
  all_goals exact .inl rfl

theorem passes_suffix (host : Host) : Passes host.grammar isInert true host.suffix := by
  cases host
  case rust =>
    have method : Passes Grammar.rust isInert true ".into".toList := passes_signs (by decide) (by decide) (by decide)
    have call : Passes Grammar.rust isInert true ('(' :: ([] ++ [')'])) :=
      passes_brackets (passes_nil _ isInert true) rfl rfl (by decide) (by decide) rfl
    exact method.append call (.inl rfl)
  all_goals exact passes_nil _ _ _

theorem passes_quoted (host : Host) {content : List Char} (plain : PlainText content) :
    Passes host.grammar isInert false (host.quoted content) := by
  have unescaped : ∀ c ∈ content, c ≠ host.mark ∧ c ≠ '\\' ∧ c ≠ '\n' := by
    intro c member
    obtain ⟨double, single, backslash, feed⟩ := plain c member
    refine ⟨?_, backslash, feed⟩
    rcases (quotes_with_mark host).mark with same | same <;> rw [same]
    · exact double
    · exact single
  have whole : host.quoted content = host.mark :: (content ++ [host.mark]) ++ host.suffix := by simp [quoted]
  have string : Passes host.grammar isInert false (host.mark :: (content ++ [host.mark])) :=
    SnippetReview.passes_quoted (quotes_with_mark host) unescaped
  rw [whole]
  rcases suffix_head host with none | breaks
  · rw [none, List.append_nil]
    exact string
  · exact string.append ((passes_suffix host).restrict false) (.inr breaks)

theorem within_quoted (host : Host) {content : List Char} (plain : PlainText content) (levels : Nat) :
    Inferred.within host.grammar levels (host.quoted content) = ⟨.string (String.ofList content), .string, false⟩ := by
  obtain ⟨ends, trimmed, known⟩ := suffix_spec host
  exact Inferred.within_quoted (quotes_with_mark host) plain ends trimmed known (plain_quoted host _)
    (Inferred.bare_of_wrapper fun wrapper member => (unwrapped host wrapper member _).1) levels

theorem passes_list_front (host : Host) : Passes host.grammar isInert true host.listPrefix := by
  cases host
  case go =>
    have empty : Passes Grammar.go isInert true ('[' :: ([] ++ [']'])) :=
      passes_brackets (passes_nil _ isInert true) rfl rfl (by decide) (by decide) rfl
    have name : Passes Grammar.go isInert true "string".toList := passes_signs (by decide) (by decide) (by decide)
    exact empty.append name (.inl rfl)
  case dotnet =>
    have word : Passes Grammar.dotnet isInert true "new".toList := passes_signs (by decide) (by decide) (by decide)
    have empty : Passes Grammar.dotnet isInert true ('[' :: ([] ++ [']'])) :=
      passes_brackets (passes_nil _ isInert true) rfl rfl (by decide) (by decide) rfl
    have blank : Passes Grammar.dotnet isInert true [' '] := passes_signs (by decide) (by decide) (by decide)
    exact word.append (empty.append blank (.inl rfl)) (.inl rfl)
  case java => exact passes_signs (by decide) (by decide) (by decide)
  case kotlin => exact passes_signs (by decide) (by decide) (by decide)
  case rust => exact passes_signs (by decide) (by decide) (by decide)
  all_goals exact passes_nil _ _ _

theorem inked_quoted (host : Host) (content : List Char) : Inked (host.quoted content) := by
  have last : ∀ c ∈ (host.mark :: host.suffix).getLast?, isBlank c = false := by cases host <;> decide
  have first : isBlank host.mark = false := by cases host <;> decide
  refine ⟨List.cons_ne_nil _ _, ?_, ?_⟩
  · intro c head
    rw [quoted, List.head?_cons, Option.mem_some_iff] at head
    rwa [← head]
  · intro c ends
    rw [quoted, ← List.cons_append, List.getLast?_append, List.getLast?_cons, Option.some_or, ← List.getLast?_cons] at ends
    exact last c ends

theorem blank_list_pad (host : Host) : ∀ c ∈ host.listPad, isBlank c = true := by cases host <;> decide

theorem list_pad_head (host : Host) : host.listPad = [] ∨ ∃ c ∈ host.listPad.head?, isBreak c = true := by
  cases host
  case dotnet => exact .inr ⟨' ', rfl, by decide⟩
  all_goals exact .inl rfl

theorem passes_list_pad (host : Host) : Passes host.grammar isInert true host.listPad := by
  cases host
  case dotnet => exact passes_signs (by decide) (by decide) (by decide)
  all_goals exact passes_nil _ _ _

theorem passes_blank (host : Host) : Passes host.grammar isInert true [' '] := by
  cases host <;> exact passes_signs (by decide) (by decide) (by decide)

theorem quoted_part_spec (host : Host) {lead trail content : List Char} (blank : ∀ c ∈ lead, isBlank c = true)
    (passesLead : Passes host.grammar isInert true lead) (trails : trail = [] ∨ trail = host.listPad)
    (plain : PlainText content) : Part.Neat ⟨lead, host.quoted content, trail⟩ ∧
      Passes host.grammar isInert false (Part.text ⟨lead, host.quoted content, trail⟩) := by
  have body := passesLead.append (passes_quoted host plain) (.inl rfl)
  unfold Part.text
  rcases trails with rfl | rfl
  · refine ⟨⟨blank, by simp, .inr (inked_quoted host content)⟩, ?_⟩
    rwa [List.append_nil]
  · refine ⟨⟨blank, blank_list_pad host, .inr (inked_quoted host content)⟩, ?_⟩
    rcases list_pad_head host with none | breaks
    · simp only [none, List.append_nil]
      exact body
    · exact body.append ((passes_list_pad host).restrict false) (.inr breaks)

theorem spreadless_nil (host : Host) : isSpread host.grammar [] = false := by cases host <;> decide

theorem element_parts_spec (host : Host) {lead : List Char} (blank : ∀ c ∈ lead, isBlank c = true)
    (passesLead : Passes host.grammar isInert true lead) {contents : List (List Char)}
    (plain : ∀ content ∈ contents, PlainText content) :
    let parts := host.elementParts lead contents
    (∀ p ∈ parts.1 :: parts.2, p.Neat ∧ Passes host.grammar isInert false p.text ∧ isSpread host.grammar p.body = false) ∧
      (((parts.1 :: parts.2).map (·.body)).filter fun body => !body.isEmpty) = contents.map host.quoted := by
  induction contents generalizing lead with
  | nil =>
    refine ⟨?_, rfl⟩
    intro p member
    rw [elementParts, List.mem_singleton] at member
    rw [member]
    refine ⟨⟨blank, blank_list_pad host, .inl rfl⟩, ?_, spreadless_nil host⟩
    have both := passesLead.append ((passes_list_pad host).restrict false) (.inl rfl)
    simpa [Part.text] using both
  | cons content rest ih =>
    have first := plain content List.mem_cons_self
    cases rest with
    | nil =>
      refine ⟨?_, rfl⟩
      intro p member
      rw [elementParts, List.mem_singleton] at member
      rw [member]
      have spec := quoted_part_spec host blank passesLead (.inr rfl) first
      exact ⟨spec.1, spec.2, spreadless_quoted host _⟩
    | cons next rest =>
      obtain ⟨parts, bodies⟩ := ih (by decide) (passes_blank host) fun d member => plain d (List.mem_cons_of_mem _ member)
      refine ⟨?_, ?_⟩
      · intro p member
        rw [elementParts, List.mem_cons] at member
        rcases member with rfl | later
        · have spec := quoted_part_spec host blank passesLead (.inl rfl) first
          exact ⟨spec.1, spec.2, spreadless_quoted host _⟩
        · exact parts p later
      · rw [elementParts, List.map_cons, List.filter_cons_of_pos (by simp [quoted]), bodies]
        rfl

theorem passes_comma (host : Host) {base : Char → Bool} (level : base ',' = true) : Passes host.grammar base true [','] := by
  refine passes_signs ?_ ?_ (by simp [level])
  · cases host <;> decide
  · cases host <;> decide

theorem separates_elements (host : Host) {lead : List Char} (blank : ∀ c ∈ lead, isBlank c = true)
    (passesLead : Passes host.grammar isInert true lead) {contents : List (List Char)}
    (plain : ∀ content ∈ contents, PlainText content) :
    let parts := host.elementParts lead contents
    Separates host.grammar [','] ',' (parts.1 :: parts.2) := by
  obtain ⟨parts, _⟩ := element_parts_spec host blank passesLead plain
  refine ⟨rfl, by decide, ?_, ?_, rfl, rfl, fun p member => (parts p member).1, fun p member => ?_,
    fun feed => absurd feed (by decide)⟩
  · cases host <;> decide
  · cases host <;> decide
  · refine (parts p member).2.1.weaken fun c inert => ?_
    unfold isInert at inert
    cases comma : [','].contains c with
    | false => rfl
    | true =>
      rw [List.contains_iff_mem, List.mem_singleton] at comma
      rw [comma] at inert
      contradiction

theorem passes_interior (host : Host) {contents : List (List Char)} (plain : ∀ content ∈ contents, PlainText content) :
    Passes host.grammar (fun c => !isClosing c) false (host.interior contents) := by
  obtain ⟨parts, _⟩ := element_parts_spec host (blank_list_pad host) (passes_list_pad host) plain
  refine passes_join (passes_comma host rfl) rfl _ _ fun p member => (parts p member).2.1.weaken fun c inert => ?_
  unfold isInert at inert
  rw [Bool.and_eq_true] at inert
  exact inert.1

theorem list_brackets (host : Host) : isOpening host.listOpening = true ∧ isClosing host.listClosing = true ∧
    host.grammar.silent [host.listOpening] = true ∧ host.grammar.silent [host.listClosing] = true ∧
    isInert host.listOpening = true ∧ isBreak host.listClosing = true := by
  cases host <;> decide

theorem passes_list (host : Host) {contents : List (List Char)} (plain : ∀ content ∈ contents, PlainText content) :
    Passes host.grammar isInert true (host.list contents) := by
  obtain ⟨opens, closes, silentOpening, silentClosing, inert, _⟩ := list_brackets host
  have brackets := passes_brackets (passes_interior host plain) opens closes silentOpening silentClosing inert
  exact (passes_list_front host).append brackets (.inl rfl)

theorem elements_interior (host : Host) {contents : List (List Char)} (plain : ∀ content ∈ contents, PlainText content) :
    Inferred.elements host.grammar (host.interior contents) = contents.map host.quoted := by
  obtain ⟨parts, bodies⟩ := element_parts_spec host (blank_list_pad host) (passes_list_pad host) plain
  have separates := separates_elements host (blank_list_pad host) (passes_list_pad host) plain
  rw [interior, Inferred.elements_of_parts separates fun p member => (parts p member).2.2, bodies]

theorem list_start (host : Host) : host.grammar.clearAt (host.listPrefix ++ [host.listOpening]) = true ∧
    (host.listPrefix ++ [host.listOpening]).head? ≠ some ':' := by
  cases host <;> decide

theorem within_list (host : Host) {contents : List (List Char)} (plain : ∀ content ∈ contents, PlainText content)
    (levels : Nat) : Inferred.within host.grammar (levels + 1) (host.list contents) =
      ⟨.array (contents.map fun content => .string (String.ofList content)), .array, false⟩ := by
  obtain ⟨_, closes, _, silentClosing, _, breaks⟩ := list_brackets host
  rw [Grammar.silent, Bool.and_eq_true] at silentClosing
  have isPlain := plain_list host (host.interior contents ++ [host.listClosing])
  have bare := Inferred.bare_of_wrapper fun wrapper member =>
    (unwrapped host wrapper member (host.interior contents ++ [host.listClosing])).2
  have values : (Inferred.elements host.grammar (host.interior contents)).map (Inferred.within host.grammar levels) =
      contents.map fun content => ⟨.string (String.ofList content), .string, false⟩ := by
    rw [elements_interior host plain, List.map_map]
    exact List.map_congr_left fun content member => within_quoted host (plain content member) levels
  obtain ⟨shape, others, lists⟩ : ∃ shape others, host.grammar.lists = shape :: others := by
    cases host <;> exact ⟨_, _, rfl⟩
  have opens := list_opens host (host.interior contents ++ [host.listClosing])
  have closing := list_closes host
  rw [lists] at opens closing
  simp only [List.head?_cons, Option.bind_some, Option.map_some, Option.some.injEq, Option.map_eq_some_iff] at opens closing
  obtain ⟨found, opens, stop⟩ := opens
  -- The text from its first character on.
  obtain ⟨clear, head⟩ := list_start host
  obtain ⟨c, front, parts⟩ := List.exists_cons_of_ne_nil (show host.listPrefix ++ [host.listOpening] ≠ [] by simp)
  have whole : host.listPrefix ++ host.listOpening :: (host.interior contents ++ [host.listClosing]) =
      c :: (front ++ (host.interior contents ++ [host.listClosing])) := by
    have regrouped : host.listPrefix ++ host.listOpening :: (host.interior contents ++ [host.listClosing]) =
        (host.listPrefix ++ [host.listOpening]) ++ (host.interior contents ++ [host.listClosing]) := by simp
    rw [regrouped, parts, List.cons_append]
  rw [parts] at clear head
  rw [whole] at isPlain bare opens
  rw [list, whole]
  exact Inferred.within_list isPlain bare (literal_of_clear_at clear _ {}) (by simpa using head) lists opens stop closing
    closes breaks silentClosing.1 (passes_interior host plain) (fun c level => by simpa using level) levels values

end Host

end SnippetReview
