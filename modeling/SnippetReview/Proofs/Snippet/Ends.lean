import SnippetReview.Proofs.Snippet.Levels
import SnippetReview.Proofs.Snippet.Provenance

/- What ends a bracketed text, and what ends a statement: a closing bracket without a partner, and a semicolon
   outside all brackets. Where an angle bracket is taken to be open, neither of them is seen. -/

set_option autoImplicit false

namespace SnippetReview

open Text

def Visit.Unmatched (v : Visit) (before : List Visit) : Prop :=
  isClosing v.char = true ∧ before.countP (fun u => isOpening u.char) = before.countP fun u => isClosing u.char

def Matched (vs : List Visit) : Prop := ∀ front v back, vs = front ++ v :: back → ¬ v.Unmatched front

-- The first closing bracket without a partner, and what stands before it.
structure FirstUnmatched (vs before : List Visit) (v : Visit) : Prop where
  split : ∃ after, vs = before ++ v :: after
  unmatched : v.Unmatched before
  matched : Matched before

theorem Matched.front {front back : List Visit} (matched : Matched (front ++ back)) : Matched front := by
  intro first v rest split
  exact matched first v (rest ++ back) (by simp [split])

theorem open_brackets_matched (g : Grammar) {vs : List Visit} (matched : Matched vs) :
    openBrackets g vs + vs.countP (fun v => isClosing v.char) = vs.countP fun v => isOpening v.char := by
  induction vs using List.reverseRecOn with
  | nil => rfl
  | append_singleton vs v ih =>
    have before := ih matched.front
    rw [open_brackets_concat, List.countP_append, List.countP_append]
    cases opens : isOpening v.char with
    | true =>
      have closes : isClosing v.char = false := by
        cases closes : isClosing v.char with
        | false => rfl
        | true => exact absurd opens (by simp [Nesting.not_opening_of_closing closes])
      simp [opens, closes]
      omega
    | false =>
      cases closes : isClosing v.char with
      | true =>
        -- The bracket has a partner, so that one is open before it.
        have partner : openBrackets g vs ≠ 0 := by
          intro none
          apply matched vs v [] rfl
          exact ⟨closes, by omega⟩
        simp [opens, closes]
        omega
      | false => simpa [opens, closes] using before

theorem exists_first_unmatched {vs : List Visit} (unmatched : ¬ Matched vs) : ∃ before v, FirstUnmatched vs before v := by
  induction vs using List.reverseRecOn with
  | nil =>
    refine absurd (fun front v back split => ?_) unmatched
    simp at split
  | append_singleton vs last ih =>
    by_cases matched : Matched vs
    · refine ⟨vs, last, ⟨[], rfl⟩, ?_, matched⟩
      by_contra partner
      apply unmatched
      intro front v back split
      rcases List.eq_nil_or_concat back with rfl | ⟨most, end', rfl⟩
      · obtain ⟨rfl, same⟩ := List.append_inj' split rfl
        obtain rfl := List.singleton_inj.mp same
        exact partner
      · rw [List.concat_eq_append, ← List.cons_append, ← List.append_assoc] at split
        exact matched front v most (List.append_inj' split rfl).1
    · obtain ⟨before, v, ⟨after, split⟩, without, others⟩ := ih matched
      exact ⟨before, v, ⟨after ++ [last], by simp [split]⟩, without, others⟩

section

variable {g : Grammar} {vs : List Visit}

theorem angles_after_le {v : Visit} (plain : v.opensAngle g = false) (angles : Nat) : v.anglesAfter g angles ≤ angles := by
  unfold Visit.anglesAfter
  rw [plain, if_neg Bool.false_ne_true]
  split
  · exact Nat.sub_le angles 1
  · split
    · exact Nat.zero_le angles
    · exact Nat.le_refl angles

theorem open_angles_append {later : List Visit} (none : openAngles g vs = 0)
    (plain : ∀ v ∈ later, v.opensAngle g = false) : openAngles g (vs ++ later) = 0 := by
  induction later using List.reverseRecOn with
  | nil => simpa using none
  | append_singleton later v ih =>
    have before := ih fun u member => plain u (List.mem_append_left [v] member)
    have bound := angles_after_le (plain v (by simp)) 0
    rw [← List.append_assoc, open_angles_concat, before]
    simp [Nat.le_zero.mp bound]

theorem open_angles_plain (plain : ∀ v ∈ vs, v.opensAngle g = false) : openAngles g vs = 0 :=
  @open_angles_append g [] vs rfl plain

theorem open_angles_semicolon {v : Visit} (semicolon : v.char = ';') (outside : openBrackets g vs = 0) :
    openAngles g (vs ++ [v]) = 0 := by
  rw [open_angles_concat]
  simp [semicolon, outside, isOpening, isClosing, Visit.anglesAfter, Visit.opensAngle, Visit.closesAngle]

end

section

variable {g : Grammar} (wordless : g.blockWords = none) {text : List Char} {before after : List Visit} {v : Visit}

include wordless

theorem depth_of_split (split : visits g text = before ++ v :: after) : v.depth = (Nesting.past g {} before).depth :=
  Leveled.depth_eq (split ▸ visits_leveled wordless text)

theorem depth_outside (split : visits g text = before ++ v :: after) (outside : openBrackets g before = 0) :
    v.depth = openAngles g before := (depth_of_split wordless split).trans (Nesting.depth_past outside)

theorem outside_of_depth_zero (split : visits g text = before ++ v :: after) (level : v.depth = 0) :
    openBrackets g before = 0 := by
  have sum := depth_of_split wordless split
  rw [level, Nesting.depth, (Nesting.past_counts g before).brackets] at sum
  omega

theorem find_first_unmatched_iff (first : FirstUnmatched (visits g text) before v) :
    (findOutside g text fun v => isClosing v.char) = some v ↔ openAngles g before = 0 := by
  obtain ⟨⟨after, split⟩, unmatched, matched⟩ := first
  have outside : openBrackets g before = 0 := by
    have sum := open_brackets_matched g matched
    have same := unmatched.2
    omega
  rw [← depth_outside wordless split outside]
  constructor
  · intro found
    have holds := List.find?_some found
    simp only [Bool.and_eq_true, beq_iff_eq] at holds
    exact holds.1
  · intro level
    -- No closing bracket before `v` is outside, so that the search comes to `v`.
    have passed : before.find? (fun v => v.depth == 0 && isClosing v.char) = none := by
      rw [List.find?_eq_none]
      intro u member holds
      simp only [Bool.and_eq_true, beq_iff_eq] at holds
      obtain ⟨front, back, parts⟩ := List.append_of_mem member
      have here : visits g text = front ++ u :: (back ++ v :: after) := by simp [split, parts]
      have zero := outside_of_depth_zero wordless here holds.1
      have sum := open_brackets_matched g (parts ▸ matched).front
      apply matched front u back parts
      exact ⟨holds.2, by omega⟩
    rw [findOutside, split, List.find?_append, passed, List.find?_cons_of_pos (by simp [level, unmatched.1])]
    rfl

theorem find_closing_none (matched : Matched (visits g text)) : (findOutside g text fun v => isClosing v.char) = none := by
  rw [findOutside, List.find?_eq_none]
  intro v member holds
  simp only [Bool.and_eq_true, beq_iff_eq] at holds
  obtain ⟨front, back, split⟩ := List.append_of_mem member
  have zero := outside_of_depth_zero wordless split holds.1
  have sum := open_brackets_matched g (split ▸ matched).front
  apply matched front v back split
  exact ⟨holds.2, by omega⟩

/-- The closing bracket that is found is the first one without a partner, just where no angle bracket is taken to be
open at that one. In a language without type arguments, and in a text without signs that look like them, none is. -/
theorem matching_close_iff (text : List Char) :
    let finds := ∀ closing v, matchingClose g text closing = some v ↔
      v.char = closing ∧ ∃ before, FirstUnmatched (visits g text) before v
    (finds ↔ ∀ before v, FirstUnmatched (visits g text) before v → openAngles g before = 0) ∧
      ((g.generics = false ∨ ∀ v ∈ visits g text, v.opensAngle g = false) → finds) := by
  intro finds
  have exact : finds ↔ ∀ before v, FirstUnmatched (visits g text) before v → openAngles g before = 0 := by
    constructor
    · intro finds before v first
      have found := (finds v.char v).mpr ⟨rfl, before, first⟩
      rw [matchingClose, Option.filter_eq_some_iff] at found
      exact (find_first_unmatched_iff wordless first).mp found.1
    · intro flat closing v
      rw [matchingClose, Option.filter_eq_some_iff, beq_iff_eq, and_comm]
      apply and_congr_right
      intro _
      constructor
      · intro found
        by_cases matched : Matched (visits g text)
        · rw [find_closing_none wordless matched] at found
          contradiction
        · obtain ⟨before, u, first⟩ := exists_first_unmatched matched
          rw [(find_first_unmatched_iff wordless first).mpr (flat before u first)] at found
          obtain rfl := Option.some.inj found
          exact ⟨before, first⟩
      · rintro ⟨before, first⟩
        exact (find_first_unmatched_iff wordless first).mpr (flat before v first)
  refine ⟨exact, fun plain => exact.mpr fun before v first => open_angles_plain fun u member => ?_⟩
  rcases plain with none | plain
  · simp [Visit.opensAngle, none]
  · obtain ⟨after, split⟩ := first.split
    exact plain u (by simp [split, member])

end

theorem visits_around {vs : List Visit} {n : Nat} {v : Visit} (here : vs[n]? = some v) :
    vs = vs.take n ++ v :: vs.drop (n + 1) := by
  obtain ⟨within, rfl⟩ := List.getElem?_eq_some_iff.mp here
  rw [List.getElem_cons_drop, List.take_append_drop]

theorem matched_of_no_closing {vs : List Visit} (none : ∀ v ∈ vs, isClosing v.char = false) : Matched vs := by
  intro front v back split unmatched
  have opens := none v (by simp [split])
  rw [unmatched.1] at opens
  contradiction

theorem matching_close_java :
    let g := Host.java.grammar
    let text := "a < b, f[x]) -> y".toList
    g.blockWords = none ∧ (∀ v ∈ visits g text, v.opensAngle g = false) ∧
      ∃ before v, FirstUnmatched (visits g text) before v ∧ v.offset = 11 ∧ matchingClose g text ')' = some v := by
  intro g text
  have wordless : g.blockWords = none := by decide
  have plain : ∀ v ∈ visits g text, v.opensAngle g = false := by decide +kernel
  have finds := (matching_close_iff wordless text).2 (.inr plain)
  have found : (matchingClose g text ')').map (·.offset) = some 11 := by decide +kernel
  obtain ⟨v, closes, offset⟩ := Option.map_eq_some_iff.mp found
  obtain ⟨_, before, first⟩ := (finds ')' v).mp closes
  exact ⟨wordless, plain, before, v, first, offset, closes⟩

-- A comparison without blanks hides the bracket that closes a configuration.
theorem matching_close_hidden :
    let g := Host.rust.grammar
    let text := "a<b\x7d".toList
    let result := extract .full {} .rust "sentry::init(ClientOptions \x7b debug: a<b \x7d)".toList
    g.blockWords = none ∧
      (∃ before v, FirstUnmatched (visits g text) before v ∧ v.offset = 3 ∧ v.char = '\x7d') ∧
      matchingClose g text '\x7d' = none ∧ result.valid = false ∧
      result.errors.map (·.problem) = [.neverClosed "ClientOptions \x7b"] := by
  intro g text result
  have looked : (visits g text)[3]?.map (fun v => (v.offset, v.char)) = some (3, '\x7d') := by decide +kernel
  obtain ⟨v, here, last⟩ := Option.map_eq_some_iff.mp looked
  obtain ⟨offset, char⟩ := Prod.mk.inj last
  refine ⟨by decide, ⟨_, v, ⟨⟨_, visits_around here⟩, ⟨?_, ?_⟩, ?_⟩, offset, char⟩, ?_⟩
  · rw [char]
    rfl
  · decide +kernel
  · exact matched_of_no_closing (by decide +kernel)
  · exact ⟨by decide +kernel, by decide +kernel, by decide +kernel⟩

theorem Host.wordless_of_generics {host : Host} (generics : host.grammar.generics = true) :
    host.grammar.blockWords = none := by
  cases host <;> first | rfl | contradiction

/-- A semicolon outside all brackets ends its statement, just where no angle bracket is taken to be open there. None
is where no sign since the last such semicolon, or since the beginning, looks like the start of type arguments. -/
theorem semicolon_cut_iff {host : Host} (generics : host.grammar.generics = true)
    (separates : ';' ∈ host.grammar.separators) {body : List Char} {before after : List Visit} {v : Visit}
    (split : visits host.grammar body = before ++ v :: after) (semicolon : v.char = ';')
    (outside : openBrackets host.grammar before = 0) :
    let g := host.grammar
    (v ∈ cuts g body g.separators ↔ openAngles g before = 0) ∧
      ∀ done since, before = done ++ since →
        (done = [] ∨ ∃ most last, done = most ++ [last] ∧ last.char = ';' ∧ openBrackets g most = 0) →
        (∀ u ∈ since, u.opensAngle g = false) → v ∈ cuts g body g.separators := by
  intro g
  have depth := depth_outside (Host.wordless_of_generics generics) split outside
  have exact : v ∈ cuts g body g.separators ↔ openAngles g before = 0 := by
    have visited : v ∈ visits g body := by
      rw [split]
      simp
    have breaks : v.continues = false := by simp [Visit.continues, semicolon]
    simp [cuts, visited, depth, breaks, semicolon, separates, g]
  refine ⟨exact, fun done since parts start plain => exact.mpr ?_⟩
  rw [parts]
  apply open_angles_append _ plain
  rcases start with rfl | ⟨most, last, rfl, sign, level⟩
  · rfl
  · exact open_angles_semicolon sign level

theorem semicolon_cut_java :
    let g := Host.java.grammar
    let body := "a<b; c = d; e".toList
    ∃ before v after, visits g body = before ++ v :: after ∧ v.offset = 10 ∧ v ∈ cuts g body g.separators := by
  intro g body
  have looked : (visits g body)[10]?.map (fun v => (v.offset, v.char)) = some (10, ';') := by decide +kernel
  obtain ⟨v, here, second⟩ := Option.map_eq_some_iff.mp looked
  obtain ⟨offset, char⟩ := Prod.mk.inj second
  have cut := @semicolon_cut_iff .java (by decide) (by decide) body _ _ v (visits_around here) char (by decide +kernel)
  exact ⟨_, v, _, visits_around here, offset, cut.1.mpr (by decide +kernel)⟩

-- A comparison without blanks hides the semicolon behind it, and the next statement is not read.
theorem semicolon_cut_hidden :
    let g := Host.java.grammar
    let body := " options.debug = a<b; options.setRelease(\"1\"); ".toList
    let result := extract .full {} .java
      "Sentry.init(options -> \x7b options.debug = a<b; options.setRelease(\"1\"); \x7d);".toList
    (∃ before v after, visits g body = before ++ v :: after ∧ v.offset = 20 ∧ v.char = ';' ∧
        openBrackets g before = 0 ∧ v ∉ cuts g body g.separators) ∧
      result.valid = true ∧
      result.settings.list.map (fun setting => (setting.key, setting.raw)) =
        [("debug", "a<b; options.setRelease(\"1\")")] := by
  intro g body result
  have looked : (visits g body)[20]?.map (fun v => (v.offset, v.char, v.depth)) = some (20, ';', 1) := by decide +kernel
  obtain ⟨v, here, first⟩ := Option.map_eq_some_iff.mp looked
  simp only [Prod.mk.injEq] at first
  obtain ⟨offset, char, depth⟩ := first
  have valid : result.valid = true := by decide +kernel
  refine ⟨⟨_, v, _, visits_around here, offset, char, by decide +kernel, ?_⟩, valid, ?_⟩
  · simp [cuts, depth]
  · rw [show result.settings = _ from Extraction.settings_of_valid valid]
    decide +kernel

end SnippetReview
