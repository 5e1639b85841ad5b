import Mathlib.Data.List.Induction
import SnippetReview.Proofs.Snippet.Standing

set_option autoImplicit false

namespace SnippetReview

open Text

namespace Visit

def opensAngle (g : Grammar) (v : Visit) : Bool :=
  v.char == '<' && g.generics && opensGeneric v.before v.rest.head?

def closesAngle (g : Grammar) (v : Visit) : Bool :=
  v.char == '>' && g.generics && v.before != some '-' && v.before != some '='

-- The angle brackets that are open behind a visit of no other bracket, from those before it.
def anglesAfter (g : Grammar) (v : Visit) (angles : Nat) : Nat :=
  if v.opensAngle g then angles + 1
  else if v.closesAngle g then angles - 1
  else if v.char = ';' then 0
  else angles

end Visit

namespace Nesting

def pass (g : Grammar) (n : Nesting) (v : Visit) : Nesting := n.after g v.before v.char v.rest

def past (g : Grammar) (n : Nesting) (vs : List Visit) : Nesting := vs.foldl (pass g) n

variable {g : Grammar} {n : Nesting} {v : Visit}

theorem not_opening_of_closing {c : Char} (closes : isClosing c = true) : isOpening c = false := by
  simp only [isClosing, Bool.or_eq_true, beq_iff_eq] at closes
  rcases closes with (rfl | rfl) | rfl <;> rfl

theorem pass_opening (opens : isOpening v.char = true) : n.pass g v = n.openBracket := by
  simp [pass, after, opens]

theorem pass_closing (closes : isClosing v.char = true) : n.pass g v = n.closeBracket := by
  simp [pass, after, closes, not_opening_of_closing closes]

theorem pass_other (g : Grammar) (n : Nesting) (opens : isOpening v.char = false) (closes : isClosing v.char = false) :
    n.pass g v = { n with angles := v.anglesAfter g n.angles } := by
  unfold Visit.anglesAfter
  by_cases less : v.opensAngle g = true
  · have sign := less
    simp only [Visit.opensAngle, Bool.and_eq_true, beq_iff_eq] at sign
    simp [pass, after, less, sign, isOpening, isClosing]
  · by_cases greater : v.closesAngle g = true
    · have sign := greater
      simp only [Visit.closesAngle, Bool.and_eq_true, beq_iff_eq, bne_iff_ne] at sign
      by_cases none : n.angles = 0
      · simp [pass, after, less, greater, sign, isOpening, isClosing, none]
        rw [← none]
      · simp [pass, after, less, greater, sign, isOpening, isClosing, Nat.pos_of_ne_zero none]
    · have noLess : (v.char == '<' && g.generics && opensGeneric v.before v.rest.head?) = false := by
        simpa [Visit.opensAngle] using less
      have noGreater : (v.char == '>' && g.generics && decide (0 < n.angles) && v.before != some '-' &&
          v.before != some '=') = false := by
        rw [Bool.eq_false_iff]
        intro sign
        apply greater
        simp only [Bool.and_eq_true] at sign
        simp only [Visit.closesAngle, sign, Bool.and_self]
      simp only [pass, after, opens, closes, less, greater, noLess, noGreater, Bool.false_eq_true, if_false, beq_iff_eq]
      split <;> rfl

theorem keywords_pass (g : Grammar) (n : Nesting) (v : Visit) : (n.pass g v).keywords = n.keywords := by
  cases opens : isOpening v.char with
  | true => rw [pass_opening opens]; rfl
  | false =>
    cases closes : isClosing v.char with
    | true => rw [pass_closing closes]; rfl
    | false => rw [pass_other g n opens closes]

theorem keywords_past (g : Grammar) (n : Nesting) (vs : List Visit) : (n.past g vs).keywords = n.keywords := by
  induction vs generalizing n with
  | nil => rfl
  | cons v rest ih => exact (ih (n.pass g v)).trans (keywords_pass g n v)

theorem past_concat (g : Grammar) (n : Nesting) (vs : List Visit) (v : Visit) :
    n.past g (vs ++ [v]) = (n.past g vs).pass g v := by
  simp [past]

end Nesting

def Leveled (g : Grammar) : Nesting → List Visit → Prop
  | _, [] => True
  | n, v :: rest => v.depth = n.depth ∧ Leveled g (n.pass g v) rest

theorem Leveled.depth_eq {g : Grammar} {n : Nesting} {before after : List Visit} {v : Visit}
    (leveled : Leveled g n (before ++ v :: after)) : v.depth = (n.past g before).depth := by
  induction before generalizing n with
  | nil => exact leveled.1
  | cons u before ih => exact ih leveled.2

namespace Walk

variable {g : Grammar} {w : Walk}

theorem nesting_step (wordless : g.blockWords = none) {c : Char} {later : List Char} (stands : w.cursor.rest = c :: later) :
    (w.step g).nesting = w.nesting.pass g (w.visitAt g c later) := by
  have none : wordAt g w.cursor.before c later = none := by
    unfold wordAt
    rw [wordless]
    rfl
  unfold step
  rw [stands]
  simp only [none]
  rfl

theorem nesting_literal {l : Literal} (kind : l.kind ≠ .code) (text : List Char) :
    (w.passToken g (.literal l text)).nesting = w.nesting := by
  unfold passToken passOver
  simp only [Segment.ofLiteral]
  cases kindEq : l.kind with
  | code => exact absurd kindEq kind
  | quoted | regex | comment => rfl

theorem seen_leveled (wordless : g.blockWords = none) {tokens : List Token} {later : List Char}
    (stands : w.cursor.rest = flatten tokens ++ later)
    (kinds : ∀ l text, Token.literal l text ∈ tokens → l.kind ≠ .code) : Leveled g w.nesting (w.seen g tokens) := by
  induction tokens generalizing w with
  | nil => trivial
  | cons t rest ih =>
    have others : ∀ l text, Token.literal l text ∈ rest → l.kind ≠ .code :=
      fun l text inside => kinds l text (List.mem_cons_of_mem t inside)
    rw [flatten, List.flatMap_cons, ← flatten, List.append_assoc] at stands
    cases t with
    | code c =>
      have next : (w.step g).cursor.rest = flatten rest ++ later := by
        rw [cursor_step stands]
        rfl
      rw [seen_code stands]
      refine ⟨rfl, ?_⟩
      rw [← nesting_step wordless stands]
      exact ih next others
    | literal l text =>
      have kind := kinds l text List.mem_cons_self
      have next : (w.passToken g (.literal l text)).cursor.rest = flatten rest ++ later := by
        rw [cursor_literal kind (show w.cursor.rest = text ++ _ from stands)]
      rw [seen_literal g w l text rest kind, ← nesting_literal (w := w) (g := g) kind text]
      exact ih next others

end Walk

theorem visits_leveled {g : Grammar} (wordless : g.blockWords = none) (text : List Char) :
    Leveled g {} (visits g text) := by
  rw [visits_wordless wordless]
  have stands : (Cursor.start text).rest = flatten (tokens g text) ++ [] := by
    rw [tokens, flatten_tokens_from, List.append_nil]
    rfl
  exact Walk.seen_leveled (w := { cursor := Cursor.start text }) wordless stands fun l inner inside =>
    kind_of_mem_tokens inside

-- How many brackets are open behind visits, and how many angle brackets outside all of these.
def outermost (g : Grammar) (vs : List Visit) : Nat × Nat :=
  vs.foldl (fun (level, angles) v =>
    if isOpening v.char then (level + 1, angles)
    else if isClosing v.char then (level - 1, if level = 0 then 0 else angles)
    else (level, if level = 0 then v.anglesAfter g angles else angles)) (0, 0)

def openBrackets (g : Grammar) (vs : List Visit) : Nat := (outermost g vs).1

-- The angle brackets that are open behind visits, outside all brackets.
def openAngles (g : Grammar) (vs : List Visit) : Nat := (outermost g vs).2

section

variable (g : Grammar) (vs : List Visit) (v : Visit)

theorem open_brackets_concat : openBrackets g (vs ++ [v]) =
    if isOpening v.char then openBrackets g vs + 1
    else if isClosing v.char then openBrackets g vs - 1
    else openBrackets g vs := by
  simp only [openBrackets, outermost, List.foldl_append, List.foldl_cons, List.foldl_nil]
  split
  · rfl
  · split <;> rfl

theorem open_angles_concat : openAngles g (vs ++ [v]) =
    if isOpening v.char then openAngles g vs
    else if isClosing v.char then if openBrackets g vs = 0 then 0 else openAngles g vs
    else if openBrackets g vs = 0 then v.anglesAfter g (openAngles g vs) else openAngles g vs := by
  simp only [openAngles, openBrackets, outermost, List.foldl_append, List.foldl_cons, List.foldl_nil]
  split
  · rfl
  · split <;> rfl

end

namespace Nesting

-- What a walk has open behind visits: its stack has an entry for each bracket, and at the bottom are the
-- angle brackets outside all brackets.
structure Counts (g : Grammar) (vs : List Visit) (n : Nesting) : Prop where
  brackets : n.brackets = openBrackets g vs
  saved : n.savedAngles.length = n.brackets
  angles : (n.angles :: n.savedAngles).getLast (List.cons_ne_nil _ _) = openAngles g vs

theorem past_counts (g : Grammar) (vs : List Visit) : Counts g vs (past g {} vs) := by
  induction vs using List.reverseRecOn with
  | nil => exact ⟨rfl, rfl, rfl⟩
  | append_singleton vs v ih =>
    obtain ⟨brackets, saved, angles⟩ := ih
    rw [past_concat]
    generalize past g {} vs = n at brackets saved angles
    have level := open_brackets_concat g vs v
    have bottom := open_angles_concat g vs v
    rw [← brackets] at level bottom
    rw [← angles] at bottom
    -- An opening bracket puts the angle brackets on the stack, a closing one takes them from it. Any other sign changes
    -- those inside the innermost bracket, and these are the outermost ones where the stack is empty.
    cases opens : isOpening v.char with
    | true =>
      simp only [opens, if_true] at level bottom
      rw [pass_opening opens]
      exact ⟨level.symm, congrArg (· + 1) saved, bottom.symm⟩
    | false =>
      cases closes : isClosing v.char with
      | true =>
        simp only [opens, closes, if_true, Bool.false_eq_true, if_false] at level bottom
        rw [pass_closing closes]
        cases stack : n.savedAngles with
        | nil =>
          -- Without an open bracket the closing one drops what angle brackets are open.
          have none : n.brackets = 0 := by rw [← saved, stack, List.length_nil]
          rw [if_pos none] at bottom
          exact ⟨level.symm, by simp [closeBracket, stack, none], by simp [closeBracket, stack, bottom]⟩
        | cons outer stack' =>
          rw [stack, List.length_cons] at saved
          rw [if_neg (by omega)] at bottom
          exact ⟨level.symm, by simp [closeBracket, stack, ← saved], by simp [closeBracket, stack, bottom]⟩
      | false =>
        simp only [opens, closes, Bool.false_eq_true, if_false] at level bottom
        rw [pass_other g n opens closes]
        refine ⟨level.symm, saved, ?_⟩
        cases stack : n.savedAngles with
        | nil =>
          rw [stack] at saved
          simp [bottom, stack, ← saved]
        | cons outer stack' =>
          rw [stack, List.length_cons] at saved
          simp [bottom, stack, ← saved]

theorem depth_past {g : Grammar} {vs : List Visit} (outside : openBrackets g vs = 0) :
    (past g {} vs).depth = openAngles g vs := by
  obtain ⟨brackets, saved, angles⟩ := past_counts g vs
  have keywords : (past g {} vs).keywords = 0 := keywords_past g {} vs
  rw [outside] at brackets
  rw [brackets, List.length_eq_zero_iff] at saved
  simp only [saved, List.getLast_singleton] at angles
  rw [depth, brackets, keywords, angles, Nat.zero_add]

end Nesting

end SnippetReview
