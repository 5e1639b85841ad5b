import SnippetReview.Proofs.Lexing.Partition
import SnippetReview.Proofs.Lexing.Stripping

set_option autoImplicit false

namespace SnippetReview

open Text

-- Characters of no delimiter, which neither end a line nor go on with the flags of a regular expression.
structure Grammar.Quiet (g : Grammar) (tail : List Char) : Prop where
  line : ∀ marker ∈ g.lineComments, ∀ c ∈ marker, c ∉ tail
  block : ∀ markers ∈ g.blockComments, (∀ c ∈ markers.1, c ∉ tail) ∧ ∀ c ∈ markers.2, c ∉ tail
  quote : ∀ style ∈ g.quotes, (∀ c ∈ style.opening, c ∉ tail) ∧ ∀ c ∈ style.closing, c ∉ tail
  plain : ∀ c ∈ tail, c ≠ '\n' ∧ c ≠ '/' ∧ c.isAlpha = false

section

variable {marker s tail : List Char}

theorem is_prefix_of_append (apart : ∀ c ∈ marker, c ∉ tail) (s : List Char) :
    marker.isPrefixOf (s ++ tail) = marker.isPrefixOf s := by
  induction s generalizing marker with
  | nil =>
    cases marker with
    | nil => rfl
    | cons m marker =>
      cases tail with
      | nil => rfl
      | cons d tail =>
        have other : m ≠ d := fun same => apart m List.mem_cons_self (same ▸ List.mem_cons_self)
        rw [List.nil_append, List.isPrefixOf_cons_cons, beq_eq_false_iff_ne.mpr other]
        rfl
  | cons c rest ih =>
    cases marker with
    | nil => rfl
    | cons m marker =>
      rw [List.cons_append, List.isPrefixOf_cons_cons, List.isPrefixOf_cons_cons,
        ih fun d member => apart d (List.mem_cons_of_mem m member)]

-- Of what is read from a text, the part that ends inside it stays, and the other goes on to the end.
def GoesOn (s tail : List Char) (count length length' : Nat) : Prop :=
  length' = length ∨ (length = count + s.length ∧ length' = count + s.length + tail.length)

theorem GoesOn.cons {c : Char} {count length length' : Nat} (rest : GoesOn s tail (count + 1) length length') :
    GoesOn (c :: s) tail count length length' := by
  unfold GoesOn at *
  rw [List.length_cons]
  omega

theorem line_length_append (plain : ∀ c ∈ tail, c ≠ '\n') (count : Nat) (s : List Char) :
    GoesOn s tail count (Literal.lineLength count s) (Literal.lineLength count (s ++ tail)) := by
  induction s generalizing count with
  | nil =>
    right
    rw [List.nil_append, line_length_eq, line_length_eq]
    refine ⟨rfl, ?_⟩
    induction tail with
    | nil => rfl
    | cons d tail ih =>
      have passes : (d != '\n') = true := bne_iff_ne.mpr (plain d List.mem_cons_self)
      have more := ih fun c member => plain c (List.mem_cons_of_mem d member)
      rw [List.takeWhile_cons, if_pos passes, List.length_cons, List.length_cons]
      omega
  | cons c rest ih =>
    rw [List.cons_append, Literal.lineLength, Literal.lineLength]
    by_cases feed : (c == '\n') = true
    · rw [if_pos feed, if_pos feed]
      exact .inl rfl
    · rw [if_neg feed, if_neg feed]
      exact (ih (count + 1)).cons

-- Without delimiters a comment reaches to the end of the text.
theorem block_length_quiet {opening closing : List Char} (nested : Bool) (begins : ∀ c ∈ opening, c ∉ tail)
    (ends : ∀ c ∈ closing, c ∉ tail) (some : closing ≠ []) (some' : opening ≠ []) (depth skip count : Nat) :
    Literal.blockLength opening closing nested depth skip count tail = count + tail.length := by
  induction tail generalizing depth skip count with
  | nil => rfl
  | cons d tail ih =>
    have goOn : ∀ depth skip, Literal.blockLength opening closing nested depth skip (count + 1) tail =
        count + (d :: tail).length := by
      intro depth skip
      rw [ih (fun c member inside => begins c member (List.mem_cons_of_mem d inside))
        (fun c member inside => ends c member (List.mem_cons_of_mem d inside)), List.length_cons]
      omega
    have absent : ∀ {marker : List Char}, marker ≠ [] → (∀ c ∈ marker, c ∉ d :: tail) →
        marker.isPrefixOf (d :: tail) = false := by
      intro marker nonempty apart
      have reaches := is_prefix_of_append apart []
      rw [List.nil_append] at reaches
      obtain ⟨m, more, rfl⟩ := List.exists_cons_of_ne_nil nonempty
      exact reaches
    cases skip with
    | succ skip => exact goOn depth skip
    | zero =>
      rw [Literal.blockLength, absent some ends, absent some' begins, Bool.and_false, if_neg Bool.false_ne_true,
        if_neg Bool.false_ne_true]
      exact goOn depth 0

theorem block_length_append {opening closing : List Char} (nested : Bool) (begins : ∀ c ∈ opening, c ∉ tail)
    (ends : ∀ c ∈ closing, c ∉ tail) (some : closing ≠ []) (some' : opening ≠ []) (depth skip count : Nat)
    (s : List Char) :
    GoesOn s tail count (Literal.blockLength opening closing nested depth skip count s)
      (Literal.blockLength opening closing nested depth skip count (s ++ tail)) := by
  induction s generalizing depth skip count with
  | nil => exact .inr ⟨rfl, block_length_quiet nested begins ends some some' depth skip count⟩
  | cons c rest ih =>
    cases skip with
    | succ skip => exact (ih depth skip (count + 1)).cons
    | zero =>
      have closes := is_prefix_of_append ends (c :: rest)
      have opens := is_prefix_of_append begins (c :: rest)
      rw [List.cons_append] at *
      rw [Literal.blockLength, Literal.blockLength, closes, opens]
      split
      · split
        · exact .inl rfl
        · exact (ih _ _ _).cons
      · split
        · exact (ih _ _ _).cons
        · exact (ih _ _ _).cons

theorem quoted_length_quiet {style : QuoteStyle} (ends : ∀ c ∈ style.closing, c ∉ tail) (some : style.closing ≠ [])
    (plain : ∀ c ∈ tail, c ≠ '\n') (escaped : Bool) (skip count : Nat) :
    Literal.quotedLength style escaped skip count tail = (count + tail.length, false) := by
  induction tail generalizing escaped skip count with
  | nil => rfl
  | cons d tail ih =>
    have goOn : ∀ escaped skip, Literal.quotedLength style escaped skip (count + 1) tail =
        (count + (d :: tail).length, false) := by
      intro escaped skip
      rw [ih (fun c member inside => ends c member (List.mem_cons_of_mem d inside))
        (fun c member => plain c (List.mem_cons_of_mem d member)), List.length_cons, Nat.add_right_comm, Nat.add_assoc]
    cases skip with
    | succ skip => exact goOn false skip
    | zero =>
      have absent : style.closing.isPrefixOf (d :: tail) = false := by
        have reaches := is_prefix_of_append ends []
        rw [List.nil_append] at reaches
        obtain ⟨m, more, shape⟩ := List.exists_cons_of_ne_nil some
        rw [reaches, shape]
        rfl
      have feed : (d == '\n') = false := beq_eq_false_iff_ne.mpr (plain d List.mem_cons_self)
      simp only [Literal.quotedLength, absent, feed, Bool.false_and, Bool.and_false, Bool.false_eq_true, if_false]
      exact goOn _ 0

theorem quoted_length_append {style : QuoteStyle} (ends : ∀ c ∈ style.closing, c ∉ tail) (some : style.closing ≠ [])
    (plain : ∀ c ∈ tail, c ≠ '\n') (escaped : Bool) (skip count : Nat) (s : List Char) :
    let extent := Literal.quotedLength style escaped skip count s
    let extent' := Literal.quotedLength style escaped skip count (s ++ tail)
    GoesOn s tail count extent.1 extent'.1 ∧ extent'.2 = extent.2 := by
  induction s generalizing escaped skip count with
  | nil =>
    rw [List.nil_append, quoted_length_quiet ends some plain]
    exact ⟨.inr ⟨rfl, rfl⟩, rfl⟩
  | cons c rest ih =>
    have goOn := fun escaped skip => (ih escaped skip (count + 1)).imp_left (GoesOn.cons (c := c))
    cases skip with
    | succ skip => exact goOn false skip
    | zero =>
      have twice : ∀ d ∈ style.closing ++ style.closing, d ∉ tail := fun d member =>
        ends d ((List.mem_append.mp member).elim id id)
      have doubled : doubledAt style (c :: (rest ++ tail)) = doubledAt style (c :: rest) :=
        congrArg (_ && ·) (is_prefix_of_append twice (c :: rest))
      have closes : closesAt style escaped (c :: (rest ++ tail)) = closesAt style escaped (c :: rest) :=
        congrArg (· && _) (is_prefix_of_append ends (c :: rest))
      rw [List.cons_append, quoted_length_cons, quoted_length_cons, doubled, closes]
      split
      · exact goOn _ _
      · split
        · exact ⟨.inl rfl, rfl⟩
        · split
          · exact ⟨.inl rfl, rfl⟩
          · exact goOn _ _

theorem regex_length_quiet (plain : ∀ c ∈ tail, c ≠ '/') (inClass skip : Bool) (count : Nat) :
    Literal.regexLength inClass skip count tail = none := by
  induction tail generalizing inClass skip count with
  | nil => rfl
  | cons d tail ih =>
    have goOn := ih fun c member => plain c (List.mem_cons_of_mem d member)
    have slash : (d == '/') = false := beq_eq_false_iff_ne.mpr (plain d List.mem_cons_self)
    simp only [Literal.regexLength, slash, Bool.false_and, Bool.false_eq_true, if_false, goOn, ite_self]

theorem regex_length_append (plain : ∀ c ∈ tail, c ≠ '/' ∧ c.isAlpha = false) (inClass skip : Bool) (count : Nat)
    (s : List Char) :
    Literal.regexLength inClass skip count (s ++ tail) = Literal.regexLength inClass skip count s := by
  induction s generalizing inClass skip count with
  | nil => exact regex_length_quiet (fun c member => (plain c member).1) inClass skip count
  | cons c rest ih =>
    have flags : ((rest ++ tail).takeWhile Char.isAlpha) = rest.takeWhile Char.isAlpha := by
      rw [List.takeWhile_append]
      split
      next all =>
        have whole := (List.takeWhile_prefix Char.isAlpha (l := rest)).eq_of_length all
        cases tail with
        | nil => rw [List.takeWhile_nil, List.append_nil, whole]
        | cons d tail =>
          rw [List.takeWhile_cons, (plain d List.mem_cons_self).2, if_neg Bool.false_ne_true, List.append_nil, whole]
      next => rfl
    rw [List.cons_append, Literal.regexLength, Literal.regexLength]
    simp only [ih, flags]

end

section

variable {g : Grammar} {s tail : List Char}

theorem line_comments_append (quiet : g.Quiet tail) (s : List Char) :
    g.lineComments.any (·.isPrefixOf (s ++ tail)) = g.lineComments.any (·.isPrefixOf s) := by
  rw [Bool.eq_iff_iff, List.any_eq_true, List.any_eq_true]
  exact exists_congr fun marker => and_congr_right fun member => by
    rw [is_prefix_of_append (quiet.line marker member)]

theorem begins_comment_append (quiet : g.Quiet tail) (s : List Char) :
    g.beginsComment (s ++ tail) = g.beginsComment s := by
  have blocks : g.blockComments.any (·.1.isPrefixOf (s ++ tail)) = g.blockComments.any (·.1.isPrefixOf s) := by
    rw [Bool.eq_iff_iff, List.any_eq_true, List.any_eq_true]
    exact exists_congr fun markers => and_congr_right fun member => by
      rw [is_prefix_of_append (quiet.block markers member).1]
  rw [Grammar.beginsComment, Grammar.beginsComment, line_comments_append quiet, blocks]

def Literal.lengthened (l : Literal) (tail : List Char) : Literal := { l with length := l.length + tail.length }

-- What begins at a place, without and with a tail behind the text: the same, or a literal up to the end.
def Lengthens (s tail : List Char) (found found' : Option Literal) : Prop :=
  found' = found ∨ ∃ l, found = some l ∧ l.length = s.length ∧ found' = some (l.lengthened tail)

theorem comment_at_append (legible : g.Legible) (quiet : g.Quiet tail) (s : List Char) :
    Lengthens s tail (some (g.commentAt s)) (some (g.commentAt (s ++ tail))) := by
  have blocks : g.blockComments.find? (·.1.isPrefixOf (s ++ tail)) = g.blockComments.find? (·.1.isPrefixOf s) :=
    find_congr fun markers member => is_prefix_of_append (quiet.block markers member).1 s
  unfold Grammar.commentAt
  rw [line_comments_append quiet, blocks]
  by_cases line : g.lineComments.any (·.isPrefixOf s) = true
  · rw [if_pos line, if_pos line]
    rcases line_length_append (fun c member => (quiet.plain c member).1) 0 s with same | ⟨whole, more⟩
    · rw [same]
      exact .inl rfl
    · refine .inr ⟨_, rfl, by rw [whole, Nat.zero_add], ?_⟩
      rw [more, whole]
      rfl
  · rw [if_neg line, if_neg line]
    cases found : g.blockComments.find? (·.1.isPrefixOf s) with
    | none => exact .inl rfl
    | some markers =>
      have member := List.mem_of_find?_eq_some found
      have marks := legible.block markers member
      have stands : markers.1 <+: s := by simpa using List.find?_some found
      simp only [List.drop_append_of_le_length stands.length_le]
      rcases block_length_append g.nestedComments (quiet.block markers member).1 (quiet.block markers member).2
        marks.2.1 marks.1.1 1 0 markers.1.length (s.drop markers.1.length) with same | ⟨whole, more⟩
      · rw [same]
        exact .inl rfl
      · have fits := stands.length_le
        rw [List.length_drop] at whole more
        refine .inr ⟨_, rfl, by simp only [whole]; omega, ?_⟩
        rw [more, whole]
        rfl

theorem quoted_append (legible : g.Legible) (quiet : g.Quiet tail) {style : QuoteStyle} (member : style ∈ g.quotes)
    (stands : style.opening.isPrefixOf s = true) :
    Lengthens s tail (some (.quoted style s)) (some (.quoted style (s ++ tail))) := by
  have fits := (List.isPrefixOf_iff_prefix.mp stands).length_le
  have goesOn := quoted_length_append (quiet.quote style member).2 (legible.quote style member).2.1
    (fun c member => (quiet.plain c member).1) false 0 style.opening.length (s.drop style.opening.length)
  unfold Literal.quoted
  rw [List.drop_append_of_le_length fits]
  simp only [goesOn.2]
  rcases goesOn.1 with same | ⟨whole, more⟩
  · rw [same]
    exact .inl rfl
  · rw [List.length_drop] at whole more
    refine .inr ⟨_, rfl, by simp only [whole]; omega, ?_⟩
    rw [more, whole]
    rfl

theorem quote_append (quiet : g.Quiet tail) (x : Context) (s : List Char) : x.quote? g (s ++ tail) = x.quote? g s :=
  find_congr fun style member => by rw [is_prefix_of_append (quiet.quote style member).1]

theorem slash_append (quiet : g.Quiet tail) (x : Context) (c : Char) (rest : List Char) :
    x.slash? g (c :: rest ++ tail) = x.slash? g (c :: rest) := by
  have plain := regex_length_append fun d member => (quiet.plain d member).2
  unfold Context.slash?
  rw [List.cons_append]
  split
  next heads =>
    rw [List.cons.injEq] at heads
    rw [← heads.2, heads.1]
    simp only [plain]
  next other =>
    split
    next heads =>
      rw [List.cons.injEq] at heads
      exact absurd (congrArg (· :: (rest ++ tail)) heads.1) (other (rest ++ tail))
    next => rfl

theorem literal_append (legible : g.Legible) (quiet : g.Quiet tail) (x : Context) (c : Char) (rest : List Char) :
    Lengthens (c :: rest) tail (x.literal? g (c :: rest)) (x.literal? g (c :: rest ++ tail)) := by
  rw [Context.literal_eq, Context.literal_eq, begins_comment_append quiet, quote_append quiet, slash_append quiet]
  split
  · exact comment_at_append legible quiet (c :: rest)
  · cases found : x.quote? g (c :: rest) with
    | none => exact .inl rfl
    | some style =>
      have stands := List.find?_some found
      rw [Bool.and_eq_true] at stands
      exact quoted_append legible quiet (List.mem_of_find?_eq_some found) stands.1

theorem Grammar.Quiet.subset {tail' : List Char} (quiet : g.Quiet tail) (inside : ∀ c ∈ tail', c ∈ tail) :
    g.Quiet tail' where
  line marker member c mark here := quiet.line marker member c mark (inside c here)
  block markers member := (quiet.block markers member).imp (fun apart c mark here => apart c mark (inside c here))
    fun apart c mark here => apart c mark (inside c here)
  quote style member := (quiet.quote style member).imp (fun apart c mark here => apart c mark (inside c here))
    fun apart c mark here => apart c mark (inside c here)
  plain c member := quiet.plain c (inside c member)

theorem literal_of_quiet {c : Char} {rest : List Char} (legible : g.Legible) (quiet : g.Quiet (c :: rest))
    (x : Context) : x.literal? g (c :: rest) = none := by
  have absent : ∀ {marker : List Char}, marker ≠ [] → marker.isPrefixOf [] = false := by
    intro marker nonempty
    obtain ⟨m, more, rfl⟩ := List.exists_cons_of_ne_nil nonempty
    rfl
  have clear : g.beginsComment (c :: rest) = false := by
    have same := begins_comment_append quiet []
    rw [List.nil_append] at same
    rw [same, Grammar.beginsComment, Bool.or_eq_false_iff, List.any_eq_false, List.any_eq_false]
    exact ⟨fun marker member => by rw [absent (legible.line marker member).1]; exact Bool.false_ne_true,
      fun markers member => by rw [absent (legible.block markers member).1.1]; exact Bool.false_ne_true⟩
  have unquoted : x.quote? g (c :: rest) = none := by
    have same := quote_append quiet x []
    rw [List.nil_append] at same
    rw [same, Context.quote?, List.find?_eq_none]
    intro style member
    rw [absent (legible.quote style member).1.1]
    exact Bool.false_ne_true
  have slash := (quiet.plain c List.mem_cons_self).2.1
  rw [Context.literal_slash clear unquoted]
  cases found : x.slash? g (c :: rest) with
  | none => rfl
  | some l =>
    obtain ⟨_, _, heads, _⟩ := Context.slash_some found
    exact absurd (List.cons.inj heads).1 slash

theorem tokens_of_quiet (legible : g.Legible) (quiet : g.Quiet tail) (x : Context) :
    tokensFrom g x tail = tail.map .code := by
  induction tail generalizing x with
  | nil => exact tokens_from_nil g x
  | cons c rest ih =>
    rw [tokens_from_code (literal_of_quiet legible quiet x), List.map_cons,
      ih (quiet.subset fun d member => List.mem_cons_of_mem c member)]

theorem tokens_from_append_quiet (legible : g.Legible) (quiet : g.Quiet tail) (x : Context) (s : List Char) :
    tokensFrom g x (s ++ tail) = tokensFrom g x s ++ tail.map .code ∨
      ∃ done l text, tokensFrom g x s = done ++ [.literal l text] ∧
        tokensFrom g x (s ++ tail) = done ++ [.literal (l.lengthened tail) (text ++ tail)] := by
  induction x, s using tokensFrom.induct g with
  | case1 x => exact .inl (by rw [List.nil_append, tokens_of_quiet legible quiet, tokens_from_nil, List.nil_append])
  | case2 x c rest l found text ih =>
    obtain ⟨low, high⟩ := literal_length legible found
    rw [List.length_cons] at high
    rcases literal_append legible quiet x c rest with same | ⟨l', found', whole, longer⟩
    · rw [found] at same
      rw [List.cons_append] at *
      rw [tokens_from_literal same, tokens_from_literal found, List.take_append_of_le_length (by omega),
        List.drop_append_of_le_length (by omega)]
      rcases ih with goesOn | ⟨done, last, lastText, before, after⟩
      · exact .inl (by rw [goesOn]; rfl)
      · exact .inr ⟨_ :: done, last, lastText, by rw [before]; rfl, by rw [after]; rfl⟩
    · rw [found, Option.some.injEq] at found'
      subst found'
      rw [List.length_cons] at whole
      right
      refine ⟨[], l, c :: rest, ?_, ?_⟩
      · have ends : rest.drop (l.length - 1) = [] := List.drop_eq_nil_of_le (by omega)
        rw [tokens_from_literal found, ends, tokens_from_nil, List.take_of_length_le (by omega)]
        rfl
      · have length : (c :: rest ++ tail).length = (l.lengthened tail).length := by
          rw [List.length_append, List.length_cons, ← whole]
          rfl
        have found' : x.literal? g ((c :: rest ++ tail) ++ []) = some (l.lengthened tail) := by
          rw [List.append_nil]
          exact longer
        have all := tokens_from_append (by simp) length found'
        rw [List.append_nil, tokens_from_nil] at all
        exact all
  | case3 x c rest none ih =>
    rcases literal_append legible quiet x c rest with same | ⟨l, found, _⟩
    · rw [none] at same
      rw [List.cons_append] at *
      rw [tokens_from_code same, tokens_from_code none]
      rcases ih with goesOn | ⟨done, last, lastText, before, after⟩
      · exact .inl (by rw [goesOn]; rfl)
      · exact .inr ⟨_ :: done, last, lastText, by rw [before]; rfl, by rw [after]; rfl⟩
    · rw [none] at found
      contradiction

theorem quiet_blanked (legible : g.Legible) (quiet : g.Quiet tail) : g.Quiet (tail.flatMap blanked) := by
  have space : ∀ c ∈ tail.flatMap blanked, c = ' ' := by
    intro c member
    obtain ⟨d, inside, blank⟩ := List.mem_flatMap.mp member
    have feed : (d == '\n') = false := beq_eq_false_iff_ne.mpr (quiet.plain d inside).1
    unfold blanked at blank
    rw [feed, if_neg Bool.false_ne_true] at blank
    exact (List.mem_replicate.mp blank).2
  have apart : ∀ {marker : List Char}, Marker marker → ∀ c ∈ marker, c ∉ tail.flatMap blanked := by
    intro marker marks c mark member
    exact (marks.2 c mark).1 (space c member)
  constructor
  case line => exact fun marker member => apart (legible.line marker member)
  case block => exact fun markers member => (legible.block markers member).imp apart apart
  case quote => exact fun style member => (legible.quote style member).imp apart apart
  case plain =>
    intro c member
    rw [space c member]
    decide

theorem visible_map_code (cs : List Char) : visibleText (cs.map .code) = cs := by
  induction cs with
  | nil => rfl
  | cons c rest ih =>
    rw [List.map_cons, visibleText, List.flatMap_cons, ← visibleText, ih]
    rfl

theorem visible_append_quiet (legible : g.Legible) (quiet : g.Quiet tail) (x : Context) (s : List Char) :
    ∃ tail', g.Quiet tail' ∧ (tail = [] → tail' = []) ∧
      visibleText (tokensFrom g x (s ++ tail)) = visibleText (tokensFrom g x s) ++ tail' := by
  rcases tokens_from_append_quiet legible quiet x s with same | ⟨done, l, text, before, after⟩
  · refine ⟨tail, quiet, id, ?_⟩
    rw [same, visibleText, List.flatMap_append, ← visibleText, ← visibleText, visible_map_code]
  · rw [before, after, visibleText, visibleText, List.flatMap_append, List.flatMap_append, List.flatMap_singleton,
      List.flatMap_singleton]
    by_cases comment : l.kind = .comment
    · refine ⟨tail.flatMap blanked, quiet_blanked legible quiet, fun empty => by rw [empty]; rfl, ?_⟩
      rw [Token.visible_comment (by exact comment), Token.visible_comment comment, List.flatMap_append,
        List.append_assoc]
    · refine ⟨tail, quiet, id, ?_⟩
      rw [Token.visible_kept (by exact comment), Token.visible_kept comment, List.append_assoc]

def SameSlashes (g : Grammar) (x y : Context) : Prop := g.regexLiterals = true → x.regexMayStart = y.regexMayStart

theorem SameSlashes.after_code {x y : Context} (same : SameSlashes g x y) (c : Char) :
    SameSlashes g (x.afterCode c) (y.afterCode c) := by
  intro enabled
  have before := same enabled
  unfold Context.regexMayStart Context.afterCode Literal.regexMayStart at *
  rw [List.find?_cons, List.find?_cons]
  cases isAsciiBlank c with
  | true => exact before
  | false => rfl

theorem tokens_from_of_same {x y : Context} (openings : SameOpenings g x y s) (slashes : SameSlashes g x y) :
    tokensFrom g x s = tokensFrom g y s := by
  have literal : ∀ {s : List Char} {x y : Context}, SameOpenings g x y s → SameSlashes g x y →
      x.literal? g s = y.literal? g s := by
    intro s x y openings slashes
    have quotes : x.quote? g s = y.quote? g s := by
      refine find_congr fun style member => ?_
      cases stands : style.opening.isPrefixOf s with
      | true => rw [openings style member stands]
      | false => rfl
    have slash : x.slash? g s = y.slash? g s := by
      unfold Context.slash?
      split
      · cases enabled : g.regexLiterals with
        | true => rw [slashes enabled]
        | false => rfl
      · rfl
    rw [Context.literal_eq, Context.literal_eq, quotes, slash]
  induction x, s using tokensFrom.induct g generalizing y with
  | case1 x => rw [tokens_from_nil, tokens_from_nil]
  | case2 x c rest l found =>
    rw [tokens_from_literal found, tokens_from_literal ((literal openings slashes).symm.trans found)]
  | case3 x c rest none ih =>
    have later := ih (y := y.afterCode c) (fun style _ _ => rfl) (slashes.after_code c)
    rw [tokens_from_code none, tokens_from_code ((literal openings slashes).symm.trans none), later]

end

end SnippetReview
