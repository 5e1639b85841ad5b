import SnippetReview.Proofs.Lexing.Stripping
import SnippetReview.Proofs.Snippet.Pieces

/- Reading a text alone and with something behind it, where no delimiter reaches over the end of the text. It
   is read the same way, but for a last literal or comment that goes on into what is behind the text. -/

set_option autoImplicit false

namespace SnippetReview

open Text

namespace Grammar

def delimiters (g : Grammar) : List (List Char) :=
  g.markers ++ g.blockComments.map (·.2) ++ g.quotes.map (·.closing)

end Grammar

theorem mem_delimiters_of_marker {g : Grammar} {marker : List Char} (known : marker ∈ g.markers) : marker ∈ g.delimiters :=
  List.mem_append_left _ (List.mem_append_left _ known)

theorem marker_of_mem {g : Grammar} (legible : g.Legible) {marker : List Char} (known : marker ∈ g.markers) : Marker marker := by
  unfold Grammar.markers at known
  rw [List.mem_append, List.mem_append, List.mem_map, List.mem_map] at known
  rcases known with (line | ⟨markers, member, rfl⟩) | ⟨style, member, rfl⟩
  · exact legible.line marker line
  · exact (legible.block markers member).1
  · exact (legible.quote style member).1

def Unbridged (later s marker : List Char) : Prop :=
  ∀ t, t ≠ [] → t <:+ s → marker.isPrefixOf (t ++ later) = marker.isPrefixOf t

-- No delimiter, and no closing one that is written twice, reaches over the end of a text.
structure Grammar.Unbridged (g : Grammar) (later s : List Char) : Prop where
  delimiter : ∀ marker ∈ g.delimiters, SnippetReview.Unbridged later s marker
  doubled : ∀ style ∈ g.quotes, SnippetReview.Unbridged later s (style.closing ++ style.closing)

section

variable {marker s later : List Char}

theorem Unbridged.tail {c : Char} (unbridged : Unbridged later (c :: s) marker) : Unbridged later s marker :=
  fun t some inside => unbridged t some (inside.trans (List.suffix_cons c s))

theorem Unbridged.here {c : Char} (unbridged : Unbridged later (c :: s) marker) :
    marker.isPrefixOf (c :: (s ++ later)) = marker.isPrefixOf (c :: s) :=
  unbridged (c :: s) (List.cons_ne_nil c s) (List.suffix_refl _)

theorem is_prefix_of_apart (apart : ∀ d ∈ later.head?, d ∉ marker) :
    marker.isPrefixOf (s ++ later) = marker.isPrefixOf s := by
  induction s generalizing marker with
  | nil =>
    cases marker with
    | nil => rfl
    | cons m marker =>
      cases later with
      | nil => rfl
      | cons d later =>
        -- The delimiter would go on with the first character of what follows, which stands in none.
        have other : m ≠ d := fun same => apart d rfl (same ▸ List.mem_cons_self)
        rw [List.nil_append, List.isPrefixOf_cons_cons, beq_eq_false_iff_ne.mpr other]
        rfl
  | cons c rest ih =>
    cases marker with
    | nil => rfl
    | cons m marker =>
      rw [List.cons_append, List.isPrefixOf_cons_cons, List.isPrefixOf_cons_cons,
        ih fun d first member => apart d first (List.mem_cons_of_mem m member)]

-- Of what is read from a text, the part that ends inside it stays, and the other goes on behind it.
def Outgrows (s : List Char) (count length length' : Nat) : Prop :=
  length' = length ∨ (length = count + s.length ∧ count + s.length < length')

theorem Outgrows.cons {c : Char} {count length length' : Nat} (rest : Outgrows s (count + 1) length length') :
    Outgrows (c :: s) count length length' := by
  unfold Outgrows at *
  rw [List.length_cons]
  omega

theorem line_length_outgrows (count : Nat) (s later : List Char) :
    Outgrows s count (Literal.lineLength count s) (Literal.lineLength count (s ++ later)) := by
  induction s generalizing count with
  | nil =>
    unfold Outgrows
    rw [List.nil_append, line_length_eq, line_length_eq, List.takeWhile_nil, List.length_nil]
    omega
  | cons c rest ih =>
    rw [List.cons_append, Literal.lineLength, Literal.lineLength]
    split
    · exact .inl rfl
    · exact (ih (count + 1)).cons

theorem block_length_outgrows {opening closing : List Char} (nested : Bool) (begins : Unbridged later s opening)
    (ends : Unbridged later s closing) (some : closing ≠ []) (depth skip count : Nat) :
    Outgrows s count (Literal.blockLength opening closing nested depth skip count s)
      (Literal.blockLength opening closing nested depth skip count (s ++ later)) := by
  induction s generalizing depth skip count with
  | nil =>
    cases later with
    | nil => exact .inl rfl
    | cons d later =>
      -- Past the end of the text the comment takes in one character more at least.
      have least : ∀ depth skip, count < Literal.blockLength opening closing nested depth skip (count + 1) later := by
        intro depth skip
        obtain ⟨taken, _, _, length, _⟩ := block_length_spec opening closing nested depth skip (count + 1) later
        rw [length]
        omega
      right
      refine ⟨rfl, ?_⟩
      cases skip with
      | succ skip => exact least depth skip
      | zero =>
        rw [List.nil_append, Literal.blockLength]
        split
        · split
          · exact Nat.add_lt_add_left (List.length_pos_iff.mpr some) count
          · exact least _ _
        · split
          · exact least _ _
          · exact least _ _
  | cons c rest ih =>
    have goOn := fun depth skip => (ih begins.tail ends.tail depth skip (count + 1)).cons (c := c)
    cases skip with
    | succ skip => exact goOn depth skip
    | zero =>
      rw [List.cons_append, Literal.blockLength, Literal.blockLength, ends.here, begins.here]
      split
      · split
        · exact .inl rfl
        · exact goOn _ _
      · split
        · exact goOn _ _
        · exact goOn _ _

theorem quoted_length_outgrows {style : QuoteStyle} (ends : Unbridged later s style.closing)
    (twice : Unbridged later s (style.closing ++ style.closing)) (some : style.closing ≠ []) (escaped : Bool)
    (skip count : Nat) :
    let extent := Literal.quotedLength style escaped skip count s
    let extent' := Literal.quotedLength style escaped skip count (s ++ later)
    extent' = extent ∨ (extent = (count + s.length, false) ∧ count + s.length < extent'.1) := by
  induction s generalizing escaped skip count with
  | nil =>
    cases later with
    | nil => exact .inl rfl
    | cons d later =>
      -- Nothing closes at the end of the text. The literal goes on behind it, unless a line break ends it there.
      have least := fun escaped skip => quoted_length_le style escaped skip (count + 1) later
      cases skip with
      | succ skip => exact .inr ⟨rfl, least false skip⟩
      | zero =>
        rw [List.nil_append, quoted_length_cons]
        split
        · exact .inr ⟨rfl, least _ _⟩
        · split
          · exact .inr ⟨rfl, Nat.add_lt_add_left (List.length_pos_iff.mpr some) count⟩
          · split
            · exact .inl rfl
            · exact .inr ⟨rfl, least _ 0⟩
  | cons c rest ih =>
    have length : count + (c :: rest).length = count + 1 + rest.length := by
      rw [List.length_cons]
      omega
    rw [length]
    have goOn := fun escaped skip => ih ends.tail twice.tail escaped skip (count + 1)
    cases skip with
    | succ skip => exact goOn false skip
    | zero =>
      have doubled : doubledAt style (c :: (rest ++ later)) = doubledAt style (c :: rest) := congrArg (_ && ·) twice.here
      have closes : closesAt style escaped (c :: (rest ++ later)) = closesAt style escaped (c :: rest) :=
        congrArg (· && _) ends.here
      rw [List.cons_append, quoted_length_cons, quoted_length_cons, doubled, closes]
      split
      · exact goOn _ _
      · split
        · exact .inl rfl
        · split
          · exact .inl rfl
          · exact goOn _ _

theorem regex_length_outgrows (letter : ∀ d ∈ later.head?, d.isAlpha = false) (inClass skip : Bool) (count : Nat)
    (s : List Char) :
    Literal.regexLength inClass skip count (s ++ later) = Literal.regexLength inClass skip count s ∨
      (Literal.regexLength inClass skip count s = none ∧
        ∀ n, Literal.regexLength inClass skip count (s ++ later) = some n → count + s.length < n) := by
  induction s generalizing inClass skip count with
  | nil => exact .inr ⟨rfl, fun n found => (regex_length_bound inClass skip count n later found).1⟩
  | cons c rest ih =>
    have length : count + (c :: rest).length = count + 1 + rest.length := by
      rw [List.length_cons]
      omega
    -- No letter follows the text, so that flags which reach its end go on no further.
    have flags : ((rest ++ later).takeWhile Char.isAlpha) = rest.takeWhile Char.isAlpha := by
      rw [List.takeWhile_append]
      split
      next all =>
        have whole := (List.takeWhile_prefix Char.isAlpha (l := rest)).eq_of_length all
        cases later with
        | nil => rw [List.takeWhile_nil, List.append_nil, whole]
        | cons d later =>
          rw [List.takeWhile_cons, letter d rfl, if_neg Bool.false_ne_true, List.append_nil, whole]
      next => rfl
    rw [length, List.cons_append, regex_length_cons, regex_length_cons, flags]
    cases step : regexNext inClass skip c with
    | some next => exact ih next.1 next.2 (count + 1)
    | none => exact .inl rfl

end

inductive Grows (s : List Char) : Option Literal → Option Literal → Prop where
  | same (found : Option Literal) : Grows s found found
  | longer {l l' : Literal} (kind : l'.kind = l.kind) (opening : l'.opening = l.opening) (unclosed : l.closing = 0)
      (whole : l.length = s.length) (beyond : s.length < l'.length) : Grows s (some l) (some l')
  | regex {l' : Literal} (kind : l'.kind = .regex) (slash : s.head? = some '/') (beyond : s.length < l'.length) :
      Grows s none (some l')

section

variable {g : Grammar} {c : Char} {rest later : List Char}

theorem unbridged_of_apart (apart : ∀ marker ∈ g.delimiters, ∀ d ∈ later.head?, d ∉ marker) (s : List Char) :
    g.Unbridged later s := by
  constructor
  · exact fun marker member t _ _ => is_prefix_of_apart (apart marker member)
  · intro style member t _ _
    refine is_prefix_of_apart fun d head twice => ?_
    have closing : style.closing ∈ g.delimiters := List.mem_append_right _ (List.mem_map_of_mem member)
    exact apart _ closing d head ((List.mem_append.mp twice).elim id id)

namespace Grammar.Unbridged

theorem drop {s : List Char} (unbridged : g.Unbridged later s) (n : Nat) : g.Unbridged later (s.drop n) where
  delimiter marker member t some inside := unbridged.delimiter marker member t some (inside.trans (List.drop_suffix n s))
  doubled style member t some inside := unbridged.doubled style member t some (inside.trans (List.drop_suffix n s))

theorem marker (unbridged : g.Unbridged later (c :: rest)) {marker : List Char} (member : marker ∈ g.markers) :
    SnippetReview.Unbridged later (c :: rest) marker :=
  unbridged.delimiter marker (List.mem_append_left _ (List.mem_append_left _ member))

theorem line (unbridged : g.Unbridged later (c :: rest)) :
    g.lineComments.any (·.isPrefixOf (c :: (rest ++ later))) = g.lineComments.any (·.isPrefixOf (c :: rest)) := by
  rw [Bool.eq_iff_iff, List.any_eq_true, List.any_eq_true]
  refine exists_congr fun marker => and_congr_right fun member => ?_
  rw [(unbridged.marker (List.mem_append_left _ (List.mem_append_left _ member))).here]

theorem opening (unbridged : g.Unbridged later (c :: rest)) {markers : List Char × List Char} (member : markers ∈ g.blockComments) :
    SnippetReview.Unbridged later (c :: rest) markers.1 :=
  unbridged.marker (List.mem_append_left _ (List.mem_append_right _ (List.mem_map_of_mem member)))

theorem closing {s : List Char} (unbridged : g.Unbridged later s) {markers : List Char × List Char}
    (member : markers ∈ g.blockComments) : SnippetReview.Unbridged later s markers.2 :=
  unbridged.delimiter _ (List.mem_append_left _ (List.mem_append_right _ (List.mem_map_of_mem member)))

theorem quote (unbridged : g.Unbridged later (c :: rest)) {style : QuoteStyle} (member : style ∈ g.quotes) :
    SnippetReview.Unbridged later (c :: rest) style.opening :=
  unbridged.marker (List.mem_append_right _ (List.mem_map_of_mem member))

end Grammar.Unbridged

theorem begins_comment_unbridged (unbridged : g.Unbridged later (c :: rest)) :
    g.beginsComment (c :: (rest ++ later)) = g.beginsComment (c :: rest) := by
  have blocks : g.blockComments.any (·.1.isPrefixOf (c :: (rest ++ later))) = g.blockComments.any (·.1.isPrefixOf (c :: rest)) := by
    rw [Bool.eq_iff_iff, List.any_eq_true, List.any_eq_true]
    refine exists_congr fun markers => and_congr_right fun member => ?_
    rw [(unbridged.opening member).here]
  rw [Grammar.beginsComment, Grammar.beginsComment, unbridged.line, blocks]

theorem comment_at_grows (legible : g.Legible) (unbridged : g.Unbridged later (c :: rest)) :
    Grows (c :: rest) (some (g.commentAt (c :: rest))) (some (g.commentAt (c :: (rest ++ later)))) := by
  have blocks : g.blockComments.find? (·.1.isPrefixOf (c :: (rest ++ later))) = g.blockComments.find? (·.1.isPrefixOf (c :: rest)) :=
    find_congr fun markers member => (unbridged.opening member).here
  unfold Grammar.commentAt
  rw [unbridged.line, blocks]
  by_cases line : g.lineComments.any (·.isPrefixOf (c :: rest)) = true
  · rw [if_pos line, if_pos line]
    rcases line_length_outgrows 0 (c :: rest) later with same | ⟨whole, beyond⟩
    · rw [List.cons_append] at same
      rw [same]
      exact .same _
    · rw [Nat.zero_add] at whole beyond
      exact .longer rfl rfl rfl whole beyond
  · rw [if_neg line, if_neg line]
    cases found : g.blockComments.find? (·.1.isPrefixOf (c :: rest)) with
    | none => exact .same _
    | some markers =>
      have member := List.mem_of_find?_eq_some found
      have stands : markers.1 <+: c :: rest := by simpa using List.find?_some found
      have fits := stands.length_le
      have later' := unbridged.drop markers.1.length
      have inside := List.drop_suffix markers.1.length (c :: rest)
      simp only [← List.cons_append, List.drop_append_of_le_length fits]
      rcases block_length_outgrows g.nestedComments
        (fun t some within => unbridged.opening member t some (within.trans inside)) (later'.closing member)
        (legible.block markers member).2.1 1 0 markers.1.length with same | ⟨whole, beyond⟩
      · simp only [same]
        exact .same _
      · rw [List.length_drop] at whole beyond
        exact .longer rfl rfl rfl (by dsimp only; omega) (by dsimp only; omega)

theorem quoted_grows (legible : g.Legible) (unbridged : g.Unbridged later (c :: rest)) {style : QuoteStyle}
    (member : style ∈ g.quotes) (stands : style.opening.isPrefixOf (c :: rest) = true) :
    Grows (c :: rest) (some (.quoted style (c :: rest))) (some (.quoted style (c :: (rest ++ later)))) := by
  have fits := (List.isPrefixOf_iff_prefix.mp stands).length_le
  have behind := unbridged.drop style.opening.length
  have ends := behind.delimiter style.closing (List.mem_append_right _ (List.mem_map_of_mem member))
  unfold Literal.quoted
  rw [← List.cons_append, List.drop_append_of_le_length fits]
  rcases quoted_length_outgrows ends (behind.doubled style member) (legible.quote style member).2.1 false 0
    style.opening.length with same | ⟨whole, beyond⟩
  · rw [same]
    exact .same _
  · rw [List.length_drop] at whole beyond
    rw [whole]
    refine .longer rfl rfl rfl ?_ ?_
    · dsimp only
      omega
    · dsimp only
      omega

theorem slash_grows (x : Context) (letter : g.regexLiterals = true → c = '/' → ∀ d ∈ later.head?, d.isAlpha = false) :
    Grows (c :: rest) (x.slash? g (c :: rest)) (x.slash? g (c :: (rest ++ later))) := by
  by_cases slash : c = '/' ∧ g.regexLiterals = true ∧ x.regexMayStart = true
  · obtain ⟨rfl, enabled, may⟩ := slash
    have found : ∀ rest, x.slash? g ('/' :: rest) =
        (Literal.regexLength false false 0 rest).map fun length => ⟨.regex, length + 1, 1, 0⟩ := by
      intro rest
      rw [Context.slash?, enabled, may]
      rfl
    rw [found, found]
    rcases regex_length_outgrows (letter enabled rfl) false false 0 rest with same | ⟨none, beyond⟩
    · rw [same]
      exact .same _
    · rw [none]
      -- A slash that begins nothing in the text alone may find its closing one behind it.
      cases longer : Literal.regexLength false false 0 (rest ++ later) with
      | none => exact .same _
      | some n =>
        refine .regex rfl rfl ?_
        have inside := beyond n longer
        rw [List.length_cons]
        dsimp only
        omega
  · have absent : ∀ rest, x.slash? g (c :: rest) = none := by
      intro rest
      cases found : x.slash? g (c :: rest) with
      | none => rfl
      | some l =>
        obtain ⟨_, _, heads, enabled, may, _⟩ := Context.slash_some found
        exact absurd ⟨(List.cons.inj heads).1, enabled, may⟩ slash
    rw [absent, absent]
    exact .same _

theorem literal_grows (legible : g.Legible) (unbridged : g.Unbridged later (c :: rest)) (x : Context)
    (letter : g.regexLiterals = true → c = '/' → ∀ d ∈ later.head?, d.isAlpha = false) :
    Grows (c :: rest) (x.literal? g (c :: rest)) (x.literal? g (c :: (rest ++ later))) := by
  have quote : x.quote? g (c :: (rest ++ later)) = x.quote? g (c :: rest) :=
    find_congr fun style member => by rw [(unbridged.quote member).here]
  rw [Context.literal_eq, Context.literal_eq, begins_comment_unbridged unbridged, quote]
  split
  · exact comment_at_grows legible unbridged
  · cases found : x.quote? g (c :: rest) with
    | none => exact slash_grows x letter
    | some style =>
      have stands := List.find?_some found
      rw [Bool.and_eq_true] at stands
      exact quoted_grows legible unbridged (List.mem_of_find?_eq_some found) stands.1

inductive ReadOn (g : Grammar) (later : List Char) : List Token → List Token → Prop where
  | behind (y : Context) : ReadOn g later [] (tokensFrom g y later)
  | cons (t : Token) {alone whole : List Token} (rest : ReadOn g later alone whole) : ReadOn g later (t :: alone) (t :: whole)
  | longer {l l' : Literal} {text more : List Char} {behind : List Token} (kind : l'.kind = l.kind)
      (opening : l'.opening = l.opening) (unclosed : l.closing = 0) (nonempty : text ≠ []) (beyond : more ≠ []) :
      ReadOn g later [.literal l text] (.literal l' (text ++ more) :: behind)
  | regex {l' : Literal} {alone : List Token} {more : List Char} {behind : List Token} (kind : l'.kind = .regex)
      (enabled : g.regexLiterals = true) (slash : (flatten alone).head? = some '/') (beyond : more ≠ []) :
      ReadOn g later alone (.literal l' (flatten alone ++ more) :: behind)

theorem regex_enabled {x : Context} {s : List Char} {l : Literal} (found : x.literal? g s = some l) (kind : l.kind = .regex) :
    g.regexLiterals = true := by
  rcases Context.literal_cases found with ⟨_, rfl⟩ | ⟨_, style, _, rfl⟩ | ⟨_, _, slash⟩
  · rw [Context.kind_comment_at] at kind
    contradiction
  · contradiction
  · obtain ⟨_, _, _, enabled, _⟩ := Context.slash_some slash
    exact enabled

theorem take_beyond {n : Nat} (beyond : (c :: rest).length < n) (bound : n ≤ (c :: (rest ++ later)).length) :
    ∃ more, more ≠ [] ∧ c :: (rest ++ later).take (n - 1) = c :: rest ++ more := by
  rw [List.length_cons] at beyond bound
  rw [List.length_append] at bound
  refine ⟨later.take (n - 1 - rest.length), ?_, ?_⟩
  · rw [Ne, ← List.length_eq_zero_iff, List.length_take]
    omega
  · rw [List.take_append, List.take_of_length_le (by omega)]
    rfl

theorem read_on (legible : g.Legible) {s : List Char} (unbridged : g.Unbridged later s)
    (letter : g.regexLiterals = true → '/' ∈ s → ∀ d ∈ later.head?, d.isAlpha = false) (x : Context) :
    ReadOn g later (tokensFrom g x s) (tokensFrom g x (s ++ later)) := by
  -- Along the reader: both take the same steps until one comes to something that ends behind the text.
  induction x, s using tokensFrom.induct g with
  | case1 x =>
    rw [tokens_from_nil]
    exact .behind x
  | case2 x c rest l found text ih =>
    obtain ⟨low, high⟩ := literal_length legible found
    have grows := literal_grows legible unbridged x fun enabled slash => letter enabled (slash ▸ List.mem_cons_self)
    rw [found] at grows
    generalize after : x.literal? g (c :: (rest ++ later)) = found' at grows
    rw [List.length_cons] at high
    rw [tokens_from_literal found, List.cons_append]
    cases grows with
    | same =>
      have shorter := unbridged.drop l.length
      rw [show (c :: rest).drop l.length = rest.drop (l.length - 1) from by
        rw [show l.length = l.length - 1 + 1 by omega, List.drop_succ_cons, Nat.add_sub_cancel]] at shorter
      rw [tokens_from_literal after, List.take_append_of_le_length (by omega), List.drop_append_of_le_length (by omega)]
      exact (ih shorter fun enabled slash => letter enabled (List.mem_cons_of_mem c (List.mem_of_mem_drop slash))).cons _
    | @longer _ l' kind opening unclosed whole beyond =>
      -- The literal reaches the end of the text, so that nothing is read behind it.
      rw [List.length_cons] at whole
      obtain ⟨more, some, longer⟩ := take_beyond beyond (literal_length legible after).2
      rw [tokens_from_literal after, longer, List.take_of_length_le (by omega), List.drop_eq_nil_of_le (by omega),
        tokens_from_nil]
      exact .longer kind opening unclosed (List.cons_ne_nil c rest) some
  | case3 x c rest none ih =>
    have grows := literal_grows legible unbridged x fun enabled slash => letter enabled (slash ▸ List.mem_cons_self)
    rw [none] at grows
    generalize after : x.literal? g (c :: (rest ++ later)) = found' at grows
    rw [List.cons_append]
    cases grows with
    | same =>
      rw [tokens_from_code none, tokens_from_code after]
      exact (ih (unbridged.drop 1) fun enabled slash => letter enabled (List.mem_cons_of_mem c slash)).cons _
    | @regex l' kind slash beyond =>
      obtain ⟨more, some, longer⟩ := take_beyond beyond (literal_length legible after).2
      have whole := flatten_tokens_from g x (c :: rest)
      have read : ∀ behind, ReadOn g later (tokensFrom g x (c :: rest))
          (.literal l' (flatten (tokensFrom g x (c :: rest)) ++ more) :: behind) :=
        fun _ => .regex kind (regex_enabled after kind) (by rw [whole]; exact slash) some
      rw [whole] at read
      rw [tokens_from_literal after, longer]
      exact read _

end

end SnippetReview
