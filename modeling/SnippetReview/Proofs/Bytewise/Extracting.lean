import SnippetReview.Proofs.Bytewise.Blocks
import SnippetReview.Proofs.Lexing.Restripping
import SnippetReview.Proofs.Snippet.Collecting
import SnippetReview.Proofs.Snippet.Sourcing

set_option autoImplicit false

namespace SnippetReview

open Text

namespace Bytewise

structure Collection where
  settings : SettingTable
  -- The last one first.
  warnings : List Notice
  lines : Lines

-- What a collection reads: the source, and the same text with its comments blanked out.
structure Reading where
  grammar : Grammar
  levels : Nat
  source : List Char
  text : List Char
  receiver : List Char

def withoutSpreads (g : Grammar) (text : List Char) : List Item → Checked (List Item)
  | [] => return []
  | item :: rest => do
    let part ← item.text text
    let kept ← withoutSpreads g text rest
    return if isSpread g part then kept else item :: kept

def statements (g : Grammar) (text : List Char) (block : Block) : Checked (List Item) := do
  let body ← slice text block.start block.stop
  let items ← split g block.start body g.separators
  let items ← withoutSpreads g text items
  if g.mergesContinuations then mergeContinuations g text items else return items

namespace Collection

def warn (c : Collection) (offset : Nat) (problem : Problem) : Checked Collection := do
  let (position, lines) ← c.lines.position offset
  return { c with lines, warnings := ⟨problem, some position⟩ :: c.warnings }

def noteDepth (c : Collection) (levels : Nat) (item : Item) (key : String) (tooDeep : Bool) : Checked Collection :=
  if tooDeep then c.warn item.start (.tooDeep key levels) else return c

def noteRepeat (c : Collection) (item : Item) (key : String) : Checked Collection :=
  match c.settings.get? key with
  | some earlier => c.warn item.start (.setAgain key earlier.line)
  | none => return c

def valueOf (g : Grammar) (levels : Nat) (isMethod : Bool) (code : List Char) : Checked Inferred :=
  if isMethod then return Inferred.raw code .callback else infer g levels code

-- Where the bounds of a value are no bounds of a slice of the source, the blanked text stands in for it.
def rawText (source : List Char) (value : Item) (code : List Char) : List Char :=
  trim ((slice? source value.start value.stop).getD code)

def add (r : Reading) (c : Collection) (item : Item) (a : Assignment) : Checked Collection := do
  let code ← a.value.text r.text
  let inferred ← valueOf r.grammar r.levels a.isMethod code
  let c ← c.noteDepth r.levels item a.key inferred.tooDeep
  let line ← c.lines.line item.start
  let c ← c.noteRepeat item a.key
  return { c with
    settings := c.settings.put
      ⟨a.key, inferred.value, String.ofList (rawText r.source a.value code), inferred.type, line⟩ }

def assignmentOf (r : Reading) (first : Bool) (item : Item) : Checked (Option Assignment) := do
  let bound ← ofItem r.grammar r.text r.receiver item
  return bound.or (if first then r.grammar.positionalKey.map fun key => ⟨key, item, false⟩ else none)

def take (r : Reading) (first : Bool) (c : Collection) (item : Item) : Checked Collection := do
  match ← assignmentOf r first item with
  | some a => c.add r item a
  | none => return c

def takeAll (r : Reading) : Bool → Collection → List Item → Checked Collection
  | _, c, [] => return c
  | first, c, item :: rest => do
    let c ← c.take r first item
    takeAll r false c rest

end Collection

def collect (g : Grammar) (levels : Nat) (source text : List Char) (block : Block) : Checked (Settings × List Notice) := do
  let items ← statements g text block
  let c ← Collection.takeAll ⟨g, levels, source, text, block.receiver⟩ true ⟨.empty, [], Lines.ofText source⟩ items
  return (c.settings.toSettings, c.warnings.reverse)

def extract (registry : Registry) (limits : Limits) (host : Host) (source : List Char) : Checked Extraction :=
  if limits.maxInputBytes < size source then
    return Extraction.failed host source ⟨.tooLarge (size source) limits.maxInputBytes, none⟩
  else if !registry.contains host then return Extraction.failed host source ⟨.unsupported host, none⟩
  else do
    let text ← stripComments host.grammar source
    match ← locate host text with
    | .error notice => return Extraction.failed host source notice
    | .ok block => do
      let (settings, warnings) ← collect host.grammar limits.maxNestingDepth source text block
      return ⟨host, true, settings, source, [], warnings⟩

end Bytewise

theorem Grammar.Signed.narrow {g : Grammar} (signed : g.Signed) : g.Narrow := by
  have one : ∀ c : Char, isIdentChar c = false → c.utf8Size = 1 := fun c sign => utf8_size_ascii (Bytewise.ascii_of_sign sign)
  refine ⟨fun c member => one c (signed.separators c member), fun style member => ?_⟩
  have signs := signed.tokens style member
  cases style with
  | token token =>
    rw [BindingStyle.isSigned, Bool.and_eq_true, List.all_eq_true] at signs
    rw [BindingStyle.isNarrow, Bool.and_eq_true, List.all_eq_true]
    exact ⟨signs.1, fun c among => beq_iff_eq.mpr (one c (by simpa using signs.2 c among))⟩
  | receiver | setter | method => rfl

def Extraction.Collection.bare (source : List Char) (c : Extraction.Collection) : Bytewise.Collection :=
  ⟨c.settings, c.warnings, c.lines.lines source⟩

namespace Bytewise

section

variable {g : Grammar} {text : List Char}

theorem without_spreads_spec {pieces : List Slice} (lies : ∀ p ∈ pieces, p.LiesIn 0 text) :
    withoutSpreads g text (pieces.map Slice.item) =
      .ok ((pieces.filter fun p => !isSpread g p.text).map Slice.item) := by
  induction pieces with
  | nil => rfl
  | cons p rest ih =>
    rw [List.map_cons, withoutSpreads, text_of_lies (lies p List.mem_cons_self), ok_bind,
      ih fun q member => lies q (List.mem_cons_of_mem p member), ok_bind, List.filter_cons]
    cases isSpread g p.text <;> rfl

theorem statements_spec (signed : g.Signed) {block : SnippetReview.Block} (lies : block.body.LiesIn 0 text) :
    statements g text block.bounds = .ok ((Extraction.statements g block.body).map Slice.item) := by
  have laid := (split_laid signed.narrow.separators g block.body.start block.body.text).filter fun item =>
    !isSpread g item.text
  rw [List.filter_reverse] at laid
  have within : ∀ p : Slice, p.OpensIn block.body.start block.body.text → p.LiesIn 0 text := fun p opens => opens.liesIn.trans lies
  have whole : slice text block.bounds.start block.bounds.stop = .ok block.body.text := text_of_lies lies
  have pieces := split_laid signed.narrow.separators g block.body.start block.body.text
  have kept := without_spreads_spec (g := g) fun p member => within p (pieces.opens p (List.mem_reverse.mpr member))
  rw [statements, whole, ok_bind]
  change (split g block.body.start block.body.text g.separators >>= _) = _
  rw [split_spec signed.toInAscii signed.separators, ok_bind, kept, ok_bind, Extraction.statements]
  cases g.mergesContinuations with
  | false => rfl
  | true => exact merge_continuations_spec signed within laid

end

namespace Collection

variable {g : Grammar} {source text receiver : List Char} {levels : Nat} {c : Extraction.Collection} {item : Slice}
  {b : Binding}

theorem warn_spec (indexes : c.lines.Indexes source) (offset : Nat) (problem : Problem) :
    (c.bare source).warn offset problem = .ok ((c.warn offset problem).bare source) := by
  rw [warn, show (c.bare source).lines = c.lines.lines source from rfl, position_spec indexes]
  rfl

theorem note_depth_spec (g : Grammar) (levels : Nat) (item : Slice) (b : Binding) (indexes : c.lines.Indexes source) :
    (c.bare source).noteDepth levels item.item b.key (Extraction.Collection.valueOf g levels b).tooDeep =
      .ok ((c.noteDepth g levels item b).bare source) := by
  unfold noteDepth Extraction.Collection.noteDepth
  split
  · exact warn_spec indexes item.start _
  · rfl

theorem note_repeat_spec (item : Slice) (b : Binding) (indexes : c.lines.Indexes source) :
    (c.bare source).noteRepeat item.item b.key = .ok ((c.noteRepeat item b).bare source) := by
  unfold noteRepeat Extraction.Collection.noteRepeat
  rw [show (c.bare source).settings = c.settings from rfl]
  cases c.settings.get? b.key with
  | none => rfl
  | some earlier => exact warn_spec indexes item.start _

theorem value_of_spec (levels : Nat) (b : Binding) (valued : g.Valued) : valueOf g levels b.isMethod b.value.text =
    .ok (Extraction.Collection.valueOf g levels b) := by
  unfold valueOf Extraction.Collection.valueOf
  split
  · rfl
  · exact infer_spec valued levels b.value.text

theorem raw_text_spec (faded : Faded source text) (value : b.value.TrimmedIn 0 text) (here : c.source.In source)
    (before : c.source.offset ≤ b.value.start) :
    rawText source b.value.item b.value.text = c.rawOf b := by
  unfold rawText Extraction.Collection.rawOf
  refine congrArg trim ?_
  rcases value.inked with none | inked
  · have stop : b.value.stop = b.value.start := by
      rw [Slice.stop, value.lies.size_eq, none]
      rfl
    have nothing : (slice? source b.value.item.start b.value.item.stop).getD b.value.text = [] := by
      rw [show b.value.item.stop = b.value.item.start from stop, none, slice?, between, Nat.sub_self, takeBytes,
        chars_within_zero, List.take_zero]
      split <;> rfl
    rw [nothing, stop, Cursor.up_to_seek_empty]
  · obtain ⟨front, mid, later, parts, start, stop⟩ := faded.inked_place value.lies inked
    have cut : slice? source b.value.item.start b.value.item.stop = some mid := slice_parts parts start stop
    rw [cut, Option.getD_some, start, stop, here.up_to_seek parts (by omega)]

-- A collection whose table of lines is that of a source, and whose cursor has passed nothing behind a limit.
structure Follows (source : List Char) (limit : Nat) (c : Extraction.Collection) : Prop where
  indexes : c.lines.Indexes source
  here : c.source.In source
  before : c.source.offset ≤ limit

theorem follows_start (source : List Char) : Follows source 0 ⟨.empty, [], LineIndex.ofText source, Cursor.start source⟩ :=
  ⟨LineIndex.indexes_of_text source, Cursor.in_start source, Nat.le_refl 0⟩

theorem follows_warn {limit : Nat} (follows : Follows source limit c) (offset : Nat) (problem : Problem) :
    Follows source limit (c.warn offset problem) := ⟨follows.indexes.position offset, follows.here, follows.before⟩

theorem follows_note_depth (g : Grammar) (levels : Nat) (item : Slice) (b : Binding) {limit : Nat} (follows : Follows source limit c) :
    Follows source limit (c.noteDepth g levels item b) := by
  unfold Extraction.Collection.noteDepth
  split
  · exact follows_warn follows _ _
  · exact follows

theorem follows_note_repeat (item : Slice) (b : Binding) {limit : Nat} (follows : Follows source limit c) :
    Follows source limit (c.noteRepeat item b) := by
  unfold Extraction.Collection.noteRepeat
  split
  · exact follows_warn follows _ _
  · exact follows

theorem follows_add (g : Grammar) (levels : Nat) (item : Slice) (b : Binding) {limit : Nat} (follows : Follows source limit c)
    (above : limit ≤ b.value.start) : Follows source b.value.start (c.add g levels (item, b)) := by
  have sought : Follows source b.value.start { c with source := c.source.seek b.value.start } :=
    ⟨follows.indexes, follows.here.seek _, Cursor.seek_offset_le (Nat.le_trans follows.before above)⟩
  have noted := follows_note_repeat item b (follows_note_depth g levels item b sought)
  rw [Extraction.Collection.add_eq]
  exact ⟨noted.indexes, noted.here, noted.before⟩

theorem add_spec (levels : Nat) (receiver : List Char) (item : Slice) (valued : g.Valued) (faded : Faded source text) (value : b.value.TrimmedIn 0 text) {limit : Nat}
    (follows : Follows source limit c) (above : limit ≤ b.value.start) :
    (c.bare source).add ⟨g, levels, source, text, receiver⟩ item.item b.assignment =
        .ok ((c.add g levels (item, b)).bare source) ∧
      Follows source b.value.start (c.add g levels (item, b)) := by
  have sought : Follows source b.value.start { c with source := c.source.seek b.value.start } :=
    ⟨follows.indexes, follows.here.seek _, Cursor.seek_offset_le (Nat.le_trans follows.before above)⟩
  have noted := follows_note_depth g levels item b sought
  have depth := note_depth_spec g levels item b sought.indexes
  have line := line_spec noted.indexes item.start
  have again := note_repeat_spec item b noted.indexes
  have lines := (Extraction.Collection.note_depth_spec g levels { c with source := c.source.seek b.value.start } item b).2.2
  have raw := raw_text_spec faded value follows.here (Nat.le_trans follows.before above)
  have code : b.assignment.value.text text = .ok b.value.text := text_of_lies value.lies
  have inferred := value_of_spec levels b valued
  have settings := (Extraction.Collection.noted_spec g levels c item b).1
  refine ⟨?_, follows_add g levels item b follows above⟩
  rw [Extraction.Collection.add_eq, add]
  dsimp only
  rw [code, ok_bind, show valueOf g levels b.assignment.isMethod b.value.text = _ from inferred, ok_bind]
  refine (congrArg (· >>= _) depth).trans ?_
  rw [ok_bind]
  refine (congrArg (· >>= _) line).trans ?_
  rw [ok_bind]
  refine (congrArg (· >>= _) again).trans ?_
  rw [ok_bind]
  change Except.ok (Collection.mk ((c.noted g levels item b).settings.put ⟨b.key, _, String.ofList (rawText source b.value.item
    b.value.text), _, _⟩) (c.noted g levels item b).warnings ((c.noted g levels item b).lines.lines source)) = _
  rw [settings, raw, lines.line_eq item.start]
  rfl

def bound? (g : Grammar) (receiver : List Char) (first : Bool) (item : Slice) : Option Binding :=
  if first then Extraction.firstBinding? g receiver item else Binding.ofItem? g receiver item

def boundAll (g : Grammar) (receiver : List Char) : Bool → List Slice → List (Slice × Binding)
  | _, [] => []
  | first, item :: rest =>
    ((bound? g receiver first item).map fun binding => (item, binding)).toList ++ boundAll g receiver false rest

theorem bound_all_eq (receiver : List Char) (items : List Slice) :
    boundAll g receiver true items = Extraction.bindings g receiver items := by
  have later : ∀ items : List Slice, boundAll g receiver false items =
      items.filterMap fun item => (Binding.ofItem? g receiver item).map fun binding => (item, binding) := by
    intro items
    induction items with
    | nil => rfl
    | cons item rest ih =>
      rw [boundAll, ih, List.filterMap_cons, bound?, if_neg Bool.false_ne_true]
      cases Binding.ofItem? g receiver item <;> rfl
  cases items with
  | nil => rfl
  | cons item rest => rw [boundAll, later, Extraction.bindings, bound?, if_pos rfl]

theorem trimmed_of_bound (narrow : g.Narrow) {base : Nat} {body : List Char} {first : Bool} (opens : item.OpensIn base body)
    (inked : Inked item.text) (found : bound? g receiver first item = some b) : b.value.TrimmedIn item.start item.text := by
  have bound : Extraction.firstBinding? g receiver item = some b := by
    cases first with
    | true => exact found
    | false =>
      rw [bound?, if_neg Bool.false_ne_true] at found
      rw [Extraction.firstBinding?, found, Option.some_or]
  have member : (item, b) ∈ Extraction.bindings g receiver [item] := by
    rw [Extraction.bindings, bound]
    exact List.mem_append_left _ (List.mem_singleton.mpr rfl)
  exact (trimmed_of_bindings narrow (List.forall_mem_singleton.mpr opens) (List.forall_mem_singleton.mpr inked) member).2

theorem assignment_of_spec (signed : g.Signed) (first : Bool) (lies : item.LiesIn 0 text) :
    assignmentOf ⟨g, levels, source, text, receiver⟩ first item.item =
      .ok ((bound? g receiver first item).map Binding.assignment) := by
  rw [assignmentOf]
  dsimp only
  rw [of_item_spec signed lies, ok_bind, bound?]
  cases first with
  | false => cases Binding.ofItem? g receiver item <;> rfl
  | true =>
    rw [if_pos rfl, if_pos rfl, Extraction.firstBinding?]
    cases Binding.ofItem? g receiver item with
    | some b => rfl
    | none => cases g.positionalKey <;> rfl

theorem take_all_spec (levels : Nat) (receiver : List Char) (valued : g.Valued) (faded : Faded source text) {base : Nat} {body : List Char}
    (within : ∀ p : Slice, p.OpensIn base body → p.LiesIn 0 text) {items : List Slice} (first : Bool) {limit : Nat}
    (opens : ∀ item ∈ items, item.OpensIn base body) (inked : ∀ item ∈ items, Inked item.text)
    (above : ∀ item ∈ items, limit ≤ item.start) (ordered : items.Pairwise fun earlier later => earlier.stop ≤ later.start)
    (follows : Follows source limit c) :
    takeAll ⟨g, levels, source, text, receiver⟩ first (c.bare source) (items.map Slice.item) =
      .ok (((boundAll g receiver first items).foldl (Extraction.Collection.add g levels) c).bare source) := by
  induction items generalizing first limit c with
  | nil => rfl
  | cons item rest ih =>
    obtain ⟨behind, others⟩ := List.pairwise_cons.mp ordered
    have lies := within item (opens item List.mem_cons_self)
    have opens' : ∀ item ∈ rest, item.OpensIn base body := fun p member => opens p (List.mem_cons_of_mem item member)
    have inked' : ∀ item ∈ rest, Inked item.text := fun p member => inked p (List.mem_cons_of_mem item member)
    rw [List.map_cons, takeAll, take, assignment_of_spec valued.toSigned first lies, ok_bind, boundAll]
    cases found : bound? g receiver first item with
    | none =>
      exact ih false opens' inked' (fun p member => above p (List.mem_cons_of_mem item member)) others follows
    | some b =>
      have value := trimmed_of_bound valued.toSigned.narrow (opens item List.mem_cons_self) (inked item List.mem_cons_self) found
      have bounds := value.lies.bounds
      have sized := lies.size_eq
      have start := above item List.mem_cons_self
      obtain ⟨step, follows'⟩ := add_spec levels receiver item valued faded
        ⟨value.lies.trans lies, value.inked⟩ follows (Nat.le_trans start bounds.1)
      simp only [Option.map_some, step, ok_bind]
      refine ih false opens' inked' (fun p member => ?_) others follows'
      have next := behind p member
      rw [Slice.stop] at next
      omega

end Collection

theorem collect_spec {g : Grammar} (valued : g.Valued) (levels : Nat) {source text : List Char} (faded : Faded source text)
    {block : SnippetReview.Block} (lies : block.body.LiesIn 0 text) :
    collect g levels source text block.bounds = .ok (Extraction.collect g levels source block) := by
  obtain ⟨opens, inked, ordered⟩ := statements_stand valued.toSigned.narrow block.body
  have taken := Collection.take_all_spec levels block.receiver valued faded
    (fun p opens => opens.liesIn.trans lies) true opens inked (fun p _ => Nat.zero_le p.start) ordered
    (Collection.follows_start source)
  rw [collect, statements_spec valued.toSigned lies, ok_bind, lines_of_text]
  refine (congrArg (· >>= _) taken).trans ?_
  rw [ok_bind, Collection.bound_all_eq]
  rfl

theorem extract_spec {host : Host} (bracketed : host.grammar.Bracketed) (registry : Registry) (limits : Limits)
    (source : List Char) : extract registry limits host source = .ok (SnippetReview.extract registry limits host source) := by
  unfold extract SnippetReview.extract
  dsimp only
  by_cases large : limits.maxInputBytes < size source
  · rw [if_pos large, if_pos large]
    rfl
  · by_cases unknown : (!registry.contains host) = true
    · rw [if_neg large, if_neg large, if_pos unknown, if_pos unknown]
      rfl
    · rw [if_neg large, if_neg large, if_neg unknown, if_neg unknown, strip_comments_eq bracketed.toInAscii, ok_bind,
        locate_spec bracketed, ok_bind]
      cases located : Block.locate host (SnippetReview.stripComments host.grammar source) with
      | error notice => rfl
      | ok block =>
        have collected := collect_spec bracketed.toValued limits.maxNestingDepth (faded_strip host.grammar source)
          (Block.lies_of_locate located)
        refine (congrArg (· >>= _) collected).trans ?_
        rfl

end Bytewise

theorem Host.grammar_in_ascii (host : Host) : host.grammar.InAscii :=
  { host.grammar_legible with
    asciiLine := by cases host <;> decide
    asciiBlock := by cases host <;> decide
    asciiQuote := by cases host <;> decide
    breaks := by cases host <;> decide }

theorem Host.grammar_bracketed (host : Host) : host.grammar.Bracketed :=
  { host.grammar_in_ascii with
    separators := by cases host <;> decide
    tokens := by cases host <;> decide
    letters := by cases host <;> decide
    lists := by cases host <;> decide
    anchors := by cases host <;> decide
    bareForm := by cases host <;> decide }

/-- On any text the extraction ends without a fault: no index is out of range, no slice cuts a character or
runs backwards, no difference falls below zero, and every loop comes to its end. -/
theorem Bytewise.extract_never_faults (registry : Registry) (limits : Limits) (host : Host) (source : List Char) :
    extract registry limits host source = .ok (SnippetReview.extract registry limits host source) :=
  extract_spec host.grammar_bracketed registry limits source

end SnippetReview
