import Mathlib
import SnippetReview.Proofs.Host.RenderedStatements
import SnippetReview.Proofs.Lexing.Restripping
import SnippetReview.Proofs.Snippet.Gathering

set_option autoImplicit false

namespace SnippetReview

open Text

namespace Host

def snippet (host : Host) (pairs : List (String × ExampleValue)) : String :=
  (if host = elixir then ",\n" else "\n").intercalate (pairs.map fun p => "    " ++ host.renderExample p.1 p.2)

def separator : Host → Char
  | javascript | python | php | go | rust | elixir => ','
  | java | dotnet | dart => ';'
  | ruby | kotlin | cocoa => '\n'

def nextLead (host : Host) : List Char :=
  if host.separator = '\n' then "    ".toList else '\n' :: "    ".toList

-- The lines of a snippet as parts, from the one after `lead` on. A last terminator leaves an empty part
-- behind it.
def lineParts (host : Host) (lead : List Char) : List (List Char) → Part × List Part
  | [] => (⟨[], [], []⟩, [])
  | [s] => (⟨lead, s, []⟩, if host.terminator.isEmpty then [] else [⟨[], [], []⟩])
  | s :: next :: rest =>
    let later := host.lineParts host.nextLead (next :: rest)
    (⟨lead, s, []⟩, later.1 :: later.2)

def lineText (host : Host) (lead : List Char) (statements : List (List Char)) : List Char :=
  let parts := host.lineParts lead statements
  Part.join host.separator parts.1 parts.2

theorem line_text_single (host : Host) (lead s : List Char) : host.lineText lead [s] = lead ++ s ++ host.terminator := by
  have ends : host.terminator = [] ∨ host.terminator = [host.separator] := by
    cases host <;> first | exact .inl rfl | exact .inr rfl
  unfold lineText lineParts
  rcases ends with none | sign
  · simp [none, Part.join, Part.text]
  · simp [sign, Part.join, Part.text]

theorem line_text_cons (host : Host) (lead s next : List Char) (rest : List (List Char)) :
    host.lineText lead (s :: next :: rest) = lead ++ s ++ host.separator :: host.lineText host.nextLead (next :: rest) := by
  rw [lineText, lineParts, Part.join, Part.text, List.append_nil]
  rfl

theorem intercalate_lines (host : Host) {glue : List Char}
    (glued : host.terminator ++ glue ++ "    ".toList = host.separator :: host.nextLead) (s : List Char)
    (rest : List (List Char)) : glue.intercalate ((s :: rest).map fun s => "    ".toList ++ s ++ host.terminator) =
      host.lineText "    ".toList (s :: rest) := by
  -- The first line begins with blanks, the ones after it have theirs behind the separator.
  have shifted : ∀ lead next rest, host.lineText (lead ++ "    ".toList) (next :: rest) =
      lead ++ host.lineText "    ".toList (next :: rest) := by
    intro lead next rest
    cases rest with
    | nil => simp only [line_text_single, List.append_assoc]
    | cons other rest => simp only [line_text_cons, List.append_assoc]
  induction rest generalizing s with
  | nil => rw [List.map_singleton, List.intercalate_singleton, line_text_single]
  | cons next rest ih =>
    have later := ih next
    rw [List.map_cons] at later
    rw [List.map_cons, List.map_cons, List.intercalate_cons_cons, later, line_text_cons]
    have split : host.separator :: host.lineText host.nextLead (next :: rest) =
        host.terminator ++ glue ++ host.lineText "    ".toList (next :: rest) := by
      obtain ⟨lead, ends⟩ : ∃ lead, host.nextLead = lead ++ "    ".toList := by
        unfold nextLead
        split
        · exact ⟨[], rfl⟩
        · exact ⟨['\n'], rfl⟩
      have front : host.terminator ++ glue = host.separator :: lead := by
        rw [ends, ← List.cons_append] at glued
        exact List.append_cancel_right glued
      rw [ends, shifted, front, List.cons_append]
    rw [split]
    simp only [List.append_assoc]

def stated (host : Host) (p : String × ExampleValue) : List Char :=
  host.statement (host.grammar.nativeKey p.1) (host.renderLiteral p.2).toList

theorem snippet_eq (host : Host) (p : String × ExampleValue) (rest : List (String × ExampleValue)) :
    (host.snippet (p :: rest)).toList = host.lineText "    ".toList ((p :: rest).map host.stated) := by
  have glued : host.terminator ++ (if host = elixir then ",\n" else "\n").toList ++ "    ".toList =
      host.separator :: host.nextLead := by cases host <;> decide
  have lines : ((p :: rest).map fun p => "    " ++ host.renderExample p.1 p.2).map String.toList =
      ((p :: rest).map host.stated).map fun s => "    ".toList ++ s ++ host.terminator := by
    rw [List.map_map, List.map_map]
    refine List.map_congr_left fun q _ => ?_
    rw [Function.comp_apply, String.toList_append, renderExample, render_assignment_eq, ← List.append_assoc]
    rfl
  rw [snippet, String.toList_intercalate, lines]
  exact host.intercalate_lines glued (host.stated p) (rest.map host.stated)

section

variable {host : Host}

theorem next_lead_spec (host : Host) : (∀ c ∈ host.nextLead, isBlank c = true) ∧
    (host.separator :: host.nextLead).count '\n' = 1 ∧ host.separator.utf8Size = 1 := by
  cases host <;> decide

theorem passes_next_lead (host : Host) :
    Passes host.grammar (fun c => !host.grammar.separators.contains c) true host.nextLead := by
  cases host <;> exact passes_signs (by decide) (by decide) (by decide)

theorem passes_first_lead (host : Host) :
    Passes host.grammar (fun c => !host.grammar.separators.contains c) true "    ".toList := by
  cases host <;> exact passes_signs (by decide) (by decide) (by decide)

theorem part_spec {s lead : List Char} (lines : Statement.OnLine host.grammar s) (blank : ∀ c ∈ lead, isBlank c = true)
    (passesLead : Passes host.grammar (fun c => !host.grammar.separators.contains c) true lead) :
    Part.Neat ⟨lead, s, []⟩ ∧
      Passes host.grammar (fun c => !host.grammar.separators.contains c) false (Part.text ⟨lead, s, []⟩) ∧
      ∃ c, lastInk (Part.text ⟨lead, s, []⟩) = some c ∧ continuationChars.contains c = false := by
  refine ⟨⟨blank, by simp, .inr lines.inked⟩, ?_, ?_⟩
  · rw [Part.text, List.append_nil]
    exact passesLead.append lines.passes (.inl rfl)
  · have last := List.getLast?_eq_some_getLast lines.inked.nonempty
    refine ⟨_, last_ink_of_last ?_ ?_, lines.ends _ last⟩
    · rw [Part.text, List.append_nil, List.getLast?_append_of_ne_nil _ lines.inked.nonempty]
      exact last
    · have ink := lines.inked.last _ last
      rw [Bool.eq_false_iff]
      intro blank
      rw [blank_of_ascii_blank blank] at ink
      contradiction

theorem separates_lines {lead : List Char} (blank : ∀ c ∈ lead, isBlank c = true)
    (passesLead : Passes host.grammar (fun c => !host.grammar.separators.contains c) true lead)
    {statements : List (List Char)} (lines : ∀ s ∈ statements, Statement.OnLine host.grammar s) (nonempty : statements ≠ []) :
    let parts := host.lineParts lead statements
    Separates host.grammar host.grammar.separators host.separator (parts.1 :: parts.2) := by
  have spec : let parts := host.lineParts lead statements
      ∀ p ∈ parts.1 :: parts.2, p.Neat ∧ Passes host.grammar (fun c => !host.grammar.separators.contains c) false p.text ∧
        (host.separator = '\n' → ∃ c, lastInk p.text = some c ∧ continuationChars.contains c = false) := by
    induction statements generalizing lead with
    | nil => contradiction
    | cons s rest ih =>
      obtain ⟨neat, passes, ends⟩ := part_spec (lines s List.mem_cons_self) blank passesLead
      cases rest with
      | nil =>
        intro parts p member
        rw [List.mem_cons] at member
        rcases member with rfl | behind
        · exact ⟨neat, passes, fun _ => ends⟩
        · have terminated : ¬ host.terminator.isEmpty = true := by
            intro none
            rw [show parts.2 = [] from if_pos none] at behind
            contradiction
          rw [show parts.2 = [⟨[], [], []⟩] from if_neg terminated, List.mem_singleton] at behind
          rw [behind]
          refine ⟨⟨by simp, by simp, .inl rfl⟩, passes_nil _ _ _, fun feed => ?_⟩
          have unterminated : host.separator = '\n' → host.terminator.isEmpty = true := by cases host <;> decide
          exact absurd (unterminated feed) terminated
      | cons next rest =>
        have later := ih (next_lead_spec host).1 (passes_next_lead host)
          (fun t member => lines t (List.mem_cons_of_mem s member)) (List.cons_ne_nil _ _)
        intro parts p member
        rw [List.mem_cons] at member
        rcases member with rfl | behind
        · exact ⟨neat, passes, fun _ => ends⟩
        · exact later p behind
  have signs : ∀ c ∈ host.grammar.separators, isIdentChar c = false := by cases host <;> decide
  have own : host.grammar.separators.contains host.separator = true ∧ host.grammar.silent [host.separator] = true ∧
      host.grammar.isFlat host.separator = true ∧ isBreak host.separator = true ∧ host.separator.utf8Size = 1 := by
    cases host <;> decide
  obtain ⟨member, silent, flat, breaks, ascii⟩ := own
  exact ⟨member, signs, silent, flat, breaks, ascii, fun p inside => (spec p inside).1, fun p inside => (spec p inside).2.1,
    fun feed p inside => (spec p inside).2.2 feed⟩

def PlacedAt (text s : List Char) (line : Nat) (piece : Slice) : Prop :=
  ∃ before later, SplitAt text before (s ++ later) line ∧ piece = Slice.place (size before) s later

theorem pieces_lines {lead : List Char} {statements : List (List Char)}
    (lines : ∀ s ∈ statements, Statement.OnLine host.grammar s) {text before : List Char} {line : Nat}
    (whole : text = before ++ host.lineText lead statements) (here : (before ++ lead).count '\n' + 1 = line) :
    let parts := host.lineParts lead statements
    List.Forall₂ (fun s piece => PlacedAt text s.1 s.2 piece) (statements.zipIdx line)
      (Part.pieces host.separator (size before) parts.1 parts.2) := by
  induction statements generalizing lead before line with
  | nil => exact .nil
  | cons s rest ih =>
    have fits := lines s List.mem_cons_self
    have placed : ∀ later, text = before ++ (lead ++ s ++ later) →
        (Part.piece (size before) ⟨lead, s, []⟩ later) = [Slice.place (size (before ++ lead)) s later] ∧
          PlacedAt text s line (Slice.place (size (before ++ lead)) s later) := by
      intro later split
      refine ⟨?_, before ++ lead, later, ⟨by rw [split]; simp, here⟩, rfl⟩
      rw [Part.piece, if_neg fits.inked.nonempty, List.nil_append, size_append]
    cases rest with
    | nil =>
      rw [line_text_single] at whole
      intro parts
      have last : Part.pieces host.separator (size before) parts.1 parts.2 =
          [Slice.place (size (before ++ lead)) s host.terminator] := by
        have ends : host.terminator = [] ∨ host.terminator = [host.separator] := by
          cases host <;> first | exact .inl rfl | exact .inr rfl
        obtain ⟨piece, _⟩ := placed host.terminator whole
        rcases ends with none | sign
        · rw [show parts.2 = [] from if_pos (by rw [none]; rfl), Part.pieces, ← piece, none]
          rfl
        · rw [show parts.2 = [⟨[], [], []⟩] from if_neg (by rw [sign]; simp), Part.pieces, Part.pieces, ← piece, sign]
          simp [Part.join, Part.text, Part.piece]
          rfl
      rw [last]
      exact .cons (placed _ whole).2 .nil
    | cons next rest =>
      rw [line_text_cons] at whole
      obtain ⟨piece, place⟩ := placed _ whole
      obtain ⟨_, feeds, ascii⟩ := next_lead_spec host
      have stop : size before + size (Part.text ⟨lead, s, []⟩) + 1 = size (before ++ (lead ++ s ++ [host.separator])) := by
        simp only [Part.text, size_append, size_singleton, size_nil, ascii]
        omega
      have rest' : text = before ++ (lead ++ s ++ [host.separator]) ++ host.lineText host.nextLead (next :: rest) := by
        rw [whole]
        simp
      have here' : (before ++ (lead ++ s ++ [host.separator]) ++ host.nextLead).count '\n' + 1 = line + 1 := by
        have none : s.count '\n' = 0 := List.count_eq_zero.mpr fits.line
        rw [List.count_cons] at feeds
        rw [List.count_append] at here
        simp only [List.count_append, List.count_cons, List.count_nil]
        omega
      have later := ih (fun t member => lines t (List.mem_cons_of_mem s member)) rest' here'
      intro parts
      have split : Part.pieces host.separator (size before) parts.1 parts.2 =
          [Slice.place (size (before ++ lead)) s (host.separator :: host.lineText host.nextLead (next :: rest))] ++
            Part.pieces host.separator (size (before ++ (lead ++ s ++ [host.separator])))
              (host.lineParts host.nextLead (next :: rest)).1 (host.lineParts host.nextLead (next :: rest)).2 := by
        rw [← piece, ← stop]
        rfl
      rw [split]
      exact .cons place later

end

def occurrence (host : Host) (p : String × PlainValue) (line : Nat) : Setting :=
  ⟨host.grammar.nativeKey p.1, p.2.value, host.renderLiteral p.2.example', p.2.type, line⟩

def occurrences (host : Host) (pairs : List (String × PlainValue)) : List Setting :=
  (pairs.zipIdx 1).map fun p => host.occurrence p.1 p.2

def plainSnippet (host : Host) (pairs : List (String × PlainValue)) : List Char :=
  (host.snippet (pairs.map fun p => (p.1, p.2.example'))).toList

def plainStatement (host : Host) (p : String × PlainValue) : List Char := host.stated (p.1, p.2.example')

section

variable (host : Host) {pairs : List (String × PlainValue)}

theorem plain_snippet_eq (nonempty : pairs ≠ []) :
    host.plainSnippet pairs = host.lineText "    ".toList (pairs.map host.plainStatement) := by
  obtain ⟨p, rest, rfl⟩ := List.exists_cons_of_ne_nil nonempty
  rw [plainSnippet, List.map_cons, snippet_eq, List.map_cons, List.map_cons, List.map_map]
  rfl

theorem binds_plain {p : String × PlainValue} (known : p.1 ∈ Catalog.standardEntries.map (·.key)) :
    Statement.Binds host.grammar host.snippetReceiver (host.grammar.nativeKey p.1)
      (host.renderLiteral p.2.example').toList (host.plainStatement p) := host.binds_statement known p.2

variable (known : ∀ p ∈ pairs, p.1 ∈ Catalog.standardEntries.map (·.key))

include known

theorem on_line_of_known : ∀ s ∈ pairs.map host.plainStatement, Statement.OnLine host.grammar s := by
  intro s member
  obtain ⟨p, among, rfl⟩ := List.mem_map.mp member
  exact (binds_plain host (known p among)).toOnLine

theorem strip_snippet : stripComments host.grammar (host.plainSnippet pairs) = host.plainSnippet pairs := by
  by_cases empty : pairs = []
  · rw [empty]
    have none : host.plainSnippet [] = [] := rfl
    rw [none]
    exact strip_of_passes (passes_nil host.grammar isInert false)
  · rw [plain_snippet_eq host empty]
    have separates := separates_lines (by decide) (passes_first_lead host) (on_line_of_known host known)
      (by simpa using empty)
    have sign : Passes host.grammar (fun _ => true) true [host.separator] :=
      passes_signs separates.silent (by rw [List.all_cons, separates.flat]; rfl) rfl
    exact strip_of_passes (passes_join sign separates.breaks _ _ fun p member =>
      (separates.passes p member).weaken fun _ _ => rfl)

theorem pieces_snippet : List.Forall₂ (fun p piece => PlacedAt (host.plainSnippet pairs) (host.plainStatement p.1) p.2 piece)
    (pairs.zipIdx 1) (split host.grammar 0 (host.plainSnippet pairs) host.grammar.separators) := by
  by_cases empty : pairs = []
  · rw [empty]
    have none : host.plainSnippet [] = [] := rfl
    rw [none, split_nil]
    exact .nil
  · have lines := on_line_of_known host known
    have separates := separates_lines (by decide) (passes_first_lead host) lines (by simpa using empty)
    have whole : host.plainSnippet pairs = [] ++ host.lineText "    ".toList (pairs.map host.plainStatement) :=
      plain_snippet_eq host empty
    have here : ([] ++ "    ".toList : List Char).count '\n' + 1 = 1 := by decide
    have placed := pieces_lines lines whole here
    rw [List.zipIdx_map, List.forall₂_map_left_iff] at placed
    rw [plain_snippet_eq host empty] at placed ⊢
    rw [lineText, split_parts 0 separates]
    exact placed

theorem statements_snippet : Extraction.statements host.grammar (Slice.ofText 0 (host.plainSnippet pairs)) =
    split host.grammar 0 (host.plainSnippet pairs) host.grammar.separators := by
  have stand : ∀ piece ∈ split host.grammar 0 (host.plainSnippet pairs) host.grammar.separators,
      ∃ p ∈ pairs, piece.text = host.plainStatement p := by
    intro piece member
    obtain ⟨⟨p, line⟩, among, before, later, _, rfl⟩ := Extraction.mem_of_forall (pieces_snippet host known) piece member
    exact ⟨p, List.fst_mem_of_mem_zipIdx among, Slice.text_place _ _ _⟩
  have kept : (split host.grammar 0 (host.plainSnippet pairs) host.grammar.separators).filter
      (fun item => !isSpread host.grammar item.text) =
        split host.grammar 0 (host.plainSnippet pairs) host.grammar.separators := by
    rw [List.filter_eq_self]
    intro piece member
    obtain ⟨p, among, text⟩ := stand piece member
    rw [text, (binds_plain host (known p among)).spreadless]
    rfl
  unfold Extraction.statements
  simp only [Slice.text, Slice.ofText, take_bytes_all] at kept ⊢
  rw [kept]
  split
  · have same : host = python := by
      revert ‹host.grammar.mergesContinuations = true›
      cases host <;> first | exact fun _ => rfl | exact nofun
    subst same
    refine merge_bound fun piece member => ?_
    obtain ⟨p, among, text⟩ := stand piece member
    rw [text]
    exact (python_binds (v := p.2) (python.spells_native (known p among)) []).2
  · rfl

theorem makes_plain (levels : Nat) {p : String × PlainValue} {line : Nat} {piece : Slice} {text : List Char}
    (among : p ∈ pairs) (placed : PlacedAt text (host.plainStatement p) line piece) :
    ∃ b, Binding.ofItem? host.grammar host.snippetReceiver piece = some b ∧
      Extraction.Makes host.grammar (levels + 1) text (host.occurrence p line) (piece, b) := by
  have reads := host.reads_literal p.2
  have binds := binds_plain host (known p among)
  obtain ⟨before, later, here, rfl⟩ := placed
  obtain ⟨head, tail, shape, sets⟩ := binds.sets
  obtain ⟨b, read, sets⟩ := sets (size before) later
  refine ⟨b, read, ⟨before, _, here, rfl⟩, before ++ head, _, tail ++ later, ⟨?_, ?_⟩, ?_, reads.inked,
    String.ofList_toList.symm, reads.within levels⟩
  · rw [here.text, shape]
    simp
  · have line := binds.line
    rw [shape, List.mem_append, List.mem_append] at line
    have none : head.count '\n' = 0 := List.count_eq_zero.mpr fun member => line (.inl (.inl member))
    rw [List.count_append, none]
    exact here.line
  · rw [size_append]
    exact sets

/-- Rendered examples are read back: each key has the value of its last line, and each line that
repeats a key is noted. -/
theorem collect_snippet (levels : Nat) :
    let text := host.plainSnippet pairs
    let block : Block := ⟨Slice.ofText 0 (stripComments host.grammar text), host.snippetReceiver⟩
    let collected := Extraction.collect host.grammar (levels + 1) text block
    collected.1.keys = (pairs.map fun p => host.grammar.nativeKey p.1).eraseDups ∧
      (∀ before p after, pairs = before ++ p :: after →
        (∀ q ∈ after, host.grammar.nativeKey q.1 ≠ host.grammar.nativeKey p.1) →
        collected.1.get? (host.grammar.nativeKey p.1) = some (host.occurrence p (before.length + 1))) ∧
      collected.2.map (·.problem) = repeats [] (host.occurrences pairs) := by
  intro text block collected
  have whole : block.body = Slice.ofText 0 text := congrArg (Slice.ofText 0) (strip_snippet host known)
  have makes : List.Forall₂ (Extraction.Makes host.grammar (levels + 1) text) (host.occurrences pairs)
      (Extraction.bindings host.grammar block.receiver (Extraction.statements host.grammar block.body)) := by
    rw [whole, statements_snippet host known, occurrences, List.forall₂_map_left_iff]
    exact Extraction.forall_bindings (pieces_snippet host known) fun p piece among placed =>
      makes_plain host known levels (List.fst_mem_of_mem_zipIdx among) placed
  have lines : ∀ i (inside : i < (host.occurrences pairs).length), (host.occurrences pairs)[i].line = 1 + i := by
    intro i inside
    simp [occurrences, occurrence]
  have start : Extraction.Collection.Gathers text [] 1 ⟨.empty, [], LineIndex.ofText text, Cursor.start text⟩ :=
    ⟨rfl, fun _ => rfl, ⟨rfl, rfl⟩, [], text, 1, ⟨rfl, rfl⟩, .inl rfl, rfl, rfl⟩
  obtain ⟨gathered, warnings⟩ := Extraction.Collection.gathers_fold makes lines start
  refine ⟨?keys, ?get, warnings⟩
  case keys =>
    refine gathered.keys.trans ?_
    rw [List.append_nil, List.reverse_reverse, occurrences, List.map_map]
    congr 1
    have keys : ((pairs.zipIdx 1).map Prod.fst).map (fun p => host.grammar.nativeKey p.1) =
        pairs.map fun p => host.grammar.nativeKey p.1 := by rw [List.zipIdx_map_fst]
    rw [← keys, List.map_map]
    rfl
  case get =>
    intro before p after split others
    refine (gathered.get _).trans ?_
    have parts : host.occurrences pairs = host.occurrences before ++ host.occurrence p (before.length + 1) ::
        (after.zipIdx (before.length + 2)).map fun q => host.occurrence q.1 q.2 := by
      rw [split, occurrences, List.zipIdx_append, List.map_append, List.zipIdx_cons, List.map_cons, Nat.add_comm 1]
      rfl
    have absent : ((after.zipIdx (before.length + 2)).map fun q => host.occurrence q.1 q.2).reverse.find?
        (·.key == host.grammar.nativeKey p.1) = none := by
      rw [List.find?_eq_none]
      intro setting member
      obtain ⟨q, among, rfl⟩ := List.mem_map.mp (List.mem_reverse.mp member)
      rw [beq_iff_eq]
      exact others q.1 (List.fst_mem_of_mem_zipIdx among)
    have found : ((host.occurrence p (before.length + 1)).key == host.grammar.nativeKey p.1) = true := beq_self_eq_true _
    rw [List.append_nil, parts, List.reverse_append, List.reverse_cons, List.append_assoc, List.find?_append, absent,
      Option.none_or, List.singleton_append]
    exact List.find?_cons_of_pos found

end

theorem collect_snippet_kotlin :
    let pairs : List (String × PlainValue) := [("dsn", .string "a // b" (by decide +kernel)), ("debug", .boolean true),
      ("dsn", .strings ["[", "end"] (by decide +kernel))]
    let text := kotlin.plainSnippet pairs
    let block : Block := ⟨Slice.ofText 0 (stripComments kotlin.grammar text), kotlin.snippetReceiver⟩
    let collected := Extraction.collect kotlin.grammar 1 text block
    (∀ p ∈ pairs, p.1 ∈ Catalog.standardEntries.map (·.key)) ∧ collected.1.keys = ["dsn", "debug"] ∧
      collected.1.get? "dsn" = some ⟨"dsn", .array [.string "[", .string "end"], "listOf(\"[\", \"end\")", .array, 3⟩ ∧
      collected.2.map (·.problem) = [.setAgain "dsn" 1] := by
  intro pairs text block collected
  have known : ∀ p ∈ pairs, p.1 ∈ Catalog.standardEntries.map (·.key) := by decide +kernel
  obtain ⟨keys, get, warnings⟩ := collect_snippet kotlin known 0
  refine ⟨known, keys.trans (by decide +kernel), ?_, warnings.trans (by decide +kernel)⟩
  exact get [_, _] _ [] rfl (by simp)

end Host

end SnippetReview
