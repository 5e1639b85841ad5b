import SnippetReview.Host.Grammar
import SnippetReview.Proofs.Pattern.Taking

set_option autoImplicit false

namespace SnippetReview

open Text

namespace Pattern

def avoids (signs : List Char) : Pattern → Bool
  | exactly chars => chars.all fun c => !signs.contains c
  | one accepts | many accepts => signs.all fun c => !accepts c
  | cat first second => first.avoids signs && second.avoids signs
  | either left right => left.avoids signs && right.avoids signs
  | optional inner | group inner => inner.avoids signs
  | wordEdge | lineStart | textStart | textEnd => true

variable {signs front piece later : List Char}

theorem not_sign_of_accepts {accepts : Char → Bool} (avoids : (signs.all fun c => !accepts c) = true) {c : Char}
    (accepted : accepts c = true) : c ∉ signs := by
  rw [List.all_eq_true] at avoids
  intro member
  have rejected := avoids c member
  rw [accepted] at rejected
  contradiction

theorem takes_avoid {p : Pattern} (avoids : p.avoids signs = true) (takes : p.Takes front piece later) :
    ∀ c ∈ piece, c ∉ signs := by
  induction p generalizing front piece later with
  | exactly chars =>
    obtain rfl := takes
    rw [Pattern.avoids, List.all_eq_true] at avoids
    simpa using avoids
  | one accepts =>
    obtain ⟨c, rfl, accepted⟩ := takes
    exact List.forall_mem_singleton.mpr (not_sign_of_accepts avoids accepted)
  | many accepts => exact fun c member => not_sign_of_accepts avoids (takes c member)
  | cat first second ihFirst ihSecond =>
    rw [Pattern.avoids, Bool.and_eq_true] at avoids
    obtain ⟨left, right, rfl, takes, takes'⟩ := takes
    exact List.forall_mem_append.mpr ⟨ihFirst avoids.1 takes, ihSecond avoids.2 takes'⟩
  | either left right ihLeft ihRight =>
    rw [Pattern.avoids, Bool.and_eq_true] at avoids
    rcases takes with takes | takes
    · exact ihLeft avoids.1 takes
    · exact ihRight avoids.2 takes
  | optional inner ih =>
    rcases takes with takes | rfl
    · exact ih avoids takes
    · exact List.forall_mem_nil _
  | group inner ih => exact ih avoids takes
  | wordEdge | lineStart | textStart | textEnd =>
    obtain ⟨rfl, _⟩ := takes
    exact List.forall_mem_nil _

-- Each match of the pattern begins with a character that is no blank. With `orNothing` it may be empty as
-- well.
def beginsInked (orNothing : Bool) : Pattern → Bool
  | exactly [] => orNothing
  | exactly (c :: _) => !isBlank c
  | one _ | many _ => false
  | cat first second => first.beginsInked false || (first.beginsInked true && second.beginsInked orNothing)
  | either left right => left.beginsInked orNothing && right.beginsInked orNothing
  | optional inner => orNothing && inner.beginsInked true
  | group inner => inner.beginsInked orNothing
  | wordEdge | lineStart | textStart | textEnd => orNothing

theorem takes_begin_inked {p : Pattern} {orNothing : Bool} (begins : p.beginsInked orNothing = true)
    (takes : p.Takes front piece later) :
    (orNothing = true ∧ piece = []) ∨ ∃ c rest, piece = c :: rest ∧ isBlank c = false := by
  induction p generalizing orNothing front piece later with
  | exactly chars =>
    obtain rfl := takes
    cases piece with
    | nil => exact .inl ⟨begins, rfl⟩
    | cons c chars => exact .inr ⟨c, chars, rfl, by simpa [beginsInked] using begins⟩
  | one | many => contradiction
  | cat first second ihFirst ihSecond =>
    rw [beginsInked, Bool.or_eq_true, Bool.and_eq_true] at begins
    obtain ⟨left, right, rfl, takes, takes'⟩ := takes
    -- The first part begins the piece, or takes up nothing of it.
    have begun : ∀ {c rest}, left = c :: rest → isBlank c = false →
        ∃ c rest, left ++ right = c :: rest ∧ isBlank c = false := by
      rintro c rest rfl ink
      exact ⟨c, rest ++ right, rfl, ink⟩
    rcases begins with begins | ⟨begins, begins'⟩
    · obtain ⟨c, rest, same, ink⟩ := (ihFirst begins takes).resolve_left fun empty => Bool.false_ne_true empty.1
      exact .inr (begun same ink)
    · rcases ihFirst begins takes with ⟨_, rfl⟩ | ⟨c, rest, same, ink⟩
      · exact ihSecond begins' takes'
      · exact .inr (begun same ink)
  | either left right ihLeft ihRight =>
    rw [beginsInked, Bool.and_eq_true] at begins
    rcases takes with takes | takes
    · exact ihLeft begins.1 takes
    · exact ihRight begins.2 takes
  | optional inner ih =>
    rw [beginsInked, Bool.and_eq_true] at begins
    obtain ⟨rfl, begins⟩ := begins
    rcases takes with takes | rfl
    · exact ih begins takes
    · exact .inl ⟨rfl, rfl⟩
  | group inner ih => exact ih begins takes
  | wordEdge | lineStart | textStart | textEnd => exact .inl ⟨begins, takes.1⟩

def beginsLine : Pattern → Bool
  | lineStart => true
  | cat first _ => first.beginsLine
  | _ => false

theorem takes_begin_line {p : Pattern} (begins : p.beginsLine = true) (takes : p.Takes front piece later) :
    ∀ c ∈ front.getLast?, c = '\n' := by
  induction p generalizing piece later with
  | lineStart => exact takes.2
  | cat first second ihFirst _ =>
    obtain ⟨left, right, rfl, takes, _⟩ := takes
    exact ihFirst begins takes
  | exactly | one | many | either | optional | group | wordEdge | textStart | textEnd => contradiction

-- No match of the pattern ends with one of these characters. With `orNothing` it may be empty as well.
def endsOff (signs : List Char) (orNothing : Bool) : Pattern → Bool
  | exactly chars => (chars.getLast?.map fun c => !signs.contains c).getD orNothing
  | one accepts => signs.all fun c => !accepts c
  | many accepts => orNothing && signs.all fun c => !accepts c
  | cat first second => second.endsOff signs false || (second.endsOff signs true && first.endsOff signs orNothing)
  | either left right => left.endsOff signs orNothing && right.endsOff signs orNothing
  | optional inner => orNothing && inner.endsOff signs true
  | group inner => inner.endsOff signs orNothing
  | wordEdge | lineStart | textStart | textEnd => orNothing

theorem takes_end_off {p : Pattern} {orNothing : Bool} (off : p.endsOff signs orNothing = true)
    (takes : p.Takes front piece later) : (orNothing = true ∧ piece = []) ∨ ∃ c ∈ piece.getLast?, c ∉ signs := by
  induction p generalizing orNothing front piece later with
  | exactly chars =>
    obtain rfl := takes
    rw [endsOff] at off
    cases last : piece.getLast? with
    | none => exact .inl ⟨by simpa [last] using off, List.getLast?_eq_none_iff.mp last⟩
    | some c => exact .inr ⟨c, rfl, by simpa [last] using off⟩
  | one accepts =>
    obtain ⟨c, rfl, accepted⟩ := takes
    exact .inr ⟨c, rfl, not_sign_of_accepts off accepted⟩
  | many accepts =>
    rw [endsOff, Bool.and_eq_true] at off
    cases last : piece.getLast? with
    | none => exact .inl ⟨off.1, List.getLast?_eq_none_iff.mp last⟩
    | some c => exact .inr ⟨c, rfl, not_sign_of_accepts off.2 (takes c (List.mem_of_getLast? last))⟩
  | cat first second ihFirst ihSecond =>
    rw [endsOff, Bool.or_eq_true, Bool.and_eq_true] at off
    obtain ⟨left, right, rfl, takes, takes'⟩ := takes
    -- The last character is the second part's, or the first part's where the second is empty.
    have behind : ∀ {c}, c ∈ right.getLast? → c ∈ (left ++ right).getLast? := by
      intro c last
      rw [List.getLast?_append, Option.mem_def.mp last]
      rfl
    rcases off with off | ⟨off, off'⟩
    · obtain ⟨c, last, other⟩ := (ihSecond off takes').resolve_left fun empty => Bool.false_ne_true empty.1
      exact .inr ⟨c, behind last, other⟩
    · rcases ihSecond off takes' with ⟨_, rfl⟩ | ⟨c, last, other⟩
      · rw [List.append_nil]
        exact ihFirst off' takes
      · exact .inr ⟨c, behind last, other⟩
  | either left right ihLeft ihRight =>
    rw [endsOff, Bool.and_eq_true] at off
    rcases takes with takes | takes
    · exact ihLeft off.1 takes
    · exact ihRight off.2 takes
  | optional inner ih =>
    rw [endsOff, Bool.and_eq_true] at off
    obtain ⟨rfl, off⟩ := off
    rcases takes with takes | rfl
    · exact ih off takes
    · exact .inl ⟨rfl, rfl⟩
  | group inner ih => exact ih off takes
  | wordEdge | lineStart | textStart | textEnd => exact .inl ⟨off, takes.1⟩

-- A match of a pattern in a text: the characters around it, and the way through the pattern.
structure Match.Spans (p : Pattern) (text : List Char) (m : Match) (front mid later : List Char) : Prop where
  parts : text = front ++ mid ++ later
  start : m.start = .between front (mid ++ later)
  stop : m.stop = .between (front ++ mid) later
  way : ∃ q ∈ p.ends ⟨m.start, none⟩, q.cursor = m.stop

theorem match_at_spans {p : Pattern} {rest : List Char} {m : Match}
    (found : p.matchAt (.between front rest) = some m) : ∃ mid later, m.Spans p (front ++ rest) front mid later := by
  obtain ⟨q, first, rfl⟩ := Option.map_eq_some_iff.mp found
  have reached := List.mem_of_head? first
  obtain ⟨mid, later, rfl, place, _⟩ := ends_behind p front rest none q reached
  exact ⟨mid, later, (List.append_assoc _ _ _).symm, rfl, place, q, reached, rfl⟩

theorem all_spans {p : Pattern} {text : List Char} {m : Match} (member : m ∈ p.all text) :
    ∃ front mid later, m.Spans p text front mid later := by
  refine all_keeps (fun m => ∃ front mid later, m.Spans p text front mid later) ?_ member
  intro front rest m split found
  exact ⟨front, split ▸ match_at_spans found⟩

namespace Match.Spans

variable {p : Pattern} {text front mid later : List Char} {m : Match}

theorem text_eq (spans : m.Spans p text front mid later) : m.text = mid := by
  rw [Match.text, spans.start, spans.stop]
  simp [Cursor.upTo, Cursor.between, size_append]

theorem start_eq (spans : m.Spans p text front mid later) : m.start.offset = size front := by
  rw [spans.start]
  rfl

theorem stop_eq (spans : m.Spans p text front mid later) : m.stop.offset = size front + size mid := by
  rw [spans.stop]
  exact size_append front mid

theorem takes (spans : m.Spans p text front mid later) : p.Takes front mid later := by
  obtain ⟨q, reached, place⟩ := spans.way
  rw [spans.start] at reached
  obtain ⟨mid', later', split, place', takes⟩ := ends_behind p front (mid ++ later) none q reached
  obtain rfl := Cursor.mid_of_between split (spans.stop.symm.trans (place.symm.trans place'))
  obtain rfl := List.append_cancel_left split
  exact takes

theorem avoids (spans : m.Spans p text front mid later) {signs : List Char} (avoids : p.avoids signs = true) :
    ∀ c ∈ mid, c ∉ signs := takes_avoid avoids spans.takes

theorem ends_off (spans : m.Spans p text front mid later) {signs : List Char} (off : p.endsOff signs false = true) :
    ∃ c ∈ mid.getLast?, c ∉ signs :=
  (takes_end_off off spans.takes).resolve_left fun empty => Bool.false_ne_true empty.1

theorem begins_inked (spans : m.Spans p text front mid later) (begins : p.beginsInked false = true) :
    ∃ c rest, mid ++ later = c :: rest ∧ isBlank c = false := by
  obtain ⟨c, rest, rfl, ink⟩ := (takes_begin_inked begins spans.takes).resolve_left fun empty => Bool.false_ne_true empty.1
  exact ⟨c, rest ++ later, rfl, ink⟩

theorem begins_line (spans : m.Spans p text front mid later) (begins : p.beginsLine = true) :
    ∀ c ∈ front.getLast?, c = '\n' := takes_begin_line begins spans.takes

end Match.Spans

def groupsAvoid (signs : List Char) : Pattern → Bool
  | cat first second | either first second => first.groupsAvoid signs && second.groupsAvoid signs
  | optional inner => inner.groupsAvoid signs
  | group inner => inner.avoids signs
  | exactly _ | one _ | many _ | wordEdge | lineStart | textStart | textEnd => true

theorem ends_remember {p : Pattern} (avoid : p.groupsAvoid signs = true) (front rest : List Char)
    (remembered : Option (Cursor × Nat)) :
    ∀ q ∈ p.ends ⟨.between front rest, remembered⟩,
      q.remembered = remembered ∨ ∃ start stop, q.remembered = some (start, stop) ∧ ∀ c ∈ start.upTo stop, c ∉ signs := by
  induction p generalizing front rest remembered with
  | exactly _ | one _ | many _ | wordEdge | lineStart | textStart | textEnd =>
    exact fun q member => .inl (ends_forget rfl q member)
  | cat first second ihFirst ihSecond =>
    rw [groupsAvoid, Bool.and_eq_true] at avoid
    intro q member
    obtain ⟨⟨cursor, remembered'⟩, reached, further⟩ := List.mem_flatMap.mp member
    obtain ⟨left, rest', rfl, place, _⟩ := ends_behind first front rest remembered _ reached
    dsimp only at place
    subst place
    rcases ihSecond avoid.2 _ _ _ q further with same | own
    · rw [same]
      exact ihFirst avoid.1 _ _ _ _ reached
    · exact .inr own
  | either left right ihLeft ihRight =>
    rw [groupsAvoid, Bool.and_eq_true] at avoid
    exact List.forall_mem_append.mpr ⟨ihLeft avoid.1 _ _ _, ihRight avoid.2 _ _ _⟩
  | optional inner ih => exact List.forall_mem_append.mpr ⟨ih avoid _ _ _, List.forall_mem_singleton.mpr (.inl rfl)⟩
  | group inner _ =>
    intro q member
    obtain ⟨r, reached, rfl⟩ := List.mem_map.mp member
    obtain ⟨piece, later, rfl, place, takes⟩ := ends_behind inner front rest remembered r reached
    have text : (Cursor.between front (piece ++ later)).upTo r.cursor.offset = piece := by
      rw [place]
      simp [Cursor.upTo, Cursor.between, size_append]
    exact .inr ⟨_, _, rfl, by rw [text]; exact takes_avoid avoid takes⟩

theorem group_avoids {p : Pattern} (avoid : p.groupsAvoid signs = true) {front rest : List Char} {m : Match}
    (found : p.matchAt (.between front rest) = some m) {chars : List Char} (grouped : m.group = some chars) :
    ∀ c ∈ chars, c ∉ signs := by
  obtain ⟨q, first, rfl⟩ := Option.map_eq_some_iff.mp found
  obtain ⟨⟨start, stop⟩, remembered, rfl⟩ := Option.map_eq_some_iff.mp grouped
  rcases ends_remember avoid front rest none q (List.mem_of_head? first) with none | ⟨start', stop', own, plain⟩
  · rw [none] at remembered
    contradiction
  · rw [own, Option.some.injEq, Prod.mk.injEq] at remembered
    rwa [remembered.1, remembered.2] at plain

end Pattern

end SnippetReview
