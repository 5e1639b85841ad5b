import SnippetReview.Proofs.Pattern.Places

set_option autoImplicit false

namespace SnippetReview.Pattern

open Text

-- The pieces of a text that a pattern takes up, between what stands before them and what follows.
def Takes : Pattern → (front piece later : List Char) → Prop
  | exactly chars, _, piece, _ => piece = chars
  | one accepts, _, piece, _ => ∃ c, piece = [c] ∧ accepts c = true
  | many accepts, _, piece, _ => ∀ c ∈ piece, accepts c = true
  | cat first second, front, piece, later =>
    ∃ left right, piece = left ++ right ∧ first.Takes front left (right ++ later) ∧ second.Takes (front ++ left) right later
  | either left right, front, piece, later => left.Takes front piece later ∨ right.Takes front piece later
  | optional inner, front, piece, later => inner.Takes front piece later ∨ piece = []
  | group inner, front, piece, later => inner.Takes front piece later
  | wordEdge, front, piece, later =>
    piece = [] ∧ (front.getLast?.map isWordChar).getD false ≠ (later.head?.map isWordChar).getD false
  | lineStart, front, piece, _ => piece = [] ∧ ∀ c ∈ front.getLast?, c = '\n'
  | textStart, front, piece, _ => piece = [] ∧ front = []
  | textEnd, _, piece, later => piece = [] ∧ later = []

def Behind (p : Pattern) (front rest : List Char) (reached : Cursor) : Prop :=
  ∃ piece later, rest = piece ++ later ∧ reached = .between (front ++ piece) later ∧ p.Takes front piece later

theorem Behind.here {p : Pattern} {front rest : List Char} (takes : p.Takes front [] rest) :
    p.Behind front rest (.between front rest) :=
  ⟨[], rest, rfl, by rw [List.append_nil], takes⟩

theorem run_behind {accepts : Char → Bool} (remembered : Option (Cursor × Nat)) (front rest : List Char)
    (passed : List Place) :
    ∀ q ∈ run accepts remembered passed (size front) front.getLast? rest,
      q ∈ passed ∨ (many accepts).Behind front rest q.cursor := by
  induction rest generalizing front passed with
  | nil =>
    intro q member
    rcases List.mem_cons.mp member with rfl | earlier
    · exact .inr (.here (List.forall_mem_nil _))
    · exact .inl earlier
  | cons c rest ih =>
    have stays : ∀ q ∈ (⟨⟨size front, front.getLast?, c :: rest⟩, remembered⟩ : Place) :: passed,
        q ∈ passed ∨ (many accepts).Behind front (c :: rest) q.cursor := by
      intro q member
      rcases List.mem_cons.mp member with rfl | earlier
      · exact .inr (.here (List.forall_mem_nil _))
      · exact .inl earlier
    intro q member
    rw [run] at member
    by_cases accepted : accepts c = true
    · rw [if_pos accepted] at member
      have further := ih (front ++ [c]) (⟨⟨size front, front.getLast?, c :: rest⟩, remembered⟩ :: passed) q
      rw [size_append, size_singleton, List.getLast?_append, List.getLast?_singleton, Option.some_or] at further
      rcases further member with earlier | ⟨piece, later, rfl, place, takes⟩
      · exact stays q earlier
      · refine .inr ⟨c :: piece, later, rfl, ?_, List.forall_mem_cons.mpr ⟨accepted, takes⟩⟩
        rw [place, List.append_assoc, List.singleton_append]
    · rw [if_neg accepted] at member
      exact stays q member

theorem ends_behind (p : Pattern) (front rest : List Char) (remembered : Option (Cursor × Nat)) :
    ∀ q ∈ p.ends ⟨.between front rest, remembered⟩, p.Behind front rest q.cursor := by
  -- The second part of a sequence goes on behind the first, so what stands in front changes with the pattern.
  induction p generalizing front rest remembered with
  | exactly chars =>
    rw [ends]
    split
    next stands =>
      obtain ⟨later, rfl⟩ := List.isPrefixOf_iff_prefix.mp stands
      exact List.forall_mem_singleton.mpr ⟨chars, later, rfl, Cursor.advance_between front chars later, rfl⟩
    next => exact List.forall_mem_nil _
  | one accepts =>
    cases rest with
    | nil => exact List.forall_mem_nil _
    | cons c rest =>
      rw [ends]
      dsimp only [Cursor.between]
      split
      next accepted =>
        exact List.forall_mem_singleton.mpr ⟨[c], rest, rfl, Cursor.advance_between front [c] rest, c, rfl, accepted⟩
      next => exact List.forall_mem_nil _
  | many accepts =>
    intro q member
    exact (run_behind remembered front rest [] q member).resolve_left List.not_mem_nil
  | cat first second ihFirst ihSecond =>
    intro q member
    obtain ⟨⟨cursor, remembered'⟩, reached, further⟩ := List.mem_flatMap.mp member
    obtain ⟨left, rest', rfl, place, takes⟩ := ihFirst front rest remembered _ reached
    dsimp only at place
    subst place
    obtain ⟨right, later, rfl, place', takes'⟩ := ihSecond (front ++ left) rest' remembered' q further
    refine ⟨left ++ right, later, (List.append_assoc _ _ _).symm, ?_, left, right, rfl, takes, takes'⟩
    rw [place', List.append_assoc]
  | either left right ihLeft ihRight =>
    refine List.forall_mem_append.mpr ⟨fun q member => ?_, fun q member => ?_⟩
    · obtain ⟨piece, later, split, place, takes⟩ := ihLeft front rest remembered q member
      exact ⟨piece, later, split, place, .inl takes⟩
    · obtain ⟨piece, later, split, place, takes⟩ := ihRight front rest remembered q member
      exact ⟨piece, later, split, place, .inr takes⟩
  | optional inner ih =>
    refine List.forall_mem_append.mpr ⟨fun q member => ?_, List.forall_mem_singleton.mpr (.here (.inr rfl))⟩
    obtain ⟨piece, later, split, place, takes⟩ := ih front rest remembered q member
    exact ⟨piece, later, split, place, .inl takes⟩
  | group inner ih =>
    intro q member
    obtain ⟨r, reached, rfl⟩ := List.mem_map.mp member
    exact ih front rest remembered r reached
  | wordEdge =>
    rw [ends]
    dsimp only
    split
    next edge => exact List.forall_mem_singleton.mpr (.here ⟨rfl, bne_iff_ne.mp edge⟩)
    next => exact List.forall_mem_nil _
  | lineStart =>
    rw [ends]
    split
    next start => exact List.forall_mem_singleton.mpr (.here ⟨rfl, by simpa [Cursor.between, Option.all_eq_true] using start⟩)
    next => exact List.forall_mem_nil _
  | textStart =>
    rw [ends]
    split
    next start => exact List.forall_mem_singleton.mpr (.here ⟨rfl, size_eq_zero_iff.mp start⟩)
    next => exact List.forall_mem_nil _
  | textEnd =>
    rw [ends]
    split
    next stop => exact List.forall_mem_singleton.mpr (.here ⟨rfl, List.isEmpty_iff.mp stop⟩)
    next => exact List.forall_mem_nil _

theorem run_passes {accepts : Char → Bool} {remembered : Option (Cursor × Nat)} {q : Place} (rest : List Char)
    {passed : List Place} (earlier : q ∈ passed) (offset : Nat) (before : Option Char) :
    q ∈ run accepts remembered passed offset before rest := by
  induction rest generalizing passed offset before with
  | nil => exact List.mem_cons_of_mem _ earlier
  | cons c rest ih =>
    rw [run]
    split
    · exact ih (List.mem_cons_of_mem _ earlier) _ _
    · exact List.mem_cons_of_mem _ earlier

theorem run_reaches_behind {accepts : Char → Bool} {piece : List Char} (accepted : ∀ c ∈ piece, accepts c = true)
    (remembered : Option (Cursor × Nat)) (front later : List Char) (passed : List Place) :
    (⟨.between (front ++ piece) later, remembered⟩ : Place) ∈
      run accepts remembered passed (size front) front.getLast? (piece ++ later) := by
  induction piece generalizing front passed with
  | nil =>
    rw [List.append_nil, List.nil_append]
    cases later with
    | nil => exact List.mem_cons_self
    | cons c later =>
      rw [run]
      split
      · exact run_passes later List.mem_cons_self _ _
      · exact List.mem_cons_self
  | cons c piece ih =>
    obtain ⟨first, others⟩ := List.forall_mem_cons.mp accepted
    have further := ih others (front ++ [c]) (⟨⟨size front, front.getLast?, c :: (piece ++ later)⟩, remembered⟩ :: passed)
    rw [size_append, size_singleton, List.getLast?_append, List.getLast?_singleton, Option.some_or, List.append_assoc,
      List.singleton_append] at further
    rw [List.cons_append, run, if_pos first]
    exact further

theorem exists_end_of_takes {p : Pattern} {front piece later : List Char} (takes : p.Takes front piece later)
    (remembered : Option (Cursor × Nat)) :
    ∃ q ∈ p.ends ⟨.between front (piece ++ later), remembered⟩, q.cursor = .between (front ++ piece) later := by
  induction p generalizing front piece later remembered with
  | exactly chars =>
    obtain rfl := takes
    have stands : piece.isPrefixOf (piece ++ later) = true := List.isPrefixOf_iff_prefix.mpr (List.prefix_append _ _)
    rw [ends]
    split
    next => exact ⟨_, List.mem_singleton_self _, Cursor.advance_between front piece later⟩
    next fails => exact absurd stands fails
  | one accepts =>
    obtain ⟨c, rfl, accepted⟩ := takes
    rw [ends]
    dsimp only [Cursor.between, List.singleton_append]
    split
    next => exact ⟨_, List.mem_singleton_self _, Cursor.advance_between front [c] later⟩
    next fails => exact absurd accepted fails
  | many accepts => exact ⟨_, run_reaches_behind takes remembered front later [], rfl⟩
  | cat first second ihFirst ihSecond =>
    obtain ⟨left, right, rfl, takes, takes'⟩ := takes
    rw [List.append_assoc]
    -- The first part may remember a group. Where the second part ends does not depend on it.
    obtain ⟨⟨cursor, remembered'⟩, reached, place⟩ := ihFirst takes remembered
    dsimp only at place
    subst place
    obtain ⟨q, further, place⟩ := ihSecond takes' remembered'
    exact ⟨q, List.mem_flatMap.mpr ⟨_, reached, further⟩, by rw [place, List.append_assoc]⟩
  | either left right ihLeft ihRight =>
    rcases takes with takes | takes
    · obtain ⟨q, member, place⟩ := ihLeft takes remembered
      exact ⟨q, List.mem_append_left _ member, place⟩
    · obtain ⟨q, member, place⟩ := ihRight takes remembered
      exact ⟨q, List.mem_append_right _ member, place⟩
  | optional inner ih =>
    rcases takes with takes | rfl
    · obtain ⟨q, member, place⟩ := ih takes remembered
      exact ⟨q, List.mem_append_left _ member, place⟩
    · exact ⟨_, List.mem_append_right _ (List.mem_singleton_self _), by rw [List.append_nil]; rfl⟩
  | group inner ih =>
    obtain ⟨q, member, place⟩ := ih takes remembered
    exact ⟨_, List.mem_map_of_mem member, place⟩
  | wordEdge =>
    obtain ⟨rfl, edge⟩ := takes
    rw [List.append_nil, ends]
    dsimp only
    split
    next => exact ⟨_, List.mem_singleton_self _, rfl⟩
    next fails => exact absurd (bne_iff_ne.mpr edge) fails
  | lineStart =>
    obtain ⟨rfl, start⟩ := takes
    rw [List.append_nil, ends]
    split
    next => exact ⟨_, List.mem_singleton_self _, rfl⟩
    next fails => exact absurd (by simpa [Cursor.between, Option.all_eq_true] using start) fails
  | textStart =>
    obtain ⟨rfl, rfl⟩ := takes
    exact ⟨_, List.mem_singleton_self _, rfl⟩
  | textEnd =>
    obtain ⟨rfl, rfl⟩ := takes
    exact ⟨_, List.mem_singleton_self _, by rw [List.append_nil front]; rfl⟩

def Stands (p : Pattern) (front rest : List Char) : Prop := ∃ piece later, rest = piece ++ later ∧ p.Takes front piece later

theorem match_at_stands {p : Pattern} {front rest : List Char} {m : Match}
    (found : p.matchAt (.between front rest) = some m) : m.start = .between front rest ∧ p.Stands front rest := by
  obtain ⟨place, first, rfl⟩ := Option.map_eq_some_iff.mp found
  obtain ⟨piece, later, split, _, takes⟩ := ends_behind p front rest none place (List.mem_of_head? first)
  exact ⟨rfl, piece, later, split, takes⟩

theorem not_stands_of_match_none {p : Pattern} {front rest : List Char}
    (missing : p.matchAt (.between front rest) = none) : ¬ p.Stands front rest := by
  rintro ⟨piece, later, rfl, takes⟩
  obtain ⟨q, member, _⟩ := exists_end_of_takes takes none
  rw [matchAt, Option.map_eq_none_iff, List.head?_eq_none_iff] at missing
  rw [missing] at member
  exact List.not_mem_nil member

-- The outcome of a search in the rest of a text: a match at the leftmost place where the pattern stands, or
-- none if it stands nowhere.
def Leftmost (p : Pattern) (front rest : List Char) : Option Match → Prop
  | none => ∀ mid later, rest = mid ++ later → ¬ p.Stands (front ++ mid) later
  | some m => ∃ mid later, rest = mid ++ later ∧ m.start = .between (front ++ mid) later ∧ p.Stands (front ++ mid) later ∧
      ∀ mid' later', rest = mid' ++ later' → p.Stands (front ++ mid') later' → mid.length ≤ mid'.length

theorem Leftmost.here {p : Pattern} {front rest : List Char} {m : Match}
    (found : p.matchAt (.between front rest) = some m) : p.Leftmost front rest (some m) := by
  have stands := match_at_stands found
  rw [← List.append_nil front] at stands
  exact ⟨[], rest, rfl, stands.1, stands.2, fun _ _ _ _ => Nat.zero_le _⟩

theorem Leftmost.further {p : Pattern} {front rest : List Char} {c : Char} {outcome : Option Match}
    (missing : ¬ p.Stands front (c :: rest)) (further : p.Leftmost (front ++ [c]) rest outcome) :
    p.Leftmost front (c :: rest) outcome := by
  -- Any place where the pattern stands is one of those behind the first character.
  have passed : ∀ mid later, c :: rest = mid ++ later → p.Stands (front ++ mid) later →
      ∃ mid', mid = c :: mid' ∧ rest = mid' ++ later := by
    intro mid later split stands
    cases mid with
    | nil =>
      rw [List.append_nil] at stands
      exact absurd (split ▸ stands) missing
    | cons d mid' =>
      obtain ⟨rfl, rfl⟩ := List.cons.inj split
      exact ⟨mid', rfl, rfl⟩
  cases outcome with
  | none =>
    intro mid later split stands
    obtain ⟨mid', rfl, split'⟩ := passed mid later split stands
    rw [List.append_cons] at stands
    exact further mid' later split' stands
  | some m =>
    obtain ⟨mid, later, rfl, start, stands, least⟩ := further
    rw [← List.append_cons] at start stands
    refine ⟨c :: mid, later, rfl, start, stands, fun mid' later' split stands' => ?_⟩
    obtain ⟨mid'', rfl, split'⟩ := passed mid' later' split stands'
    rw [List.append_cons] at stands'
    exact Nat.succ_le_succ (least mid'' later' split' stands')

theorem find_from_leftmost (p : Pattern) (front rest : List Char) :
    p.Leftmost front rest (p.findFrom (size front) front.getLast? rest) := by
  induction rest generalizing front with
  | nil =>
    rw [findFrom]
    cases found : p.matchAt ⟨size front, front.getLast?, []⟩ with
    | none =>
      intro mid later split
      obtain ⟨rfl, rfl⟩ := List.nil_eq_append_iff.mp split
      rw [List.append_nil]
      exact not_stands_of_match_none found
    | some m => exact .here found
  | cons c rest ih =>
    rw [findFrom]
    cases found : p.matchAt ⟨size front, front.getLast?, c :: rest⟩ with
    | some m => exact .here found
    | none =>
      have further := ih (front ++ [c])
      rw [size_append, size_singleton, List.getLast?_append, List.getLast?_singleton, Option.some_or] at further
      exact .further (not_stands_of_match_none found) further

theorem find_leftmost (p : Pattern) (s : List Char) : p.Leftmost [] s (p.find? s) := find_from_leftmost p [] s

theorem matches_in_iff (p : Pattern) (s : List Char) :
    p.matchesIn s = true ↔ ∃ front rest, s = front ++ rest ∧ p.Stands front rest := by
  have leftmost := find_leftmost p s
  unfold matchesIn
  cases found : p.find? s with
  | none =>
    rw [found] at leftmost
    exact ⟨fun none => absurd none Bool.false_ne_true, fun ⟨front, rest, split, stands⟩ =>
      absurd stands (leftmost front rest split)⟩
  | some m =>
    rw [found] at leftmost
    obtain ⟨mid, later, split, _, stands, _⟩ := leftmost
    exact ⟨fun _ => ⟨mid, later, split, stands⟩, fun _ => rfl⟩

theorem takes_many1 {accepts : Char → Bool} {front piece later : List Char} :
    (many1 accepts).Takes front piece later ↔ piece ≠ [] ∧ ∀ c ∈ piece, accepts c = true := by
  constructor
  · rintro ⟨_, others, rfl, ⟨c, rfl, first⟩, rest⟩
    exact ⟨List.cons_ne_nil _ _, List.forall_mem_cons.mpr ⟨first, rest⟩⟩
  · rintro ⟨nonempty, accepted⟩
    obtain ⟨c, others, rfl⟩ := List.exists_cons_of_ne_nil nonempty
    obtain ⟨first, rest⟩ := List.forall_mem_cons.mp accepted
    exact ⟨[c], others, rfl, ⟨c, rfl, first⟩, rest⟩

end SnippetReview.Pattern
