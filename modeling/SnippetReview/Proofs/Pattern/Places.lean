import SnippetReview.Pattern
import SnippetReview.Proofs.Text.Size

set_option autoImplicit false

namespace SnippetReview

open Text

namespace Text.Cursor

def In (text : List Char) (cursor : Cursor) : Prop := ∃ pre, text = pre ++ cursor.rest ∧ cursor.offset = Text.size pre

variable {text : List Char}

theorem in_start (text : List Char) : (start text).In text := ⟨[], rfl, rfl⟩

theorem In.next {offset : Nat} {before : Option Char} {c : Char} {rest : List Char}
    (here : In text ⟨offset, before, c :: rest⟩) : In text ⟨offset + c.utf8Size, some c, rest⟩ := by
  obtain ⟨pre, split, place⟩ := here
  refine ⟨pre ++ [c], by rw [split, List.append_assoc]; rfl, ?_⟩
  rw [size_append, size_singleton, ← place]

theorem In.advance {cursor : Cursor} (here : cursor.In text) (n : Nat) : (cursor.advance n).In text := by
  induction n generalizing cursor with
  | zero => exact here
  | succ n ih =>
    obtain ⟨offset, before, rest⟩ := cursor
    cases rest with
    | nil => exact here
    | cons c rest => exact ih here.next

def between (front rest : List Char) : Cursor := ⟨Text.size front, front.getLast?, rest⟩

theorem next_between (front : List Char) (c : Char) (rest : List Char) :
    (⟨Text.size front + c.utf8Size, some c, rest⟩ : Cursor) = between (front ++ [c]) rest := by
  simp [between, size_append]

theorem advance_between (front mid later : List Char) :
    (between front (mid ++ later)).advance mid.length = between (front ++ mid) later := by
  induction mid generalizing front with
  | nil => rw [List.append_nil]; rfl
  | cons c mid ih =>
    have next := ih (front ++ [c])
    rw [← next_between, List.append_assoc, List.singleton_append] at next
    exact next

theorem mid_of_between {front mid mid' later later' : List Char} (split : mid ++ later = mid' ++ later')
    (same : between (front ++ mid) later = between (front ++ mid') later') : mid = mid' := by
  have rest : later = later' := congrArg Cursor.rest same
  rw [rest] at split
  exact List.append_cancel_right split

theorem in_between (front rest : List Char) : (between front rest).In (front ++ rest) := ⟨front, rfl, rfl⟩

end Text.Cursor

namespace Pattern

variable {text : List Char}

theorem run_in {accepts : Char → Bool} {remembered : Option (Cursor × Nat)} (rest : List Char) {passed : List Place}
    {offset : Nat} {before : Option Char} (here : Cursor.In text ⟨offset, before, rest⟩)
    (earlier : ∀ q ∈ passed, q.cursor.In text) :
    ∀ q ∈ run accepts remembered passed offset before rest, q.cursor.In text := by
  induction rest generalizing passed offset before with
  | nil => exact List.forall_mem_cons.mpr ⟨here, earlier⟩
  | cons c rest ih =>
    have passed' : ∀ q ∈ (⟨⟨offset, before, c :: rest⟩, remembered⟩ : Place) :: passed, q.cursor.In text :=
      List.forall_mem_cons.mpr ⟨here, earlier⟩
    rw [run]
    split
    · exact ih here.next passed'
    · exact passed'

theorem ends_in (p : Pattern) {place : Place} (here : place.cursor.In text) :
    ∀ q ∈ p.ends place, q.cursor.In text := by
  induction p generalizing place with
  | exactly chars =>
    rw [ends]
    split
    · exact List.forall_mem_singleton.mpr (here.advance chars.length)
    · exact List.forall_mem_nil _
  | one accepts =>
    rw [ends]
    split
    · split
      · exact List.forall_mem_singleton.mpr (here.advance 1)
      · exact List.forall_mem_nil _
    · exact List.forall_mem_nil _
  | many accepts => exact run_in place.cursor.rest here (List.forall_mem_nil _)
  | cat first second ihFirst ihSecond =>
    intro q member
    obtain ⟨r, reached, further⟩ := List.mem_flatMap.mp member
    exact ihSecond (ihFirst here r reached) q further
  | either left right ihLeft ihRight => exact List.forall_mem_append.mpr ⟨ihLeft here, ihRight here⟩
  | optional inner ih => exact List.forall_mem_append.mpr ⟨ih here, List.forall_mem_singleton.mpr here⟩
  | group inner ih =>
    intro q member
    obtain ⟨r, reached, rfl⟩ := List.mem_map.mp member
    exact ih here r reached
  | wordEdge | lineStart | textStart | textEnd =>
    rw [ends]
    split
    · exact List.forall_mem_singleton.mpr here
    · exact List.forall_mem_nil _

def Match.In (text : List Char) (m : Match) : Prop := m.start.In text ∧ m.stop.In text

theorem match_at_in {p : Pattern} {cursor : Cursor} (here : cursor.In text) {m : Match} (found : p.matchAt cursor = some m) :
    m.In text := by
  obtain ⟨place, first, rfl⟩ := Option.map_eq_some_iff.mp found
  exact ⟨here, ends_in p here place (List.mem_of_head? first)⟩

theorem find_from_in {p : Pattern} (rest : List Char) {offset : Nat} {before : Option Char}
    (here : Cursor.In text ⟨offset, before, rest⟩) {m : Match} (found : p.findFrom offset before rest = some m) :
    m.In text := by
  induction rest generalizing offset before with
  | nil => exact match_at_in here found
  | cons c rest ih =>
    rw [findFrom] at found
    split at found
    next first => exact Option.some.inj found ▸ match_at_in here first
    next => exact ih here.next found

theorem find_in {p : Pattern} {m : Match} (found : p.find? text = some m) : m.In text :=
  find_from_in text (Cursor.in_start text) found

section

variable {p : Pattern} (holds : Match → Prop)
  (matched : ∀ front rest m, text = front ++ rest → p.matchAt (.between front rest) = some m → holds m)

include matched

theorem collect_keeps (rest : List Char) {front : List Char} (split : text = front ++ rest) {found : List Match}
    {resume : Nat} (earlier : ∀ m ∈ found, holds m) :
    ∀ m ∈ p.collect found resume (size front) front.getLast? rest, holds m := by
  have here : ∀ {rest front : List Char} {resume : Nat} {m : Match}, text = front ++ rest →
      (if resume ≤ size front then p.matchAt (.between front rest) else none) = some m → holds m := by
    intro rest front resume m split found
    split at found
    · exact matched front rest m ‹_› found
    · contradiction
  induction rest generalizing front found resume with
  | nil =>
    rw [collect]
    split
    next m first =>
      intro m member
      exact List.forall_mem_cons.mpr ⟨here split first, earlier⟩ m (List.mem_reverse.mp member)
    next => exact fun m member => earlier m (List.mem_reverse.mp member)
  | cons c rest ih =>
    -- What is found so far stays as it is, whether the search resumes here or not.
    have step : ∀ {found resume}, (∀ m ∈ found, holds m) →
        ∀ m ∈ p.collect found resume (size front + c.utf8Size) (some c) rest, holds m := by
      intro found resume earlier
      have further := @ih (front ++ [c]) (by rw [split, List.append_assoc]; rfl) found resume earlier
      rw [size_append, size_singleton, List.getLast?_append, List.getLast?_singleton, Option.some_or] at further
      exact further
    rw [collect]
    split
    next m first => exact step (List.forall_mem_cons.mpr ⟨here split first, earlier⟩)
    next => exact step earlier

theorem all_keeps {m : Match} (member : m ∈ p.all text) : holds m :=
  collect_keeps holds matched text (List.nil_append text).symm (List.forall_mem_nil _) m member

end

theorem all_in {p : Pattern} {m : Match} (member : m ∈ p.all text) : m.In text := by
  refine all_keeps (Match.In text) ?_ member
  intro front rest m split found
  exact split ▸ match_at_in (Cursor.in_between front rest) found

def remembers : Pattern → Bool
  | cat first second => first.remembers || second.remembers
  | either left right => left.remembers || right.remembers
  | optional inner => inner.remembers
  | group _ => true
  | exactly _ | one _ | many _ | wordEdge | lineStart | textStart | textEnd => false

theorem run_forgets {accepts : Char → Bool} {remembered : Option (Cursor × Nat)} (rest : List Char)
    {passed : List Place} {offset : Nat} {before : Option Char} (earlier : ∀ q ∈ passed, q.remembered = remembered) :
    ∀ q ∈ run accepts remembered passed offset before rest, q.remembered = remembered := by
  induction rest generalizing passed offset before with
  | nil => exact List.forall_mem_cons.mpr ⟨rfl, earlier⟩
  | cons c rest ih =>
    rw [run]
    split
    · exact ih (List.forall_mem_cons.mpr ⟨rfl, earlier⟩)
    · exact List.forall_mem_cons.mpr ⟨rfl, earlier⟩

theorem ends_forget {p : Pattern} (forgets : p.remembers = false) {place : Place} :
    ∀ q ∈ p.ends place, q.remembered = place.remembered := by
  induction p generalizing place with
  | exactly chars =>
    rw [ends]
    split
    · exact List.forall_mem_singleton.mpr rfl
    · exact List.forall_mem_nil _
  | one accepts =>
    rw [ends]
    split
    · split
      · exact List.forall_mem_singleton.mpr rfl
      · exact List.forall_mem_nil _
    · exact List.forall_mem_nil _
  | many accepts => exact run_forgets place.cursor.rest (List.forall_mem_nil _)
  | cat first second ihFirst ihSecond =>
    rw [remembers, Bool.or_eq_false_iff] at forgets
    intro q member
    obtain ⟨r, reached, further⟩ := List.mem_flatMap.mp member
    exact (ihSecond forgets.2 q further).trans (ihFirst forgets.1 r reached)
  | either left right ihLeft ihRight =>
    rw [remembers, Bool.or_eq_false_iff] at forgets
    exact List.forall_mem_append.mpr ⟨ihLeft forgets.1, ihRight forgets.2⟩
  | optional inner ih => exact List.forall_mem_append.mpr ⟨ih forgets, List.forall_mem_singleton.mpr rfl⟩
  | group inner _ => contradiction
  | wordEdge | lineStart | textStart | textEnd =>
    rw [ends]
    split
    · exact List.forall_mem_singleton.mpr rfl
    · exact List.forall_mem_nil _

theorem remembers_of_group {p : Pattern} {m : Match} (member : m ∈ p.all text) {chars : List Char}
    (grouped : m.group = some chars) : p.remembers = true := by
  cases forgets : p.remembers with
  | true => rfl
  | false =>
    have none : m.group = none := by
      refine all_keeps (fun m => m.group = none) (fun front rest m _ found => ?_) member
      obtain ⟨place, first, rfl⟩ := Option.map_eq_some_iff.mp found
      simp [ends_forget forgets place (List.mem_of_head? first)]
    rw [none] at grouped
    contradiction

end Pattern

end SnippetReview
