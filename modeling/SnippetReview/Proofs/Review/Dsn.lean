import SnippetReview.Proofs.Pattern.Taking
import SnippetReview.Proofs.Text.LowerCase
import SnippetReview.Review.Rule

set_option autoImplicit false

namespace SnippetReview.Dsn

open Text

def mark : List Char := "://".toList

def IsScheme (scheme : List Char) : Prop :=
  ∃ first others, scheme = first :: others ∧ ('a' ≤ first ∧ first ≤ 'z') ∧
    ∀ c ∈ others, ('a' ≤ c ∧ c ≤ 'z') ∨ c.isDigit = true ∨ c ∈ ['+', '.', '-']

-- What follows the mark: a public key, a host, a path that may be empty, a project number and perhaps a
-- slash.
structure Parts where
  key : List Char
  host : List Char
  path : List Char
  project : List Char
  closing : List Char

namespace Parts

def text (parts : Parts) : List Char :=
  parts.key ++ ['@'] ++ parts.host ++ ['/'] ++ parts.path ++ parts.project ++ parts.closing

structure WellFormed (parts : Parts) : Prop where
  key : parts.key ≠ [] ∧ ∀ c ∈ parts.key, c ≠ '@' ∧ c ≠ '/' ∧ isBlank c = false
  host : parts.host ≠ [] ∧ ∀ c ∈ parts.host, c ≠ '/' ∧ isBlank c = false
  path : parts.path = [] ∨ ∃ inner, parts.path = inner ++ ['/'] ∧ ∀ c ∈ inner, isBlank c = false
  project : parts.project ≠ [] ∧ ∀ c ∈ parts.project, isDecimalDigit c = true
  closing : parts.closing = [] ∨ parts.closing = ['/']

end Parts

def Shaped (scheme dsn : List Char) : Prop := ∃ parts : Parts, parts.WellFormed ∧ dsn = scheme ++ mark ++ parts.text

structure BeforeMark (scheme dsn : List Char) : Prop where
  split : ∃ later, dsn = scheme ++ mark ++ later
  first : ∀ front later, dsn = front ++ mark ++ later → scheme.length ≤ front.length

variable {scheme dsn : List Char}

theorem shaped_of_takes {front piece later : List Char} (takes : Rule.dsnShape.Takes front piece later) :
    front = [] ∧ later = [] ∧ ∃ scheme, IsScheme scheme ∧ Shaped scheme piece := by
  -- The parts come off the pattern from its end.
  obtain ⟨_, _, rfl, ⟨_, closing, rfl, ⟨_, project, rfl, ⟨_, path, rfl, upToHost, pathed⟩, numbered⟩, closed⟩, rfl, rfl⟩ :=
    takes
  obtain ⟨_, _, rfl, ⟨_, host, rfl, ⟨_, _, rfl, ⟨_, key, rfl, upToMark, keyed⟩, rfl⟩, hosted⟩, rfl⟩ := upToHost
  obtain ⟨_, _, rfl, ⟨_, others, rfl, ⟨_, _, rfl, ⟨rfl, rfl⟩, first, rfl, start⟩, chars⟩, rfl⟩ := upToMark
  have numbered := Pattern.takes_many1.mp numbered
  have hosted := Pattern.takes_many1.mp hosted
  have keyed := Pattern.takes_many1.mp keyed
  refine ⟨rfl, rfl, first :: others, ⟨first, others, rfl, ?start, ?chars⟩,
    ⟨key, host, path, project, closing⟩, ⟨⟨keyed.1, ?key⟩, ⟨hosted.1, ?host⟩, ?path, numbered, closed.symm⟩, ?text⟩
  case start => simpa using start
  case chars => simpa [Pattern.Takes, or_assoc] using chars
  case key => simpa [and_assoc] using keyed.2
  case host => simpa using hosted.2
  case path =>
    rcases pathed with ⟨inner, _, rfl, inked, rfl⟩ | none
    · exact .inr ⟨inner, rfl, by simpa [Pattern.Takes] using inked⟩
    · exact .inl none
  case text => simp [Parts.text, mark, List.append_assoc]

theorem takes_of_shaped (plain : IsScheme scheme) (shaped : Shaped scheme dsn) : Rule.dsnShape.Takes [] dsn [] := by
  obtain ⟨first, others, rfl, start, chars⟩ := plain
  obtain ⟨parts, formed, rfl⟩ := shaped
  have text : first :: others ++ mark ++ parts.text =
      [] ++ [first] ++ others ++ mark ++ parts.key ++ ['@'] ++ parts.host ++ ['/'] ++ parts.path ++ parts.project ++
        parts.closing ++ [] := by
    simp [Parts.text, List.append_assoc]
  rw [text]
  refine ⟨_, [], rfl, ⟨_, _, rfl, ⟨_, _, rfl, ⟨_, _, rfl, ⟨_, _, rfl, ⟨_, _, rfl, ⟨_, _, rfl, ⟨_, _, rfl, ⟨_, _, rfl,
    ⟨_, _, rfl, ⟨_, _, rfl, ⟨rfl, rfl⟩, first, rfl, ?start⟩, ?chars⟩, rfl⟩, ?key⟩, rfl⟩, ?host⟩, rfl⟩, ?path⟩, ?project⟩,
    formed.closing.symm⟩, rfl, rfl⟩
  case start => simpa using start
  case chars => simpa [Pattern.Takes, or_assoc] using chars
  case key => exact Pattern.takes_many1.mpr ⟨formed.key.1, by simpa [and_assoc] using formed.key.2⟩
  case host => exact Pattern.takes_many1.mpr ⟨formed.host.1, by simpa using formed.host.2⟩
  case path =>
    rcases formed.path with none | ⟨inner, same, inked⟩
    · exact .inr none
    · exact .inl ⟨inner, _, same, by simpa [Pattern.Takes] using inked, rfl⟩
  case project => exact Pattern.takes_many1.mpr formed.project

theorem shape_matches_iff (dsn : List Char) :
    Rule.dsnShape.matchesIn dsn = true ↔ ∃ scheme, IsScheme scheme ∧ Shaped scheme dsn := by
  rw [Pattern.matches_in_iff]
  constructor
  · rintro ⟨front, rest, rfl, piece, later, rfl, takes⟩
    obtain ⟨rfl, rfl, shaped⟩ := shaped_of_takes takes
    rw [List.nil_append, List.append_nil]
    exact shaped
  · rintro ⟨scheme, plain, shaped⟩
    exact ⟨[], dsn, rfl, dsn, [], (List.append_nil dsn).symm, takes_of_shaped plain shaped⟩

theorem colon_not_in_scheme (plain : IsScheme scheme) : ':' ∉ scheme := by
  obtain ⟨first, others, rfl, start, chars⟩ := plain
  intro colon
  rcases List.mem_cons.mp colon with rfl | later
  · exact absurd start (by decide)
  · exact absurd (chars ':' later) (by decide)

theorem BeforeMark.unique {other : List Char} (here : BeforeMark scheme dsn) (there : BeforeMark other dsn) :
    scheme = other := by
  obtain ⟨later, split⟩ := here.split
  obtain ⟨later', split'⟩ := there.split
  have length : scheme.length = other.length :=
    Nat.le_antisymm (here.first other later' split') (there.first scheme later split)
  rw [split, List.append_assoc, List.append_assoc] at split'
  exact List.append_inj_left split' length

theorem before_mark_of_plain {later : List Char} (plain : ':' ∉ scheme) : BeforeMark scheme (scheme ++ mark ++ later) := by
  refine ⟨⟨later, rfl⟩, fun front later' split => ?_⟩
  rw [List.append_assoc, List.append_assoc] at split
  rcases List.append_eq_append_iff.mp split with ⟨more, rfl, _⟩ | ⟨more, rfl, inside⟩
  · -- The other mark stands behind the scheme, or at its end.
    rw [List.length_append]
    exact Nat.le_add_right _ _
  · cases more with
    | nil => exact Nat.le_of_eq (by rw [List.append_nil])
    | cons c more =>
      -- A mark that begins inside the scheme puts a colon there.
      obtain ⟨rfl, _⟩ := List.cons.inj inside
      exact absurd (List.mem_append_right _ List.mem_cons_self) plain

theorem scheme_eq_some_iff : Rule.scheme? dsn = some scheme ↔ BeforeMark scheme dsn := by
  have leftmost := Pattern.find_leftmost (.lit "://") dsn
  unfold Rule.scheme?
  cases found : (Pattern.lit "://").find? dsn with
  | none =>
    rw [found] at leftmost
    refine ⟨fun none => by contradiction, fun first => ?_⟩
    obtain ⟨later, split⟩ := first.split
    rw [List.append_assoc] at split
    exact absurd ⟨mark, later, rfl, rfl⟩ (leftmost scheme (mark ++ later) split)
  | some m =>
    rw [found] at leftmost
    obtain ⟨front, _, rfl, start, ⟨_, later, rfl, rfl⟩, least⟩ := leftmost
    have here : BeforeMark front (front ++ ("://".toList ++ later)) := by
      refine ⟨⟨later, (List.append_assoc _ _ _).symm⟩, fun front' later' split => ?_⟩
      rw [List.append_assoc front'] at split
      exact least front' (mark ++ later') split ⟨mark, later', rfl, rfl⟩
    have taken : takeBytes m.start.offset (front ++ ("://".toList ++ later)) = front := by
      rw [start]
      exact take_bytes_append front _
    rw [Option.map_some, taken, Option.some.injEq]
    exact ⟨fun same => same ▸ here, here.unique⟩

theorem sign_of_to_lower {c sign : Char} (marked : sign ∈ mark) (same : c.toLower = sign) : c = sign := by
  by_cases ascii : c.toNat < 128
  · exact of_ascii (p := fun c => ∀ sign ∈ mark, c.toLower = sign → c = sign) (by decide) ascii sign marked same
  · rwa [to_lower_high ascii] at same

theorem mark_of_to_lower {s : List Char} (same : s.map Char.toLower = mark) : s = mark := by
  obtain ⟨c, s, rfl, colon, same⟩ := List.map_eq_cons_iff.mp same
  obtain ⟨d, s, rfl, slash, same⟩ := List.map_eq_cons_iff.mp same
  obtain ⟨e, s, rfl, slash', same⟩ := List.map_eq_cons_iff.mp same
  rw [sign_of_to_lower (by decide) colon, sign_of_to_lower (by decide) slash, sign_of_to_lower (by decide) slash',
    List.map_eq_nil_iff.mp same]
  rfl

theorem before_mark_of_shaped (plain : IsScheme scheme) (shaped : Shaped scheme (dsn.map Char.toLower)) :
    ∃ written, BeforeMark written dsn ∧ written.map Char.toLower = scheme := by
  obtain ⟨parts, _, split⟩ := shaped
  -- Lower case keeps places, and only a mark becomes a mark.
  obtain ⟨front, later, rfl, lowered, _⟩ := List.map_eq_append_iff.mp split
  obtain ⟨written, sign, rfl, rfl, marked⟩ := List.map_eq_append_iff.mp lowered
  have none : ':' ∉ written := fun colon =>
    colon_not_in_scheme plain (List.mem_map.mpr ⟨':', colon, by decide⟩)
  rw [mark_of_to_lower marked]
  exact ⟨written, before_mark_of_plain none, rfl⟩

theorem mem_check_iff {cause : Cause} :
    cause ∈ Rule.checkDsn dsn ↔
      (dsn = [] ∧ cause = .dsnEmpty) ∨
      (dsn ≠ [] ∧ ∃ scheme, BeforeMark scheme dsn ∧ scheme.map Char.toLower ≠ "https".toList ∧
        cause = .dsnInsecure (String.ofList scheme)) ∨
      (dsn ≠ [] ∧ (¬ ∃ scheme, IsScheme scheme ∧ Shaped scheme (dsn.map Char.toLower)) ∧ cause = .dsnFormat) := by
  by_cases empty : dsn = []
  · rw [empty]
    simp [Rule.checkDsn]
  have filled : dsn.isEmpty = false := Bool.eq_false_iff.mpr fun none => empty (List.isEmpty_iff.mp none)
  simp only [Rule.checkDsn, filled, Bool.false_eq_true, if_false, List.mem_append, empty, ne_eq, not_false_eq_true, true_and,
    false_and, false_or]
  refine or_congr ?insecure ?format
  case insecure =>
    cases found : Rule.scheme? dsn with
    | none =>
      have nowhere : ∀ scheme, ¬ BeforeMark scheme dsn := by
        intro scheme first
        rw [scheme_eq_some_iff.mpr first] at found
        contradiction
      simp [nowhere]
    | some scheme =>
      -- There is one text before the first mark, and the check looks at that one.
      have here := scheme_eq_some_iff.mp found
      dsimp only
      split
      next secure =>
        refine ⟨fun member => absurd member List.not_mem_nil, ?_⟩
        rintro ⟨other, first, insecure, _⟩
        rw [← here.unique first] at insecure
        exact absurd (beq_iff_eq.mp secure) insecure
      next insecure =>
        refine ⟨fun member => ⟨scheme, here, fun same => insecure (beq_iff_eq.mpr same), List.mem_singleton.mp member⟩, ?_⟩
        rintro ⟨other, first, _, rfl⟩
        rw [here.unique first]
        exact List.mem_singleton_self _
  case format =>
    rw [← shape_matches_iff]
    split
    next shaped => simp [shaped]
    next shapeless => simp [shapeless]

theorem check_eq {setting : Setting} {entry : Entry} {text : String} (key : entry.key = "dsn")
    (value : setting.value = .string text) :
    Rule.dsn.check setting entry = (Rule.checkDsn (trim text.toList)).map fun cause => ⟨cause, some setting.key⟩ := by
  simp [Rule.check, Rule.causes, key, value, Value.asString?]

theorem is_scheme_https : IsScheme "https".toList := ⟨'h', "ttps".toList, rfl, by decide, by decide⟩

theorem check_eq_nil_iff : Rule.checkDsn dsn = [] ↔ Shaped "https".toList (dsn.map Char.toLower) := by
  rw [List.eq_nil_iff_forall_not_mem]
  simp only [mem_check_iff]
  constructor
  · intro silent
    have filled : dsn ≠ [] := fun none => silent _ (.inl ⟨none, rfl⟩)
    by_cases formed : ∃ scheme, IsScheme scheme ∧ Shaped scheme (dsn.map Char.toLower)
    · -- The scheme of the shape is the text before the first mark, so that the other check has seen it.
      obtain ⟨scheme, plain, shaped⟩ := formed
      obtain ⟨written, first, rfl⟩ := before_mark_of_shaped plain shaped
      by_cases secure : written.map Char.toLower = "https".toList
      · exact secure ▸ shaped
      · exact absurd (.inr (.inl ⟨filled, written, first, secure, rfl⟩)) (silent _)
    · exact absurd (.inr (.inr ⟨filled, formed, rfl⟩)) (silent _)
  · intro shaped cause found
    obtain ⟨written, first, secure⟩ := before_mark_of_shaped is_scheme_https shaped
    rcases found with ⟨rfl, _⟩ | ⟨_, scheme, first', insecure, _⟩ | ⟨_, shapeless, _⟩
    · obtain ⟨later, split⟩ := first.split
      rw [eq_comm, List.append_eq_nil_iff, List.append_eq_nil_iff] at split
      exact absurd split.1.2 (by decide)
    · exact insecure (first'.unique first ▸ secure)
    · exact shapeless ⟨_, is_scheme_https, shaped⟩

/-- What a review says of a DSN. It is silent exactly about one of the secure form. -/
theorem dsn_check_iff {setting : Setting} {entry : Entry} {text : String} (key : entry.key = "dsn")
    (value : setting.value = .string text) :
    let dsn := trim text.toList
    (Rule.dsn.check setting entry = [] ↔ Shaped "https".toList (dsn.map Char.toLower)) ∧
    ((∃ f ∈ Rule.dsn.check setting entry, f.code = "dsn-insecure") ↔
      dsn ≠ [] ∧ ∃ scheme, BeforeMark scheme dsn ∧ scheme.map Char.toLower ≠ "https".toList) ∧
    ((∃ f ∈ Rule.dsn.check setting entry, f.code = "dsn-format") ↔
      dsn = [] ∨ ¬ ∃ scheme, IsScheme scheme ∧ Shaped scheme (dsn.map Char.toLower)) := by
  rw [check_eq key value]
  refine ⟨?silent, ?insecure, ?format⟩
  case silent => rw [List.map_eq_nil_iff, check_eq_nil_iff]
  case insecure =>
    constructor
    · rintro ⟨f, member, code⟩
      obtain ⟨cause, found, rfl⟩ := List.mem_map.mp member
      rcases mem_check_iff.mp found with ⟨_, rfl⟩ | ⟨filled, scheme, first, insecure, _⟩ | ⟨_, _, rfl⟩
      · exact absurd (show "dsn-format" = "dsn-insecure" from code) (by decide)
      · exact ⟨filled, scheme, first, insecure⟩
      · exact absurd (show "dsn-format" = "dsn-insecure" from code) (by decide)
    · rintro ⟨filled, scheme, first, insecure⟩
      have found := mem_check_iff.mpr (.inr (.inl ⟨filled, scheme, first, insecure, rfl⟩))
      exact ⟨_, List.mem_map_of_mem found, rfl⟩
  case format =>
    constructor
    · rintro ⟨f, member, code⟩
      obtain ⟨cause, found, rfl⟩ := List.mem_map.mp member
      rcases mem_check_iff.mp found with ⟨empty, _⟩ | ⟨_, _, _, _, rfl⟩ | ⟨_, shapeless, _⟩
      · exact .inl empty
      · exact absurd (show "dsn-insecure" = "dsn-format" from code) (by decide)
      · exact .inr shapeless
    · intro spoilt
      by_cases empty : trim text.toList = []
      · exact ⟨_, List.mem_map_of_mem (mem_check_iff.mpr (.inl ⟨empty, rfl⟩)), rfl⟩
      · have found := mem_check_iff.mpr (.inr (.inr ⟨empty, spoilt.resolve_left empty, rfl⟩))
        exact ⟨_, List.mem_map_of_mem found, rfl⟩

theorem dsn_check_iff_https :
    let text := " HTTPS://Key@o1.Ingest.io/sub/42/ "
    let setting : Setting := { key := "dsn", value := .string text, raw := text, type := .string, line := 1 }
    let entry : Entry := { key := "dsn", displayName := "DSN", category := .core, type := .string, description := "" }
    entry.key = "dsn" ∧ setting.value = .string text ∧ Rule.dsn.check setting entry = [] :=
  ⟨rfl, rfl, (dsn_check_iff rfl rfl).1.mpr
    ⟨{ key := "key".toList, host := "o1.ingest.io".toList, path := "sub/".toList, project := "42".toList, closing := ['/'] },
      ⟨by decide, by decide, .inr ⟨"sub".toList, by decide⟩, by decide, .inr rfl⟩, by decide +kernel⟩⟩

end SnippetReview.Dsn
