import Mathlib.Data.List.Basic
import SnippetReview.Configuration
import SnippetReview.Proofs.Text.Trimming

/- The two readers of the environment. The strict one accepts exactly what the variables spell, in range. The
   lenient one does not trim: it gives the same configuration unless a variable with outer blanks spells other
   than its default. -/

set_option autoImplicit false

namespace SnippetReview.Configuration

open Text

def SpellsBoolean (s : String) (value : Bool) : Prop := s = toString value

def unsigned : List Char → List Char
  | '+' :: digits => digits
  | digits => digits

structure SpellsNumber (s : String) (n : Nat) : Prop where
  nonempty : unsigned s.toList ≠ []
  digits : ∀ c ∈ unsigned s.toList, c.isDigit = true
  value : Nat.ofDigitChars 10 (unsigned s.toList) 0 = n
  fits : n < wordLimit

theorem le_of_digit_chars (n : Nat) (s : List Char) : n ≤ Nat.ofDigitChars 10 s n := by
  induction s generalizing n with
  | nil => exact Nat.le_refl n
  | cons c rest ih =>
    rw [Nat.ofDigitChars_cons]
    exact Nat.le_trans (by omega) (ih (10 * n + (c.toNat - '0'.toNat)))

theorem read_digits_iff {n m : Nat} {s : List Char} (fits : n < wordLimit) :
    readDigits n s = .ok m ↔ (∀ c ∈ s, c.isDigit = true) ∧ Nat.ofDigitChars 10 s n = m ∧ m < wordLimit := by
  induction s generalizing n with
  | nil =>
    rw [readDigits, Nat.ofDigitChars_nil, Except.ok.injEq]
    constructor
    · rintro rfl
      exact ⟨List.forall_mem_nil _, rfl, fits⟩
    · exact fun same => same.2.1
  | cons c rest ih =>
    rw [readDigits, List.forall_mem_cons, Nat.ofDigitChars_cons]
    by_cases digit : c.isDigit = true
    · rw [digit, Bool.not_true, if_neg Bool.false_ne_true]
      by_cases wide : wordLimit ≤ 10 * n + (c.toNat - 48)
      · -- Whatever digits follow, the number only grows.
        rw [if_pos wide]
        have grows := le_of_digit_chars (10 * n + (c.toNat - 48)) rest
        refine ⟨fun read => by contradiction, fun ⟨_, value, word⟩ => ?_⟩
        change Nat.ofDigitChars 10 rest (10 * n + (c.toNat - 48)) = m at value
        omega
      · rw [if_neg wide, ih (Nat.lt_of_not_le wide)]
        simp only [true_and]
        rfl
    · rw [Bool.eq_false_iff.mpr digit]
      simp

theorem read_number_iff (s : String) (n : Nat) : readNumber s = .ok n ↔ SpellsNumber s n := by
  have read : readNumber s = .ok n ↔ unsigned s.toList ≠ [] ∧ readDigits 0 (unsigned s.toList) = .ok n := by
    unfold readNumber
    cases s.toList with
    | nil => simp [unsigned]
    | cons c rest =>
      by_cases plus : c = '+'
      · rw [plus]
        cases rest with
        | nil => simp [unsigned]
        | cons d rest => simp [unsigned]
      · have bare : unsigned (c :: rest) = c :: rest := by simp [unsigned, plus]
        simp [bare, plus]
  rw [read, read_digits_iff (show 0 < wordLimit by decide)]
  exact ⟨fun ⟨nonempty, digits, value, fits⟩ => ⟨nonempty, digits, value, fits⟩,
    fun spells => ⟨spells.nonempty, spells.digits, spells.value, spells.fits⟩⟩

theorem read_boolean_iff (s : String) (value : Bool) : readBoolean s = .ok value ↔ SpellsBoolean s value := by
  unfold readBoolean SpellsBoolean
  by_cases yes : s = "true"
  · cases value <;> simp [yes, toString]
  · by_cases no : s = "false"
    · cases value <;> simp [no, toString]
    · cases value <;> simp [yes, no, toString]

theorem trim_string_inked {s : String} (inked : Inked s.toList) : trimString s = s := by
  rw [trimString, trim_inked inked, String.ofList_toList]

structure ReadsWhole {α : Type} (read : String → Except ReadError α) (Spells : String → α → Prop) : Prop where
  accepts : ∀ s value, read s = .ok value ↔ Spells s value
  inked : ∀ s value, Spells s value → Inked s.toList

theorem reads_boolean : ReadsWhole readBoolean SpellsBoolean where
  accepts := read_boolean_iff
  inked := by
    rintro s value rfl
    cases value <;> exact ⟨by decide, by decide, by decide⟩

theorem reads_number : ReadsWhole readNumber SpellsNumber where
  accepts := read_number_iff
  inked := by
    intro s n spells
    have ink : ∀ c, c = '+' ∨ c.isDigit = true → isBlank c = false := by
      intro c sign
      cases blank : isBlank c with
      | false => rfl
      | true =>
        have apart := not_of_blank (p := fun c => c == '+' || c.isDigit) (by decide +kernel) blank
        rw [Bool.or_eq_false_iff, beq_eq_false_iff_ne] at apart
        rcases sign with plus | digit
        · exact absurd plus apart.1
        · rw [apart.2] at digit
          contradiction
    have signs : s.toList ≠ [] ∧ ∀ c ∈ s.toList, c = '+' ∨ c.isDigit = true := by
      obtain ⟨nonempty, digits, _, _⟩ := spells
      cases shape : s.toList with
      | nil =>
        rw [shape] at nonempty
        exact absurd rfl nonempty
      | cons c rest =>
        rw [shape] at digits
        by_cases plus : c = '+'
        · rw [plus] at digits ⊢
          exact ⟨List.cons_ne_nil _ _, List.forall_mem_cons.mpr ⟨.inl rfl, fun d member => .inr (digits d member)⟩⟩
        · have bare : unsigned (c :: rest) = c :: rest := by simp [unsigned, plus]
          rw [bare] at digits
          exact ⟨List.cons_ne_nil _ _, fun d member => .inr (digits d member)⟩
    exact ⟨signs.1, fun c first => ink c (signs.2 c (List.mem_of_mem_head? first)),
      fun c last => ink c (signs.2 c (List.mem_of_getLast? last))⟩

section

variable {α : Type} {read : String → Except ReadError α} {Spells : String → α → Prop} {env : Environment}
  {field : String} {default value : α}

-- What a variable gives: the value that its text without outer blanks spells, or a default where it is not
-- set.
def Gives (env : Environment) (Spells : String → α → Prop) (field : String) (default value : α) : Prop :=
  match env field with
  | none => value = default
  | some text => Spells (trimString text) value

theorem strict_ok_iff (reads : ReadsWhole read Spells) :
    strict env read field default = .ok value ↔ Gives env Spells field default value := by
  unfold strict Gives
  cases env field with
  | none =>
    simp only [Except.ok.injEq]
    exact eq_comm
  | some text =>
    dsimp only
    rw [← reads.accepts]
    cases read (trimString text) <;> simp

theorem strict_error (reads : ReadsWhole read Spells) {e : ConfigurationError}
    (failed : strict env read field default = .error e) :
    ∃ text error, e = .unreadable field text error ∧ env field = some text ∧ ∀ value, ¬ Spells (trimString text) value := by
  unfold strict at failed
  cases set : env field with
  | none =>
    rw [set] at failed
    contradiction
  | some text =>
    rw [set] at failed
    dsimp only at failed
    cases result : read (trimString text) with
    | ok value =>
      rw [result] at failed
      contradiction
    | error error =>
      rw [result] at failed
      injection failed with same
      refine ⟨text, error, same.symm, rfl, fun value spells => ?_⟩
      rw [(reads.accepts _ value).mpr spells] at result
      contradiction

-- Where a variable has outer blanks the lenient reader falls back, so that it gives the value all the same
-- only where that is the default.
theorem lenient_eq_iff (reads : ReadsWhole read Spells)
    (gives : Gives env Spells field (lenient env read field default) value) :
    lenient env read field default = value ↔
      ∀ text ∈ env field, trimString text ≠ text → value = default := by
  unfold Gives lenient at *
  cases set : env field with
  | none =>
    rw [set] at gives
    simpa using gives.symm
  | some text =>
    rw [set] at gives
    dsimp only at gives
    simp only [Option.map_some, Option.mem_some_iff, forall_eq']
    by_cases trimmed : trimString text = text
    · rw [trimmed] at gives
      simp [(reads.accepts text value).mpr gives, trimmed]
    · have unread : ∀ other, read text ≠ .ok other := fun other spells =>
        trimmed (trim_string_inked (reads.inked text other ((reads.accepts text other).mp spells)))
      cases result : read text with
      | ok other => exact absurd result (unread other)
      | error error => simp [trimmed, eq_comm]

end

-- The configuration that the variables spell.
structure SpelledBy (env : Environment) (c : Configuration) : Prop where
  logLevel : c.logLevel = Text.lower ((env logLevelVariable).getD ({} : Configuration).logLevel)
  logJson : Gives env SpellsBoolean logJsonVariable ({} : Configuration).logJson c.logJson
  maxInputSize : Gives env SpellsNumber maxInputSizeVariable ({} : Configuration).maxInputSize c.maxInputSize
  maxNestingDepth : Gives env SpellsNumber maxNestingDepthVariable ({} : Configuration).maxNestingDepth c.maxNestingDepth

structure InRange (c : Configuration) : Prop where
  size : 64 ≤ c.maxInputSize ∧ c.maxInputSize ≤ 16777216
  depth : 1 ≤ c.maxNestingDepth ∧ c.maxNestingDepth ≤ 256
  level : c.logLevel ∈ logLevels

theorem validate_cases (c : Configuration) :
    (c.InRange ∧ c.validate = .ok ()) ∨ (¬ c.InRange ∧ ∃ reason, c.validate = .error (.validation reason)) := by
  unfold validate minInputSize largestInputSize largestNestingDepth
  by_cases small : c.maxInputSize < 64
  · rw [if_pos small]
    exact .inr ⟨fun range => Nat.not_le_of_lt small range.size.1, _, rfl⟩
  rw [if_neg small]
  by_cases large : 16777216 < c.maxInputSize
  · rw [if_pos large]
    exact .inr ⟨fun range => Nat.not_le_of_lt large range.size.2, _, rfl⟩
  rw [if_neg large]
  by_cases flat : c.maxNestingDepth = 0
  · rw [if_pos flat]
    exact .inr ⟨fun range => Nat.not_le_of_lt (by omega) range.depth.1, _, rfl⟩
  rw [if_neg flat]
  by_cases deep : 256 < c.maxNestingDepth
  · rw [if_pos deep]
    exact .inr ⟨fun range => Nat.not_le_of_lt deep range.depth.2, _, rfl⟩
  rw [if_neg deep]
  by_cases level : c.logLevel ∈ logLevels
  · rw [List.contains_iff_mem.mpr level]
    exact .inl ⟨⟨by omega, by omega, level⟩, rfl⟩
  · rw [if_pos (by simpa using level)]
    exact .inr ⟨fun range => level range.level, _, rfl⟩

def Unreadable (field text : String) : Prop :=
  (field = logJsonVariable ∧ ∀ value, ¬ SpellsBoolean (trimString text) value) ∨
    ((field = maxInputSizeVariable ∨ field = maxNestingDepthVariable) ∧ ∀ n, ¬ SpellsNumber (trimString text) n)

-- Each variable with outer blanks spells the default of its setting.
structure PaddedDefaults (env : Environment) (c : Configuration) : Prop where
  logJson : ∀ text ∈ env logJsonVariable, trimString text ≠ text → c.logJson = ({} : Configuration).logJson
  maxInputSize : ∀ text ∈ env maxInputSizeVariable, trimString text ≠ text →
    c.maxInputSize = ({} : Configuration).maxInputSize
  maxNestingDepth : ∀ text ∈ env maxNestingDepthVariable, trimString text ≠ text →
    c.maxNestingDepth = ({} : Configuration).maxNestingDepth

theorem gives_lenient {α : Type} {env : Environment} {read : String → Except ReadError α} {Spells : String → α → Prop}
    {field : String} {default value : α} :
    Gives env Spells field (lenient env read field default) value ↔ Gives env Spells field default value := by
  unfold Gives lenient
  cases env field <;> exact Iff.rfl

theorem strict_reader_eq (env : Environment) : ofEnvironmentStrict env =
    (strict env readBoolean logJsonVariable (ofEnvironment env).logJson).bind fun logJson =>
      (strict env readNumber maxInputSizeVariable (ofEnvironment env).maxInputSize).bind fun maxInputSize =>
        (strict env readNumber maxNestingDepthVariable (ofEnvironment env).maxNestingDepth).bind fun maxNestingDepth =>
          let c := { ofEnvironment env with logJson, maxInputSize, maxNestingDepth }
          c.validate.bind fun _ => .ok c := rfl

theorem strict_cases (env : Environment) :
    (∃ field text error, ofEnvironmentStrict env = .error (.unreadable field text error) ∧ env field = some text ∧
      Unreadable field text) ∨
    ∃ c, SpelledBy env c ∧ (ofEnvironment env = c ↔ PaddedDefaults env c) ∧
      ofEnvironmentStrict env = c.validate.bind fun _ => .ok c := by
  rw [strict_reader_eq]
  cases json : strict env readBoolean logJsonVariable (ofEnvironment env).logJson with
  | error e =>
    obtain ⟨text, error, rfl, set, unread⟩ := strict_error reads_boolean json
    exact .inl ⟨_, text, error, rfl, set, .inl ⟨rfl, unread⟩⟩
  | ok logJson =>
  cases size : strict env readNumber maxInputSizeVariable (ofEnvironment env).maxInputSize with
  | error e =>
    obtain ⟨text, error, rfl, set, unread⟩ := strict_error reads_number size
    exact .inl ⟨_, text, error, rfl, set, .inr ⟨.inl rfl, unread⟩⟩
  | ok maxInputSize =>
  cases depth : strict env readNumber maxNestingDepthVariable (ofEnvironment env).maxNestingDepth with
  | error e =>
    obtain ⟨text, error, rfl, set, unread⟩ := strict_error reads_number depth
    exact .inl ⟨_, text, error, rfl, set, .inr ⟨.inr rfl, unread⟩⟩
  | ok maxNestingDepth =>
    have json := (strict_ok_iff reads_boolean).mp json
    have size := (strict_ok_iff reads_number).mp size
    have depth := (strict_ok_iff reads_number).mp depth
    refine .inr ⟨{ ofEnvironment env with logJson, maxInputSize, maxNestingDepth },
      ⟨rfl, gives_lenient.mp json, gives_lenient.mp size, gives_lenient.mp depth⟩, ?_, rfl⟩
    have agree : ofEnvironment env = { ofEnvironment env with logJson, maxInputSize, maxNestingDepth } ↔
        (ofEnvironment env).logJson = logJson ∧ (ofEnvironment env).maxInputSize = maxInputSize ∧
          (ofEnvironment env).maxNestingDepth = maxNestingDepth := by
      simp only [ofEnvironment, Configuration.mk.injEq, true_and]
    rw [agree]
    constructor
    · rintro ⟨sameJson, sameSize, sameDepth⟩
      exact ⟨(lenient_eq_iff reads_boolean json).mp sameJson, (lenient_eq_iff reads_number size).mp sameSize,
        (lenient_eq_iff reads_number depth).mp sameDepth⟩
    · rintro ⟨padded, paddedSize, paddedDepth⟩
      exact ⟨(lenient_eq_iff reads_boolean json).mpr padded, (lenient_eq_iff reads_number size).mpr paddedSize,
        (lenient_eq_iff reads_number depth).mpr paddedDepth⟩

/-- What the strict reader accepts is what the variables spell, in range, and the lenient reader gives the same exactly
where each variable with outer blanks spells the default of its setting. What the strict reader refuses has a variable
that spells nothing, or is out of range. -/
theorem readers_agree_iff (env : Environment) :
    match ofEnvironmentStrict env with
    | .ok c => c.validate = .ok () ∧ c.InRange ∧ SpelledBy env c ∧ (ofEnvironment env = c ↔ PaddedDefaults env c)
    | .error (.unreadable field text _) => env field = some text ∧ Unreadable field text
    | .error (.validation reason) => ∃ c, SpelledBy env c ∧ ¬ c.InRange ∧ c.validate = .error (.validation reason) := by
  rcases strict_cases env with ⟨field, text, error, read, set, unread⟩ | ⟨c, spelled, agree, read⟩
  · rw [read]
    exact ⟨set, unread⟩
  · rcases validate_cases c with ⟨inside, valid⟩ | ⟨outside, reason, refused⟩
    · rw [valid] at read
      rw [read]
      exact ⟨valid, inside, spelled, agree⟩
    · rw [refused] at read
      rw [read]
      exact ⟨c, spelled, outside, refused⟩

-- A size with a blank before it is read by the strict reader alone.
theorem readers_agree_iff_padded :
    let env : Environment := fun field => if field == maxInputSizeVariable then some " 4096" else none
    ofEnvironmentStrict env = .ok { maxInputSize := 4096 } ∧ ofEnvironment env = { maxInputSize := 1048576 } := by
  decide +kernel

end SnippetReview.Configuration
