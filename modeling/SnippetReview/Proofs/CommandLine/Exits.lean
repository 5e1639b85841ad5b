import Mathlib
import SnippetReview.CommandLine.Run
import SnippetReview.Proofs.Catalog.Acceptance

set_option autoImplicit false

namespace SnippetReview

theorem Configuration.unset_accepted {env : Environment} (level : env logLevelVariable = none)
    (json : env logJsonVariable = none) (size : env maxInputSizeVariable = none)
    (depth : env maxNestingDepthVariable = none) : ofEnvironmentStrict env = .ok {} := by
  have lower : Text.lower "info" = "info" := by decide +kernel
  have valid : validate {} = .ok () := rfl
  simp [ofEnvironmentStrict, ofEnvironment, strict, lenient, level, json, size, depth, lower, valid, Bind.bind,
    Except.bind]

theorem ReviewPolicy.review_valid (policy : ReviewPolicy) (e : Extraction) (target : Host) :
    (policy.review e target).valid = e.valid := by
  cases valid : e.valid <;> simp [review, rejected, valid]

theorem FilterLibrary.choose_ok {library : FilterLibrary} (reads : library.ReadsEverything) (value : Option String)
    (target : String) (level : LogLevel) : ∃ filter, library.choose value target level = .ok filter := by
  cases value with
  | none => exact ⟨_, rfl⟩
  | some text => exact reads text

namespace CommandLine

section

variable {r : Review} {failUnder : Option Nat}

theorem exit_code_one_iff : exitCode r failUnder = 1 ↔ r.valid = false := by
  unfold exitCode
  cases r.valid with
  | false => simp
  | true =>
    cases failUnder <;> cases r.score <;> simp
    split <;> simp

theorem exit_code_two_iff : exitCode r failUnder = 2 ↔
    r.valid = true ∧ ∃ threshold score, failUnder = some threshold ∧ r.score = some score ∧ score < threshold := by
  unfold exitCode
  cases r.valid with
  | false => simp
  | true => cases failUnder <;> cases r.score <;> simp

theorem exit_code_cases : exitCode r failUnder = 0 ∨ exitCode r failUnder = 1 ∨ exitCode r failUnder = 2 := by
  unfold exitCode
  cases r.valid with
  | false => simp
  | true =>
    cases failUnder <;> cases r.score <;> simp
    omega

end

variable {world : World} {arguments : List String} {input : InputArguments} {failUnder : Option Nat}
  {level : Option String} {verbose quiet : Bool} {c : Configuration}

theorem extract_input_cases (world : World) (c : Configuration) (input : InputArguments) :
    (∃ error, extractInput world c input = .error error ∧
      ((∃ e, resolveHost input .full = .error e) ∨ ∃ e, readSnippet world input = .error e)) ∨
    ∃ host content, resolveHost input .full = .ok host ∧ readSnippet world input = .ok content ∧
      extractInput world c input = .ok (host, extract .full c.limits host content.toList) := by
  unfold extractInput
  cases resolved : resolveHost input .full with
  | error e => exact .inl ⟨e, rfl, .inl ⟨e, rfl⟩⟩
  | ok host =>
    cases snippet : readSnippet world input with
    | error e => exact .inl ⟨e, rfl, .inr ⟨e, rfl⟩⟩
    | ok content => exact .inr ⟨host, content, rfl, rfl, rfl⟩

-- The standard catalog is rewritten before anything is reduced; to compute it would take long.
theorem execute_analyze {catalog : Catalog} (standard : Catalog.standard = .ok catalog) :
    execute world c (.analyze input failUnder) = (extractInput world c input).map fun found =>
      let review := ReviewPolicy.review { catalog } found.2 found.1
      ⟨exitCode review failUnder, printed (review.report input.format), []⟩ := by
  unfold execute
  rw [standard]
  dsimp only
  cases extractInput world c input <;> rfl

theorem execute_extract : execute world c (.extract input) = (extractInput world c input).map fun found =>
    ⟨if found.2.valid then 0 else 1, printed (found.2.report input.format), []⟩ := by
  have opened : execute world c (.extract input) = (extractInput world c input).bind fun found =>
      .ok ⟨if found.2.valid then 0 else 1, printed (found.2.report input.format), []⟩ := rfl
  rw [opened]
  cases extractInput world c input <;> rfl

section

variable {library : FilterLibrary} (reads : library.ReadsEverything)
  (configured : Configuration.ofEnvironmentStrict world.environment = .ok c)

include reads configured

theorem run_of_ok {a : Arguments} {outcome : Outcome} (understood : parse arguments = .ok a)
    (done : execute world c a.command = .ok outcome) : run world arguments library = outcome := by
  obtain ⟨filter, chosen⟩ := library.choose_ok reads (world.environment filterVariable) programName (logSettings c a).level
  rw [run, understood]
  simp only [runUnderstood, configured, withLog, chosen, done]

theorem run_of_error {a : Arguments} {error : RunError} (understood : parse arguments = .ok a)
    (failed : execute world c a.command = .error error) : ∃ errors, run world arguments library = ⟨1, "", errors⟩ := by
  obtain ⟨filter, chosen⟩ := library.choose_ok reads (world.environment filterVariable) programName (logSettings c a).level
  refine ⟨logged library filter (logSettings c a) error, ?_⟩
  rw [run, understood]
  simp only [runUnderstood, configured, withLog, chosen, failed]

theorem run_analyze (understood : parse arguments = .ok ⟨.analyze input failUnder, level, verbose, quiet⟩)
    {catalog : Catalog} (standard : Catalog.standard = .ok catalog) {host : Host} {extraction : Extraction}
    (extracted : extractInput world c input = .ok (host, extraction)) : run world arguments library =
      let review := ReviewPolicy.review { catalog } extraction host
      ⟨exitCode review failUnder, printed (review.report input.format), []⟩ := by
  apply run_of_ok reads configured understood
  rw [execute_analyze standard, extracted]
  rfl

theorem run_extract (understood : parse arguments = .ok ⟨.extract input, level, verbose, quiet⟩) {host : Host}
    {extraction : Extraction} (extracted : extractInput world c input = .ok (host, extraction)) :
    run world arguments library = ⟨if extraction.valid then 0 else 1, printed (extraction.report input.format), []⟩ := by
  apply run_of_ok reads configured understood
  rw [execute_extract, extracted]
  rfl

theorem run_unextracted {command : Command} (understood : parse arguments = .ok ⟨command, level, verbose, quiet⟩)
    (reader : (∃ failUnder, command = .analyze input failUnder) ∨ command = .extract input) {error : RunError}
    (failed : extractInput world c input = .error error) : ∃ errors, run world arguments library = ⟨1, "", errors⟩ := by
  obtain ⟨catalog, standard⟩ := Catalog.standard_accepted
  apply run_of_error reads configured understood
  rcases reader with ⟨failUnder, rfl⟩ | rfl
  · rw [execute_analyze standard, failed]
    rfl
  · rw [execute_extract, failed]
    rfl

end

/-- The exit code of `analyze` says what came of the snippet. What it prints is the report, whatever the threshold and
the options of the log are, and without a threshold it succeeds just where `extract` does. -/
theorem analyze_exits {library : FilterLibrary} (reads : library.ReadsEverything)
    (understood : parse arguments = .ok ⟨.analyze input failUnder, level, verbose, quiet⟩)
    (configured : Configuration.ofEnvironmentStrict world.environment = .ok c) :
    let outcome := run world arguments library
    let extraction := fun host (content : String) => extract .full c.limits host content.toList
    (∃ catalog, Catalog.standard = .ok catalog ∧
      (outcome.exit = 2 ↔ ∃ host content threshold score, resolveHost input .full = .ok host ∧
        readSnippet world input = .ok content ∧ (extraction host content).valid = true ∧ failUnder = some threshold ∧
        (ReviewPolicy.review { catalog } (extraction host content) host).score = some score ∧ score < threshold) ∧
      (outcome.exit = 1 ↔ (∃ error, resolveHost input .full = .error error) ∨
        (∃ error, readSnippet world input = .error error) ∨
        ∃ host content, resolveHost input .full = .ok host ∧ readSnippet world input = .ok content ∧
          (extraction host content).valid = false) ∧
      (outcome.exit = 0 ∨ outcome.exit = 1 ∨ outcome.exit = 2) ∧
      (∀ host content, resolveHost input .full = .ok host → readSnippet world input = .ok content → outcome.stdout =
        printed ((ReviewPolicy.review { catalog } (extraction host content) host).report input.format))) ∧
    (∀ other failUnder level verbose quiet, parse other = .ok ⟨.analyze input failUnder, level, verbose, quiet⟩ →
      (run world other library).stdout = outcome.stdout) ∧
    (∀ other level verbose quiet, parse other = .ok ⟨.extract input, level, verbose, quiet⟩ → failUnder = none →
      ((run world other library).exit = 0 ↔ outcome.exit = 0)) := by
  intro outcome extraction
  obtain ⟨catalog, standard⟩ := Catalog.standard_accepted
  rcases extract_input_cases world c input with ⟨error, failed, lacks⟩ | ⟨host, content, resolved, snippet, extracted⟩
  · -- Without a language or a text the run ends with 1 before a review is made.
    obtain ⟨errors, ended⟩ := run_unextracted reads configured understood (.inl ⟨_, rfl⟩) failed
    have unread : ∀ host content, resolveHost input .full = .ok host → readSnippet world input = .ok content → False := by
      intro host content resolved snippet
      rcases lacks with ⟨e, unresolved⟩ | ⟨e, unread⟩
      · cases resolved.symm.trans unresolved
      · cases snippet.symm.trans unread
    have exit : outcome.exit = 1 := congrArg Outcome.exit ended
    have silent : outcome.stdout = "" := congrArg Outcome.stdout ended
    rw [exit, silent]
    refine ⟨⟨catalog, standard, ⟨fun two => absurd two (by decide), ?_⟩, ⟨fun _ => ?_, fun _ => rfl⟩, .inr (.inl rfl), ?_⟩, ?_, ?_⟩
    · rintro ⟨host, content, _, _, resolved, snippet, _⟩
      exact (unread host content resolved snippet).elim
    · rcases lacks with unresolved | unread
      · exact .inl unresolved
      · exact .inr (.inl unread)
    · exact fun host content resolved snippet => (unread host content resolved snippet).elim
    · intro other failUnder' level' verbose' quiet' understood'
      obtain ⟨_, ended'⟩ := run_unextracted reads configured understood' (.inl ⟨_, rfl⟩) failed
      rw [ended']
    · intro other level' verbose' quiet' understood' _
      obtain ⟨_, ended'⟩ := run_unextracted reads configured understood' (.inr rfl) failed
      rw [ended']
  · have analyzed := run_analyze reads configured understood standard extracted
    have same : ∀ host' content', resolveHost input .full = .ok host' → readSnippet world input = .ok content' →
        host' = host ∧ content' = content := by
      intro host' content' resolved' snippet'
      exact ⟨Except.ok.inj (resolved'.symm.trans resolved), Except.ok.inj (snippet'.symm.trans snippet)⟩
    simp only [outcome, analyzed]
    refine ⟨⟨catalog, standard, exit_code_two_iff.trans ?_, exit_code_one_iff.trans ?_, exit_code_cases, ?_⟩, ?_, ?_⟩
    · rw [ReviewPolicy.review_valid]
      constructor
      · rintro ⟨valid, threshold, score, below⟩
        exact ⟨host, content, threshold, score, resolved, snippet, valid, below⟩
      · rintro ⟨host', content', threshold, score, resolved', snippet', valid, below⟩
        obtain ⟨rfl, rfl⟩ := same host' content' resolved' snippet'
        exact ⟨valid, threshold, score, below⟩
    · rw [ReviewPolicy.review_valid]
      constructor
      · exact fun invalid => .inr (.inr ⟨host, content, resolved, snippet, invalid⟩)
      · rintro (⟨e, unresolved⟩ | ⟨e, unread⟩ | ⟨host', content', resolved', snippet', invalid⟩)
        · cases resolved.symm.trans unresolved
        · cases snippet.symm.trans unread
        · obtain ⟨rfl, rfl⟩ := same host' content' resolved' snippet'
          exact invalid
    · intro host' content' resolved' snippet'
      obtain ⟨rfl, rfl⟩ := same host' content' resolved' snippet'
      rfl
    · -- The threshold reaches the exit code alone, and the options of the log nothing that is printed here.
      intro other failUnder' level' verbose' quiet' understood'
      rw [run_analyze reads configured understood' standard extracted]
    · intro other level' verbose' quiet' understood' unset
      subst unset
      rw [run_extract reads configured understood' extracted]
      simp only [exitCode, ReviewPolicy.review_valid]
      cases valid : (extract .full c.limits host content.toList).valid <;> simp

def pipedWorld (snippet : String) (filter : Option String) : World :=
  ⟨fun _ => .missing, .text snippet, fun name => if name == filterVariable then filter else none⟩

theorem piped_configured (snippet : String) (filter : Option String) :
    Configuration.ofEnvironmentStrict (pipedWorld snippet filter).environment = .ok {} := by
  refine Configuration.unset_accepted ?_ ?_ ?_ ?_ <;> rfl

theorem on_off_reads_everything : FilterLibrary.onOff.ReadsEverything := fun _ => ⟨_, rfl⟩

-- No score is below a threshold of zero. The log is off.
theorem analyze_exits_javascript :
    let arguments := ["analyze", "--syntax", "javascript", "--fail-under", "0"]
    let world := pipedWorld "Sentry.init(\x7b release: 'a' \x7d)" (some "off")
    FilterLibrary.onOff.ReadsEverything ∧
      parse arguments = .ok ⟨.analyze ⟨none, some .javascript, .human⟩ (some 0), none, false, false⟩ ∧
      Configuration.ofEnvironmentStrict world.environment = .ok {} ∧ (run world arguments .onOff).exit = 0 := by
  intro arguments world
  have understood : parse arguments = .ok ⟨.analyze ⟨none, some .javascript, .human⟩ (some 0), none, false, false⟩ := by
    cbv
  have configured := piped_configured "Sentry.init(\x7b release: 'a' \x7d)" (some "off")
  refine ⟨on_off_reads_everything, understood, configured, ?_⟩
  obtain ⟨⟨catalog, -, two, one, zero | code | code, -⟩, -⟩ := analyze_exits on_off_reads_everything understood configured
  · exact zero
  · rcases one.mp code with ⟨error, unresolved⟩ | ⟨error, unread⟩ | ⟨host, content, resolved, snippet, invalid⟩
    · contradiction
    · contradiction
    · obtain rfl := Except.ok.inj resolved
      obtain rfl := Except.ok.inj snippet
      exact absurd invalid (by decide +kernel)
  · obtain ⟨_, _, threshold, score, _, _, _, set, _, below⟩ := two.mp code
    obtain rfl := Option.some.inj set
    exact absurd below (Nat.not_lt_zero score)

end CommandLine

end SnippetReview
