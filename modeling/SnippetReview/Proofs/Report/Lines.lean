import SnippetReview.Proofs.Catalog.Acceptance
import SnippetReview.Proofs.Report.Messages
import SnippetReview.Proofs.Review.Adding
import SnippetReview.Proofs.Review.Scoring

set_option autoImplicit false

namespace SnippetReview

open Text

def feedsIn (findings : List Finding) : Nat := (findings.map fun f => feeds f.message).sum

def feedsOf (lines : List String) : Nat := (lines.map feeds).sum

theorem feeds_of_append (first second : List String) : feedsOf (first ++ second) = feedsOf first + feedsOf second := by
  rw [feedsOf, List.map_append, List.sum_append]
  rfl

theorem feeds_of_cons (line : String) (rest : List String) : feedsOf (line :: rest) = feeds line + feedsOf rest := by
  rw [feedsOf, List.map_cons, List.sum_cons]
  rfl

theorem feeds_of_one_lines {lines : List String} (plain : ∀ line ∈ lines, OneLine line) : feedsOf lines = 0 := by
  rw [feedsOf, List.sum_eq_zero_iff]
  exact List.forall_mem_map.mpr fun line member => feeds_zero_iff.mpr (plain line member)

theorem feeds_in_append (first second : List Finding) : feedsIn (first ++ second) = feedsIn first + feedsIn second := by
  rw [feedsIn, List.map_append, List.sum_append]
  rfl

theorem feeds_in_zero_iff (findings : List Finding) : feedsIn findings = 0 ↔ ∀ f ∈ findings, OneLine f.message := by
  rw [feedsIn, List.sum_eq_zero_iff, List.forall_mem_map]
  exact forall₂_congr fun f _ => feeds_zero_iff

theorem feeds_of_findings {before : String} (plain : OneLine before) {findings : List Finding}
    (codes : ∀ f ∈ findings, OneLine f.code) :
    feedsOf (findings.map fun f => before ++ f.toLine) = feedsIn findings := by
  rw [feedsOf, feedsIn, List.map_map]
  refine congrArg List.sum (List.map_congr_left fun f member => ?_)
  rw [Function.comp_apply, feeds_append, feeds_zero_iff.mpr plain, feeds_of_finding (codes f member), Nat.zero_add]

def sectionCount (findings : List Finding) : Nat := if findings.isEmpty then 0 else findings.length + 2

theorem section_counted {title : String} {findings : List Finding} (titled : OneLine title)
    (codes : ∀ f ∈ findings, OneLine f.code) :
    (findingSection title findings).length = sectionCount findings ∧
      feedsOf (findingSection title findings) = feedsIn findings := by
  unfold findingSection sectionCount
  cases empty : findings.isEmpty with
  | true =>
    rw [List.isEmpty_iff.mp empty]
    exact ⟨rfl, rfl⟩
  | false =>
    rw [if_neg Bool.false_ne_true, if_neg Bool.false_ne_true]
    refine ⟨by simp, ?_⟩
    have blank : feedsOf [""] = 0 := by decide
    rw [List.cons_append, feeds_of_cons, feeds_of_append, feeds_zero_iff.mpr titled, feeds_of_findings (by decide) codes,
      blank, Nat.zero_add, Nat.add_zero]

theorem option_counted {o : OptionReview} (key : OneLine o.setting.key) (codes : ∀ f ∈ o.findings, OneLine f.code)
    (isLast : Bool) :
    (o.toLines isLast).length = 1 + o.findings.length ∧ feedsOf (o.toLines isLast) = feedsIn o.findings := by
  have shown := one_line_preview o.setting.raw
  have connector : OneLine (if isLast then "└" else "├") := by cases isLast <;> decide
  have indent : OneLine ((if isLast then " " else "│") ++ "    ") := by cases isLast <;> decide
  have first : ∀ sign, OneLine sign →
      OneLine s!"{sign}─ {o.setting.key} = {preview o.setting.raw}  (line {o.setting.line})" := by
    intro sign plain
    simp +decide [plain, key, shown, OneLine.repr]
  refine ⟨by simp [OptionReview.toLines, Nat.add_comm], ?_⟩
  unfold OptionReview.toLines
  rw [feeds_of_cons, feeds_zero_iff.mpr (first _ connector), Nat.zero_add]
  exact feeds_of_findings indent codes

theorem options_counted {options : List OptionReview} (keys : ∀ o ∈ options, OneLine o.setting.key)
    (codes : ∀ o ∈ options, ∀ f ∈ o.findings, OneLine f.code) :
    (optionLines options).length = options.length + (options.flatMap (·.findings)).length ∧
      feedsOf (optionLines options) = feedsIn (options.flatMap (·.findings)) := by
  induction options with
  | nil => exact ⟨rfl, rfl⟩
  | cons o rest ih =>
    have here := option_counted (keys o List.mem_cons_self) (codes o List.mem_cons_self)
    rw [List.flatMap_cons, feeds_in_append, List.length_append, List.length_cons]
    cases rest with
    | nil =>
      obtain ⟨length, feeds⟩ := here true
      rw [optionLines, length, feeds]
      exact ⟨by simp [Nat.add_comm], rfl⟩
    | cons next others =>
      obtain ⟨length, feeds⟩ := here false
      obtain ⟨length', feeds'⟩ := ih (fun o member => keys o (List.mem_cons_of_mem _ member))
        fun o member => codes o (List.mem_cons_of_mem _ member)
      rw [optionLines, List.length_append, feeds_of_append, length, feeds, length', feeds']
      · exact ⟨by omega, rfl⟩
      · exact nofun

def Recommendation.count (a : Recommendation) : Nat := 1 + ((a.sample.map linesOf).getD []).length

theorem advice_counted {a : Recommendation} (title : OneLine a.title) (message : OneLine a.message) :
    a.toLines.length = a.count ∧ feedsOf a.toLines = 0 := by
  have priority : OneLine a.priority.name := by cases a.priority <;> decide
  refine ⟨by simp [Recommendation.toLines, Recommendation.count, Nat.add_comm], feeds_of_one_lines ?_⟩
  refine List.forall_mem_cons.mpr ⟨by simp +decide [priority, title, message], List.forall_mem_map.mpr fun line member => ?_⟩
  cases sample : a.sample with
  | none =>
    rw [sample] at member
    exact absurd member List.not_mem_nil
  | some text =>
    rw [sample] at member
    exact OneLine.append_iff.mpr ⟨by decide, one_line_of_lines member⟩

namespace Review

-- The number of lines that the numbers of options, findings and recommendations call for.
def lineCount (r : Review) : Nat :=
  6 + (1 + r.options.length + (r.options.flatMap (·.findings)).length) + 1 + sectionCount r.missingRequired
    + sectionCount r.notes
    + if r.recommendations.isEmpty then 0 else 1 + (r.recommendations.map Recommendation.count).sum

structure Tidy (r : Review) : Prop where
  summary : OneLine r.summary
  keys : ∀ o ∈ r.options, OneLine o.setting.key
  codes : ∀ f ∈ r.findings, OneLine f.code
  advice : ∀ a ∈ r.recommendations, OneLine a.title ∧ OneLine a.message

variable {r : Review}

theorem Tidy.advised (tidy : r.Tidy) :
    (if r.recommendations.isEmpty then [] else "Recommendations:" :: r.recommendations.flatMap (·.toLines)).length =
        (if r.recommendations.isEmpty then 0 else 1 + (r.recommendations.map Recommendation.count).sum) ∧
      feedsOf (if r.recommendations.isEmpty then [] else "Recommendations:" :: r.recommendations.flatMap (·.toLines)) = 0 := by
  cases r.recommendations.isEmpty with
  | true => exact ⟨rfl, rfl⟩
  | false =>
    rw [if_neg Bool.false_ne_true, if_neg Bool.false_ne_true, List.length_cons, List.length_flatMap, Nat.add_comm]
    constructor
    · refine congrArg (fun counts => 1 + List.sum counts) (List.map_congr_left fun a member => ?_)
      exact (advice_counted (tidy.advice a member).1 (tidy.advice a member).2).1
    · refine feeds_of_one_lines (List.forall_mem_cons.mpr ⟨by decide, fun line member => ?_⟩)
      obtain ⟨a, among, inside⟩ := List.mem_flatMap.mp member
      have none := (advice_counted (tidy.advice a among).1 (tidy.advice a among).2).2
      rw [feedsOf, List.sum_eq_zero_iff, List.forall_mem_map] at none
      exact feeds_zero_iff.mp (none line inside)

theorem Tidy.listed (tidy : r.Tidy) :
    (if r.options.isEmpty then ["Options: (none)"] else "Options:" :: optionLines r.options).length =
        1 + r.options.length + (r.options.flatMap (·.findings)).length ∧
      feedsOf (if r.options.isEmpty then ["Options: (none)"] else "Options:" :: optionLines r.options) =
        feedsIn (r.options.flatMap (·.findings)) := by
  obtain ⟨length, feeds⟩ := options_counted tidy.keys fun o among f member =>
    tidy.codes f (List.mem_append_left _ (List.mem_append_left _ (List.mem_flatMap_of_mem among member)))
  cases empty : r.options.isEmpty with
  | true =>
    rw [List.isEmpty_iff.mp empty]
    exact ⟨rfl, by decide⟩
  | false =>
    have titled : OneLine "Options:" := by decide
    rw [if_neg Bool.false_ne_true, List.length_cons, length, feeds_of_cons, feeds_zero_iff.mpr titled, feeds, Nat.zero_add]
    exact ⟨by omega, rfl⟩

theorem Tidy.lines (tidy : r.Tidy) (valid : r.valid = true) :
    r.toLines.length = r.lineCount ∧ feedsOf r.toLines = feedsIn r.findings := by
  obtain ⟨missing, missing'⟩ := @section_counted "Missing Required Options:" _ (by decide) fun f member =>
    tidy.codes f (List.mem_append_left _ (List.mem_append_right _ member))
  obtain ⟨noted, noted'⟩ := @section_counted "Notes:" _ (by decide) fun f member =>
    tidy.codes f (List.mem_append_right _ member)
  obtain ⟨advised, advised'⟩ := tidy.advised
  obtain ⟨listed, listed'⟩ := tidy.listed
  have symbol : OneLine (if r.count .error = 0 then "✓" else "⚠") := by split <;> decide
  have headed : ∀ sign, OneLine sign → feedsOf (heading s!"{sign} Sentry Configuration ({r.host.name})") = 0 := by
    have rule : OneLine ruleLine := OneLine.of_chars.mpr fun member => absurd (List.mem_replicate.mp member).2 (by decide)
    intro sign plain
    refine feeds_of_one_lines (List.forall_mem_cons.mpr ⟨?_, List.forall_mem_cons.mpr ⟨rule, by decide⟩⟩)
    simp +decide [plain, r.host.one_line_name]
  have scored : feedsOf [s!"Score: {scoreBar (r.score.getD 0)} {r.score.getD 0}/100", r.summary, ""] = 0 := by
    refine feeds_of_one_lines (List.forall_mem_cons.mpr ⟨?_, List.forall_mem_cons.mpr ⟨tidy.summary, by decide⟩⟩)
    simp +decide [one_line_bar, OneLine.repr]
  have blank : feedsOf [""] = 0 := by decide
  unfold toLines lineCount findings
  rw [valid, if_neg (by decide)]
  dsimp only
  constructor
  · simp only [List.length_append, listed, missing, noted, advised]
    rfl
  · simp only [feeds_of_append, headed _ symbol, scored, listed', blank, missing', noted', advised', feeds_in_append]
    omega

theorem Tidy.feeds_eq (tidy : r.Tidy) (valid : r.valid = true) : feeds r.toHuman = r.lineCount + feedsIn r.findings := by
  obtain ⟨length, feeds⟩ := tidy.lines valid
  rw [toHuman, feeds_unlines, length, ← feeds]
  rfl

end Review

namespace ReviewPolicy

variable {r : ReviewPolicy}

theorem setting_of_option (r : ReviewPolicy) (target : Host) (setting : Setting) :
    (r.reviewOption target setting).setting = setting := by
  unfold reviewOption
  cases r.catalog.resolve? setting.key <;> rfl

theorem advice_one_line (r : ReviewPolicy) (target : Host) (settings : Settings) :
    ∀ a ∈ r.recommendations target settings, OneLine a.title ∧ OneLine a.message := by
  have items : ∀ item ∈ checklist, OneLine item.title ∧ OneLine item.message := by decide +kernel
  intro a member
  obtain ⟨item, among, rfl⟩ := List.mem_map.mp member
  exact items item (List.mem_of_mem_filter among)

section

variable (standard : Catalog.standard = .ok r.catalog)

include standard

theorem missing_one_line (target : Host) (settings : Settings) :
    ∀ f ∈ r.missing target settings, OneLine f.code ∧ OneLine f.message := by
  intro f member
  obtain ⟨entry, among, rfl⟩ := List.mem_map.mp member
  have known := List.mem_of_mem_filter (List.mem_of_mem_filter among)
  rw [(Catalog.made_of_entries standard).entries_eq] at known
  exact ⟨one_line_code nofun, (one_line_message _).mpr (List.forall_mem_singleton.mpr (r.one_line_native target known))⟩

variable (rules : r.rules = (Rule.standard : List ReviewRule)) {registry : Registry} {limits : Limits} {host : Host}
  {source : List Char} (valid : (extract registry limits host source).valid = true)

include rules valid

theorem review_tidy (target : Host) :
    (r.review (extract registry limits host source) target).Tidy ∧
      feedsIn (r.review (extract registry limits host source) target).findings =
        feedsIn ((r.review (extract registry limits host source) target).options.flatMap (·.findings)) := by
  have keys := one_line_keys valid
  have warnings := one_line_warnings valid
  generalize extract registry limits host source = e at *
  obtain ⟨options, missing, advice⟩ := review_parts r valid target
  have notes := notes_of_review r valid target
  have missed := missing_one_line standard target e.settings
  have noted : ∀ f ∈ (r.review e target).notes, OneLine f.code ∧ OneLine f.message := by
    intro f member
    rw [notes] at member
    obtain ⟨notice, among, rfl⟩ := List.mem_map.mp member
    exact ⟨one_line_code nofun, (one_line_message _).mpr (List.forall_mem_singleton.mpr (warnings notice among))⟩
  rw [← missing] at missed
  constructor
  · refine ⟨?_, ?_, ?_, ?_⟩
    · rw [(review_score r valid target).2]
      exact one_line_summary _ _ _
    · intro o member
      rw [options] at member
      obtain ⟨setting, among, rfl⟩ := List.mem_map.mp member
      rw [r.setting_of_option]
      exact keys setting among
    · intro f member
      rcases List.mem_append.mp member with found | note
      · rcases List.mem_append.mp found with about | absent
        · obtain ⟨o, among, inside⟩ := List.mem_flatMap.mp about
          rw [options] at among
          obtain ⟨setting, _, rfl⟩ := List.mem_map.mp among
          exact one_line_code (told_of_option standard rules inside).1
        · exact (missed f absent).1
      · exact (noted f note).1
    · rw [advice]
      exact r.advice_one_line target e.settings
  · rw [Review.findings, feeds_in_append, feeds_in_append, (feeds_in_zero_iff _).mpr fun f member => (missed f member).2,
      (feeds_in_zero_iff _).mpr fun f member => (noted f member).2]
    rfl

theorem feeds_of_report (target : Host) :
    feeds (r.review (extract registry limits host source) target).toHuman =
      (r.review (extract registry limits host source) target).lineCount +
        feedsIn ((r.review (extract registry limits host source) target).options.flatMap (·.findings)) := by
  obtain ⟨tidy, about⟩ := review_tidy standard rules valid target
  have reviewed : (r.review (extract registry limits host source) target).valid = true := by
    unfold review
    rw [valid]
    rfl
  rw [tidy.feeds_eq reviewed, about]

theorem feeds_of_options_zero_iff (target : Host) :
    feedsIn ((r.review (extract registry limits host source) target).options.flatMap (·.findings)) = 0 ↔
      ∀ setting ∈ (extract registry limits host source).settings.list, ∀ entry,
        r.catalog.resolve? setting.key = some entry → ∀ text, setting.Quotes entry text → OneLine text := by
  rw [feeds_in_zero_iff, (r.review_parts valid target).1, List.flatMap_map, List.forall_mem_flatMap]
  exact forall₂_congr fun setting member => one_line_findings standard rules (one_line_keys valid setting member)

end

end ReviewPolicy

/-- The report on an extraction has a line for each option, each finding, each heading, each piece of advice and each
line of a sample, and beyond these only the line feeds in the messages about options. There are none exactly if the
findings quote no value of a wrong type and no scheme of a DSN that has several lines. -/
theorem report_lines {catalog : Catalog} (standard : Catalog.standard = .ok catalog) (registry samples : Registry)
    (limits : Limits) (host target : Host) (source : List Char)
    (valid : (extract registry limits host source).valid = true) :
    let e := extract registry limits host source
    let report := ({ catalog, registry := samples } : ReviewPolicy).review e target
    report.options.map (·.setting) = e.settings.list ∧
      feeds report.toHuman = report.lineCount + feedsIn (report.options.flatMap (·.findings)) ∧
      (feeds report.toHuman = report.lineCount ↔ ∀ setting ∈ e.settings.list, ∀ entry,
        catalog.resolve? setting.key = some entry → ∀ text, setting.Quotes entry text → OneLine text) := by
  intro e report
  let policy : ReviewPolicy := { catalog, registry := samples }
  have total : feeds report.toHuman = report.lineCount + feedsIn (report.options.flatMap (·.findings)) :=
    ReviewPolicy.feeds_of_report standard rfl valid target
  refine ⟨?_, total, ?_⟩
  · have options : report.options = e.settings.list.map (policy.reviewOption target) := (policy.review_parts valid target).1
    rw [options, List.map_map]
    exact List.map_congr_left (fun setting _ => policy.setting_of_option target setting) |>.trans (List.map_id _)
  · rw [total, Nat.add_eq_left]
    exact ReviewPolicy.feeds_of_options_zero_iff standard rfl valid target

theorem report_lines_javascript :
    let e := extract .full {} .javascript "Sentry.init(\x7b\n  dsn: 'http://key@host/1',\n  debug: 'on'\n\x7d)".toList
    ∃ catalog, Catalog.standard = .ok catalog ∧ e.valid = true ∧
      let report := ({ catalog } : ReviewPolicy).review e .javascript
      e.settings.keys = ["dsn", "debug"] ∧ feeds report.toHuman = report.lineCount := by
  intro e
  obtain ⟨catalog, standard⟩ := Catalog.standard_accepted
  have valid : e.valid = true := by decide +kernel
  have settings : e.settings = _ := Extraction.settings_of_valid valid
  have plain : ∀ setting ∈ e.settings.list, OneLine (Rule.shown setting) := by
    rw [settings]
    decide +kernel
  refine ⟨catalog, standard, valid, settings ▸ (by decide +kernel), ?_⟩
  refine (report_lines standard .full .full {} .javascript .javascript _ valid).2.2.mpr ?_
  exact fun setting member entry _ text quotes => quotes.one_line (plain setting member)

-- An object where the release stands is quoted as it is written, and one of its lines reads like an option.
theorem report_lines_forged :
    let e := extract .full {} .javascript
      "Sentry.init(\x7b\n  dsn: key,\n  release: \x7b\n└─ debug = false  (line 9)\n  \x7d\n\x7d)".toList
    ∃ catalog, Catalog.standard = .ok catalog ∧ e.valid = true ∧
      let report := ({ catalog } : ReviewPolicy).review e .javascript
      e.settings.keys = ["dsn", "release"] ∧ feeds report.toHuman ≠ report.lineCount := by
  intro e
  obtain ⟨catalog, standard⟩ := Catalog.standard_accepted
  have valid : e.valid = true := by decide +kernel
  have settings : e.settings = _ := Extraction.settings_of_valid valid
  have release : ∃ entry ∈ Catalog.standardEntries, entry.key = "release" ∧ Rule.accepts entry.type .object = false := by
    decide +kernel
  have object : ∃ setting ∈ e.settings.list, setting.key = "release" ∧ setting.type = .object ∧
      ¬OneLine (Rule.shown setting) := by
    rw [settings]
    decide +kernel
  obtain ⟨entry, known, key, refused⟩ := release
  obtain ⟨setting, member, same, type, several⟩ := object
  refine ⟨catalog, standard, valid, settings ▸ (by decide +kernel), fun exact => several ?_⟩
  rw [ReviewPolicy.feeds_of_report standard rfl valid, Nat.add_eq_left,
    ReviewPolicy.feeds_of_options_zero_iff standard rfl valid] at exact
  have resolved : catalog.resolve? setting.key = some entry := by
    rw [Catalog.resolve_iff (Catalog.made_of_entries standard)]
    exact ⟨known, entry.key, Catalog.key_mem_spellings entry, by rw [key, same]⟩
  exact exact setting member entry resolved _ (.value (type ▸ refused))

end SnippetReview
