import SnippetReview.Proofs.Catalog.Resolution
import SnippetReview.Proofs.Host.NativeKeys
import SnippetReview.Proofs.Report.Keys
import SnippetReview.Proofs.Review.Dsn
import SnippetReview.Proofs.Snippet.Covering
import SnippetReview.Proofs.Snippet.Overwriting

/- Messages in one line. A message has no line feeds but those of the texts it quotes, and of all that is
   quoted of a snippet only the value of a wrong type and the scheme of a DSN can have any. -/

set_option autoImplicit false

namespace SnippetReview

open Text

def Cause.quoted : Cause → List String
  | missingRequired nativeKey => [nativeKey]
  | extractionNote notice => [notice.toText]
  | unknownOption key suggestion => key :: suggestion.toList
  | unsupportedHost key _ => [key]
  | optionNote text => [text]
  | dsnInsecure scheme => [scheme]
  | rateOutOfRange key _ | tracesQuota key => [key]
  | typeMismatch key _ _ shown => [key, shown]
  | reported _ _ message => [message]
  | parseFailed | dsnEmpty | dsnFormat | debugEnabled | piiEnabled => []

theorem Host.one_line_name (host : Host) : OneLine host.name := by cases host <;> decide

theorem OptionType.one_line_name (type : OptionType) : OneLine type.label.name := by cases type <;> decide

theorem ValueType.one_line_name (type : ValueType) : OneLine type.name := by cases type <;> decide

set_option maxRecDepth 2000 in
theorem one_line_message (cause : Cause) : OneLine cause.message ↔ ∀ text ∈ cause.quoted, OneLine text := by
  unfold Cause.message
  cases cause with
  | extractionNote | optionNote | reported => simp [Cause.quoted]
  | missingRequired | dsnInsecure | tracesQuota => simp +decide [Cause.quoted]
  | unknownOption key suggestion => cases suggestion <;> simp +decide [Cause.quoted]
  | unsupportedHost key host => simp +decide [Cause.quoted, host.one_line_name]
  | rateOutOfRange key rate => simp +decide [Cause.quoted, OneLine.decimal]
  | typeMismatch key expected actual shown =>
    simp +decide [Cause.quoted, expected.one_line_name, actual.one_line_name]
  | parseFailed | dsnEmpty | dsnFormat | debugEnabled =>
    exact iff_of_true (by decide) (List.forall_mem_nil _)
  | piiEnabled => exact iff_of_true (by decide) (List.forall_mem_nil _)

theorem one_line_code {cause : Cause} (own : ∀ severity code message, cause ≠ .reported severity code message) :
    OneLine cause.code := by
  unfold Cause.code
  cases cause with
  | reported severity code message => exact absurd rfl (own severity code message)
  | _ =>
    dsimp only
    decide

theorem feeds_of_finding {f : Finding} (code : OneLine f.code) : feeds f.toLine = feeds f.message := by
  have symbol : OneLine f.severity.symbol := by cases f.severity <;> decide
  have name : OneLine f.severity.name := by cases f.severity <;> decide
  have before : OneLine (f.severity.symbol ++ " " ++ f.severity.name ++ " [" ++ f.code ++ "] ") := by
    simp +decide [symbol, name, code]
  rw [Finding.toLine, feeds_append, feeds_zero_iff.mpr before, Nat.zero_add]

theorem one_line_summary (errors warnings score : Nat) : OneLine (summarize errors warnings score) := by
  have counted : ∀ count noun, OneLine noun → OneLine (counted count noun) := by
    intro count noun plain
    unfold SnippetReview.counted
    split <;> simp +decide [plain, OneLine.repr]
  have warned := counted warnings "warning" (by decide)
  have failed := counted errors "error" (by decide)
  unfold summarize
  split
  · simp +decide [OneLine.repr]
  · split <;> simp +decide [OneLine.repr, warned, failed]

theorem one_line_bar (score : Nat) : OneLine (scoreBar score) := by
  unfold scoreBar
  rw [OneLine.of_chars, List.mem_append, List.mem_replicate, List.mem_replicate, not_or]
  exact ⟨fun filled => absurd filled.2 (by decide), fun empty => absurd empty.2 (by decide)⟩

-- The texts that findings about a setting quote beside its key: a value of a wrong type, and the scheme of a
-- DSN that is not the secure one.
inductive Setting.Quotes (setting : Setting) (entry : Entry) : String → Prop where
  | value (wrong : Rule.accepts entry.type setting.type = false) : Quotes setting entry (Rule.shown setting)
  | scheme {text : String} {scheme : List Char} (key : entry.key = "dsn") (value : setting.value.asString? = some text)
      (first : Dsn.BeforeMark scheme (trim text.toList)) (insecure : scheme.map Char.toLower ≠ "https".toList) :
      Quotes setting entry (String.ofList scheme)

section

variable {setting : Setting} {entry : Entry} {rule : Rule} {cause : Cause}

theorem Setting.Quotes.one_line {text : String} (quotes : setting.Quotes entry text) (plain : OneLine (Rule.shown setting)) :
    OneLine text := by
  cases quotes with
  | value wrong => exact plain
  | @scheme dsn scheme key value first insecure =>
    have written : OneLine dsn := by
      unfold Rule.shown at plain
      cases v : setting.value with
      | string text =>
        rw [v] at value plain
        cases value
        have quoted : OneLine ("\"" ++ dsn ++ "\"") := plain
        rw [OneLine.append_iff, OneLine.append_iff] at quoted
        exact quoted.1.2
      | _ =>
        rw [v] at value
        contradiction
    obtain ⟨later, split⟩ := first.split
    obtain ⟨lead, trail, _, _, parts⟩ := trim_parts dsn.toList
    refine written.of_subset fun c member => ?_
    rw [parts, split]
    exact List.mem_append_left _ (List.mem_append_right _ (List.mem_append_left _ (List.mem_append_left _ member)))

theorem told_by_rule (member : cause ∈ rule.causes setting entry) :
    (∀ severity code message, cause ≠ .reported severity code message) ∧
      ∀ text ∈ cause.quoted, text = setting.key ∨ setting.Quotes entry text := by
  unfold Rule.causes at member
  cases rule with
  | dsn =>
    dsimp only at member
    split at member
    next same value =>
      rcases Dsn.mem_check_iff.mp member with ⟨_, rfl⟩ | ⟨_, scheme, first, insecure, rfl⟩ | ⟨_, _, rfl⟩
      · exact ⟨nofun, List.forall_mem_nil _⟩
      · exact ⟨nofun, List.forall_mem_singleton.mpr (.inr (.scheme (beq_iff_eq.mp same) value first insecure))⟩
      · exact ⟨nofun, List.forall_mem_nil _⟩
    next => exact absurd member List.not_mem_nil
  | sampleRateRange =>
    dsimp only at member
    split at member
    next rate _ _ =>
      rw [List.mem_ite_nil_left, List.mem_singleton] at member
      rw [member.2]
      exact ⟨nofun, List.forall_mem_singleton.mpr (.inl rfl)⟩
    next => exact absurd member List.not_mem_nil
  | tracesQuota =>
    dsimp only at member
    split at member
    next =>
      rw [List.mem_ite_nil_right, List.mem_singleton] at member
      rw [member.2]
      exact ⟨nofun, List.forall_mem_singleton.mpr (.inl rfl)⟩
    next => exact absurd member List.not_mem_nil
  | debugEnabled | piiEnabled =>
    dsimp only at member
    rw [List.mem_ite_nil_right, List.mem_singleton] at member
    rw [member.2]
    exact ⟨nofun, List.forall_mem_nil _⟩
  | typeMismatch =>
    dsimp only at member
    rw [List.mem_ite_nil_left, List.mem_singleton, Bool.not_eq_true] at member
    rw [member.2]
    exact ⟨nofun, List.forall_mem_cons.mpr ⟨.inl rfl, List.forall_mem_singleton.mpr (.inr (.value member.1))⟩⟩

theorem quotes_in_rule {text : String} (quotes : setting.Quotes entry text) :
    ∃ rule ∈ Rule.standard, ∃ cause ∈ rule.causes setting entry, text ∈ cause.quoted := by
  cases quotes with
  | value wrong =>
    let cause : Cause := .typeMismatch setting.key entry.type setting.type (Rule.shown setting)
    have mismatch : Rule.typeMismatch.causes setting entry = [cause] := by
      unfold Rule.causes
      rw [wrong]
      rfl
    refine ⟨.typeMismatch, by decide, cause, ?_, List.mem_cons_of_mem _ (List.mem_singleton_self _)⟩
    rw [mismatch]
    exact List.mem_singleton_self _
  | @scheme dsn scheme key value first insecure =>
    have checked : Rule.dsn.causes setting entry = Rule.checkDsn (trim dsn.toList) := by
      unfold Rule.causes
      rw [value, beq_iff_eq.mpr key]
    have filled : trim dsn.toList ≠ [] := by
      intro none
      obtain ⟨later, split⟩ := first.split
      rw [none, eq_comm, List.append_eq_nil_iff, List.append_eq_nil_iff] at split
      exact absurd split.1.2 (by decide)
    refine ⟨.dsn, by decide, .dsnInsecure (String.ofList scheme), ?_, List.mem_singleton_self _⟩
    rw [checked]
    exact Dsn.mem_check_iff.mpr (.inr (.inl ⟨filled, scheme, first, insecure, rfl⟩))

end

namespace Catalog

theorem standard_warnings_one_line : ∀ entry ∈ standardEntries, ∀ text ∈ entry.warnings, OneLine text := by
  decide +kernel

theorem suggest_mem {c : Catalog} {key : String} {entry : Entry} (found : c.suggest? key = some entry) : entry ∈ c.entries := by
  unfold suggest? at found
  obtain ⟨scored, best, rfl⟩ := Option.map_eq_some_iff.mp found
  have fold : ∀ (pairs : List (Float × Entry)) (held : Option (Float × Entry)),
      pairs.foldl better held = some scored → held = some scored ∨ scored ∈ pairs := by
    intro pairs
    induction pairs with
    | nil => exact fun held same => .inl same
    | cons pair rest ih =>
      intro held same
      rcases ih _ same with kept | later
      · unfold better at kept
        split at kept
        · split at kept
          · exact .inl kept
          · exact .inr (Option.some.inj kept ▸ List.mem_cons_self)
        · exact .inr (Option.some.inj kept ▸ List.mem_cons_self)
      · exact .inr (List.mem_cons_of_mem pair later)
  rcases fold _ none best with absent | inside
  · contradiction
  · obtain ⟨entry, known, rfl⟩ := List.mem_map.mp (List.mem_of_mem_filter inside)
    exact known

end Catalog

theorem OneLine.of_plain_key {key : String} (plain : isPlainKey key.toList = true) : OneLine key := by
  intro feed
  exact absurd (List.all_eq_true.mp (wordish_of_plain_key plain) '\n' feed) (by decide)

namespace ReviewPolicy

variable {r : ReviewPolicy} {target : Host} {setting : Setting} {f : Finding}

theorem one_line_native (r : ReviewPolicy) (target : Host) {entry : Entry} (known : entry ∈ Catalog.standardEntries) :
    OneLine (r.nativeKey target entry.key) := by
  unfold nativeKey
  split
  next host _ => exact .of_plain_key (host.spells_native (List.mem_map_of_mem known)).plain
  next => exact .of_plain_key (plain_of_camel_key (Catalog.standard_keys_camel entry known).1)

section

variable (standard : Catalog.standard = .ok r.catalog) (rules : r.rules = (Rule.standard : List ReviewRule))

include rules

theorem quotes_in_option {entry : Entry} (resolved : r.catalog.resolve? setting.key = some entry) {text : String}
    (quotes : setting.Quotes entry text) : ∃ f ∈ (r.reviewOption target setting).findings, text ∈ f.cause.quoted := by
  obtain ⟨rule, among, cause, told, quoted⟩ := quotes_in_rule quotes
  refine ⟨⟨cause, some setting.key⟩, ?_, quoted⟩
  unfold reviewOption
  rw [resolved]
  refine List.mem_append_right _ (List.mem_flatMap.mpr ⟨.known rule, ?_, List.mem_map_of_mem told⟩)
  rw [rules]
  exact List.mem_map_of_mem among

include standard

theorem told_of_option (member : f ∈ (r.reviewOption target setting).findings) :
    (∀ severity code message, f.cause ≠ .reported severity code message) ∧ ∀ text ∈ f.cause.quoted,
      OneLine text ∨ text = setting.key ∨ ∃ entry, r.catalog.resolve? setting.key = some entry ∧ setting.Quotes entry text := by
  have made := Catalog.made_of_entries standard
  unfold reviewOption at member
  cases resolved : r.catalog.resolve? setting.key with
  | none =>
    rw [resolved] at member
    obtain rfl := List.mem_singleton.mp member
    refine ⟨nofun, List.forall_mem_cons.mpr ⟨.inr (.inl rfl), fun text suggested => .inl ?_⟩⟩
    obtain ⟨entry, found, rfl⟩ := Option.map_eq_some_iff.mp (Option.mem_toList.mp suggested)
    have known := Catalog.suggest_mem found
    rw [made.entries_eq] at known
    exact r.one_line_native target known
  | some entry =>
    rw [resolved] at member
    have known := (Catalog.means_of_resolve made resolved).1
    rcases List.mem_append.mp member with noted | ruled
    · obtain ⟨cause, told, rfl⟩ := List.mem_map.mp noted
      rcases List.mem_append.mp told with unsupported | warned
      · rw [List.mem_ite_nil_left, List.mem_singleton] at unsupported
        rw [unsupported.2]
        exact ⟨nofun, List.forall_mem_singleton.mpr (.inr (.inl rfl))⟩
      · obtain ⟨text, warning, rfl⟩ := List.mem_map.mp warned
        exact ⟨nofun, List.forall_mem_singleton.mpr (.inl (Catalog.standard_warnings_one_line entry known text warning))⟩
    · rw [rules] at ruled
      obtain ⟨rule, among, checked⟩ := List.mem_flatMap.mp ruled
      obtain ⟨rule, _, rfl⟩ := List.mem_map.mp among
      obtain ⟨cause, told, rfl⟩ := List.mem_map.mp checked
      obtain ⟨own, quoted⟩ := told_by_rule told
      exact ⟨own, fun text member => .inr ((quoted text member).imp_right fun quotes => ⟨entry, rfl, quotes⟩)⟩

theorem one_line_findings (key : OneLine setting.key) :
    (∀ f ∈ (r.reviewOption target setting).findings, OneLine f.message) ↔
      ∀ entry, r.catalog.resolve? setting.key = some entry → ∀ text, setting.Quotes entry text → OneLine text := by
  constructor
  · intro plain entry resolved text quotes
    obtain ⟨f, member, quoted⟩ : ∃ f ∈ (r.reviewOption target setting).findings, text ∈ f.cause.quoted :=
      quotes_in_option rules resolved quotes
    exact (one_line_message f.cause).mp (plain f member) text quoted
  · intro plain f member
    refine (one_line_message f.cause).mpr fun text quoted => ?_
    rcases (told_of_option standard rules member).2 text quoted with line | rfl | ⟨entry, resolved, quotes⟩
    · exact line
    · exact key
    · exact plain entry resolved text quotes

end

end ReviewPolicy

end SnippetReview
