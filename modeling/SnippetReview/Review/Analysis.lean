import SnippetReview.Catalog.Standard
import SnippetReview.Review.Checklist
import SnippetReview.Review.Rule
import SnippetReview.Review.Score

set_option autoImplicit false

namespace SnippetReview

structure OptionReview where
  setting : Setting
  entry : Option Entry
  findings : List Finding

structure Review where
  valid : Bool
  host : Host
  summary : String
  options : List OptionReview := []
  missingRequired : List Finding := []
  notes : List Finding := []
  recommendations : List Recommendation := []
  score : Option Nat := none
  errors : List Notice := []

namespace Review

def findings (r : Review) : List Finding := r.options.flatMap (·.findings) ++ r.missingRequired ++ r.notes

def count (r : Review) (severity : Severity) : Nat := (r.findings.filter fun f => f.severity == severity).length

def hasCode (r : Review) (code : String) : Bool := r.findings.any fun f => f.code == code

def recommends (r : Review) (key : String) : Bool := r.recommendations.any fun item => item.option == key

def countPriority (r : Review) (priority : Priority) : Nat :=
  (r.recommendations.filter fun item => item.priority == priority).length

end Review

def Settings.hasLogical (s : Settings) (key : String) : Bool :=
  let folded := Naming.fold key
  s.contains key || s.contains (Naming.snake key) || s.contains (Naming.pascal key)
    || s.keys.any fun other => Naming.fold other == folded

structure ReviewPolicy where
  catalog : Catalog
  registry : Registry := .full
  rules : List ReviewRule := Rule.standard

namespace ReviewPolicy

def renderHost (r : ReviewPolicy) (target : Host) : Option Host :=
  if r.registry.contains target then some target else none

def nativeKey (r : ReviewPolicy) (target : Host) (key : String) : String :=
  match r.renderHost target with
  | some host => host.grammar.nativeKey key
  | none => key

def isPresent (r : ReviewPolicy) (settings : Settings) (key : String) : Bool :=
  settings.hasLogical key
    || settings.keys.any fun other => ((r.catalog.resolve? other).map (·.key)) == some key

def unknown (r : ReviewPolicy) (target : Host) (key : String) : Finding :=
  let suggestion := (r.catalog.suggest? key).map fun entry => r.nativeKey target entry.key
  ⟨.unknownOption key suggestion, some key⟩

def known (r : ReviewPolicy) (target : Host) (setting : Setting) (entry : Entry) : List Finding :=
  let unsupported := if entry.appliesTo target then [] else [Cause.unsupportedHost setting.key target]
  (unsupported ++ entry.warnings.map Cause.optionNote).map (fun cause => ⟨cause, some setting.key⟩)
    ++ r.rules.flatMap fun rule => rule.check setting entry target

def reviewOption (r : ReviewPolicy) (target : Host) (setting : Setting) : OptionReview :=
  match r.catalog.resolve? setting.key with
  | none => ⟨setting, none, [r.unknown target setting.key]⟩
  | some entry => ⟨setting, some entry, r.known target setting entry⟩

def missing (r : ReviewPolicy) (target : Host) (settings : Settings) : List Finding :=
  (r.catalog.required.filter fun entry => !r.isPresent settings entry.key).map fun entry =>
    ⟨.missingRequired (r.nativeKey target entry.key), none⟩

def recommendations (r : ReviewPolicy) (target : Host) (settings : Settings) : List Recommendation :=
  (checklist.filter fun item => !item.satisfiedBy.any (r.isPresent settings)).map fun item =>
    item.recommend (r.renderHost target)

def scoreInputs (r : ReviewPolicy) (settings : Settings) (review : Review) : ScoreInputs :=
  { errors := .ofNat (review.count .error)
    warnings := .ofNat (review.count .warning)
    high := .ofNat (review.countPriority .high)
    medium := .ofNat (review.countPriority .medium)
    bonuses := .ofNat (bonusOptions.filter (r.isPresent settings)).length }

def rejected (e : Extraction) (target : Host) : Review :=
  { valid := false
    host := target
    summary := "Configuration could not be parsed, so no score was computed."
    notes := [⟨.parseFailed, none⟩]
    errors := e.errors }

def review (r : ReviewPolicy) (e : Extraction) (target : Host) : Review :=
  if !e.valid then rejected e target
  else
    let found : Review :=
      { valid := true
        host := target
        summary := ""
        options := e.settings.list.map (r.reviewOption target)
        missingRequired := r.missing target e.settings
        notes := e.warnings.map fun notice => ⟨.extractionNote notice, none⟩
        recommendations := r.recommendations target e.settings }
    let score := (r.scoreInputs e.settings found).score
    { found with
      summary := summarize (found.count .error) (found.count .warning) score
      score := some score }

end ReviewPolicy

end SnippetReview
