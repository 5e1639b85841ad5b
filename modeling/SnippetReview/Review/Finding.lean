import SnippetReview.Catalog.Entry
import SnippetReview.Decimal.Notation
import SnippetReview.Snippet.Problem
import SnippetReview.Snippet.Value

set_option autoImplicit false

namespace SnippetReview

inductive Severity where
  | info
  | warning
  | error
deriving DecidableEq, Repr

def Severity.name : Severity → String
  | info => "info"
  | warning => "warning"
  | error => "error"

inductive Cause where
  | parseFailed
  | missingRequired (nativeKey : String)
  | extractionNote (notice : Notice)
  | unknownOption (key : String) (suggestion : Option String)
  | unsupportedHost (key : String) (host : Host)
  | optionNote (text : String)
  | dsnEmpty
  | dsnInsecure (scheme : String)
  | dsnFormat
  | rateOutOfRange (key : String) (rate : Float)
  | tracesQuota (key : String)
  | debugEnabled
  | piiEnabled
  | typeMismatch (key : String) (expected : OptionType) (actual : ValueType) (shown : String)
  | reported (severity : Severity) (code message : String)

namespace Cause

def severity : Cause → Severity
  | parseFailed | missingRequired _ | dsnInsecure _ | rateOutOfRange _ _ => .error
  | extractionNote _ | optionNote _ => .info
  | unknownOption _ _ | unsupportedHost _ _ | dsnEmpty | dsnFormat | tracesQuota _ | debugEnabled | piiEnabled
  | typeMismatch _ _ _ _ => .warning
  | reported severity _ _ => severity

def code : Cause → String
  | parseFailed => "parse-failed"
  | missingRequired _ => "missing-required"
  | extractionNote _ => "extraction-note"
  | unknownOption _ _ => "unknown-option"
  | unsupportedHost _ _ => "unsupported-syntax"
  | optionNote _ => "option-note"
  | dsnEmpty => "dsn-format"
  | dsnInsecure _ => "dsn-insecure"
  | dsnFormat => "dsn-format"
  | rateOutOfRange _ _ => "sample-rate-range"
  | tracesQuota _ => "traces-quota"
  | debugEnabled => "debug-enabled"
  | piiEnabled => "pii-enabled"
  | typeMismatch _ _ _ _ => "type-mismatch"
  | reported _ code _ => code

def message : Cause → String
  | parseFailed => "Failed to parse configuration"
  | missingRequired nativeKey => s!"Required option '{nativeKey}' is not set"
  | extractionNote notice => notice.toText
  | unknownOption key suggestion =>
    let hint := match suggestion with
      | some other => s!". Did you mean '{other}'?"
      | none => ""
    s!"Unknown option '{key}'; it may be deprecated or specific to another SDK" ++ hint
  | unsupportedHost key host => s!"'{key}' is not an option of the {host.name} SDK"
  | optionNote text => text
  | dsnEmpty => "DSN is empty, so the SDK will not send any events"
  | dsnInsecure scheme =>
    s!"DSN uses the insecure '{scheme}' scheme; use https:// so events are encrypted in transit"
  | dsnFormat => "DSN does not look like https://<public-key>@<host>/<project-id>"
  | rateOutOfRange key rate => s!"{key} is " ++ Decimal.plain rate ++ " but must be between 0.0 and 1.0"
  | tracesQuota key =>
    s!"{key} of 1.0 sends 100% of transactions, which can exhaust your quota in production; consider 0.1 to 0.2"
  | debugEnabled => "Debug mode is on; disable it in production to avoid noisy SDK logging"
  | piiEnabled =>
    "Sending default PII attaches IP addresses, cookies and user data to events; "
      ++ "make sure this is allowed by your privacy policy"
  | typeMismatch key expected actual shown =>
    s!"{key} expects a {expected.label.name} but is set to a {actual.name} ({shown})"
  | reported _ _ message => message

end Cause

structure Finding where
  cause : Cause
  option : Option String := none

namespace Finding

def severity (f : Finding) : Severity := f.cause.severity

def code (f : Finding) : String := f.cause.code

def message (f : Finding) : String := f.cause.message

end Finding

end SnippetReview
