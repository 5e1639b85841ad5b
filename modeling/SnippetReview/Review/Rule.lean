import SnippetReview.Naming
import SnippetReview.Review.Finding
import SnippetReview.Snippet.Extraction

set_option autoImplicit false

namespace SnippetReview

open Text

inductive Rule where
  | dsn
  | sampleRateRange
  | tracesQuota
  | debugEnabled
  | piiEnabled
  | typeMismatch
deriving DecidableEq, Repr

namespace Rule

def standard : List Rule := [dsn, sampleRateRange, tracesQuota, debugEnabled, piiEnabled, typeMismatch]

def name : Rule → String
  | dsn => "Dsn"
  | sampleRateRange => "SampleRateRange"
  | tracesQuota => "TracesQuota"
  | debugEnabled => "DebugEnabled"
  | piiEnabled => "PiiEnabled"
  | typeMismatch => "TypeMismatch"

def named? (word : String) : Option Rule := standard.find? fun rule => rule.name == word

open Pattern in
def dsnShape : Pattern :=
  let isSchemeStart (c : Char) : Bool := 'a' ≤ c && c ≤ 'z'
  let isSchemeChar (c : Char) : Bool := isSchemeStart c || c.isDigit || c == '+' || c == '.' || c == '-'
  let part (stops : List Char) : Pattern := many1 fun c => !stops.contains c && !isBlank c
  textStart ++ one isSchemeStart ++ many isSchemeChar ++ lit "://" ++ part ['@', '/'] ++ lit "@" ++ part ['/']
    ++ lit "/" ++ optional (many (fun c => !isBlank c) ++ lit "/") ++ many1 isDecimalDigit ++ optional (lit "/")
    ++ textEnd

def scheme? (dsn : List Char) : Option (List Char) :=
  ((Pattern.lit "://").find? dsn).map fun found => takeBytes found.start.offset dsn

def checkDsn (dsn : List Char) : List Cause :=
  if dsn.isEmpty then [.dsnEmpty]
  else
    let insecure :=
      match scheme? dsn with
      | some scheme => if scheme.map Char.toLower == "https".toList then [] else [.dsnInsecure (String.ofList scheme)]
      | none => []
    insecure ++ if dsnShape.matchesIn (dsn.map Char.toLower) then [] else [.dsnFormat]

-- Whether a literal of one type may stand where an option takes another. Expressions and null may stand
-- anywhere, for their type is unknown.
def accepts (expected : OptionType) : ValueType → Bool
  | .expression | .null => true
  | .string => expected = .string || expected = .regex
  | .number => expected = .number
  | .boolean => expected = .boolean
  | .array => expected = .array
  | .callback => expected = .callback || expected = .object
  | .regex => expected = .regex || expected = .string
  | .object => expected = .object || expected = .callback

def shown (setting : Setting) : String :=
  match setting.value with
  | .raw _ | .array _ => setting.raw
  | value => value.toText

def causes (rule : Rule) (setting : Setting) (entry : Entry) : List Cause :=
  match rule with
  | dsn =>
    match entry.key == "dsn", setting.value.asString? with
    | true, some text => checkDsn (trim text.toList)
    | _, _ => []
  | sampleRateRange =>
    match "samplerate".toList.isSuffixOf (Naming.foldChars entry.key.toList), setting.value.asNumber? with
    | true, some rate => if 0.0 ≤ rate && rate ≤ 1.0 then [] else [.rateOutOfRange setting.key rate]
    | _, _ => []
  | tracesQuota =>
    match entry.key == "tracesSampleRate", setting.value.asNumber? with
    | true, some rate => if rate == 1.0 then [.tracesQuota setting.key] else []
    | _, _ => []
  | debugEnabled =>
    if entry.key == "debug" && setting.value.asBoolean? == some true then [.debugEnabled] else []
  | piiEnabled =>
    if entry.key == "sendDefaultPii" && setting.value.asBoolean? == some true then [.piiEnabled] else []
  | typeMismatch =>
    if accepts entry.type setting.type then []
    else [.typeMismatch setting.key entry.type setting.type (shown setting)]

def check (rule : Rule) (setting : Setting) (entry : Entry) : List Finding :=
  (rule.causes setting entry).map fun cause => ⟨cause, some setting.key⟩

end Rule

inductive ReviewRule where
  | known (rule : Rule)
  | added (check : Setting → Entry → Host → List Finding)

namespace ReviewRule

instance : Coe (List Rule) (List ReviewRule) := ⟨List.map known⟩

def check (rule : ReviewRule) (setting : Setting) (entry : Entry) (target : Host) : List Finding :=
  match rule with
  | known rule => rule.check setting entry
  | added check => check setting entry target

end ReviewRule

end SnippetReview
