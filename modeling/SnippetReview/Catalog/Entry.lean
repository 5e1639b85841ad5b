import SnippetReview.Host.Basic

set_option autoImplicit false

namespace SnippetReview

inductive Category where
  | core
  | sampling
  | tracing
  | profiling
  | replay
  | privacy
  | hooks
  | filtering
  | integrations
  | transport
  | debugging
  | sessions
  | mobile
deriving DecidableEq, Repr

namespace Category

def all : List Category :=
  [core, sampling, tracing, profiling, replay, privacy, hooks, filtering, integrations, transport, debugging,
    sessions, mobile]

def label : Category → Label
  | core => ⟨"core", "Core", []⟩
  | sampling => ⟨"sampling", "Sampling", []⟩
  | tracing => ⟨"tracing", "Tracing", []⟩
  | profiling => ⟨"profiling", "Profiling", []⟩
  | replay => ⟨"replay", "Session Replay", ["replays"]⟩
  | privacy => ⟨"privacy", "Privacy", ["pii"]⟩
  | hooks => ⟨"hooks", "Hooks", ["callbacks"]⟩
  | filtering => ⟨"filtering", "Filtering", []⟩
  | integrations => ⟨"integrations", "Integrations", []⟩
  | transport => ⟨"transport", "Transport", []⟩
  | debugging => ⟨"debugging", "Debugging", ["debug"]⟩
  | sessions => ⟨"sessions", "Sessions", []⟩
  | mobile => ⟨"mobile", "Mobile", []⟩

instance : Labelled Category := ⟨"OptionCategory", all, label⟩

end Category

inductive OptionType where
  | string
  | number
  | boolean
  | array
  | callback
  | regex
  | object
deriving DecidableEq, Repr

namespace OptionType

def all : List OptionType := [string, number, boolean, array, callback, regex, object]

def label : OptionType → Label
  | string => ⟨"string", "string", []⟩
  | number => ⟨"number", "number", []⟩
  | boolean => ⟨"boolean", "boolean", ["bool"]⟩
  | array => ⟨"array", "array", ["list"]⟩
  | callback => ⟨"callback", "callback", ["function"]⟩
  | regex => ⟨"regex", "regex", []⟩
  | object => ⟨"object", "object", []⟩

instance : Labelled OptionType := ⟨"OptionType", all, label⟩

end OptionType

structure Entry where
  key : String
  displayName : String
  category : Category
  type : OptionType
  description : String
  required : Bool := false
  defaultValue : Option String := none
  sample : Option String := none
  guidance : Option String := none
  warnings : List String := []
  related : List String := []
  hosts : Option (List Host) := none
  aliases : List String := []
deriving DecidableEq, Repr

namespace Entry

def appliesTo (entry : Entry) (host : Host) : Bool :=
  match entry.hosts with
  | some hosts => hosts.contains host
  | none => true

def spellings (entry : Entry) : List String := entry.key :: entry.aliases

end Entry

end SnippetReview
