import SnippetReview.Document
import SnippetReview.Review.Analysis

set_option autoImplicit false

namespace SnippetReview

mutual

def Value.toDocument : Value → Document
  | .string text => .record [("kind", .text "string"), ("value", .text text)]
  | .number value => .record [("kind", .text "number"), ("value", .decimal value)]
  | .boolean value => .record [("kind", .text "boolean"), ("value", .boolean value)]
  | .null => .record [("kind", .text "null")]
  | .array items => .record [("kind", .text "array"), ("value", .list (Value.toDocuments items))]
  | .raw text => .record [("kind", .text "raw"), ("value", .text text)]

def Value.toDocuments : List Value → List Document
  | [] => []
  | item :: rest => item.toDocument :: Value.toDocuments rest

end

def Setting.toDocument (s : Setting) : Document :=
  .record [("key", .text s.key), ("value", s.value.toDocument), ("raw", .text s.raw),
    ("value_type", .text s.type.name), ("line", .integer s.line)]

def Text.Position.toDocument (p : Text.Position) : Document :=
  .record [("line", .integer p.line), ("column", .integer p.column)]

def Notice.toDocument (n : Notice) : Document :=
  .record ([("message", .text n.message)] ++ Document.optionalField "position" (n.position.map (·.toDocument)))

def Extraction.toDocument (e : Extraction) : Document :=
  .record [("syntax", .text e.host.id), ("valid", .boolean e.valid),
    ("options", .record (e.settings.list.map fun s => (s.key, s.toDocument))),
    ("source", .text (String.ofList e.source)), ("errors", .list (e.errors.map (·.toDocument))),
    ("warnings", .list (e.warnings.map (·.toDocument)))]

def Entry.fields (e : Entry) : List (String × Document) :=
  [("key", .text e.key), ("display_name", .text e.displayName), ("description", .text e.description),
    ("option_type", .text e.type.label.id), ("category", .text e.category.label.id), ("required", .boolean e.required)]
    ++ Document.optionalField "default_value" (e.defaultValue.map .text)
    ++ Document.optionalField "example" (e.sample.map .text)
    ++ Document.optionalField "guidance" (e.guidance.map .text)
    ++ Document.textsField "warnings" e.warnings
    ++ Document.textsField "related" e.related
    ++ Document.optionalField "syntaxes" (e.hosts.map fun hosts => Document.texts (hosts.map Host.id))
    ++ Document.textsField "aliases" e.aliases

def Entry.toDocument (e : Entry) : Document := .record e.fields

def Finding.toDocument (f : Finding) : Document :=
  .record ([("severity", .text f.severity.name), ("code", .text f.code), ("message", .text f.message)]
    ++ Document.optionalField "option" (f.option.map .text))

def Recommendation.toDocument (r : Recommendation) : Document :=
  .record ([("priority", .text r.priority.name), ("option", .text r.option), ("title", .text r.title),
    ("message", .text r.message)] ++ Document.optionalField "example" (r.sample.map .text))

def OptionReview.toDocument (r : OptionReview) : Document :=
  .record ([("option", r.setting.toDocument)] ++ Document.optionalField "definition" (r.entry.map (·.toDocument))
    ++ [("diagnostics", .list (r.findings.map (·.toDocument)))])

def Review.toDocument (r : Review) : Document :=
  .record [("valid", .boolean r.valid), ("syntax", .text r.host.id), ("summary", .text r.summary),
    ("options", .list (r.options.map (·.toDocument))),
    ("missing_required", .list (r.missingRequired.map (·.toDocument))),
    ("diagnostics", .list (r.notes.map (·.toDocument))),
    ("recommendations", .list (r.recommendations.map (·.toDocument))),
    ("score", match r.score with
      | some score => .integer score
      | none => .null),
    ("errors", .list (r.errors.map (·.toDocument)))]

structure ListedEntry where
  entry : Entry
  nativeKey : Option String

def ListedEntry.toDocument (e : ListedEntry) : Document :=
  .record (e.entry.fields ++ Document.optionalField "native_key" (e.nativeKey.map .text))

def Host.toDocument (h : Host) : Document :=
  .record [("id", .text h.id), ("name", .text h.name), ("extensions", Document.texts h.extensions), ("example", .text h.sample)]

end SnippetReview
