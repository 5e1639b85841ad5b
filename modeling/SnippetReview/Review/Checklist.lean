import SnippetReview.Host.Example

set_option autoImplicit false

namespace SnippetReview

inductive Priority where
  | low
  | medium
  | high
deriving DecidableEq, Repr

def Priority.name : Priority → String
  | low => "low"
  | medium => "medium"
  | high => "high"

structure Recommendation where
  priority : Priority
  option : String
  title : String
  message : String
  sample : Option String
deriving DecidableEq, Repr

structure ChecklistItem where
  option : String
  satisfiedBy : List String
  priority : Priority
  title : String
  message : String
  sample : ExampleValue

namespace ChecklistItem

def recommend (item : ChecklistItem) (host : Option Host) : Recommendation :=
  ⟨item.priority, item.option, item.title, item.message, host.map (·.renderExample item.option item.sample)⟩

end ChecklistItem

def checklist : List ChecklistItem := [
  { option := "environment", satisfiedBy := ["environment"], priority := .high
    title := "Set the environment"
    message := "Without an environment, events from production, staging and local runs are mixed together"
    sample := .string "production" },
  { option := "release", satisfiedBy := ["release"], priority := .high
    title := "Set the release"
    message := "A release links errors to deploys and enables regression and suspect commit detection"
    sample := .string "my-app@1.0.0" },
  { option := "tracesSampleRate", satisfiedBy := ["tracesSampleRate", "enableTracing", "tracesSampler"]
    priority := .medium
    title := "Enable performance monitoring"
    message := "No traces sample rate is configured, so no transactions are collected"
    sample := .number 0.2 },
  { option := "beforeSend", satisfiedBy := ["beforeSend"], priority := .medium
    title := "Add a beforeSend hook"
    message := "A beforeSend hook lets you scrub sensitive data and drop events before they leave the app"
    sample := .callback },
  { option := "ignoreErrors", satisfiedBy := ["ignoreErrors"], priority := .low
    title := "Filter known noise"
    message := "An ignore list keeps expected errors from using up your quota"
    sample := .strings ["NetworkError"] }]

end SnippetReview
