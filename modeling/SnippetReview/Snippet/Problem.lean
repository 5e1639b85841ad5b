import SnippetReview.Host.Basic
import SnippetReview.Text.Position

set_option autoImplicit false

namespace SnippetReview

open Text

inductive Problem where
  | tooLarge (size limit : Nat)
  | unsupported (host : Host)
  | neverClosed (opening : String)
  | noConfiguration (word : String)
  | nothingFound (host : Host)
  | tooDeep (key : String) (levels : Nat)
  | setAgain (key : String) (firstLine : Nat)
deriving DecidableEq, Repr

def Problem.message : Problem → String
  | tooLarge size limit => s!"Input is {size} bytes, larger than the {limit} byte limit"
  | unsupported host => s!"No extraction rules registered for {host.name}"
  | neverClosed opening => s!"Configuration block opened by '{opening}' is never closed"
  | noConfiguration word => s!"Found '{word}' but no configuration block follows it"
  | nothingFound host =>
    s!"No {host.name} Sentry initialization found; expected something like `" ++ host.sample ++ "`"
  | tooDeep key levels => s!"Value of '{key}' nests deeper than {levels} levels and was kept as raw text"
  | setAgain key firstLine =>
    s!"Option '{key}' is set more than once (first on line {firstLine}); the last value wins"

structure Notice where
  problem : Problem
  position : Option Position := none
deriving DecidableEq, Repr

namespace Notice

def message (n : Notice) : String := n.problem.message

def toText (n : Notice) : String :=
  match n.position with
  | some position => s!"{n.message} ({position.toText})"
  | none => n.message

end Notice

end SnippetReview
