import SnippetReview.Text.Blank
import SnippetReview.Text.Case

set_option autoImplicit false

namespace SnippetReview

structure Label where
  id : String
  name : String
  aliases : List String := []

def Label.answersTo (label : Label) (word : String) : Bool :=
  word == label.id || word == Text.lower label.name || label.aliases.contains word

universe u

class Labelled (α : Type u) where
  setName : String
  members : List α
  label : α → Label

namespace Labelled

variable {α : Type u} [Labelled α]

def id (x : α) : String := (label x).id

def name (x : α) : String := (label x).name

def named? (word : String) : Option α :=
  let word := Text.lower (Text.trimString word)
  members.find? fun x => (label x).answersTo word

variable (α) in
def invalidMessage (word : String) : String :=
  let valid := ", ".intercalate ((members (α := α)).map id)
  s!"Invalid {setName α}: {word}. Valid options: {valid}"

variable (α) in
def unknownMessage (word : String) : String := s!"unknown {setName α} '{word}'"

end Labelled

end SnippetReview
