import Mathlib
import SnippetReview.Host.Example
import SnippetReview.Proofs.Snippet.Literals

set_option autoImplicit false

namespace SnippetReview

open Text

inductive PlainValue where
  | string (text : String) (plain : PlainText text.toList)
  | strings (items : List String) (plain : ∀ item ∈ items, PlainText item.toList)
  | boolean (value : Bool)

namespace PlainValue

def example' : PlainValue → ExampleValue
  | string text _ => .string text
  | strings items _ => .strings items
  | boolean value => .boolean value

def value : PlainValue → Value
  | string text _ => .string text
  | strings items _ => .array (items.map .string)
  | boolean value => .boolean value

def type : PlainValue → ValueType
  | string _ _ => .string
  | strings _ _ => .array
  | boolean _ => .boolean

end PlainValue

-- The characters of a value on its own level: neither separators nor assignment signs nor closing brackets.
def isInert (c : Char) : Bool := !isClosing c && !([',', ';', ':', '=', '\n'].contains c)

namespace Host

def mark : Host → Char
  | ruby | php | dart => '\''
  | _ => '"'

def suffix : Host → List Char
  | rust => ".into()".toList
  | _ => []

def quoted (host : Host) (content : List Char) : List Char := host.mark :: (content ++ host.mark :: host.suffix)

def listPrefix : Host → List Char
  | go => "[]string".toList
  | java => "List.of".toList
  | kotlin => "listOf".toList
  | dotnet => "new[] ".toList
  | rust => "vec!".toList
  | _ => []

def listOpening : Host → Char
  | go | dotnet => '\x7b'
  | java | kotlin => '('
  | _ => '['

def listClosing : Host → Char
  | go | dotnet => '\x7d'
  | java | kotlin => ')'
  | _ => ']'

def listPad : Host → List Char
  | dotnet => [' ']
  | _ => []

def elementParts (host : Host) (lead : List Char) : List (List Char) → Part × List Part
  | [] => (⟨lead, [], host.listPad⟩, [])
  | [content] => (⟨lead, host.quoted content, host.listPad⟩, [])
  | content :: next :: rest =>
    let later := host.elementParts [' '] (next :: rest)
    (⟨lead, host.quoted content, []⟩, later.1 :: later.2)

def interior (host : Host) (contents : List (List Char)) : List Char :=
  let parts := host.elementParts host.listPad contents
  Part.join ',' parts.1 parts.2

def list (host : Host) (contents : List (List Char)) : List Char :=
  host.listPrefix ++ host.listOpening :: (host.interior contents ++ [host.listClosing])

theorem render_string_eq (host : Host) (text : String) : (host.renderString text).toList = host.quoted text.toList := by
  cases host <;>
  · unfold renderString
    simp only [String.toList_append]
    rfl

theorem join_element_parts (host : Host) (lead : List Char) (contents : List (List Char)) :
    Part.join ',' (host.elementParts lead contents).1 (host.elementParts lead contents).2 =
      lead ++ [',', ' '].intercalate (contents.map host.quoted) ++ host.listPad := by
  induction contents generalizing lead with
  | nil => simp [elementParts, Part.join, Part.text]
  | cons content rest ih =>
    cases rest with
    | nil => simp [elementParts, Part.join, Part.text]
    | cons next rest =>
      rw [elementParts, Part.join, ih]
      simp [Part.text, List.intercalate_cons_cons]

theorem render_list_eq (host : Host) (items : List String) :
    (host.renderList (items.map host.renderString)).toList = host.list (items.map String.toList) := by
  have elements : (", ".intercalate (items.map host.renderString)).toList =
      [',', ' '].intercalate ((items.map String.toList).map host.quoted) := by
    rw [String.toList_intercalate, List.map_map, List.map_map]
    congr 1
    exact List.map_congr_left fun text _ => host.render_string_eq text
  rw [list, interior, join_element_parts, ← elements]
  generalize items.map host.renderString = rendered
  cases host <;>
  · unfold renderList
    simp only [String.toList_append, List.append_assoc]
    rfl

theorem quotes_with_mark (host : Host) : host.grammar.QuotesWith host.mark := by
  cases host <;> exact ⟨by decide, by decide, by decide, by decide, by decide, by decide⟩

theorem plain_quoted (host : Host) (rest : List Char) : Inferred.plain host.grammar (host.mark :: rest) = true := by
  cases host <;> cbv

theorem spreadless_quoted (host : Host) (rest : List Char) : isSpread host.grammar (host.mark :: rest) = false := by
  cases host <;> rfl

theorem plain_list (host : Host) (rest : List Char) :
    Inferred.plain host.grammar (host.listPrefix ++ host.listOpening :: rest) = true := by
  cases host <;>
  · unfold listPrefix listOpening
    cbv

theorem list_opens (host : Host) (rest : List Char) : (host.grammar.lists.head?.bind fun shape =>
    shape.opening.find? (host.listPrefix ++ host.listOpening :: rest)).map (·.stop.rest) = some rest := by
  cases host <;>
  · unfold listPrefix listOpening
    cbv

theorem list_closes (host : Host) : host.grammar.lists.head?.map (·.closing) = some host.listClosing := by
  cases host <;> rfl

theorem unwrapped (host : Host) : ∀ wrapper ∈ host.grammar.optionalWrapper, ∀ rest,
    wrapper.isPrefixOf (host.mark :: rest) = false ∧
      wrapper.isPrefixOf (host.listPrefix ++ host.listOpening :: rest) = false := by
  cases host
  case rust =>
    intro wrapper same rest
    rw [Option.mem_def] at same
    injection same with same
    rw [← same]
    exact ⟨rfl, rfl⟩
  all_goals exact nofun

end Host

end SnippetReview
