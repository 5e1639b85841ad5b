import SnippetReview.Catalog.Entry
import SnippetReview.Catalog.Similarity
import SnippetReview.Naming

set_option autoImplicit false

namespace SnippetReview

inductive CatalogError where
  | duplicateKey (key : String)
  | aliasCollision (spelling existing : String)
deriving DecidableEq, Repr

def CatalogError.message : CatalogError → String
  | duplicateKey key => s!"Duplicate dictionary key: {key}"
  | aliasCollision spelling existing => s!"Alias '{spelling}' collides with existing option '{existing}'"

structure Catalog where
  entries : List Entry
  aliases : List (String × Entry)
  folded : List (String × Entry)

namespace Catalog

def repeatedKey? (seen : List String) : List Entry → Option String
  | [] => none
  | entry :: rest => if seen.contains entry.key then some entry.key else repeatedKey? (entry.key :: seen) rest

def entryOf? (entries : List Entry) (key : String) : Option Entry := entries.find? fun entry => entry.key == key

-- Enters an alias under its canonical form, which no key or alias may have.
def addAlias (entries : List Entry) (entry : Entry) (table : List (String × Entry)) (spelling : String) :
    Except CatalogError (List (String × Entry)) :=
  let canonical := Naming.canonical spelling
  match (entryOf? entries canonical).or (table.lookup canonical) with
  | some existing => .error (.aliasCollision spelling existing.key)
  | none => .ok ((canonical, entry) :: table)

-- Enters a spelling under its folded form, which no other entry may have.
def addFolded (entry : Entry) (table : List (String × Entry)) (spelling : String) :
    Except CatalogError (List (String × Entry)) :=
  let folded := Naming.fold spelling
  match table.lookup folded with
  | some existing =>
    if existing.key == entry.key then .ok table else .error (.aliasCollision spelling existing.key)
  | none => .ok ((folded, entry) :: table)

def aliasTable (entries : List Entry) : Except CatalogError (List (String × Entry)) :=
  entries.foldlM (fun table entry => entry.aliases.foldlM (addAlias entries entry) table) []

def foldedTable (entries : List Entry) : Except CatalogError (List (String × Entry)) :=
  entries.foldlM (fun table entry => entry.spellings.foldlM (addFolded entry) table) []

def ofEntries (entries : List Entry) : Except CatalogError Catalog :=
  match repeatedKey? [] entries with
  | some key => .error (.duplicateKey key)
  | none => do
    let aliases ← aliasTable entries
    let folded ← foldedTable entries
    .ok ⟨entries, aliases, folded⟩

def get? (c : Catalog) (key : String) : Option Entry := entryOf? c.entries key

-- The entry that a spelling means: by its key, its canonical form, an alias, or its folded form.
def resolve? (c : Catalog) (key : String) : Option Entry :=
  let canonical := Naming.canonical key
  (c.get? key).or ((c.get? canonical).or ((c.aliases.lookup canonical).or (c.folded.lookup (Naming.fold key))))

def suggestionThreshold : Float := 0.85

-- Keeps the better of two scored entries, the later one if they are equal.
def better (best : Option (Float × Entry)) (next : Float × Entry) : Option (Float × Entry) :=
  match best with
  | some held => if next.1 < held.1 then some held else some next
  | none => some next

def suggest? (c : Catalog) (key : String) : Option Entry :=
  let wanted := Naming.foldChars key.toList
  let scored := c.entries.map fun entry => (Similarity.similarity wanted (Naming.foldChars entry.key.toList), entry)
  ((scored.filter fun pair => suggestionThreshold ≤ pair.1).foldl better none).map (·.2)

def inCategory (c : Catalog) (category : Category) : List Entry := c.entries.filter fun entry => entry.category == category

def required (c : Catalog) : List Entry := c.entries.filter (·.required)

def search (c : Catalog) (term : String) : List Entry :=
  let term := (Text.lower (Text.trimString term)).toList
  let occursIn (s : String) : Bool := (Pattern.exactly term).matchesIn (Text.lower s).toList
  c.entries.filter fun entry => occursIn entry.key || occursIn entry.displayName || occursIn entry.description

def keys (c : Catalog) : List String := c.entries.map (·.key)

def size (c : Catalog) : Nat := c.entries.length

end Catalog

end SnippetReview
