import SnippetReview.Snippet.Value

set_option autoImplicit false

namespace SnippetReview

structure Setting where
  key : String
  value : Value
  raw : String
  type : ValueType
  line : Nat

structure Settings where
  list : List Setting := []

namespace Settings

def get? (s : Settings) (key : String) : Option Setting := s.list.find? fun setting => setting.key == key

def contains (s : Settings) (key : String) : Bool := (s.get? key).isSome

def keys (s : Settings) : List String := s.list.map (·.key)

def put (s : Settings) (setting : Setting) : Settings :=
  if s.contains setting.key then
    ⟨s.list.map fun old => if old.key == setting.key then setting else old⟩
  else ⟨s.list ++ [setting]⟩

theorem get?_eq_none_iff {s : Settings} {key : String} : s.get? key = none ↔ key ∉ s.keys := by
  simp [get?, keys]

theorem contains_iff {s : Settings} {key : String} : s.contains key ↔ key ∈ s.keys := by
  simp [contains, get?, keys]

theorem keys_put (s : Settings) (setting : Setting) :
    (s.put setting).keys = if setting.key ∈ s.keys then s.keys else s.keys ++ [setting.key] := by
  unfold put
  simp only [contains_iff]
  split
  · simp only [keys, List.map_map]
    apply List.map_congr_left
    intro old _
    simp only [Function.comp]
    split <;> simp_all
  · simp [keys]

theorem list_put_fresh {s : Settings} {setting : Setting} (fresh : setting.key ∉ s.keys) :
    (s.put setting).list = s.list ++ [setting] := by
  have absent : ¬ s.contains setting.key = true := fun present => fresh (contains_iff.mp present)
  simp [put, absent]

end Settings

end SnippetReview
