import SnippetReview.Snippet.Setting
import Std.Data.HashMap

/- Settings while they are collected: a table that finds a key at once, however many there are.
   `toSettings_put` and `get?_eq` say that it does what `Settings` does. -/

set_option autoImplicit false

namespace SnippetReview

structure SettingTable where
  entries : Array Setting
  places : Std.HashMap String Nat
  nodup : (Settings.mk entries.toList).keys.Nodup
  places_eq : ∀ key : String, places[key]? = (Settings.mk entries.toList).keys.idxOf? key

namespace SettingTable

def empty : SettingTable := ⟨#[], {}, by simp [Settings.keys], by simp [Settings.keys]⟩

def toSettings (t : SettingTable) : Settings := ⟨t.entries.toList⟩

def get? (t : SettingTable) (key : String) : Option Setting :=
  match t.places[key]? with
  | some place => t.entries[place]?
  | none => none

theorem idxOf?_append_singleton {keys : List String} {new : String} {size : Nat} (fresh : new ∉ keys)
    (length : keys.length = size) (key : String) :
    (keys ++ [new]).idxOf? key = if new == key then some size else keys.idxOf? key := by
  rw [List.idxOf?, List.findIdx?_append, ← List.idxOf?]
  split
  next same =>
    rw [← beq_iff_eq.1 same, List.idxOf?_eq_none_iff.2 fresh]
    simp [length]
  next other => simp [other]

theorem getElem?_idxOf? (list : List Setting) (key : String) :
    ((list.map (·.key)).idxOf? key).bind (list[·]?) = list.find? fun setting => setting.key == key := by
  induction list with
  | nil => rfl
  | cons first rest ih =>
    simp only [List.map_cons, List.idxOf?_cons, List.find?_cons]
    cases same : first.key == key with
    | true => simp
    | false =>
      rw [← ih]
      cases (rest.map (·.key)).idxOf? key <;> simp

theorem get?_eq (t : SettingTable) (key : String) : t.get? key = t.toSettings.get? key := by
  unfold get? Settings.get? toSettings
  rw [t.places_eq, ← getElem?_idxOf?]
  simp only [Settings.keys]
  cases (t.entries.toList.map (·.key)).idxOf? key <;> simp

theorem set_idxOf? {list : List Setting} {setting : Setting} {place : Nat} (nodup : (list.map (·.key)).Nodup)
    (found : (list.map (·.key)).idxOf? setting.key = some place) :
    list.set place setting = list.map fun old => if old.key == setting.key then setting else old := by
  induction list generalizing place with
  | nil => simp at found
  | cons first rest ih =>
    simp only [List.map_cons, List.nodup_cons, List.idxOf?_cons] at nodup found
    cases same : first.key == setting.key with
    | true =>
      simp only [same, if_true, Option.some.injEq] at found
      subst found
      have other : ∀ old ∈ rest, (old.key == setting.key) = false := by
        intro old member
        rw [beq_eq_false_iff_ne]
        intro equal
        exact nodup.1 (List.mem_map.2 ⟨old, member, equal.trans (beq_iff_eq.1 same).symm⟩)
      simp only [List.set_cons_zero, List.map_cons, same, if_true]
      congr 1
      symm
      calc rest.map (fun old => if old.key == setting.key then setting else old)
          = rest.map id := List.map_congr_left fun old member => by simp [other old member]
        _ = rest := List.map_id rest
    | false =>
      rw [same] at found
      simp only [Bool.false_eq_true, if_false, Option.map_eq_some_iff] at found
      obtain ⟨before, foundBefore, rfl⟩ := found
      simp only [List.set_cons_succ, List.map_cons, same, Bool.false_eq_true, if_false, ih nodup.2 foundBefore]

theorem mem_keys_iff (t : SettingTable) (key : String) : key ∈ t.toSettings.keys ↔ t.places[key]? ≠ none := by
  rw [t.places_eq, ne_eq, List.idxOf?_eq_none_iff]
  simp [toSettings]

theorem toList_set {t : SettingTable} {setting : Setting} {place : Nat}
    (found : t.places[setting.key]? = some place) :
    Settings.mk (t.entries.setIfInBounds place setting).toList = t.toSettings.put setting := by
  have member : setting.key ∈ t.toSettings.keys := by simp [mem_keys_iff, found]
  rw [Settings.put, if_pos (Settings.contains_iff.2 member), Array.toList_setIfInBounds]
  rw [t.places_eq] at found
  rw [set_idxOf? t.nodup found]
  rfl

theorem toList_push {t : SettingTable} {setting : Setting} (found : t.places[setting.key]? = none) :
    Settings.mk (t.entries.push setting).toList = t.toSettings.put setting := by
  have member : setting.key ∉ t.toSettings.keys := by simp [mem_keys_iff, found]
  rw [Settings.put, if_neg (fun contained => member (Settings.contains_iff.1 contained)), Array.toList_push]
  rfl

def put (t : SettingTable) (setting : Setting) : SettingTable :=
  match found : t.places[setting.key]? with
  | some place =>
    { entries := t.entries.setIfInBounds place setting
      places := t.places
      nodup := by
        rw [toList_set found, Settings.keys_put, if_pos (by simp [mem_keys_iff, found])]
        exact t.nodup
      places_eq := by
        rw [toList_set found, Settings.keys_put, if_pos (by simp [mem_keys_iff, found])]
        exact t.places_eq }
  | none =>
    let count := t.entries.size
    { entries := t.entries.push setting
      places := t.places.insert setting.key count
      nodup := by
        have member : setting.key ∉ t.toSettings.keys := by simp [mem_keys_iff, found]
        rw [toList_push found, Settings.keys_put, if_neg member]
        exact List.nodup_append.2 ⟨t.nodup, by simp, by
          intro key old other new equal
          rw [List.mem_singleton] at new
          exact member (new ▸ equal ▸ old)⟩
      places_eq := by
        intro key
        have member : setting.key ∉ t.toSettings.keys := by simp [mem_keys_iff, found]
        rw [toList_push found, Settings.keys_put, if_neg member, Std.HashMap.getElem?_insert, t.places_eq]
        exact (idxOf?_append_singleton member (by simp [count, toSettings, Settings.keys]) key).symm }

theorem toSettings_put (t : SettingTable) (setting : Setting) :
    (t.put setting).toSettings = t.toSettings.put setting := by
  unfold put
  split
  · exact toList_set (by assumption)
  · exact toList_push (by assumption)

end SettingTable
end SnippetReview
