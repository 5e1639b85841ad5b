import SnippetReview.Catalog.Table

set_option autoImplicit false

namespace SnippetReview.Catalog

section

variable {σ α ε : Type} {step : σ → α → Except ε σ}

theorem bind_ok {β : Type} {action : Except ε α} {next : α → Except ε β} {output : β}
    (accepted : action >>= next = .ok output) : ∃ value, action = .ok value ∧ next value = .ok output := by
  cases action with
  | error reason => cases accepted
  | ok value => exact ⟨value, rfl, accepted⟩

variable {p : List α → σ → Prop}

theorem run_keeps
    (keeps : ∀ {done item before after}, p done before → step before item = .ok after → p (done ++ [item]) after)
    {rest : List α} (done : List α) {before after : σ} (start : p done before) (run : rest.foldlM step before = .ok after) :
    p (done ++ rest) after := by
  induction rest generalizing done before with
  | nil =>
    cases run
    rwa [List.append_nil]
  | cons item rest ih =>
    rw [List.foldlM_cons] at run
    obtain ⟨middle, taken, later⟩ := bind_ok run
    have whole := ih (done ++ [item]) (keeps start taken) later
    rwa [List.append_assoc, List.singleton_append] at whole

-- If each step accepts the items that fit by themselves and with those before them, a run accepts the lists
-- whose items fit by themselves and with each other.
theorem run_accepts_iff {q : α → Prop} {r : α → α → Prop}
    (keeps : ∀ {done item before after}, p done before → step before item = .ok after → p (done ++ [item]) after)
    (accepts : ∀ {done item before}, p done before →
      ((∃ after, step before item = .ok after) ↔ q item ∧ ∀ earlier ∈ done, r earlier item))
    {rest : List α} (done : List α) {before : σ} (start : p done before) :
    (∃ after, rest.foldlM step before = .ok after) ↔
      rest.Pairwise r ∧ ∀ item ∈ rest, q item ∧ ∀ earlier ∈ done, r earlier item := by
  induction rest generalizing done before with
  | nil => exact ⟨fun _ => ⟨.nil, fun _ member => nomatch member⟩, fun _ => ⟨before, rfl⟩⟩
  | cons item rest ih =>
    rw [List.foldlM_cons, List.pairwise_cons, List.forall_mem_cons]
    -- To the rest the item is one more that is done, so the rest is held against it as well.
    constructor
    · rintro ⟨after, run⟩
      obtain ⟨middle, taken, later⟩ := bind_ok run
      obtain ⟨pairwise, each⟩ := (ih (done ++ [item]) (keeps start taken)).mp ⟨after, later⟩
      refine ⟨⟨fun next member => (each next member).2 item (by simp), pairwise⟩, (accepts start).mp ⟨middle, taken⟩, ?_⟩
      exact fun next member =>
        ⟨(each next member).1, fun earlier known => (each next member).2 earlier (List.mem_append_left _ known)⟩
    · rintro ⟨⟨first, pairwise⟩, fits, each⟩
      obtain ⟨middle, taken⟩ := (accepts start).mpr fits
      rw [taken]
      refine (ih (done ++ [item]) (keeps start taken)).mpr ⟨pairwise, fun next member => ⟨(each next member).1, ?_⟩⟩
      intro earlier known
      rcases List.mem_append.mp known with before | last
      · exact (each next member).2 earlier before
      · rw [List.mem_singleton.mp last]
        exact first next member

theorem run_error {reason : ε} {rest : List α} {before : σ} (run : rest.foldlM step before = .error reason) :
    ∃ item middle, step middle item = .error reason := by
  induction rest generalizing before with
  | nil => cases run
  | cons item rest ih =>
    rw [List.foldlM_cons] at run
    cases taken : step before item with
    | error stopped =>
      rw [taken] at run
      cases run
      exact ⟨item, before, taken⟩
    | ok middle =>
      rw [taken] at run
      exact ih run

end

def spelled (names : Entry → List String) (entries : List Entry) : List (Entry × String) :=
  entries.flatMap fun entry => (names entry).map fun spelling => (entry, spelling)

theorem mem_spelled {names : Entry → List String} {entries : List Entry} {entry : Entry} {spelling : String} :
    (entry, spelling) ∈ spelled names entries ↔ entry ∈ entries ∧ spelling ∈ names entry := by
  simp [spelled]

theorem fill_eq_run (names : Entry → List String)
    (add : Entry → List (String × Entry) → String → Except CatalogError (List (String × Entry)))
    (entries : List Entry) (table : List (String × Entry)) :
    entries.foldlM (fun table entry => (names entry).foldlM (add entry) table) table =
      (spelled names entries).foldlM (fun table pair => add pair.1 table pair.2) table := by
  induction entries generalizing table with
  | nil => rfl
  | cons entry rest ih =>
    rw [spelled, List.flatMap_cons, List.foldlM_append, List.foldlM_map, List.foldlM_cons]
    exact congrArg _ (funext ih)

def Sound (normal : String → String) (done : List (Entry × String)) (table : List (String × Entry)) : Prop :=
  ∀ form entry, table.lookup form = some entry → ∃ spelling, (entry, spelling) ∈ done ∧ normal spelling = form

def Complete (normal : String → String) (done : List (Entry × String)) (table : List (String × Entry)) : Prop :=
  ∀ entry spelling, (entry, spelling) ∈ done → ∃ found, table.lookup (normal spelling) = some found ∧ found.key = entry.key

structure Faithful (normal : String → String) (done : List (Entry × String)) (table : List (String × Entry)) : Prop where
  sound : Sound normal done table
  complete : Complete normal done table

theorem Faithful.empty (normal : String → String) : Faithful normal [] [] :=
  ⟨fun _ _ here => (nomatch here), fun _ _ member => (nomatch member)⟩

section

variable {normal : String → String} {done : List (Entry × String)} {table : List (String × Entry)} {entry : Entry}
  {spelling : String}

theorem Sound.weaken (sound : Sound normal done table) (more : List (Entry × String)) : Sound normal (done ++ more) table := by
  intro form found here
  obtain ⟨spelling, member, same⟩ := sound form found here
  exact ⟨spelling, List.mem_append_left more member, same⟩

theorem Sound.enter (sound : Sound normal done table) :
    Sound normal (done ++ [(entry, spelling)]) ((normal spelling, entry) :: table) := by
  intro form found here
  rw [List.lookup_cons] at here
  by_cases same : form = normal spelling
  · rw [beq_iff_eq.mpr same] at here
    cases here
    exact ⟨spelling, by simp, same.symm⟩
  · rw [beq_eq_false_iff_ne.mpr same] at here
    exact sound.weaken _ form found here

-- A new form hides none of the forms before it.
theorem Complete.enter (complete : Complete normal done table) (fresh : table.lookup (normal spelling) = none) :
    Complete normal (done ++ [(entry, spelling)]) ((normal spelling, entry) :: table) := by
  intro other written member
  rw [List.lookup_cons]
  rcases List.mem_append.mp member with earlier | last
  · obtain ⟨found, here, key⟩ := complete other written earlier
    have different : normal written ≠ normal spelling := by
      intro same
      rw [same, fresh] at here
      cases here
    rw [beq_eq_false_iff_ne.mpr different]
    exact ⟨found, here, key⟩
  · cases List.mem_singleton.mp last
    rw [beq_self_eq_true]
    exact ⟨entry, rfl, rfl⟩

theorem Complete.repeat (complete : Complete normal done table) {found : Entry}
    (here : table.lookup (normal spelling) = some found) (key : found.key = entry.key) :
    Complete normal (done ++ [(entry, spelling)]) table := by
  intro other written member
  rcases List.mem_append.mp member with earlier | last
  · exact complete other written earlier
  · cases List.mem_singleton.mp last
    exact ⟨found, here, key⟩

theorem Faithful.lookup_none_iff (faithful : Faithful normal done table) {form : String} :
    table.lookup form = none ↔ ∀ earlier ∈ done, normal earlier.2 ≠ form := by
  constructor
  · rintro absent ⟨other, written⟩ member rfl
    obtain ⟨found, here, _⟩ := faithful.complete other written member
    rw [absent] at here
    cases here
  · intro apart
    cases here : table.lookup form with
    | none => rfl
    | some found =>
      obtain ⟨written, member, same⟩ := faithful.sound form found here
      exact absurd same (apart (found, written) member)

theorem add_alias_keeps {entries : List Entry} {after : List (String × Entry)} (faithful : Faithful Naming.canonical done table)
    (step : addAlias entries entry table spelling = .ok after) :
    Faithful Naming.canonical (done ++ [(entry, spelling)]) after := by
  unfold addAlias at step
  dsimp only at step
  split at step
  case h_1 => cases step
  case h_2 fresh =>
    cases step
    exact ⟨faithful.sound.enter, faithful.complete.enter (Option.or_eq_none_iff.mp fresh).2⟩

theorem add_folded_keeps {after : List (String × Entry)} (faithful : Faithful Naming.fold done table)
    (step : addFolded entry table spelling = .ok after) : Faithful Naming.fold (done ++ [(entry, spelling)]) after := by
  unfold addFolded at step
  dsimp only at step
  split at step
  case h_1 found here =>
    split at step
    · cases step
      exact ⟨faithful.sound.weaken _, faithful.complete.repeat here (beq_iff_eq.mp ‹_›)⟩
    · cases step
  case h_2 fresh =>
    cases step
    exact ⟨faithful.sound.enter, faithful.complete.enter fresh⟩

end

theorem alias_table_faithful {entries : List Entry} {table : List (String × Entry)}
    (made : aliasTable entries = .ok table) : Faithful Naming.canonical (spelled (·.aliases) entries) table := by
  rw [aliasTable, fill_eq_run (·.aliases)] at made
  exact run_keeps (p := Faithful Naming.canonical) add_alias_keeps [] (Faithful.empty _) made

theorem folded_table_faithful {entries : List Entry} {table : List (String × Entry)}
    (made : foldedTable entries = .ok table) : Faithful Naming.fold (spelled (·.spellings) entries) table := by
  rw [foldedTable, fill_eq_run (·.spellings)] at made
  exact run_keeps (p := Faithful Naming.fold) add_folded_keeps [] (Faithful.empty _) made

theorem repeated_key_none_iff {seen : List String} {entries : List Entry} :
    repeatedKey? seen entries = none ↔ (entries.map (·.key)).Nodup ∧ ∀ entry ∈ entries, entry.key ∉ seen := by
  induction entries generalizing seen with
  | nil => exact ⟨fun _ => ⟨List.nodup_nil, fun _ member => nomatch member⟩, fun _ => rfl⟩
  | cons entry rest ih =>
    rw [repeatedKey?, List.map_cons, List.nodup_cons, List.forall_mem_cons]
    by_cases known : entry.key ∈ seen
    · rw [if_pos (List.contains_iff_mem.mpr known)]
      exact ⟨fun unseen => (nomatch unseen), fun apart => absurd known apart.2.1⟩
    · rw [if_neg fun contained => known (List.contains_iff_mem.mp contained), ih]
      simp only [List.mem_cons, not_or, List.mem_map, not_exists, not_and]
      constructor
      · rintro ⟨nodup, fresh⟩
        exact ⟨⟨fun other member => (fresh other member).1, nodup⟩, known, fun other member => (fresh other member).2⟩
      · rintro ⟨⟨alone, nodup⟩, _, fresh⟩
        exact ⟨nodup, fun other member => ⟨alone other member, fresh other member⟩⟩

theorem keys_unrepeated_iff {entries : List Entry} : repeatedKey? [] entries = none ↔ (entries.map (·.key)).Nodup := by
  rw [repeated_key_none_iff]
  exact and_iff_left fun _ _ => List.not_mem_nil

structure Made (entries : List Entry) (c : Catalog) : Prop where
  entries_eq : c.entries = entries
  keys_nodup : (entries.map (·.key)).Nodup
  aliases_sound : Sound Naming.canonical (spelled (·.aliases) entries) c.aliases
  folded_sound : Sound Naming.fold (spelled (·.spellings) entries) c.folded
  folded_complete : Complete Naming.fold (spelled (·.spellings) entries) c.folded

theorem made_of_entries {entries : List Entry} {c : Catalog} (accepted : ofEntries entries = .ok c) : Made entries c := by
  unfold ofEntries at accepted
  split at accepted
  · cases accepted
  · rename_i unrepeated
    obtain ⟨aliases, aliased, accepted⟩ := bind_ok accepted
    obtain ⟨folded, filled, accepted⟩ := bind_ok accepted
    cases accepted
    obtain ⟨sound, complete⟩ := folded_table_faithful filled
    exact ⟨rfl, keys_unrepeated_iff.mp unrepeated, (alias_table_faithful aliased).sound, sound, complete⟩

end SnippetReview.Catalog
